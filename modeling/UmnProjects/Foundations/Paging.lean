import Mathlib.Data.List.Nodup
import Mathlib.Data.List.Perm.Basic
import Mathlib.Order.Lattice

/-!
Pages of rows ordered by a key, from the highest on. Rows of equal key may stand in any
order, and in another one for each page.
-/
namespace UmnProjects.Paging

variable {R K : Type} [LinearOrder K] {key : R → K} {rows l l' : List R} {m : Nat}

abbrev Descending (key : R → K) (l : List R) : Prop := l.Pairwise fun a b => key b ≤ key a

/-- An order of the rows by descending key. -/
structure Sorting (key : R → K) (rows : List R) where
  list : List R
  perm : list.Perm rows
  descending : Descending key list

def Sorting.merge (key : R → K) (rows : List R) : Sorting key rows where
  list := rows.mergeSort fun a b => decide (key b ≤ key a)
  perm := List.mergeSort_perm _ _
  descending := by
    have hsorted : (rows.mergeSort fun a b => decide (key b ≤ key a)).Pairwise
        fun a b => decide (key b ≤ key a) = true := by
      refine List.pairwise_mergeSort (fun a b c hab hbc => ?_) (fun a b => ?_) rows
      · simp only [decide_eq_true_eq] at hab hbc ⊢
        exact le_trans hbc hab
      · simpa using le_total (key b) (key a)
    exact hsorted.imp fun h => of_decide_eq_true h

/-- Rows of one key stand on both sides of position `m` in every order. -/
def Straddles (key : R → K) (rows : List R) (m : Nat) : Prop :=
  ∃ r ∈ rows, rows.countP (fun q => key r < key q) < m ∧ m < rows.countP fun q => key r ≤ key q

instance : Decidable (Straddles key rows m) :=
  inferInstanceAs (Decidable (∃ r ∈ rows,
    rows.countP (fun q => key r < key q) < m ∧ m < rows.countP fun q => key r ≤ key q))

theorem Straddles.perm (h : Straddles key l m) (hperm : l.Perm l') : Straddles key l' m := by
  obtain ⟨r, hr, habove, hwith⟩ := h
  rw [hperm.countP_eq] at habove hwith
  exact ⟨r, hperm.mem_iff.mp hr, habove, hwith⟩

/-! ### Without straddling -/

/-- Where no rows of one key are separated, the rows before the position are known. -/
theorem take_eq_filter (hl : Descending key l) (h : ¬ Straddles key l m) :
    l.take m = l.filter fun r => decide (l.countP (fun q => key r ≤ key q) ≤ m) := by
  have hsplit := hl
  rw [← List.take_append_drop m l, Descending, List.pairwise_append] at hsplit
  obtain ⟨_, _, hacross⟩ := hsplit
  have hcount (p : R → Bool) : l.countP p = (l.take m).countP p + (l.drop m).countP p := by
    rw [← List.countP_append, List.take_append_drop]
  have hbefore : ∀ r ∈ l.take m, decide (l.countP (fun q => key r ≤ key q) ≤ m) = true := by
    intro r hr
    have hdrop : (l.drop m).countP (fun q => decide (key r < key q)) = 0 :=
      List.countP_eq_zero.mpr fun q hq => by simpa using hacross r hr q hq
    have htake : (l.take m).countP (fun q => decide (key r < key q)) < (l.take m).length := by
      refine Nat.lt_of_le_of_ne List.countP_le_length fun heq => ?_
      exact lt_irrefl _ (of_decide_eq_true (List.countP_eq_length.mp heq r hr))
    have hlength := List.length_take_le m l
    have habove := hcount fun q => decide (key r < key q)
    refine decide_eq_true (Nat.not_lt.mp fun hwith => h ⟨r, List.mem_of_mem_take hr, ?_, hwith⟩)
    omega
  have hafter : ∀ r ∈ l.drop m, ¬ decide (l.countP (fun q => key r ≤ key q) ≤ m) = true := by
    intro r hr
    have htake : (l.take m).countP (fun q => decide (key r ≤ key q)) = (l.take m).length :=
      List.countP_eq_length.mpr fun q hq => by simpa using hacross q hq r hr
    have hdrop : 0 < (l.drop m).countP (fun q => decide (key r ≤ key q)) :=
      List.countP_pos_iff.mpr ⟨r, hr, by simp⟩
    have hlength : m < l.length := by
      have hpos := List.length_pos_of_mem hr
      rw [List.length_drop] at hpos
      omega
    have hwith := hcount fun q => decide (key r ≤ key q)
    rw [htake, List.length_take] at hwith
    simp only [decide_eq_true_eq]
    omega
  have hall := List.filter_append (p := fun r => decide (l.countP (fun q => key r ≤ key q) ≤ m))
    (l.take m) (l.drop m)
  rw [List.take_append_drop, List.filter_eq_self.mpr hbefore, List.filter_eq_nil_iff.mpr hafter,
    List.append_nil] at hall
  exact hall.symm

theorem take_perm_take (o o' : Sorting key rows) (h : ¬ Straddles key rows m) :
    (o.list.take m).Perm (o'.list.take m) := by
  have hnot (o : Sorting key rows) : ¬ Straddles key o.list m := fun hs => h (hs.perm o.perm)
  rw [take_eq_filter o.descending (hnot o), take_eq_filter o'.descending (hnot o')]
  have hperm := o.perm.trans o'.perm.symm
  simp only [hperm.countP_eq]
  exact hperm.filter _

/-- The rows from `offset` on, `width` of them at most. -/
def limit (l : List R) (offset width : Nat) : List R := (l.drop offset).take width

theorem take_append_limit (l : List R) (offset width : Nat) :
    l.take offset ++ limit l offset width = l.take (offset + width) :=
  List.take_add.symm

/-- Each page in an order of its own. -/
theorem flatMap_limit_perm {width : Nat} (orders : Nat → Sorting key rows)
    (h : ∀ p, ¬ Straddles key rows (p * width)) (count : Nat) :
    ((List.range count).flatMap fun p => limit (orders p).list (p * width) width).Perm
      ((orders 0).list.take (count * width)) := by
  induction count with
  | zero => simp
  | succ count ih =>
      rw [List.range_succ, List.flatMap_append, List.flatMap_singleton, Nat.add_mul, Nat.one_mul]
      have hcommon := take_perm_take (orders 0) (orders count) (h count)
      have hnext := take_perm_take (orders count) (orders 0) (h (count + 1))
      rw [Nat.add_mul, Nat.one_mul, ← take_append_limit] at hnext
      exact ((ih.trans hcommon).append_right _).trans hnext

/-! ### With straddling -/

/-- Two neighbours of one key around the position. -/
theorem exists_neighbours (hl : Descending key l) (h : Straddles key l m) :
    ∃ before a b after, l = before ++ a :: b :: after ∧ before.length + 1 = m ∧
      key a = key b := by
  obtain ⟨r, _, habove, hwith⟩ := h
  have hlength := Nat.lt_of_lt_of_le hwith List.countP_le_length
  obtain ⟨i, rfl⟩ : ∃ i, m = i + 1 := ⟨m - 1, by omega⟩
  obtain ⟨before, a, b, after, hsplit, hbefore⟩ :
      ∃ before a b after, l = before ++ a :: b :: after ∧ before.length = i := by
    refine ⟨l.take i, l[i], l[i + 1], l.drop (i + 2), ?_, List.length_take_of_le (by omega)⟩
    rw [← List.drop_eq_getElem_cons, ← List.drop_eq_getElem_cons, List.take_append_drop]
  refine ⟨before, a, b, after, hsplit, by omega, ?_⟩
  rw [hsplit, Descending, List.pairwise_append, List.pairwise_cons, List.pairwise_cons] at hl
  obtain ⟨_, ⟨hab, hb, _⟩, hacross⟩ := hl
  rw [hsplit, List.countP_append, List.countP_cons, List.countP_cons] at habove hwith
  have hlow : ¬ key r < key a := by
    intro hra
    have hall : before.countP (fun q => decide (key r < key q)) = before.length :=
      List.countP_eq_length.mpr fun q hq => by
        simpa using lt_of_lt_of_le hra (hacross q hq a List.mem_cons_self)
    simp only [hall, hra, decide_true, if_true] at habove
    omega
  have hhigh : key r ≤ key b := by
    by_contra hrb
    have hnone : after.countP (fun q => decide (key r ≤ key q)) = 0 :=
      List.countP_eq_zero.mpr fun q hq => by
        simpa using lt_of_le_of_lt (hb q hq) (not_le.mp hrb)
    have hle : before.countP (fun q => decide (key r ≤ key q)) ≤ before.length :=
      List.countP_le_length
    simp only [hnone, hrb, decide_false, Bool.false_eq_true, if_false] at hwith
    split at hwith <;> omega
  exact le_antisymm (le_trans (not_lt.mp hlow) hhigh) (hab b List.mem_cons_self)

/-- The same order but for the two rows around the position, which are swapped. -/
theorem exists_swapped (o : Sorting key rows) (h : Straddles key rows m) :
    ∃ o' : Sorting key rows, ∃ r, o.list[m - 1]? = some r ∧ o'.list[m]? = some r := by
  obtain ⟨before, a, b, after, hlist, hlength, hkey⟩ :=
    exists_neighbours o.descending (h.perm o.perm.symm)
  have hperm : (before ++ b :: a :: after).Perm o.list := by
    rw [hlist]
    exact (List.Perm.swap a b after).append_left before
  have hdescending : Descending key (before ++ b :: a :: after) := by
    have hl := o.descending
    rw [hlist] at hl
    simp only [Descending, List.pairwise_append, List.pairwise_cons, List.forall_mem_cons] at hl ⊢
    obtain ⟨hbefore, ⟨⟨_, ha⟩, hb, hafter⟩, hacross⟩ := hl
    refine ⟨hbefore, ⟨⟨le_of_eq hkey, hb⟩, ha, hafter⟩, fun q hq => ?_⟩
    obtain ⟨hqa, hqb, hqafter⟩ := hacross q hq
    exact ⟨hqb, hqa, hqafter⟩
  refine ⟨⟨_, hperm.trans o.perm, hdescending⟩, a, ?_, ?_⟩
  · simp [hlist, ← hlength]
  · simp [← hlength]

/-- Two pages that meet at the position can share a row. -/
theorem exists_shared {width p : Nat} (o : Sorting key rows)
    (h : Straddles key rows ((p + 1) * width)) :
    ∃ o' : Sorting key rows, ∃ r, r ∈ limit o.list (p * width) width ∧
      r ∈ limit o'.list ((p + 1) * width) width := by
  obtain ⟨o', r, hr, hr'⟩ := exists_swapped o h
  have hpos : 0 < width := by
    refine Nat.pos_of_ne_zero fun hzero => ?_
    obtain ⟨_, _, habove, _⟩ := h
    rw [hzero, Nat.mul_zero] at habove
    exact Nat.not_lt_zero _ habove
  refine ⟨o', r, List.mem_of_getElem? (i := width - 1) ?_, List.mem_of_getElem? (i := 0) ?_⟩
  · have hindex : p * width + (width - 1) = (p + 1) * width - 1 := by
      rw [Nat.add_mul]
      omega
    rw [limit, List.getElem?_take_of_lt (by omega), List.getElem?_drop, hindex, hr]
  · rw [limit, List.getElem?_take_of_lt hpos, List.getElem?_drop, Nat.add_zero, hr']

end UmnProjects.Paging
