import Mathlib.Data.List.Nodup

/-!
Tables of a database with an automatically incremented primary key: no two rows share a
key, and the next key is above all keys in use.
-/
namespace UmnProjects.Rows

variable {R : Type}

structure Table (R : Type) (key : R → Nat) where
  rows : List R
  next : Nat
  unique : (rows.map key).Nodup
  fresh : ∀ r ∈ rows, key r < next

namespace Table

variable {key : R → Nat} {r : R}

def empty : Table R key := ⟨[], 1, List.nodup_nil, by simp⟩

/-- Insert the row made of the next key. -/
def insert (t : Table R key) (make : Nat → R) (h : ∀ n, key (make n) = n) : Table R key where
  rows := t.rows ++ [make t.next]
  next := t.next + 1
  unique := by
    rw [List.map_append, List.map_singleton, h]
    refine List.nodup_append.mpr ⟨t.unique, List.nodup_singleton _, ?_⟩
    intro n hn m hm
    obtain ⟨r, hr, hkey⟩ := List.mem_map.mp hn
    have hless := t.fresh r hr
    rw [List.mem_singleton] at hm
    omega
  fresh := by
    intro r hr
    obtain hr | hr := List.mem_append.mp hr
    · exact Nat.lt_succ_of_lt (t.fresh r hr)
    · rw [List.mem_singleton.mp hr, h]
      exact Nat.lt_succ_self _

/-- Replace every row; the keys stay. -/
def update (t : Table R key) (f : R → R) (h : ∀ r, key (f r) = key r) : Table R key where
  rows := t.rows.map f
  next := t.next
  unique := by
    have hkeys : (t.rows.map f).map key = t.rows.map key := by
      simp [h]
    rw [hkeys]
    exact t.unique
  fresh := by
    intro r hr
    obtain ⟨q, hq, rfl⟩ := List.mem_map.mp hr
    rw [h]
    exact t.fresh q hq

/-- Delete the rows that meet the condition. -/
def delete (t : Table R key) (cond : R → Bool) : Table R key where
  rows := t.rows.filter fun r => !cond r
  next := t.next
  unique := t.unique.sublist (List.filter_sublist.map key)
  fresh := by
    intro r hr
    exact t.fresh r (List.mem_of_mem_filter hr)

theorem eq_of_key {t : Table R key} {q : R} (hr : r ∈ t.rows) (hq : q ∈ t.rows)
    (h : key r = key q) : r = q :=
  List.inj_on_of_nodup_map t.unique hr hq h

@[simp]
theorem mem_insert {t : Table R key} {make : Nat → R} {h : ∀ n, key (make n) = n} :
    r ∈ (t.insert make h).rows ↔ r ∈ t.rows ∨ r = make t.next := by
  simp [insert]

@[simp]
theorem mem_update {t : Table R key} {f : R → R} {h : ∀ r, key (f r) = key r} :
    r ∈ (t.update f h).rows ↔ ∃ q ∈ t.rows, f q = r := by
  simp [update]

@[simp]
theorem mem_delete {t : Table R key} {cond : R → Bool} :
    r ∈ (t.delete cond).rows ↔ r ∈ t.rows ∧ cond r = false := by
  simp [delete]

@[simp]
theorem length_insert (t : Table R key) (make : Nat → R) (h : ∀ n, key (make n) = n) :
    (t.insert make h).rows.length = t.rows.length + 1 := by
  simp [insert]

theorem length_delete (t : Table R key) (cond : R → Bool) :
    (t.delete cond).rows.length + t.rows.countP cond = t.rows.length := by
  have hnot : (fun r => decide (¬ cond r = true)) = fun r => !cond r := by
    funext r
    simp
  have hsplit : t.rows.length = _ := List.length_eq_countP_add_countP cond
  rw [hnot] at hsplit
  simp only [delete, ← List.countP_eq_length_filter]
  omega

end Table

end UmnProjects.Rows
