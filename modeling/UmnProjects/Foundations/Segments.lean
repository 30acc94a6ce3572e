import Mathlib.Data.List.Basic

/-!
The segments of a list between the occurrences of a separator.
-/
namespace UmnProjects.Segments

variable {A : Type} [BEq A] {a : A}

theorem length_splitOn (xs : List A) : (xs.splitOn a).length = xs.count a + 1 := by
  induction xs with
  | nil => rfl
  | cons x xs ih =>
      rw [List.splitOn_cons_eq_if_modifyHead, List.count_cons]
      cases hx : x == a with
      | true => simp [ih]
      | false => simp [ih]

/-- A segment is part of the list. -/
theorem sublist_of_mem_splitOn {xs segment : List A} (h : segment ∈ xs.splitOn a) :
    segment.Sublist xs := by
  induction xs generalizing segment with
  | nil =>
      rw [List.splitOn_nil, List.mem_singleton] at h
      rw [h]
  | cons x xs ih =>
      rw [List.splitOn_cons_eq_if_modifyHead] at h
      cases hx : x == a with
      | true =>
          simp only [hx, if_true] at h
          obtain rfl | h := List.mem_cons.mp h
          · exact List.nil_sublist _
          · exact (ih h).cons x
      | false =>
          simp only [hx, Bool.false_eq_true, if_false] at h
          cases hsplit : xs.splitOn a with
          | nil => exact absurd hsplit (List.splitOn_ne_nil a xs)
          | cons first rest =>
              rw [hsplit, List.modifyHead_cons] at h
              rw [hsplit] at ih
              obtain rfl | h := List.mem_cons.mp h
              · exact (ih List.mem_cons_self).cons_cons x
              · exact (ih (List.mem_cons_of_mem _ h)).cons x

/-- No segment contains the separator. -/
theorem not_mem_of_mem_splitOn {A : Type} [BEq A] [LawfulBEq A] {a : A} {xs segment : List A}
    (h : segment ∈ xs.splitOn a) : a ∉ segment := by
  induction xs generalizing segment with
  | nil =>
      rw [List.splitOn_nil, List.mem_singleton] at h
      simp [h]
  | cons x xs ih =>
      rw [List.splitOn_cons_eq_if_modifyHead] at h
      cases hx : x == a with
      | true =>
          simp only [hx, if_true] at h
          obtain rfl | h := List.mem_cons.mp h
          · exact List.not_mem_nil
          · exact ih h
      | false =>
          simp only [hx, Bool.false_eq_true, if_false] at h
          have hne : a ≠ x := fun heq => by simp [heq] at hx
          cases hsplit : xs.splitOn a with
          | nil => exact absurd hsplit (List.splitOn_ne_nil a xs)
          | cons first rest =>
              rw [hsplit, List.modifyHead_cons] at h
              rw [hsplit] at ih
              obtain rfl | h := List.mem_cons.mp h
              · exact List.not_mem_cons_of_ne_of_not_mem hne (ih List.mem_cons_self)
              · exact ih (List.mem_cons_of_mem _ h)

/-- Splitting undoes joining. -/
theorem splitOn_joined {A : Type} [BEq A] [LawfulBEq A] {a : A} {first : List A}
    {rest : List (List A)} (hfirst : a ∉ first) (hrest : ∀ segment ∈ rest, a ∉ segment) :
    (first ++ rest.flatMap fun segment => a :: segment).splitOn a = first :: rest := by
  induction rest generalizing first with
  | nil => rw [List.flatMap_nil, List.append_nil, List.splitOn_eq_singleton hfirst]
  | cons next rest ih =>
      obtain ⟨hnext, hrest⟩ := List.forall_mem_cons.mp hrest
      rw [List.flatMap_cons, List.cons_append, List.splitOn_append_cons_self, ih hnext hrest,
        List.splitOn_eq_singleton hfirst]
      rfl

/-- The last occurrence. -/
theorem eq_append_cons_last_of_mem {A : Type} {a : A} {xs : List A} (h : a ∈ xs) :
    ∃ before after, xs = before ++ a :: after ∧ a ∉ after := by
  induction xs with
  | nil => cases h
  | cons x xs ih =>
      by_cases hlater : a ∈ xs
      · obtain ⟨before, after, hxs, hafter⟩ := ih hlater
        exact ⟨x :: before, after, by rw [hxs, List.cons_append], hafter⟩
      · obtain rfl | hmem := List.mem_cons.mp h
        · exact ⟨[], xs, rfl, hlater⟩
        · exact absurd hmem hlater

/-- What stands behind the last occurrence is the last segment. -/
theorem splitOn_append_cons_last {A : Type} [BEq A] [LawfulBEq A] {a : A} (before : List A)
    {after : List A} (h : a ∉ after) :
    (before ++ a :: after).splitOn a = before.splitOn a ++ [after] := by
  rw [List.splitOn_append_cons_self, List.splitOn_eq_singleton h]

/-! ### Stretches of a list -/

section Stretches

variable {A : Type} {p q : A → Bool} {xs : List A}

/-- What is dropped does not end the list, so that the two cuts can be made in either order. -/
theorem dropWhile_takeWhile_of_forall (h : ∀ x ∈ xs.takeWhile p, q x = true) :
    (xs.takeWhile q).dropWhile p = (xs.dropWhile p).takeWhile q := by
  induction xs with
  | nil => rfl
  | cons x xs ih =>
      cases hp : p x with
      | false =>
          have hdrop : (x :: xs).dropWhile p = x :: xs := by simp [hp]
          rw [hdrop]
          cases hq : q x with
          | false => simp [hq]
          | true => simp [hp, hq]
      | true =>
          rw [List.takeWhile_cons_of_pos hp] at h
          obtain ⟨hq, hrest⟩ := List.forall_mem_cons.mp h
          rw [List.takeWhile_cons_of_pos hq, List.dropWhile_cons_of_pos hp,
            List.dropWhile_cons_of_pos hp, ih hrest]

/-- The list ends inside of what is dropped. -/
theorem dropWhile_takeWhile_of_exists (h : ∃ x ∈ xs.takeWhile p, q x = false) :
    (xs.takeWhile q).dropWhile p = [] := by
  induction xs with
  | nil => rfl
  | cons x xs ih =>
      obtain ⟨y, hy, hqy⟩ := h
      cases hp : p x with
      | false => simp [hp] at hy
      | true =>
          rw [List.takeWhile_cons_of_pos hp] at hy
          cases hq : q x with
          | false => simp [hq]
          | true =>
              have hrest : ∃ z ∈ xs.takeWhile p, q z = false := by
                obtain rfl | hy := List.mem_cons.mp hy
                · exact absurd (hq.symm.trans hqy) (by simp)
                · exact ⟨y, hy, hqy⟩
              rw [List.takeWhile_cons_of_pos hq, List.dropWhile_cons_of_pos hp, ih hrest]

end Stretches

end UmnProjects.Segments
