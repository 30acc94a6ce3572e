import Mathlib.Data.List.Basic
import Mathlib.Data.List.Perm.Basic

/-!
Splitting what is in a list into parts that keep its order, by tests of which at most one
holds.
-/
namespace UmnProjects.Splits

variable {A : Type} {xs : List A} {whole : A → Bool} {tests : List (A → Bool)}

/-- The parts are made of elements in the order of the list, nothing is in two of them, and
together they are all that belongs to the whole. -/
structure IsSplit (xs : List A) (whole : A → Bool) (parts : List (List A)) : Prop where
  sublist : ∀ part ∈ parts, part.Sublist xs
  disjoint : parts.Pairwise List.Disjoint
  together : parts.flatten.Perm (xs.filter whole)

theorem pairwise_disjoint_filter (h : ∀ x ∈ xs, (tests.countP fun test => test x) ≤ 1) :
    (tests.map fun test => xs.filter test).Pairwise List.Disjoint := by
  induction tests with
  | nil => exact .nil
  | cons test tests ih =>
      have hrest : ∀ x ∈ xs, (tests.countP fun test => test x) ≤ 1 := by
        intro x hx
        have hcount := h x hx
        rw [List.countP_cons] at hcount
        omega
      refine List.pairwise_cons.mpr ⟨?_, ih hrest⟩
      intro part hpart x hfirst hsecond
      obtain ⟨other, hother, rfl⟩ := List.mem_map.mp hpart
      obtain ⟨hx, htest⟩ := List.mem_filter.mp hfirst
      have hpos : 0 < tests.countP fun test => test x :=
        List.countP_pos_iff.mpr ⟨other, hother, (List.mem_filter.mp hsecond).2⟩
      have hcount := h x hx
      rw [List.countP_cons, if_pos htest] at hcount
      omega

variable [DecidableEq A]

theorem count_filter_eq (test : A → Bool) (xs : List A) (x : A) :
    (xs.filter test).count x = if test x then xs.count x else 0 := by
  cases htest : test x with
  | true => exact List.count_filter htest
  | false =>
      rw [if_neg Bool.false_ne_true, List.count_eq_zero]
      intro hmem
      exact absurd (htest.symm.trans (List.mem_filter.mp hmem).2) Bool.false_ne_true

theorem count_flatten_filter (tests : List (A → Bool)) (xs : List A) (x : A) :
    (tests.map fun test => xs.filter test).flatten.count x =
      (tests.countP fun test => test x) * xs.count x := by
  induction tests with
  | nil => simp
  | cons test tests ih =>
      rw [List.map_cons, List.flatten_cons, List.count_append, ih, count_filter_eq,
        List.countP_cons]
      split
      · rw [Nat.add_mul, Nat.one_mul, Nat.add_comm]
      · rw [Nat.zero_add, Nat.add_zero]

/-- Tests of which exactly one holds in the whole and none outside of it split a list. -/
theorem isSplit_filter (xs : List A) (whole : A → Bool) (tests : List (A → Bool))
    (h : ∀ x ∈ xs, (tests.countP fun test => test x) = if whole x then 1 else 0) :
    IsSplit xs whole (tests.map fun test => xs.filter test) where
  sublist := by
    intro part hpart
    obtain ⟨test, _, rfl⟩ := List.mem_map.mp hpart
    exact List.filter_sublist
  disjoint := by
    apply pairwise_disjoint_filter
    intro x hx
    rw [h x hx]
    split <;> omega
  together := by
    apply List.perm_iff_count.mpr
    intro x
    rw [count_flatten_filter, count_filter_eq]
    by_cases hx : x ∈ xs
    · rw [h x hx]
      split
      · rw [Nat.one_mul]
      · rw [Nat.zero_mul]
    · rw [List.count_eq_zero.mpr hx, Nat.mul_zero, ite_self]

end UmnProjects.Splits
