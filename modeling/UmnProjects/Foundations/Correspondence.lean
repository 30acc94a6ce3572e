import Mathlib.Order.CompletePartialOrder
import Mathlib.Order.ConditionallyCompleteLattice.Basic
import Mathlib.Order.Interval.Set.Disjoint
import Mathlib.Order.Interval.Set.LinearOrder

/-!
One-to-one correspondences between two sets, as relations. They match up what two runs have
allocated, however the runs number it.
-/
namespace UmnProjects.Correspondences

variable {A B : Type} {ν μ : A → B → Prop} {P P' : Set A} {Q Q' : Set B}

/-- `ν` relates each element of `P` to one of `Q` and each of `Q` to one of `P`, and nothing
else. -/
structure Correspondence (ν : A → B → Prop) (P : Set A) (Q : Set B) : Prop where
  mem : ∀ a b, ν a b → a ∈ P ∧ b ∈ Q
  left : ∀ a ∈ P, ∃! b, ν a b
  right : ∀ b ∈ Q, ∃! a, ν a b

namespace Correspondence

theorem empty : Correspondence (fun (_ : A) (_ : B) => False) ∅ ∅ :=
  ⟨fun _ _ h => h.elim, fun _ h => h.elim, fun _ h => h.elim⟩

theorem single (a : A) (b : B) : Correspondence (fun x y => x = a ∧ y = b) {a} {b} := by
  refine ⟨fun x y h => h, ?_, ?_⟩
  · intro x hx
    exact ⟨b, ⟨hx, rfl⟩, fun y hy => hy.2⟩
  · intro y hy
    exact ⟨a, ⟨rfl, hy⟩, fun x hx => hx.1⟩

theorem union (h : Correspondence ν P Q) (h' : Correspondence μ P' Q') (hP : Disjoint P P')
    (hQ : Disjoint Q Q') : Correspondence (ν ⊔ μ) (P ∪ P') (Q ∪ Q') := by
  refine ⟨?_, ?_, ?_⟩
  · rintro a b (hab | hab)
    · exact ⟨.inl (h.mem a b hab).1, .inl (h.mem a b hab).2⟩
    · exact ⟨.inr (h'.mem a b hab).1, .inr (h'.mem a b hab).2⟩
  · rintro a (ha | ha)
    · have hne : ∀ b, ¬ μ a b := fun b hb => Set.disjoint_left.mp hP ha (h'.mem a b hb).1
      exact (existsUnique_congr fun b => or_iff_left (hne b)).mpr (h.left a ha)
    · have hne : ∀ b, ¬ ν a b := fun b hb => Set.disjoint_left.mp hP (h.mem a b hb).1 ha
      exact (existsUnique_congr fun b => or_iff_right (hne b)).mpr (h'.left a ha)
  · rintro b (hb | hb)
    · have hne : ∀ a, ¬ μ a b := fun a ha => Set.disjoint_left.mp hQ hb (h'.mem a b ha).2
      exact (existsUnique_congr fun a => or_iff_left (hne a)).mpr (h.right b hb)
    · have hne : ∀ a, ¬ ν a b := fun a ha => Set.disjoint_left.mp hQ (h.mem a b ha).2 hb
      exact (existsUnique_congr fun a => or_iff_right (hne a)).mpr (h'.right b hb)

variable {ν μ : Nat → Nat → Prop} {i j k l m n : Nat}

theorem next (m n : Nat) :
    Correspondence (fun x y => x = m ∧ y = n) (Set.Ico m (m + 1)) (Set.Ico n (n + 1)) := by
  have hIco : ∀ k : Nat, Set.Ico k (k + 1) = {k} := by
    intro k
    ext i
    simp only [Set.mem_Ico, Set.mem_singleton_iff]
    omega
  rw [hIco m, hIco n]
  exact single m n

/-- Two stretches that follow one another on the left and on the right. -/
theorem append (h : Correspondence ν (Set.Ico i j) (Set.Ico l m))
    (h' : Correspondence μ (Set.Ico j k) (Set.Ico m n)) (hij : i ≤ j) (hjk : j ≤ k) (hlm : l ≤ m)
    (hmn : m ≤ n) : Correspondence (ν ⊔ μ) (Set.Ico i k) (Set.Ico l n) := by
  have hunion := h.union h' Set.Ico_disjoint_Ico_same Set.Ico_disjoint_Ico_same
  rwa [Set.Ico_union_Ico_eq_Ico hij hjk, Set.Ico_union_Ico_eq_Ico hlm hmn] at hunion

/-- Two stretches that stand in the other order on the right. -/
theorem cross (h : Correspondence ν (Set.Ico i j) (Set.Ico m n))
    (h' : Correspondence μ (Set.Ico j k) (Set.Ico l m)) (hij : i ≤ j) (hjk : j ≤ k) (hlm : l ≤ m)
    (hmn : m ≤ n) : Correspondence (ν ⊔ μ) (Set.Ico i k) (Set.Ico l n) := by
  have hunion := h.union h' Set.Ico_disjoint_Ico_same Set.Ico_disjoint_Ico_same.symm
  rwa [Set.Ico_union_Ico_eq_Ico hij hjk, Set.union_comm (Set.Ico m n),
    Set.Ico_union_Ico_eq_Ico hlm hmn] at hunion

end Correspondence

end UmnProjects.Correspondences
