import Mathlib.Logic.Function.Iterate
import Mathlib.Order.Basic

/-!
What a system comes to that takes the same step again and again: conditions that hold after some
number of steps, and conditions that are never lost.
-/
namespace UmnProjects.Progress

variable {S : Type} {f : S → S} {P Q I : S → Prop} {s : S}

/-- The condition holds now or after some steps. -/
def Eventually (f : S → S) (P : S → Prop) (s : S) : Prop := ∃ n, P (f^[n] s)

/-- No step loses the condition. -/
def Kept (f : S → S) (P : S → Prop) : Prop := ∀ s, P s → P (f s)

theorem Kept.iterate (h : Kept f P) (hs : P s) (n : ℕ) : P (f^[n] s) := by
  induction n with
  | zero => exact hs
  | succ n ih =>
      rw [Function.iterate_succ_apply']
      exact h _ ih

namespace Eventually

theorem now (h : P s) : Eventually f P s := ⟨0, h⟩

theorem later (h : Eventually f P (f s)) : Eventually f P s := by
  obtain ⟨n, hn⟩ := h
  exact ⟨n + 1, by rwa [Function.iterate_succ_apply]⟩

theorem trans (h : Eventually f P s) (hnext : ∀ t, P t → Eventually f Q t) :
    Eventually f Q s := by
  obtain ⟨n, hn⟩ := h
  obtain ⟨m, hm⟩ := hnext _ hn
  exact ⟨m + n, by rwa [Function.iterate_add_apply]⟩

theorem mono (h : Eventually f P s) (himp : ∀ t, P t → Q t) : Eventually f Q s :=
  h.trans fun t ht => .now (himp t ht)

theorem keep (h : Eventually f P s) (hI : Kept f I) (hs : I s) :
    Eventually f (fun t => I t ∧ P t) s := by
  obtain ⟨n, hn⟩ := h
  exact ⟨n, hI.iterate hs n, hn⟩

theorem forever (h : Eventually f P s) (hP : Kept f P) : ∃ n, ∀ m, n ≤ m → P (f^[m] s) := by
  obtain ⟨n, hn⟩ := h
  refine ⟨n, ?_⟩
  intro m hm
  obtain ⟨k, rfl⟩ := Nat.exists_eq_add_of_le' hm
  rw [Function.iterate_add_apply]
  exact hP.iterate hn k

end Eventually

/-- A measure that always becomes less, until the condition holds. -/
theorem eventually_of_measure (measure : S → ℕ) (hI : Kept f I) (hs : I s)
    (progress : ∀ t, I t → Eventually f (fun u => P u ∨ measure u < measure t) t) :
    Eventually f P s := by
  generalize hm : measure s = m
  induction m using Nat.strongRecOn generalizing s with
  | ind m ih =>
      subst hm
      refine ((progress s hs).keep hI hs).trans ?_
      intro t ht
      obtain ⟨hI', hP | hless⟩ := ht
      · exact .now hP
      · exact ih _ hless hI' rfl

/-- Finitely many conditions, none of which is lost again. -/
theorem eventually_all {A : Type} {R : A → S → Prop} (l : List A) (hI : Kept f I) (hs : I s)
    (kept : ∀ a ∈ l, Kept f fun t => I t ∧ R a t)
    (each : ∀ a ∈ l, ∀ t, I t → Eventually f (R a) t) :
    Eventually f (fun t => ∀ a ∈ l, R a t) s := by
  induction l generalizing s with
  | nil => exact .now fun _ h => absurd h List.not_mem_nil
  | cons a l ih =>
      refine ((each a List.mem_cons_self s hs).keep hI hs).trans ?_
      intro t ht
      have hrest := ih ht.1 (fun b hb => kept b (List.mem_cons_of_mem a hb))
        (fun b hb => each b (List.mem_cons_of_mem a hb))
      refine (hrest.keep (kept a List.mem_cons_self) ht).mono ?_
      intro u hu b hb
      obtain rfl | hb := List.mem_cons.mp hb
      · exact hu.1.2
      · exact hu.2 b hb

end UmnProjects.Progress
