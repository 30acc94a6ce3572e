import UmnProjects.Foundations.Computation
import Mathlib.Order.Defs.PartialOrder

/-!
Rules for bounded runs whose stores only grow, and for runs that come to an end.

A world describes a store. What is known of a value is known in a world and in all later ones,
so that the operand computed first is still known when the other one has been computed.
-/
namespace UmnProjects.Computation

variable {S X A B W : Type}

/-! ### Runs in growing worlds -/

section Worlds

variable [Preorder W] {I : W → S → Prop} {E : X → Prop} {w w' : W}

/-- A terminating run returns in a world after `w`, in a store of it, or raises in `E`. -/
def Within (I : W → S → Prop) (E : X → Prop) (w : W) (P : W → A → Prop)
    (o : Outcome S X A) : Prop :=
  Ensures o (fun a s => ∃ w', w ≤ w' ∧ I w' s ∧ P w' a) E

theorem Within.returned {P : W → A → Prop} {a : A} {s : S} (hI : I w s) (hP : P w a) :
    Within I E w P (some (.ok (a, s)) : Outcome S X A) :=
  ⟨w, le_refl w, hI, hP⟩

/-- A run may be looked at from an earlier world. -/
theorem Within.earlier {P : W → A → Prop} {o : Outcome S X A} (h : Within I E w' P o)
    (hle : w ≤ w') : Within I E w P o := by
  refine h.mono ?_ fun _ hx => hx
  intro a s hgiven
  obtain ⟨u, hu, hI, hP⟩ := hgiven
  exact ⟨u, le_trans hle hu, hI, hP⟩

theorem Within.bind {P : W → A → Prop} {Q : W → B → Prop} {m : Comp S X A}
    {f : A → Comp S X B} {s : S} (hm : Within I E w P (m s))
    (hf : ∀ u a t, w ≤ u → I u t → P u a → Within I E u Q (f a t)) :
    Within I E w Q ((m >>= f) s) := by
  apply Ensures.bind hm
  intro a t hgiven
  obtain ⟨u, hu, hI, hP⟩ := hgiven
  exact (hf u a t hu hI hP).earlier hu

theorem Within.operands (o : Order) {P Q : W → A → Prop} {m1 m2 : Comp S X A} {s : S}
    (growP : ∀ u u' a, u ≤ u' → P u a → P u' a) (growQ : ∀ u u' a, u ≤ u' → Q u a → Q u' a)
    (h1 : ∀ u t, w ≤ u → I u t → Within I E u P (m1 t))
    (h2 : ∀ u t, w ≤ u → I u t → Within I E u Q (m2 t)) (hs : I w s) :
    Within I E w (fun u p => P u p.1 ∧ Q u p.2) (operands o m1 m2 s) := by
  cases o with
  | leftToRight =>
      apply (h1 w s (le_refl w) hs).bind
      intro u a t hu hI ha
      apply (h2 u t hu hI).bind
      intro u' b t' hu' hI' hb
      exact .returned hI' ⟨growP u u' a hu' ha, hb⟩
  | rightToLeft =>
      apply (h2 w s (le_refl w) hs).bind
      intro u b t hu hI hb
      apply (h1 u t hu hI).bind
      intro u' a t' hu' hI' ha
      exact .returned hI' ⟨ha, growQ u u' b hu' hb⟩

end Worlds

/-! ### Runs that end -/

section Ending

variable {Q : A → S → Prop} {R : B → S → Prop} {E : X → Prop}

/-- A larger bound never changes an outcome. -/
def Growing (run : Nat → Outcome S X A) : Prop := ∀ n, Below (run n) (run (n + 1))

/-- Some bound suffices; the run then returns in `Q` or raises in `E`. -/
def Ends (run : Nat → Outcome S X A) (Q : A → S → Prop) (E : X → Prop) : Prop :=
  ∃ n r, run n = some r ∧ Ensures (run n) Q E

theorem Ends.returned {run : Nat → Outcome S X A} {n : Nat} {a : A} {s : S}
    (h : run n = some (.ok (a, s))) (hQ : Q a s) : Ends run Q E :=
  ⟨n, _, h, by rw [h]; exact hQ⟩

theorem Ends.raised {run : Nat → Outcome S X A} {n : Nat} {x : X}
    (h : run n = some (.error x)) (hE : E x) : Ends run Q E :=
  ⟨n, _, h, by rw [h]; exact hE⟩

/-- A run that ends does so with one of two outcomes. -/
theorem Ends.outcome {run : Nat → Outcome S X A} (h : Ends run Q E) :
    (∃ n a s, run n = some (.ok (a, s)) ∧ Q a s) ∨ ∃ n x, run n = some (.error x) ∧ E x := by
  obtain ⟨n, r, hr, hensures⟩ := h
  cases r with
  | error x => exact .inr ⟨n, x, hr, hensures.of_error hr⟩
  | ok p => exact .inl ⟨n, p.1, p.2, hr, hensures.of_ok hr⟩

theorem Ends.succ {run : Nat → Outcome S X A} (h : Ends (fun n => run (n + 1)) Q E) :
    Ends run Q E := by
  obtain ⟨n, r, hr, hensures⟩ := h
  exact ⟨n + 1, r, hr, hensures⟩

/-- The bound that suffices for both parts of a sequence is the larger of theirs. -/
theorem Ends.bind {m : Nat → Comp S X A} {f : Nat → A → Comp S X B} {s : S}
    (growm : Growing fun n => m n s) (growf : ∀ a t, Growing fun n => f n a t)
    (hm : Ends (fun n => m n s) Q E) (hf : ∀ a t, Q a t → Ends (fun n => f n a t) R E) :
    Ends (fun n => (m n >>= f n) s) R E := by
  obtain ⟨n, a, t, hn, hQ⟩ | ⟨n, x, hn, hE⟩ := hm.outcome
  · have later {k r} (hk : f k a t = some r) :
        (m (n + k) >>= f (n + k)) s = some r := by
      rw [Comp.bind_ok (outcome_of_le _ growm hn (Nat.le_add_right n k))]
      exact outcome_of_le _ (growf a t) hk (Nat.le_add_left k n)
    obtain ⟨k, b, u, hk, hR⟩ | ⟨k, x, hk, hE⟩ := (hf a t hQ).outcome
    · exact .returned (later hk) hR
    · exact .raised (later hk) hE
  · refine .raised (n := n) ?_ hE
    rw [Comp.bind_apply, hn]

theorem Growing.operands (o : Order) {m1 m2 : Nat → Comp S X A} {s : S}
    (grow1 : ∀ t, Growing fun n => m1 n t) (grow2 : ∀ t, Growing fun n => m2 n t) :
    Growing fun n => operands o (m1 n) (m2 n) s :=
  fun n => Below.operands o (fun t => grow1 t n) (fun t => grow2 t n)

/-- Operands that leave the store as it is may be computed in either order. -/
theorem Ends.operands (o : Order) {m1 m2 : Nat → Comp S X A} {P1 P2 : A → Prop} {s : S}
    (grow1 : ∀ t, Growing fun n => m1 n t) (grow2 : ∀ t, Growing fun n => m2 n t)
    (h1 : Ends (fun n => m1 n s) (fun a t => P1 a ∧ t = s) E)
    (h2 : Ends (fun n => m2 n s) (fun a t => P2 a ∧ t = s) E) :
    Ends (fun n => operands o (m1 n) (m2 n) s) (fun p t => (P1 p.1 ∧ P2 p.2) ∧ t = s) E := by
  have pair (a b : A) (t : S) : Growing fun _ => (Comp.pure (a, b) : Comp S X (A × A)) t :=
    fun n => .refl _
  cases o with
  | leftToRight =>
      apply Ends.bind (grow1 s) (fun a t n => (grow2 t n).bind fun b u => .refl _) h1
      intro a t hgiven
      obtain ⟨ha, rfl⟩ := hgiven
      apply Ends.bind (grow2 t) (fun b u => pair a b u) h2
      intro b u hgiven
      obtain ⟨hb, rfl⟩ := hgiven
      exact .returned (n := 0) rfl ⟨⟨ha, hb⟩, rfl⟩
  | rightToLeft =>
      apply Ends.bind (grow2 s) (fun b t n => (grow1 t n).bind fun a u => .refl _) h2
      intro b t hgiven
      obtain ⟨hb, rfl⟩ := hgiven
      apply Ends.bind (grow1 t) (fun a u => pair a b u) h1
      intro a u hgiven
      obtain ⟨ha, rfl⟩ := hgiven
      exact .returned (n := 0) rfl ⟨⟨ha, hb⟩, rfl⟩

end Ending

end UmnProjects.Computation
