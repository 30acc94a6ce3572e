import Mathlib.Logic.Relation

/-!
Bounded runs of a stateful language with exceptions, and the rules to reason
about one run or about two runs side by side.

A computation started in a store either exhausts its bound, raises, or returns a
value and a store. The bound itself is a parameter of the interpreter that builds
the computation; a program is the family of its bounded runs.
-/
namespace UmnProjects.Computation

variable {S T X A B C D : Type}

/-- What a bounded run ends with; `none` is an exhausted bound. -/
abbrev Outcome (S X A : Type) := Option (Except X (A × S))

def Comp (S X A : Type) := S → Outcome S X A

namespace Comp

def pure (a : A) : Comp S X A := fun s => some (.ok (a, s))

def raise (x : X) : Comp S X A := fun _ => some (.error x)

def exhausted : Comp S X A := fun _ => none

def bind (m : Comp S X A) (f : A → Comp S X B) : Comp S X B := fun s =>
  match m s with
  | none => none
  | some (.error x) => some (.error x)
  | some (.ok (a, t)) => f a t

instance : Monad (Comp S X) where
  pure := Comp.pure
  bind := Comp.bind

/-- A pure partial operation used inside a computation. -/
def ofExcept : Except X A → Comp S X A
  | .ok a => Comp.pure a
  | .error x => Comp.raise x

/-- Apply a state transformer and return the value it yields. -/
def act (f : S → A × S) : Comp S X A := fun s => some (.ok (f s))

theorem bind_apply (m : Comp S X A) (f : A → Comp S X B) (s : S) :
    (m >>= f) s = match m s with
      | none => none
      | some (.error x) => some (.error x)
      | some (.ok (a, t)) => f a t := rfl

theorem bind_ok {m : Comp S X A} {f : A → Comp S X B} {s t : S} {a : A}
    (h : m s = some (.ok (a, t))) : (m >>= f) s = f a t := by
  rw [bind_apply, h]

theorem bind_eq_ok {m : Comp S X A} {f : A → Comp S X B} {s t : S} {b : B}
    (h : (m >>= f) s = some (.ok (b, t))) :
    ∃ a u, m s = some (.ok (a, u)) ∧ f a u = some (.ok (b, t)) := by
  rw [bind_apply] at h
  cases hm : m s with
  | none => simp [hm] at h
  | some r =>
      cases r with
      | error x => simp [hm] at h
      | ok p =>
          rw [hm] at h
          exact ⟨p.1, p.2, rfl, h⟩

/-- Act first and continue from the new state. -/
@[simp] theorem act_bind (f : S → A × S) (g : A → Comp S X B) (s : S) :
    (act f >>= g) s = g (f s).1 (f s).2 := rfl

end Comp

/-! ### One run -/

/-- A terminating run returns in `Q` or raises in `E`. -/
def Ensures (o : Outcome S X A) (Q : A → S → Prop) (E : X → Prop) : Prop :=
  match o with
  | none => True
  | some (.error x) => E x
  | some (.ok (a, s)) => Q a s

theorem Ensures.mono {o : Outcome S X A} {Q Q' : A → S → Prop} {E E' : X → Prop}
    (h : Ensures o Q E) (hQ : ∀ a s, Q a s → Q' a s) (hE : ∀ x, E x → E' x) :
    Ensures o Q' E' := by
  match o, h with
  | none, _ => trivial
  | some (.error x), h => exact hE x h
  | some (.ok (a, s)), h => exact hQ a s h

theorem Ensures.bind {m : Comp S X A} {f : A → Comp S X B} {s : S}
    {Q : A → S → Prop} {R : B → S → Prop} {E : X → Prop}
    (hm : Ensures (m s) Q E) (hf : ∀ a t, Q a t → Ensures (f a t) R E) :
    Ensures ((m >>= f) s) R E := by
  rw [Comp.bind_apply]
  match m s, hm with
  | none, _ => trivial
  | some (.error x), h => exact h
  | some (.ok (a, t)), h => exact hf a t h

theorem Ensures.of_ok {o : Outcome S X A} {Q : A → S → Prop} {E : X → Prop} {a : A} {s : S}
    (h : Ensures o Q E) (ho : o = some (.ok (a, s))) : Q a s := by
  subst ho
  exact h

theorem Ensures.of_error {o : Outcome S X A} {Q : A → S → Prop} {E : X → Prop} {x : X}
    (h : Ensures o Q E) (ho : o = some (.error x)) : E x := by
  subst ho
  exact h

/-! ### Two runs in lock step -/

/-- Both bounds are exhausted, both runs raise the same exception, or both return
with related values and stores. -/
inductive Agree (R : A → S → B → T → Prop) : Outcome S X A → Outcome T X B → Prop where
  | exhausted : Agree R none none
  | raised (x : X) : Agree R (some (.error x)) (some (.error x))
  | returned {a : A} {s : S} {b : B} {t : T} :
      R a s b t → Agree R (some (.ok (a, s))) (some (.ok (b, t)))

theorem Agree.mono {R R' : A → S → B → T → Prop} {o : Outcome S X A} {o' : Outcome T X B}
    (h : Agree R o o') (hR : ∀ a s b t, R a s b t → R' a s b t) : Agree R' o o' := by
  cases h with
  | exhausted => exact .exhausted
  | raised x => exact .raised x
  | returned h => exact .returned (hR _ _ _ _ h)

/-- The relation may also say where the first run ends. -/
theorem Agree.along {R : A → S → B → T → Prop} {o : Outcome S X A} {o' : Outcome T X B}
    (h : Agree R o o') : Agree (fun a s b t => R a s b t ∧ o = some (.ok (a, s))) o o' := by
  cases h with
  | exhausted => exact .exhausted
  | raised x => exact .raised x
  | returned h => exact .returned ⟨h, rfl⟩

theorem Agree.eq {R : A → S → A → S → Prop} {o o' : Outcome S X A} (h : Agree R o o')
    (hR : ∀ a s b t, R a s b t → a = b ∧ s = t) : o = o' := by
  cases h with
  | exhausted => rfl
  | raised x => rfl
  | returned h =>
      obtain ⟨rfl, rfl⟩ := hR _ _ _ _ h
      rfl

theorem Agree.bind {m : Comp S X A} {n : Comp T X B} {f : A → Comp S X C} {g : B → Comp T X D}
    {s : S} {t : T} {R : A → S → B → T → Prop} {Q : C → S → D → T → Prop}
    (hm : Agree R (m s) (n t))
    (hf : ∀ a s' b t', R a s' b t' → Agree Q (f a s') (g b t')) :
    Agree Q ((m >>= f) s) ((n >>= g) t) := by
  rw [Comp.bind_apply, Comp.bind_apply]
  match m s, n t, hm with
  | _, _, .exhausted => exact .exhausted
  | _, _, .raised x => exact .raised x
  | _, _, .returned h => exact hf _ _ _ _ h

/-- Where the first run returns, the second one returns with `R`. -/
def Carries (R : A → S → B → T → Prop) (o : Outcome S X A) (o' : Outcome T X B) : Prop :=
  ∀ a s, o = some (.ok (a, s)) → ∃ b t, o' = some (.ok (b, t)) ∧ R a s b t

theorem Carries.returned {R : A → S → B → T → Prop} {a : A} {s : S} {b : B} {t : T}
    (h : R a s b t) : Carries (X := X) R (some (.ok (a, s))) (some (.ok (b, t))) := by
  intro a' s' h'
  cases h'
  exact ⟨b, t, rfl, h⟩

theorem Carries.raised {R : A → S → B → T → Prop} {x : X} {o : Outcome T X B} :
    Carries R (some (.error x)) o := by
  intro a s h
  cases h

theorem Carries.exhausted {R : A → S → B → T → Prop} {o : Outcome T X B} :
    Carries (S := S) R none o := by
  intro a s h
  cases h

theorem Carries.mono {R R' : A → S → B → T → Prop} {o : Outcome S X A} {o' : Outcome T X B}
    (h : Carries R o o') (hR : ∀ a s b t, R a s b t → R' a s b t) : Carries R' o o' := by
  intro a s ho
  obtain ⟨b, t, ho', hab⟩ := h a s ho
  exact ⟨b, t, ho', hR _ _ _ _ hab⟩

theorem Carries.bind {m : Comp S X A} {n : Comp T X B} {f : A → Comp S X C} {g : B → Comp T X D}
    {s : S} {t : T} {R : A → S → B → T → Prop} {Q : C → S → D → T → Prop}
    (hm : Carries R (m s) (n t))
    (hf : ∀ a s' b t', R a s' b t' → Carries Q (f a s') (g b t')) :
    Carries Q ((m >>= f) s) ((n >>= g) t) := by
  rw [Comp.bind_apply]
  cases hs : m s with
  | none => exact .exhausted
  | some r =>
      cases r with
      | error x => exact .raised
      | ok p =>
          obtain ⟨b, t', ht, hR⟩ := hm p.1 p.2 hs
          rw [Comp.bind_ok ht]
          exact hf _ _ _ _ hR

/-! ### Two operands in either order -/

/-- The order in which the components of a pair are computed. -/
inductive Order where
  | leftToRight
  | rightToLeft

def operands : Order → Comp S X A → Comp S X A → Comp S X (A × A)
  | .leftToRight, m1, m2 => do
      let v1 ← m1
      let v2 ← m2
      pure (v1, v2)
  | .rightToLeft, m1, m2 => do
      let v2 ← m2
      let v1 ← m1
      pure (v1, v2)

theorem Ensures.operands (o : Order) {m1 m2 : Comp S X A} {I : S → Prop} {P Q : A → Prop}
    {E : X → Prop} (h1 : ∀ s, I s → Ensures (m1 s) (fun a t => P a ∧ I t) E)
    (h2 : ∀ s, I s → Ensures (m2 s) (fun a t => Q a ∧ I t) E) {s : S} (hs : I s) :
    Ensures (operands o m1 m2 s) (fun p t => P p.1 ∧ Q p.2 ∧ I t) E := by
  cases o with
  | leftToRight =>
      refine (h1 s hs).bind ?_
      rintro a t ⟨ha, ht⟩
      refine (h2 t ht).bind ?_
      rintro b u ⟨hb, hu⟩
      exact ⟨ha, hb, hu⟩
  | rightToLeft =>
      refine (h2 s hs).bind ?_
      rintro b t ⟨hb, ht⟩
      refine (h1 t ht).bind ?_
      rintro a u ⟨ha, hu⟩
      exact ⟨ha, hb, hu⟩

/-- What holds of a value may depend on the store, as long as it survives moves along `L`. -/
theorem Ensures.operands_along (o : Order) {m1 m2 : Comp S X A} {I : S → Prop} {L : S → S → Prop}
    {R : A → S → Prop} {E : X → Prop} (refl : ∀ s, L s s)
    (trans : ∀ s t u, L s t → L t u → L s u) (stable : ∀ a s t, R a s → L s t → R a t)
    {s : S} (hs : I s)
    (h1 : ∀ t, I t → L s t → Ensures (m1 t) (fun a u => R a u ∧ I u ∧ L t u) E)
    (h2 : ∀ t, I t → L s t → Ensures (m2 t) (fun a u => R a u ∧ I u ∧ L t u) E) :
    Ensures (Computation.operands o m1 m2 s)
      (fun p t => R p.1 t ∧ R p.2 t ∧ I t ∧ L s t) E := by
  cases o with
  | leftToRight =>
      refine (h1 s hs (refl s)).bind ?_
      rintro a t ⟨ha, ht, hL⟩
      refine (h2 t ht hL).bind ?_
      rintro b u ⟨hb, hu, hL'⟩
      exact ⟨stable _ _ _ ha hL', hb, hu, trans _ _ _ hL hL'⟩
  | rightToLeft =>
      refine (h2 s hs (refl s)).bind ?_
      rintro b t ⟨hb, ht, hL⟩
      refine (h1 t ht hL).bind ?_
      rintro a u ⟨ha, hu, hL'⟩
      exact ⟨ha, stable _ _ _ hb hL', hu, trans _ _ _ hL hL'⟩

/-- The stores may only move along `L`, under which the relation `R` on values is
stable; the second operand is then run from a later pair of stores. -/
theorem Agree.operands (o : Order) {m1 m2 : Comp S X A} {n1 n2 : Comp T X B}
    {I : S → T → Prop} {L : S → T → S → T → Prop} {R : A → S → B → T → Prop}
    (refl : ∀ s t, L s t s t)
    (trans : ∀ s t s' t' s'' t'', L s t s' t' → L s' t' s'' t'' → L s t s'' t'')
    (stable : ∀ a b s t s' t', R a s b t → L s t s' t' → R a s' b t')
    {s : S} {t : T} (hI : I s t)
    (h1 : ∀ s' t', I s' t' → L s t s' t' →
      Agree (fun a s'' b t'' => R a s'' b t'' ∧ I s'' t'' ∧ L s' t' s'' t'') (m1 s') (n1 t'))
    (h2 : ∀ s' t', I s' t' → L s t s' t' →
      Agree (fun a s'' b t'' => R a s'' b t'' ∧ I s'' t'' ∧ L s' t' s'' t'') (m2 s') (n2 t')) :
    Agree (fun p s' q t' => R p.1 s' q.1 t' ∧ R p.2 s' q.2 t' ∧ I s' t' ∧ L s t s' t')
      (operands o m1 m2 s) (operands o n1 n2 t) := by
  cases o with
  | leftToRight =>
      refine (h1 s t hI (refl s t)).bind ?_
      rintro a s' b t' ⟨hab, hI', hL⟩
      refine (h2 s' t' hI' hL).bind ?_
      rintro c s'' d t'' ⟨hcd, hI'', hL'⟩
      exact .returned ⟨stable _ _ _ _ _ _ hab hL', hcd, hI'', trans _ _ _ _ _ _ hL hL'⟩
  | rightToLeft =>
      refine (h2 s t hI (refl s t)).bind ?_
      rintro a s' b t' ⟨hab, hI', hL⟩
      refine (h1 s' t' hI' hL).bind ?_
      rintro c s'' d t'' ⟨hcd, hI'', hL'⟩
      exact .returned ⟨hcd, stable _ _ _ _ _ _ hab hL', hI'', trans _ _ _ _ _ _ hL hL'⟩

/-- The second operand leaves alone the stores it can start from, so the order is the same. -/
theorem operands_ok (o : Order) {m1 m2 : Comp S X A} {s t : S} {a b : A}
    (h1 : m1 s = some (.ok (a, t))) (hs : m2 s = some (.ok (b, s)))
    (ht : m2 t = some (.ok (b, t))) : operands o m1 m2 s = some (.ok ((a, b), t)) := by
  cases o with
  | leftToRight =>
      rw [operands, Comp.bind_ok h1, Comp.bind_ok ht]
      rfl
  | rightToLeft =>
      rw [operands, Comp.bind_ok hs, Comp.bind_ok h1]
      rfl

/-- An operand without an effect may be computed first or last. -/
theorem operands_pure_bind (o : Order) (a : A) (m : Comp S X A) (f : A × A → Comp S X B) :
    (operands o (Comp.pure a) m >>= f) = m >>= fun b => f (a, b) := by
  have hpair : operands o (Comp.pure a) m = m >>= fun b => Comp.pure (a, b) := by
    cases o <;> rfl
  funext s
  rw [hpair, Comp.bind_apply, Comp.bind_apply, Comp.bind_apply]
  cases m s with
  | none => rfl
  | some r => cases r <;> rfl

/-! ### Families of bounded runs -/

/-- A larger bound only turns an exhausted run into another one. -/
def Below (o o' : Outcome S X A) : Prop := o = none ∨ o = o'

theorem Below.refl (o : Outcome S X A) : Below o o := .inr rfl

theorem Below.none (o : Outcome S X A) : Below none o := .inl rfl

theorem Below.some {r : Except X (A × S)} {o o' : Outcome S X A}
    (h : Below o o') (ho : o = some r) : o' = some r := by
  rcases h with h | h
  · simp [ho] at h
  · rw [← h, ho]

theorem Below.bind {m n : Comp S X A} {f g : A → Comp S X B} {s : S}
    (hm : Below (m s) (n s)) (hf : ∀ a t, Below (f a t) (g a t)) :
    Below ((m >>= f) s) ((n >>= g) s) := by
  rw [Comp.bind_apply, Comp.bind_apply]
  rcases hm with hm | hm
  · exact .inl (by rw [hm])
  · rw [← hm]
    match m s with
    | .none => exact .refl _
    | .some (.error x) => exact .refl _
    | .some (.ok (a, t)) => exact hf a t

theorem Below.operands (o : Order) {m1 m2 n1 n2 : Comp S X A} {s : S}
    (h1 : ∀ s, Below (m1 s) (n1 s)) (h2 : ∀ s, Below (m2 s) (n2 s)) :
    Below (operands o m1 m2 s) (operands o n1 n2 s) := by
  cases o with
  | leftToRight => exact (h1 s).bind fun a t => (h2 t).bind fun b u => .refl _
  | rightToLeft => exact (h2 s).bind fun b t => (h1 t).bind fun a u => .refl _

/-- No bound suffices. -/
def Diverges (run : Nat → Outcome S X A) : Prop := ∀ n, run n = none

def Raises (run : Nat → Outcome S X A) (x : X) : Prop := ∃ n, run n = some (.error x)

def Returns (run : Nat → Outcome S X A) (a : A) (s : S) : Prop := ∃ n, run n = some (.ok (a, s))

/-- The two programs diverge together, raise the same exception, or return with `R`. -/
def SameOutcome (R : A → S → B → T → Prop) (run : Nat → Outcome S X A)
    (run' : Nat → Outcome T X B) : Prop :=
  (Diverges run ∧ Diverges run') ∨
  (∃ x, Raises run x ∧ Raises run' x) ∨
  ∃ a s b t, Returns run a s ∧ Returns run' b t ∧ R a s b t

theorem sameOutcome_of_agree {R : A → S → B → T → Prop} {run : Nat → Outcome S X A}
    {run' : Nat → Outcome T X B} (h : ∀ n, Agree R (run n) (run' n)) :
    SameOutcome R run run' := by
  by_cases hd : Diverges run
  · refine .inl ⟨hd, fun n => ?_⟩
    have hn := h n
    rw [hd n] at hn
    generalize run' n = o' at hn
    cases hn
    rfl
  · obtain ⟨n, hn⟩ := Classical.not_forall.mp hd
    have ha := h n
    generalize ho : run n = o at ha hn
    generalize ho' : run' n = o' at ha
    cases ha with
    | exhausted => exact absurd rfl hn
    | raised x => exact .inr (.inl ⟨x, ⟨n, ho⟩, ⟨n, ho'⟩⟩)
    | returned hR => exact .inr (.inr ⟨_, _, _, _, ⟨n, ho⟩, ⟨n, ho'⟩, hR⟩)

theorem sameOutcome_of_eq {run run' : Nat → Outcome S X A} (h : ∀ n, run n = run' n) :
    SameOutcome (fun a s b t => a = b ∧ s = t) run run' := by
  apply sameOutcome_of_agree
  intro n
  rw [← h n]
  cases run n with
  | none => exact .exhausted
  | some r =>
      cases r with
      | error x => exact .raised x
      | ok p => exact .returned ⟨rfl, rfl⟩

/-- When bounds only help, what a bounded run ends with is what every larger bound gives. -/
theorem outcome_of_le (run : Nat → Outcome S X A) (mono : ∀ n, Below (run n) (run (n + 1)))
    {n m : Nat} {r : Except X (A × S)} (hn : run n = some r) (hle : n ≤ m) : run m = some r := by
  induction hle with
  | refl => exact hn
  | step _ ih => exact (mono _).some ih

/-- When bounds only help, a program has at most one outcome. -/
theorem outcome_unique (run : Nat → Outcome S X A) (mono : ∀ n, Below (run n) (run (n + 1)))
    {n m : Nat} {r r' : Except X (A × S)} (hn : run n = some r) (hm : run m = some r') :
    r = r' := by
  have h := outcome_of_le run mono hn (Nat.le_max_left n m)
  have h' := outcome_of_le run mono hm (Nat.le_max_right n m)
  rw [h'] at h
  exact (Option.some.inj h).symm

end UmnProjects.Computation
