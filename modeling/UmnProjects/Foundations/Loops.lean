import Mathlib.Data.List.Basic

/-!
Loops over a list whose body may end them with an answer or an exception, together with the
state they leave. The answer `true` of a body means that the loop goes on.
-/
namespace UmnProjects.Loops

variable {A E S : Type} {body : A → S → Except E Bool × S} {a : A} {as before after : List A}
  {s t : S}

def loop (body : A → S → Except E Bool × S) : List A → S → Except E Bool × S
  | [], s => (.ok true, s)
  | a :: as, s =>
      match body a s with
      | (.ok true, s) => loop body as s
      | stopped => stopped

theorem loop_cons_of_true (h : body a s = (.ok true, t)) (as : List A) :
    loop body (a :: as) s = loop body as t := by
  rw [loop, h]

theorem loop_cons_of_ne (h : (body a s).1 ≠ .ok true) (as : List A) :
    loop body (a :: as) s = body a s := by
  rw [loop]
  split
  · next hbody => exact absurd (congrArg Prod.fst hbody) h
  · rfl

theorem body_of_loop_cons (h : loop body (a :: as) s = (.ok true, t)) :
    ∃ u, body a s = (.ok true, u) ∧ loop body as u = (.ok true, t) := by
  by_cases hgoes : (body a s).1 = .ok true
  · have hbody : body a s = (.ok true, (body a s).2) := Prod.ext hgoes rfl
    rw [loop_cons_of_true hbody] at h
    exact ⟨(body a s).2, hbody, h⟩
  · rw [loop_cons_of_ne hgoes] at h
    exact absurd (congrArg Prod.fst h) hgoes

/-! ### Invariants -/

section Invariants

variable {P : List A → S → Prop}

/-- What every body that goes on keeps holds behind a loop that ends. -/
theorem loop_induction
    (hstep : ∀ before a after s t, as = before ++ a :: after → P before s →
      body a s = (.ok true, t) → P (before ++ [a]) t)
    (hstart : P [] s) (h : loop body as s = (.ok true, t)) : P as t := by
  have hrest (rest before : List A) (s : S) (hsplit : as = before ++ rest) (hbefore : P before s)
      (hloop : loop body rest s = (.ok true, t)) : P as t := by
    induction rest generalizing before s with
    | nil =>
        cases hloop
        rw [hsplit, List.append_nil]
        exact hbefore
    | cons a rest ih =>
        obtain ⟨u, hbody, hrest⟩ := body_of_loop_cons hloop
        apply ih (before ++ [a]) u ?_ ?_ hrest
        · rw [hsplit, List.append_assoc]
          rfl
        · exact hstep before a rest s u hsplit hbefore hbody
  exact hrest as [] s rfl hstart h

/-- What every body keeps, however it ends, the loop keeps. -/
theorem loop_keeps {P : S → Prop} (hstep : ∀ a ∈ as, ∀ s, P s → P (body a s).2) (h : P s) :
    P (loop body as s).2 := by
  induction as generalizing s with
  | nil => exact h
  | cons a as ih =>
      obtain ⟨ha, has⟩ := List.forall_mem_cons.mp hstep
      have hbody := ha s h
      rw [loop]
      split
      · next hgoes =>
          rw [hgoes] at hbody
          exact ih has hbody
      · exact hbody

/-- A loop whose bodies all go on ends with `true`. -/
theorem loop_eq_true (body : A → S → Except E Bool × S) (as : List A) (s : S)
    {P : List A → S → Prop}
    (hstep : ∀ before a after s, as = before ++ a :: after → P before s →
      ∃ t, body a s = (.ok true, t) ∧ P (before ++ [a]) t)
    (hstart : P [] s) : ∃ t, loop body as s = (.ok true, t) ∧ P as t := by
  have hrest (rest before : List A) (s : S) (hsplit : as = before ++ rest)
      (hbefore : P before s) : ∃ t, loop body rest s = (.ok true, t) ∧ P as t := by
    induction rest generalizing before s with
    | nil =>
        refine ⟨s, rfl, ?_⟩
        rw [hsplit, List.append_nil]
        exact hbefore
    | cons a rest ih =>
        obtain ⟨t, hbody, ht⟩ := hstep before a rest s hsplit hbefore
        rw [loop_cons_of_true hbody]
        apply ih (before ++ [a]) t ?_ ht
        rw [hsplit, List.append_assoc]
        rfl
  exact hrest as [] s rfl hstart

end Invariants

/-! ### Returning -/

/-- An answer, whatever it is. -/
def Returns (result : Except E Bool × S) : Prop := ∃ answer, result.1 = .ok answer

theorem not_returns_error {e : E} : ¬ Returns ((.error e, s) : Except E Bool × S) := by
  intro h
  obtain ⟨answer, hanswer⟩ := h
  cases hanswer

theorem returns_ok (answer : Bool) (s : S) : Returns ((.ok answer, s) : Except E Bool × S) :=
  ⟨answer, rfl⟩

/-- A loop returns exactly when every body it gets to returns. -/
theorem returns_loop_iff : Returns (loop body as s) ↔
    ∀ before a after t, as = before ++ a :: after → loop body before s = (.ok true, t) →
      Returns (body a t) := by
  induction as generalizing s with
  | nil => simp [loop, returns_ok]
  | cons a as ih =>
      by_cases hgoes : (body a s).1 = .ok true
      · have hbody : body a s = (.ok true, (body a s).2) := Prod.ext hgoes rfl
        rw [loop_cons_of_true hbody, ih]
        constructor
        · intro h before a' after t hsplit hbefore
          cases before with
          | nil =>
              cases hsplit
              cases hbefore
              exact ⟨true, hgoes⟩
          | cons b before =>
              cases hsplit
              rw [loop_cons_of_true hbody] at hbefore
              exact h before a' after t rfl hbefore
        · intro h before a' after t hsplit hbefore
          refine h (a :: before) a' after t (by rw [hsplit, List.cons_append]) ?_
          rw [loop_cons_of_true hbody, hbefore]
      · rw [loop_cons_of_ne hgoes]
        constructor
        · intro h before a' after t hsplit hbefore
          cases before with
          | nil =>
              cases hsplit
              cases hbefore
              exact h
          | cons b before =>
              cases hsplit
              rw [loop_cons_of_ne hgoes] at hbefore
              exact absurd (congrArg Prod.fst hbefore) hgoes
        · intro h
          exact h [] a as s rfl rfl

/-- What a loop that counts up has behind it when it gets to `k`. -/
theorem length_of_range_eq {n k : Nat} {before after : List Nat}
    (h : List.range n = before ++ k :: after) : before.length = k ∧ k < n := by
  have hlength := congrArg List.length h
  rw [List.length_range, List.length_append, List.length_cons] at hlength
  have hlt : before.length < n := by omega
  have hget := congrArg (fun l => l[before.length]?) h
  have hk : before.length = k := by simpa [hlt] using hget
  exact ⟨hk, by omega⟩

/-- The same for a loop that counts up. -/
theorem returns_loop_range_iff {body : Nat → S → Except E Bool × S} {n : Nat} :
    Returns (loop body (List.range n) s) ↔
      ∀ k t, k < n → loop body (List.range k) s = (.ok true, t) → Returns (body k t) := by
  rw [returns_loop_iff]
  constructor
  · intro h k t hk hbefore
    refine h (List.range k) k (List.range' (k + 1) (n - (k + 1))) t ?_ hbefore
    have hsplit := List.range'_append_1 (s := 0) (m := k) (n := n - k)
    have hrest : n - k = n - (k + 1) + 1 := by omega
    rw [← List.range_eq_range', Nat.zero_add, Nat.add_sub_cancel' (by omega),
      ← List.range_eq_range', hrest, List.range'_succ] at hsplit
    exact hsplit.symm
  · intro h before k after t hsplit hbefore
    obtain ⟨hk, hlt⟩ := length_of_range_eq hsplit
    have htake := congrArg (List.take before.length) hsplit
    rw [List.take_range, List.take_left, hk, Nat.min_eq_left (Nat.le_of_lt hlt)] at htake
    rw [← htake] at hbefore
    exact h k t hlt hbefore

end UmnProjects.Loops
