import UmnProjects.Evaluator.Invariants

/-!
Which names an evaluation can miss. Starting from well-formed closures, every
recursive call of the evaluator runs from well-formed closures again, so a missing
name is always one that the called expression has free and its environment lacks.
-/
namespace UmnProjects.Evaluator
open UmnProjects.Computation

/-- The exception, if it reports a name, reports a free and unbound one. -/
def Blames (e : Expr) (env : Environment) (x : Exn) : Prop :=
  ∀ y, x = .unboundVariable y → y ∈ freevars e ∧ find y env = none

theorem Blames.weaken {e e' : Expr} {env : Environment} {x : Exn} (h : Blames e env x)
    (sub : ∀ y ∈ freevars e, y ∈ freevars e') : Blames e' env x := by
  intro y hy
  obtain ⟨hmem, hnone⟩ := h y hy
  exact ⟨sub y hmem, hnone⟩

/-- Blame below a binder is blame for another name than the bound one. -/
theorem Blames.of_cons {e : Expr} {name : String} {v : Value} {env : Environment} {x : Exn}
    (h : Blames e ((name, v) :: env) x) :
    ∀ y, x = .unboundVariable y → (y ∈ freevars e ∧ name ≠ y) ∧ find y env = none := by
  intro y hy
  obtain ⟨hmem, hnone⟩ := h y hy
  rw [find_cons] at hnone
  split at hnone
  · cases hnone
  · next hne => exact ⟨⟨hmem, hne⟩, hnone⟩

theorem Blames.part {e1 e : Expr} {env : Environment} {x : Exn} (h : Blames e1 env x)
    (hp : Part e1 e) : Blames e env x :=
  h.weaken hp.freevars

theorem Blames.under {e1 e : Expr} {name : String} {v : Value} {env : Environment} {x : Exn}
    (h : Blames e1 ((name, v) :: env) x) (hu : Under name e1 e) : Blames e env x := by
  intro y hy
  obtain ⟨hmem, hnone⟩ := h.of_cons y hy
  exact ⟨hu.freevars y (by simpa using hmem), hnone⟩

/-- The body of a well-formed closure runs in an environment where nothing it needs
is missing, so a call has nothing to report. -/
theorem Blames.nothing {var : String} {body : Expr} {x : Value} {defs : Environment} {exn : Exn}
    (h : Blames body ((var, x) :: defs) exn)
    (hbound : ∀ y ∈ captured var body, ∃ v, find y defs = some v) (y : String) :
    exn ≠ .unboundVariable y := by
  intro hy
  obtain ⟨hmem, hnone⟩ := h.of_cons y hy
  obtain ⟨v, hv⟩ := hbound y (mem_captured.mpr hmem)
  rw [hnone] at hv
  cases hv

/-- Well-formed closures as an invariant. -/
def wellFormed : Invariant where
  value _ := Value.WF
  entry _ := Value.WF
  expr _ := Expr.WF
  store := Store.WF
  value_mono h _ := h
  entry_mono h _ := h
  expr_mono h _ := h
  part := Expr.WF.part
  under := Expr.WF.under
  literal h := h _ (by simp [literals])
  int := .int
  bool := .bool
  nil := .nil
  cons := .cons
  uncons h := by
    cases h with
    | cons hv hl => exact ⟨hv, hl⟩
  closure he henv hc := hc.wf he henv
  body h := by
    cases h with
    | closure _ henv he => exact ⟨he, henv⟩
  bound h := h
  cell _ := .ref _
  deref h hv := Store.forall_deref h hv
  alloc i h := Store.forall_alloc h (.int i)
  assign h hv := Store.forall_assign h _ hv

theorem wellFormed_blames : wellFormed.Raises Blames where
  part hp h := h.part hp
  under hu h := h.under hu
  body hf h := by
    cases hf with
    | closure hbound _ _ =>
        intro y hy
        exact absurd hy (h.nothing hbound y)
  missing hf := by
    intro y hy
    cases hy
    exact ⟨by simp [freevars], hf⟩
  uncaptured hm := by
    intro y hy
    obtain ⟨z, hz, hnone, hx⟩ := makeClosure_error hm
    rw [hx] at hy
    cases hy
    exact ⟨hz, hnone⟩
  other h := fun y hy => absurd hy (h y)

/-- From well-formed closures: a missing name is free in the expression and unbound
in its environment; every closure built on the way is well formed and binds exactly
the free variables of its body other than the parameter; the value and the cells of
the result are well formed again; and where the free variables are bound no name is
missing, neither now nor in any call of a closure made on the way. -/
theorem eval_wellFormed (order : Order) (e : Expr) (env : Environment) (σ : Store)
    (he : e.WF) (henv : EnvWF env) (hσ : σ.WF) :
    (∀ n x, eval order n e env σ = some (.error (.unboundVariable x)) →
      x ∈ freevars e ∧ find x env = none) ∧
    (∀ d : Config, Relation.ReflTransGen (Calls order) ⟨e, env, σ⟩ d →
      ∀ var body v, d.expr = .lam var body → makeClosure var body d.env = .ok v →
        ∃ clEnv, v = .closure var body clEnv ∧ v.WF ∧
          clEnv.map Prod.fst = (freevars body).filter (fun x' => var ≠ x')) ∧
    (∀ n v σ', eval order n e env σ = some (.ok (v, σ')) → v.WF ∧ σ'.WF) ∧
    ((∀ x ∈ freevars e, ∃ v, find x env = some v) →
      ∀ n x, eval order n e env σ ≠ some (.error (.unboundVariable x))) := by
  have hholds : wellFormed.Holds ⟨e, env, σ⟩ := ⟨he, henv, hσ⟩
  refine ⟨?_, ?_, ?_, ?_⟩
  · intro n x h
    exact (wellFormed.eval wellFormed_blames order n hholds).of_error h x rfl
  · intro d hd var body v hexpr hv
    have hreached := hholds.reached hd
    obtain ⟨clEnv, rfl, hc⟩ := makeClosure_ok hv
    have hlam : Expr.WF (.lam var body) := hexpr ▸ hreached.expr
    exact ⟨clEnv, rfl, hc.wf hlam hreached.env, hc.names_eq⟩
  · intro n v σ' h
    have hr := hholds.result h
    exact ⟨hr.value, hr.store⟩
  · intro hbound n x h
    obtain ⟨hfree, hnone⟩ :=
      (wellFormed.eval wellFormed_blames order n hholds).of_error h x rfl
    obtain ⟨v, hv⟩ := hbound x hfree
    rw [hnone] at hv
    cases hv

/-- A closure and the value that it has captured. -/
def closureEnv : Environment :=
  [("f", .closure "x" (.add (.id "x") (.id "z")) [("z", .int 1)])]

/-- The call finds `f` and its captured `z`, and misses the argument `y`. -/
theorem eval_wellFormed_missing_argument :
    eval .leftToRight 2 (.app (.id "f") (.id "y")) closureEnv Store.empty =
        some (.error (.unboundVariable "y")) ∧
      "y" ∈ freevars (.app (.id "f") (.id "y")) ∧ find "y" closureEnv = none := by
  refine ⟨rfl, (eval_wellFormed .leftToRight (.app (.id "f") (.id "y")) closureEnv Store.empty
    ?_ ?_ ?_).1 2 "y" rfl⟩
  · exact fun v hv => by cases hv
  · intro b hb
    obtain rfl := List.mem_singleton.mp hb
    refine .closure ?_ ?_ (fun v hv => by cases hv)
    · intro y hy
      obtain rfl : y = "z" := by simpa [captured, freevars] using hy
      exact ⟨.int 1, rfl⟩
    · intro c hc
      obtain rfl := List.mem_singleton.mp hc
      exact .int 1
  · exact fun _ => .int 0

end UmnProjects.Evaluator
