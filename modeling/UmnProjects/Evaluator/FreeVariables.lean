import UmnProjects.Evaluator.Closures

/-!
An evaluation looks at no other bindings than the first ones of its free variables. So the
body of a lambda can run in the trimmed environment of its closure as well as in the full
environment the lambda stood in.
-/
namespace UmnProjects.Evaluator
open UmnProjects.Computation

/-- Each of the names has the same first binding in both environments, or none in both. -/
def SameBindings (names : List String) (env env' : Environment) : Prop :=
  ∀ y ∈ names, find y env = find y env'

theorem SameBindings.sub {names names' : List String} {env env' : Environment}
    (h : SameBindings names env env') (sub : ∀ y ∈ names', y ∈ names) :
    SameBindings names' env env' :=
  fun y hy => h y (sub y hy)

theorem SameBindings.part {e1 e : Expr} {env env' : Environment}
    (h : SameBindings (freevars e) env env') (hp : Part e1 e) :
    SameBindings (freevars e1) env env' :=
  h.sub hp.freevars

theorem SameBindings.cons {names : List String} {env env' : Environment} {name : String}
    (h : SameBindings (names.filter (fun x' => name ≠ x')) env env') (v : Value) :
    SameBindings names ((name, v) :: env) ((name, v) :: env') := by
  intro y hy
  by_cases hn : name = y
  · simp [hn]
  · simpa [hn] using h y (by simp [hy, hn])

theorem SameBindings.under {name : String} {e1 e : Expr} {env env' : Environment}
    (h : SameBindings (freevars e) env env') (hu : Under name e1 e) (v : Value) :
    SameBindings (freevars e1) ((name, v) :: env) ((name, v) :: env') :=
  SameBindings.cons (h.sub hu.freevars) v

/-- The captured environment binds the captured names as the enclosing one does. -/
theorem Captures.sameBindings {names : List String} {env clEnv : Environment}
    (h : Captures names env clEnv) : SameBindings names env clEnv := by
  intro y hy
  obtain ⟨v, hv, hv'⟩ := h.find hy
  rw [hv, hv']

theorem mapExcept_congr {A B : Type} {f g : A → Except Exn B} {l : List A}
    (h : ∀ a ∈ l, f a = g a) : mapExcept f l = mapExcept g l := by
  induction l with
  | nil => rfl
  | cons a l ih =>
      rw [mapExcept, mapExcept, h a List.mem_cons_self,
        ih fun b hb => h b (List.mem_cons_of_mem a hb)]

theorem makeClosure_congr {var : String} {e : Expr} {env env' : Environment}
    (h : SameBindings (captured var e) env env') :
    makeClosure var e env = makeClosure var e env' := by
  have hval : ∀ y ∈ captured var e, getVal env y = getVal env' y := by
    intro y hy
    rw [getVal, getVal, h y hy]
  rw [makeClosure, makeClosure, mapExcept_congr hval]

/-- The two evaluations are the same computation, for every bound. -/
theorem eval_congr (order : Order) (n : Nat) (e : Expr) {env env' : Environment}
    (h : SameBindings (freevars e) env env') : eval order n e env = eval order n e env' := by
  induction n generalizing e env env' with
  | zero => rfl
  | succ n ih =>
      have part : ∀ {e1}, Part e1 e → eval order n e1 env = eval order n e1 env' :=
        fun hp => ih _ (h.part hp)
      have under : ∀ {name e1}, Under name e1 e → ∀ v,
          eval order n e1 ((name, v) :: env) = eval order n e1 ((name, v) :: env') :=
        fun hu v => ih _ (h.under hu v)
      simp only [eval] at part under ⊢
      cases e using Expr.shapes with
      | val _ | nil => rfl
      | binary op e1 e2 => rw [evalWith_binary, evalWith_binary, part .left, part .right]
      | unary op e1 => rw [evalWith_unary, evalWith_unary, part .operand]
      | letE name v inE =>
          simp only [evalWith, part .letBound]
          congr 1
          funext x
          exact under .letBody x
      | id name => simp only [evalWith, h name (by simp [freevars])]
      | lam var e1 =>
          simp only [evalWith, source]
          rw [makeClosure_congr h]
      | app e1 e2 => simp only [evalWith, part .function, part .argument]
      | letRec name fxn e1 =>
          simp only [evalWith]
          congr 1
          funext r
          rw [under .recBound, under .recBody]
      | ifE e1 e2 e3 =>
          simp only [evalWith, part .condition, part .thenE, part .elseE]

theorem eval_sameOutcome_sameBindings (order : Order) (e : Expr) (env env' : Environment)
    (σ : Store) (h : ∀ y ∈ freevars e, find y env = find y env') :
    SameOutcome (fun v τ v' τ' => v = v' ∧ τ = τ') (fun n => eval order n e env σ)
      (fun n => eval order n e env' σ) := by
  apply sameOutcome_of_eq
  intro n
  exact congrFun (eval_congr order n e h) σ

/-- A lambda that captures a shadowed name, under a binding that is not captured. -/
theorem eval_sameOutcome_sameBindings_shadowed :
    SameOutcome (fun v τ v' τ' => v = v' ∧ τ = τ')
      (fun n => eval .leftToRight n (.lam "x" (.add (.id "x") (.id "y")))
        [("y", .int 1), ("y", .int 2)] Store.empty)
      (fun n => eval .leftToRight n (.lam "x" (.add (.id "x") (.id "y")))
        [("x", .bool true), ("y", .int 1)] Store.empty) := by
  apply eval_sameOutcome_sameBindings
  intro y hy
  obtain rfl : y = "y" := by simpa [freevars] using hy
  rfl

/-- A lambda whose captured names are bound and that is applied at once binds its parameter as
a `Let` does: the body runs in the trimmed environment instead of the full one. -/
theorem eval_let_eq_app (order : Order) (n : Nat) (x : String) (e1 e2 : Expr) {env : Environment}
    (h : ∀ y ∈ captured x e2, ∃ v, find y env = some v) :
    eval order n (.letE x e1 e2) env = eval order n (.app (.lam x e2) e1) env := by
  cases n with
  | zero => rfl
  | succ n =>
      cases n with
      | zero => cases order <;> rfl
      | succ n =>
          obtain ⟨clEnv, hclosure, hcaptures⟩ := makeClosure_total x e2 h
          have hlam : evalWith (source order) (n + 1) (.lam x e2) env =
              Comp.pure (.closure x e2 clEnv) := by
            simp only [evalWith, source, hclosure, Comp.ofExcept]
          have hbody : ∀ v, evalWith (source order) (n + 1) e2 ((x, v) :: env) =
              evalWith (source order) (n + 1) e2 ((x, v) :: clEnv) :=
            fun v => eval_congr order (n + 1) e2 (hcaptures.sameBindings.cons v)
          rw [eval, eval, evalWith, evalWith, hlam, operands_pure_bind]
          congr 1
          funext v
          exact hbody v

theorem eval_let_sameOutcome_app (order : Order) (x : String) (e1 e2 : Expr) (env : Environment)
    (σ : Store) (h : ∀ y ∈ freevars (.lam x e2), ∃ v, find y env = some v) :
    SameOutcome (fun v τ v' τ' => v = v' ∧ τ = τ')
      (fun n => eval order n (.letE x e1 e2) env σ)
      (fun n => eval order n (.app (.lam x e2) e1) env σ) := by
  apply sameOutcome_of_eq
  intro n
  exact congrFun (eval_let_eq_app order n x e1 e2 h) σ

theorem eval_let_sameOutcome_app_division :
    SameOutcome (fun v τ v' τ' => v = v' ∧ τ = τ')
      (fun n => eval .rightToLeft n (.letE "x" (.val (.int 0)) (.div (.id "y") (.id "x")))
        [("y", .int 4), ("y", .bool true)] Store.empty)
      (fun n => eval .rightToLeft n
        (.app (.lam "x" (.div (.id "y") (.id "x"))) (.val (.int 0)))
        [("y", .int 4), ("y", .bool true)] Store.empty) := by
  apply eval_let_sameOutcome_app
  intro y hy
  obtain rfl : y = "y" := by simpa [freevars] using hy
  exact ⟨.int 4, rfl⟩

end UmnProjects.Evaluator
