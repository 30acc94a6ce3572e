import UmnProjects.Evaluator.Types

/-!
Recursion is the only source of divergence. An expression with a type and without a recursive
binding is evaluated to the end and leaves the store alone. The proof is by a logical relation
on values: a function is total if it ends on every total argument.
-/
namespace UmnProjects.Evaluator
open UmnProjects.Computation

def LetRecFree : Expr → Prop
  | .val _ | .nil | .id _ => True
  | .add e1 e2 | .sub e1 e2 | .mul e1 e2 | .div e1 e2 | .lt e1 e2
  | .gt e1 e2 | .eq e1 e2 | .and e1 e2 | .or e1 e2 | .app e1 e2
  | .cons e1 e2 | .letE _ e1 e2 => LetRecFree e1 ∧ LetRecFree e2
  | .neg e1 | .not e1 | .head e1 | .tail e1 | .isEmpty e1 | .lam _ e1 => LetRecFree e1
  | .letRec _ _ _ => False
  | .ifE e1 e2 e3 => LetRecFree e1 ∧ LetRecFree e2 ∧ LetRecFree e3

@[simp] theorem letRecFree_binary (op : BinaryOp) (e1 e2 : Expr) :
    LetRecFree (op.expr e1 e2) ↔ LetRecFree e1 ∧ LetRecFree e2 := by
  cases op <;> rfl

@[simp] theorem letRecFree_unary (op : UnaryOp) (e1 : Expr) :
    LetRecFree (op.expr e1) ↔ LetRecFree e1 := by
  cases op <;> rfl

/-- Some bound suffices, whatever the store, and the store stays as it is. -/
def EndsWith (order : Order) (e : Expr) (env : Environment) (P : Value → Prop) : Prop :=
  ∀ σ, Ends (fun n => eval order n e env σ) (fun v τ => P v ∧ τ = σ) Exn.OfPartial

/-- The values of a type that end on whatever they are applied to. -/
def Total (order : Order) : Ty → Value → Prop
  | .int, v => ∃ i, v = .int i
  | .bool, v => ∃ b, v = .bool b
  | .list A, v => ∃ l, v = .listVal l ∧ ∀ w ∈ l, Total order A w
  | .fn A B, v => ∃ var body defs, v = .closure var body defs ∧
      ∀ w, Total order A w → EndsWith order body ((var, w) :: defs) (Total order B)

/-- The names in question are bound to total values of their types. -/
def EnvTotal (order : Order) (Γ : Context) (env : Environment) (names : List String) : Prop :=
  ∀ y ∈ names, ∀ C, find y Γ = some C → ∃ v, find y env = some v ∧ Total order C v

section Total

variable {order : Order} {A B C : Ty} {Γ : Context} {env : Environment} {v w : Value}

theorem EnvTotal.sub {names names' : List String} (h : EnvTotal order Γ env names)
    (hsub : ∀ y ∈ names', y ∈ names) : EnvTotal order Γ env names' :=
  fun y hy => h y (hsub y hy)

theorem EnvTotal.cons {name : String} {names : List String}
    (h : EnvTotal order Γ env (names.filter (fun x' => name ≠ x'))) (hv : Total order A v) :
    EnvTotal order ((name, A) :: Γ) ((name, v) :: env) names := by
  intro y hy C hC
  rw [find_cons] at hC ⊢
  by_cases hname : name = y
  · rw [if_pos hname] at hC ⊢
    cases hC
    exact ⟨v, rfl, hv⟩
  · rw [if_neg hname] at hC ⊢
    exact h y (by simp [hy, hname]) C hC

theorem EnvTotal.part {e1 e : Expr} (h : EnvTotal order Γ env (freevars e)) (hp : Part e1 e) :
    EnvTotal order Γ env (freevars e1) :=
  h.sub hp.freevars

theorem EnvTotal.under {name : String} {e1 e : Expr} (h : EnvTotal order Γ env (freevars e))
    (hu : Under name e1 e) (hv : Total order A v) :
    EnvTotal order ((name, A) :: Γ) ((name, v) :: env) (freevars e1) :=
  (h.sub hu.freevars).cons hv

theorem Total.deref (h : Total order A v) (σ : Store) : σ.deref v = v := by
  cases A with
  | int | bool =>
      obtain ⟨i, rfl⟩ := h
      rfl
  | list A =>
      obtain ⟨l, rfl, -⟩ := h
      rfl
  | fn A B =>
      obtain ⟨var, body, defs, rfl, -⟩ := h
      rfl

theorem LiteralTyped.total (h : LiteralTyped v A) : Total order A v := by
  induction h with
  | int i => exact ⟨i, rfl⟩
  | bool b => exact ⟨b, rfl⟩
  | nil => exact ⟨[], rfl, by simp⟩
  | cons _ _ ihv ihl =>
      obtain ⟨l, hl, hall⟩ := ihl
      cases hl
      exact ⟨_, rfl, List.forall_mem_cons.mpr ⟨ihv, hall⟩⟩

/-- An operator on total values returns a total value or raises one of its own exceptions. -/
def YieldsTotal (order : Order) (C : Ty) : Except Exn Value → Prop
  | .ok u => Total order C u
  | .error x => x.OfPartial

theorem BinaryOp.Types.apply_total {op : BinaryOp} (hop : op.Types A B C)
    (hv : Total order A v) (hw : Total order B w) : YieldsTotal order C (op.apply v w) := by
  cases hop with
  | cons =>
      obtain ⟨l, rfl, hl⟩ := hw
      have hcons : (BinaryOp.cons).apply v (.listVal l) = .ok (.listVal (v :: l)) := by
        cases v <;> rfl
      rw [hcons]
      exact ⟨_, rfl, List.forall_mem_cons.mpr ⟨hv, hl⟩⟩
  | div =>
      obtain ⟨i, rfl⟩ := hv
      obtain ⟨j, rfl⟩ := hw
      rw [BinaryOp.apply]
      split
      · exact .divisionByZero i
      · exact ⟨_, rfl⟩
  | add | sub | mul | lt | gt | eq | and | or =>
      obtain ⟨i, rfl⟩ := hv
      obtain ⟨j, rfl⟩ := hw
      exact ⟨_, rfl⟩

theorem UnaryOp.Types.apply_total {op : UnaryOp} (hop : op.Types A B) (hv : Total order A v) :
    YieldsTotal order B (op.apply v) := by
  cases hop with
  | neg | not =>
      obtain ⟨i, rfl⟩ := hv
      exact ⟨_, rfl⟩
  | isEmpty =>
      obtain ⟨l, rfl, -⟩ := hv
      exact ⟨_, rfl⟩
  | head =>
      obtain ⟨l, rfl, hl⟩ := hv
      cases l with
      | nil => exact .headOfEmptyList
      | cons w l => exact hl w List.mem_cons_self
  | tail =>
      obtain ⟨l, rfl, hl⟩ := hv
      cases l with
      | nil => exact .tailOfEmptyList
      | cons w l => exact ⟨l, rfl, fun u hu => hl u (List.mem_cons_of_mem w hu)⟩

theorem YieldsTotal.ends {r : Except Exn Value} (h : YieldsTotal order A r) (σ : Store) :
    Ends (fun _ => Comp.ofExcept r σ) (fun v τ => Total order A v ∧ τ = σ) Exn.OfPartial := by
  cases r with
  | ok u => exact .returned (n := 0) rfl ⟨h, rfl⟩
  | error x => exact .raised (n := 0) rfl h

theorem makeClosure_of_total {var : String} {e : Expr} (he : Typed ((var, A) :: Γ) e B)
    (henv : EnvTotal order Γ env (captured var e)) :
    ∃ clEnv, makeClosure var e env = .ok (.closure var e clEnv) ∧
      EnvTotal order Γ clEnv (captured var e) := by
  have hfind : ∀ y ∈ captured var e, ∃ v, find y env = some v := by
    intro y hy
    obtain ⟨C, hC⟩ := (Typed.lam he).find_of_mem hy
    obtain ⟨v, hv, -⟩ := henv y hy C hC
    exact ⟨v, hv⟩
  obtain ⟨clEnv, hc, hcaptures⟩ := makeClosure_total var e hfind
  refine ⟨clEnv, hc, ?_⟩
  intro y hy C hC
  obtain ⟨v, hv, htotal⟩ := henv y hy C hC
  obtain ⟨u, hu, hu'⟩ := hcaptures.find hy
  rw [hv] at hu'
  cases hu'
  exact ⟨v, hu, htotal⟩

end Total

theorem eval_growing (order : Order) (e : Expr) (env : Environment) (σ : Store) :
    Growing fun n => eval order n e env σ :=
  fun n => evalWith_below (source order) n e env σ

/-- The fundamental lemma: the induction is on the derivation, the relation takes care of the
bodies of the functions that are applied. -/
theorem Typed.endsWith (order : Order) {e : Expr} {A : Ty} {Γ : Context} {env : Environment}
    (he : Typed Γ e A) (hfree : LetRecFree e) (henv : EnvTotal order Γ env (freevars e)) :
    EndsWith order e env (Total order A) := by
  induction he generalizing env with
  | val hv => exact fun σ => .returned (n := 1) rfl ⟨hv.total, rfl⟩
  | nil => exact fun σ => .returned (n := 1) rfl ⟨⟨[], rfl, by simp⟩, rfl⟩
  | id hname =>
      intro σ
      obtain ⟨v, hv, htotal⟩ := henv _ (List.mem_singleton_self _) _ hname
      refine .returned (n := 1) (a := v) (s := σ) ?_ ⟨htotal, rfl⟩
      simp only [eval, evalWith, hv, Comp.act, htotal.deref σ]
  | @binary _ op e1 e2 _ _ _ hop _ _ ih1 ih2 =>
      intro σ
      rw [letRecFree_binary] at hfree
      have h1 := ih1 hfree.1 (henv.part .left)
      have h2 := ih2 hfree.2 (henv.part .right)
      apply Ends.succ
      simp only [eval, evalWith_binary]
      apply Ends.bind (Growing.operands order (eval_growing order e1 env)
        (eval_growing order e2 env)) (fun _ _ _ => .refl _)
        (Ends.operands order (eval_growing order e1 env) (eval_growing order e2 env) (h1 σ) (h2 σ))
      intro p τ hgiven
      obtain ⟨⟨hv, hw⟩, rfl⟩ := hgiven
      exact (hop.apply_total hv hw).ends τ
  | @unary _ op e1 _ _ hop _ ih1 =>
      intro σ
      rw [letRecFree_unary] at hfree
      have h1 := ih1 hfree (henv.part .operand)
      apply Ends.succ
      simp only [eval, evalWith_unary]
      apply Ends.bind (eval_growing order e1 env σ) (fun _ _ _ => .refl _) (h1 σ)
      intro v τ hgiven
      obtain ⟨hv, rfl⟩ := hgiven
      exact (hop.apply_total hv).ends τ
  | @letE _ name v inE _ _ _ _ ih1 ih2 =>
      intro σ
      have h1 := ih1 hfree.1 (henv.part .letBound)
      apply Ends.succ
      apply Ends.bind (eval_growing order v env σ)
        (fun x t => eval_growing order inE ((name, x) :: env) t) (h1 σ)
      intro x τ hgiven
      obtain ⟨hx, rfl⟩ := hgiven
      exact ih2 hfree.2 (henv.under .letBody hx) τ
  | @lam _ var e1 _ _ h1 ih1 =>
      intro σ
      obtain ⟨clEnv, hc, hclEnv⟩ := makeClosure_of_total h1 henv
      refine .returned (n := 1) (a := .closure var e1 clEnv) (s := σ) ?_ ⟨?_, rfl⟩
      · change Comp.ofExcept (makeClosure var e1 env) σ = _
        rw [hc]
        rfl
      · exact ⟨_, _, _, rfl, fun w hw => ih1 hfree (hclEnv.cons hw)⟩
  | @app _ e1 e2 _ _ _ _ ih1 ih2 =>
      intro σ
      have h1 := ih1 hfree.1 (henv.part .function)
      have h2 := ih2 hfree.2 (henv.part .argument)
      apply Ends.succ
      apply Ends.bind (Growing.operands order (eval_growing order e1 env)
        (eval_growing order e2 env)) ?_
        (Ends.operands order (eval_growing order e1 env) (eval_growing order e2 env) (h1 σ) (h2 σ))
      · intro p τ hgiven
        obtain ⟨f, x⟩ := p
        obtain ⟨⟨⟨var, body, defs, rfl, hbody⟩, hx⟩, rfl⟩ := hgiven
        exact hbody x hx τ
      · intro p τ n
        obtain ⟨f, x⟩ := p
        cases f with
        | closure var body defs => exact eval_growing order body _ τ n
        | int _ | bool _ | ref _ | listVal _ => exact .refl _
  | letRec => exact hfree.elim
  | @ifE _ e1 e2 e3 _ _ _ _ ih1 ih2 ih3 =>
      intro σ
      have h1 := ih1 hfree.1 (henv.part .condition)
      have h2 := ih2 hfree.2.1 (henv.part .thenE)
      have h3 := ih3 hfree.2.2 (henv.part .elseE)
      apply Ends.succ
      apply Ends.bind (eval_growing order e1 env σ) ?_ (h1 σ)
      · intro v τ hgiven
        obtain ⟨⟨b, rfl⟩, rfl⟩ := hgiven
        cases b with
        | true => exact h2 τ
        | false => exact h3 τ
      · intro v τ n
        cases v with
        | bool b =>
            cases b with
            | true => exact eval_growing order e2 env τ n
            | false => exact eval_growing order e3 env τ n
        | int _ | closure _ _ _ | ref _ | listVal _ => exact .refl _

/-- A function that applies its argument twice, to a function that divides by a free name. -/
def halvedTwice : Expr :=
  .app (.app (.lam "f" (.lam "x" (.app (.id "f") (.app (.id "f") (.id "x")))))
    (.lam "n" (.div (.id "n") (.id "d")))) (.val (.int 8))

end UmnProjects.Evaluator
