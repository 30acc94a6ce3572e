import UmnProjects.Evaluator.Recursion

/-!
Whether the integer that a fresh cell starts with can be seen. It is seen when the bound
expression of a recursive binding reads the cell of this binding, and in no other way.
-/
namespace UmnProjects.Evaluator
open UmnProjects.Computation

/-- The source's evaluator with another integer in a fresh cell. -/
def startingWith (order : Order) (p : Int63) : Variant := { source order with placeholder := p }

/-- Evaluating `c` looks up a name that is bound to the cell `r`. -/
def Reads (order : Order) (c : Config) (r : Nat) : Prop :=
  ∃ name env σ, Relation.ReflTransGen (Calls order) c ⟨.id name, env, σ⟩ ∧
    find name env = some (.ref r)

/-- On the way, the bound expression of a recursive binding reads the cell of this binding,
which is assigned only after it. -/
def ReadsPlaceholder (order : Order) (c : Config) : Prop :=
  ∃ name fxn e1 env σ, Relation.ReflTransGen (Calls order) c ⟨.letRec name fxn e1, env, σ⟩ ∧
    Reads order ⟨fxn, (name, .ref σ.size) :: env, (σ.alloc (.int 999)).2⟩ σ.size

theorem Reads.head {order : Order} {c d : Config} {r : Nat} (hcall : Calls order c d)
    (h : Reads order d r) : Reads order c r := by
  obtain ⟨name, env, σ, hd, hr⟩ := h
  exact ⟨name, env, σ, hd.head hcall, hr⟩

theorem ReadsPlaceholder.head {order : Order} {c d : Config} (hcall : Calls order c d)
    (h : ReadsPlaceholder order d) : ReadsPlaceholder order c := by
  obtain ⟨name, fxn, e1, env, σ, hd, hr⟩ := h
  exact ⟨name, fxn, e1, env, σ, hd.head hcall, hr⟩

/-! ### Two placeholders side by side -/

/-- The stores differ at most in the cells `D`. -/
structure SameElsewhere (D : Nat → Prop) (σ τ : Store) : Prop where
  size_eq : σ.size = τ.size
  cells_eq : ∀ r, ¬ D r → σ.cells r = τ.cells r

theorem SameElsewhere.alloc {D : Nat → Prop} {σ τ : Store} (h : SameElsewhere D σ τ)
    (v w : Value) :
    SameElsewhere (fun r => D r ∨ r = σ.size) (σ.alloc v).2 (τ.alloc w).2 := by
  refine ⟨congrArg (· + 1) h.size_eq, ?_⟩
  intro r hr
  have hne : r ≠ σ.size := fun hr' => hr (.inr hr')
  have hne' : r ≠ τ.size := h.size_eq ▸ hne
  simpa [Store.alloc, hne, hne'] using h.cells_eq r fun hD => hr (.inl hD)

/-- The assignment closes the gap. -/
theorem SameElsewhere.assign {D : Nat → Prop} {σ τ : Store} {r : Nat}
    (h : SameElsewhere (fun i => D i ∨ i = r) σ τ) (v : Value) :
    SameElsewhere D (σ.assign r v).2 (τ.assign r v).2 := by
  refine ⟨h.size_eq, ?_⟩
  intro i hi
  simp only [Store.assign]
  split
  · rfl
  · next hne => exact h.cells_eq i fun hD => hD.elim hi hne

theorem SameElsewhere.eq {σ τ : Store} (h : SameElsewhere (fun _ => False) σ τ) : σ = τ := by
  obtain ⟨size, cells⟩ := σ
  obtain ⟨size', cells'⟩ := τ
  obtain rfl : size = size' := h.size_eq
  obtain rfl : cells = cells' := funext fun r => h.cells_eq r not_false
  rfl

/-- Nothing that evaluating `c` reads is in `D` or is a placeholder. -/
structure Blind (order : Order) (D : Nat → Prop) (c : Config) : Prop where
  hidden : ∀ r, D r → ¬ Reads order c r
  assigned : ¬ ReadsPlaceholder order c

theorem Blind.call {order : Order} {D : Nat → Prop} {c d : Config} (h : Blind order D c)
    (hcall : Calls order c d) : Blind order D d :=
  ⟨fun r hr hd => h.hidden r hr (hd.head hcall), fun hd => h.assigned (hd.head hcall)⟩

theorem Blind.bound {order : Order} {D : Nat → Prop} {name : String} {fxn e1 : Expr}
    {env : Environment} {σ : Store} (h : Blind order D ⟨.letRec name fxn e1, env, σ⟩) :
    Blind order (fun r => D r ∨ r = σ.size)
      ⟨fxn, (name, .ref σ.size) :: env, (σ.alloc (.int 999)).2⟩ := by
  have hcall : Calls order ⟨.letRec name fxn e1, env, σ⟩ _ := .recBound
  refine ⟨?_, (h.call hcall).assigned⟩
  rintro r (hr | rfl)
  · exact (h.call hcall).hidden r hr
  · exact fun hreads => h.assigned ⟨name, fxn, e1, env, σ, .refl, hreads⟩

theorem Blind.deref {order : Order} {D : Nat → Prop} {name : String} {env : Environment}
    {σ τ : Store} (h : Blind order D ⟨.id name, env, σ⟩) (hσ : SameElsewhere D σ τ) {v : Value}
    (hv : find name env = some v) : σ.deref v = τ.deref v := by
  cases v with
  | ref r => exact hσ.cells_eq r fun hr => h.hidden r hr ⟨name, env, σ, .refl, hv⟩
  | int _ | bool _ | closure _ _ _ | listVal _ => rfl

/-- What the two runs end with. -/
def SameResult {A : Type} (D : Nat → Prop) (v : A) (σ : Store) (w : A) (τ : Store) : Prop :=
  v = w ∧ SameElsewhere D σ τ

theorem agree_ofExcept {D : Nat → Prop} {σ τ : Store} (hσ : SameElsewhere D σ τ)
    (r : Except Exn Value) : Agree (SameResult D) (Comp.ofExcept r σ) (Comp.ofExcept r τ) := by
  cases r with
  | ok v => exact .returned ⟨rfl, hσ⟩
  | error x => exact .raised x

/-- The second operand starts from the store that the first one has left. -/
theorem agree_operands {order : Order} {p : Int63} {D : Nat → Prop} {n : Nat} {e e1 e2 : Expr}
    {env : Environment} {σ τ : Store} (hop : Operands e e1 e2) (h : Blind order D ⟨e, env, σ⟩)
    (hσ : SameElsewhere D σ τ)
    (ih : ∀ e1 env σ τ, Blind order D ⟨e1, env, σ⟩ → SameElsewhere D σ τ →
      Agree (SameResult D) (eval order n e1 env σ)
        (evalWith (startingWith order p) n e1 env τ)) :
    Agree (SameResult D) (operands order (eval order n e1 env) (eval order n e2 env) σ)
      (operands order (evalWith (startingWith order p) n e1 env)
        (evalWith (startingWith order p) n e2 env) τ) := by
  cases order with
  | leftToRight =>
      refine (ih e1 env σ τ (h.call (.left hop (.inl ⟨rfl, rfl⟩))) hσ).along.bind ?_
      rintro v σ' w τ' ⟨⟨rfl, hσ'⟩, hrun⟩
      refine (ih e2 env σ' τ' (h.call (.right hop (.inr ⟨rfl, n, v, hrun⟩))) hσ').bind ?_
      rintro v' σ'' w' τ'' ⟨rfl, hσ''⟩
      exact .returned ⟨rfl, hσ''⟩
  | rightToLeft =>
      refine (ih e2 env σ τ (h.call (.right hop (.inl ⟨rfl, rfl⟩))) hσ).along.bind ?_
      rintro v σ' w τ' ⟨⟨rfl, hσ'⟩, hrun⟩
      refine (ih e1 env σ' τ' (h.call (.left hop (.inr ⟨rfl, n, v, hrun⟩))) hσ').bind ?_
      rintro v' σ'' w' τ'' ⟨rfl, hσ''⟩
      exact .returned ⟨rfl, hσ''⟩

theorem eval_agree_startingWith (order : Order) (p : Int63) (n : Nat) (e : Expr)
    (env : Environment) (D : Nat → Prop) (σ τ : Store) (h : Blind order D ⟨e, env, σ⟩)
    (hσ : SameElsewhere D σ τ) :
    Agree (SameResult D) (eval order n e env σ) (evalWith (startingWith order p) n e env τ) := by
  induction n generalizing e env D σ τ with
  | zero => exact .exhausted
  | succ n ih =>
      change Agree _ (evalWith (source order) (n + 1) e env σ) _
      have pair {e1 e2} (hop : Operands e e1 e2) :=
        agree_operands hop h hσ fun e1 env σ τ => ih e1 env D σ τ
      cases e using Expr.shapes with
      | val _ | nil => exact .returned ⟨rfl, hσ⟩
      | binary op e1 e2 =>
          rw [evalWith_binary, evalWith_binary]
          refine (pair (.binary op e1 e2)).bind ?_
          rintro q σ' q' τ' ⟨rfl, hσ'⟩
          exact agree_ofExcept hσ' _
      | unary op e1 =>
          rw [evalWith_unary, evalWith_unary]
          refine (ih e1 env D σ τ (h.call .operand) hσ).bind ?_
          rintro v σ' w τ' ⟨rfl, hσ'⟩
          exact agree_ofExcept hσ' _
      | letE name v inE =>
          refine (ih v env D σ τ (h.call .letBound) hσ).along.bind ?_
          rintro x σ' x' τ' ⟨⟨rfl, hσ'⟩, hrun⟩
          exact ih inE _ D σ' τ' (h.call (.letBody hrun)) hσ'
      | id name =>
          simp only [evalWith]
          cases hf : find name env with
          | none => exact .raised _
          | some v => exact .returned ⟨h.deref hσ hf, hσ⟩
      | lam var e1 => exact agree_ofExcept hσ _
      | app e1 e2 =>
          refine (pair (.app e1 e2)).along.bind ?_
          rintro ⟨f, x⟩ σ' q τ' ⟨⟨rfl, hσ'⟩, hrun⟩
          cases f with
          | closure var body defs => exact ih body _ D σ' τ' (h.call (.body hrun)) hσ'
          | int _ | bool _ | ref _ | listVal _ => exact .raised _
      | letRec name fxn e1 =>
          obtain ⟨size, cells⟩ := τ
          obtain rfl : σ.size = size := hσ.size_eq
          refine (ih fxn _ _ _ _ h.bound (hσ.alloc (.int 999) (.int p))).along.bind ?_
          rintro c σ' c' τ' ⟨⟨rfl, hσ'⟩, hrun⟩
          exact ih e1 _ D _ _ (h.call (.recBody hrun)) (hσ'.assign c)
      | ifE e1 e2 e3 =>
          refine (ih e1 env D σ τ (h.call .condition) hσ).along.bind ?_
          rintro v σ' w τ' ⟨⟨rfl, hσ'⟩, hrun⟩
          cases v with
          | bool b =>
              cases b with
              | true => exact ih e2 env D σ' τ' (h.call (.thenE hrun)) hσ'
              | false => exact ih e3 env D σ' τ' (h.call (.elseE hrun)) hσ'
          | int _ | closure _ _ _ | ref _ | listVal _ => exact .raised _

/-! ### Lambdas as the bound expressions -/

/-- Every closure in the value has a body whose recursive bindings bind lambdas. -/
inductive Value.RecLambdas : Value → Prop where
  | int (v : Int63) : Value.RecLambdas (.int v)
  | bool (v : Bool) : Value.RecLambdas (.bool v)
  | ref (r : Nat) : Value.RecLambdas (.ref r)
  | nil : Value.RecLambdas (.listVal [])
  | cons {v : Value} {l : List Value} :
      Value.RecLambdas v → Value.RecLambdas (.listVal l) → Value.RecLambdas (.listVal (v :: l))
  | closure {var : String} {e : Expr} {env : Environment} :
      RecursiveLambdas e → (∀ v ∈ literals e, Value.RecLambdas v) →
      (∀ b ∈ env, Value.RecLambdas b.2) → Value.RecLambdas (.closure var e env)

structure Expr.RecLambdas (e : Expr) : Prop where
  bindings : RecursiveLambdas e
  literals : ∀ v ∈ literals e, v.RecLambdas

def Store.RecLambdas (σ : Store) : Prop := ∀ r, (σ.cells r).RecLambdas

/-- Every recursive binding of the program binds a lambda. -/
structure Config.RecLambdas (c : Config) : Prop where
  expr : c.expr.RecLambdas
  env : ∀ b ∈ c.env, b.2.RecLambdas
  store : c.store.RecLambdas

theorem Expr.RecLambdas.part {e1 e : Expr} (he : e.RecLambdas) (h : Part e1 e) :
    e1.RecLambdas :=
  ⟨h.recursiveLambdas he.bindings, fun v hv => he.literals v (h.literals v hv)⟩

theorem Expr.RecLambdas.under {name : String} {e1 e : Expr} (he : e.RecLambdas)
    (h : Under name e1 e) : e1.RecLambdas :=
  ⟨h.recursiveLambdas he.bindings, fun v hv => he.literals v (h.literals v hv)⟩

/-- Lambdas as the bound expressions, as an invariant. -/
def bindingLambdas : Invariant where
  value _ := Value.RecLambdas
  entry _ := Value.RecLambdas
  expr _ := Expr.RecLambdas
  store := Store.RecLambdas
  value_mono h _ := h
  entry_mono h _ := h
  expr_mono h _ := h
  part := Expr.RecLambdas.part
  under := Expr.RecLambdas.under
  literal h := h.literals _ (by simp [literals])
  int := .int
  bool := .bool
  nil := .nil
  cons := .cons
  uncons h := by
    cases h with
    | cons hv hl => exact ⟨hv, hl⟩
  closure he henv hc :=
    .closure he.bindings he.literals fun b hb => henv _ (find_mem (hc.bound b hb))
  body h := by
    cases h with
    | closure hb hl henv => exact ⟨⟨hb, hl⟩, henv⟩
  bound h := h
  cell _ := .ref _
  deref h hv := Store.forall_deref h hv
  alloc i h := Store.forall_alloc h (.int i)
  assign h hv := Store.forall_assign h _ hv

/-- A lambda is closed without a call, so that it reads nothing. -/
theorem not_reads_lam {order : Order} {var : String} {body : Expr} {env : Environment}
    {σ : Store} {r : Nat} : ¬ Reads order ⟨.lam var body, env, σ⟩ r := by
  rintro ⟨name, env', σ', h, _⟩
  rw [Relation.ReflTransGen.cases_head_iff] at h
  obtain h | ⟨d, hcall, _⟩ := h
  · cases h
  · generalize he : Config.mk (.lam var body) env σ = c at hcall
    cases hcall with
    | left hop _ | right hop _ => cases hop with
      | binary op _ _ => cases op <;> cases he
      | app _ _ => cases he
    | @operand op => cases op <;> cases he
    | body _ | letBound | letBody _ | recBound | recBody _ | condition | thenE _ | elseE _ =>
        cases he

theorem Config.RecLambdas.not_readsPlaceholder {order : Order} {c : Config} (h : c.RecLambdas) :
    ¬ ReadsPlaceholder order c := by
  rintro ⟨name, fxn, e1, env, σ, hd, hr⟩
  have hholds : bindingLambdas.Holds c := ⟨h.expr, h.env, h.store⟩
  obtain ⟨var, body, rfl⟩ := (hholds.reached hd).expr.bindings.1
  exact not_reads_lam hr

/-! ### Any two placeholders -/

/-- Unless a placeholder is read, the outcomes with any two of them are the same, the final
cells included; and none is read where every recursive binding binds a lambda. -/
theorem placeholder_sameOutcome (order : Order) (e : Expr) (env : Environment) (σ : Store) :
    (¬ ReadsPlaceholder order ⟨e, env, σ⟩ → ∀ p q : Int63,
      SameOutcome (fun v τ w τ' => v = w ∧ τ = τ')
        (fun n => evalWith (startingWith order p) n e env σ)
        (fun n => evalWith (startingWith order q) n e env σ)) ∧
    (Config.RecLambdas ⟨e, env, σ⟩ → ¬ ReadsPlaceholder order ⟨e, env, σ⟩) := by
  refine ⟨?_, Config.RecLambdas.not_readsPlaceholder⟩
  intro h p q
  have hblind : Blind order (fun _ => False) ⟨e, env, σ⟩ := ⟨nofun, h⟩
  have heq : ∀ p n, eval order n e env σ = evalWith (startingWith order p) n e env σ := by
    intro p n
    refine (eval_agree_startingWith order p n e env _ σ σ hblind ⟨rfl, fun _ _ => rfl⟩).eq ?_
    rintro v τ w τ' ⟨rfl, hτ⟩
    exact ⟨rfl, hτ.eq⟩
  exact sameOutcome_of_eq fun n => (heq p n).symm.trans (heq q n)

theorem placeholder_sameOutcome_sumTo4 : SameOutcome (fun v τ w τ' => v = w ∧ τ = τ')
    (fun n => evalWith (startingWith .leftToRight 999) n sumTo4 [] Store.empty)
    (fun n => evalWith (startingWith .leftToRight 0) n sumTo4 [] Store.empty) := by
  have h := placeholder_sameOutcome .leftToRight sumTo4 [] Store.empty
  refine h.1 (h.2 ⟨⟨by simp [sumTo4, sumToN, RecursiveLambdas], ?_⟩, ?_, ?_⟩) 999 0
  · intro v hv
    cases sumTo4_plain v hv with
    | int i => exact .int i
    | bool b => exact .bool b
    | nil => exact .nil
    | cons _ _ => simp [sumTo4, sumToN, literals] at hv
  · exact fun b hb => by cases hb
  · exact fun r => .int 0

/-- `let rec x = x in x` -/
def selfBound : Expr := .letRec "x" (.id "x") (.id "x")

theorem placeholder_returned : ¬ SameOutcome (fun v _ w _ => v = w)
    (fun n => evalWith (startingWith .leftToRight 0) n selfBound [] Store.empty)
    (fun n => evalWith (startingWith .leftToRight 1) n selfBound [] Store.empty) := by
  have hrun : ∀ p, ∃ τ, evalWith (startingWith .leftToRight p) 2 selfBound [] Store.empty =
      some (.ok (.int p, τ)) := fun p => ⟨_, rfl⟩
  obtain ⟨τ, hτ⟩ := hrun 0
  obtain ⟨τ', hτ'⟩ := hrun 1
  rintro (⟨hd, _⟩ | ⟨x, ⟨n, hn⟩, _⟩ | ⟨v, ρ, w, ρ', ⟨n, hn⟩, ⟨m, hm⟩, rfl⟩)
  · exact absurd ((hd 2).symm.trans hτ) nofun
  · cases evalWith_outcome_unique _ hτ hn
  · cases evalWith_outcome_unique _ hτ hn
    cases evalWith_outcome_unique _ hτ' hm

end UmnProjects.Evaluator
