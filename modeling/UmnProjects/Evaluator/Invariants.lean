import UmnProjects.Evaluator.Closures

/-!
What an evaluation keeps. An invariant speaks of the values that are returned, of what
environments hold, of expressions and of stores; if the few steps of the evaluator that handle
values keep it, then every evaluation does, in every recursive call it makes.
-/
namespace UmnProjects.Evaluator
open UmnProjects.Computation

/-! ### Cells that existed before -/

/-- Cells that existed before keep their content. -/
structure Store.Later (σ σ' : Store) : Prop where
  size_le : σ.size ≤ σ'.size
  cells_eq : ∀ r < σ.size, σ'.cells r = σ.cells r

theorem Store.Later.refl (σ : Store) : σ.Later σ := ⟨Nat.le_refl _, fun _ _ => rfl⟩

theorem Store.Later.trans {σ σ' σ'' : Store} (h : σ.Later σ') (h' : σ'.Later σ'') :
    σ.Later σ'' := by
  refine ⟨Nat.le_trans h.size_le h'.size_le, ?_⟩
  intro r hr
  rw [h'.cells_eq r (Nat.lt_of_lt_of_le hr h.size_le), h.cells_eq r hr]

theorem Store.Later.deref {σ σ' : Store} (h : σ.Later σ') {v : Value}
    (hv : ∀ r, v = .ref r → r < σ.size) : σ'.deref v = σ.deref v := by
  cases v with
  | ref r => exact h.cells_eq r (hv r rfl)
  | int _ | bool _ | closure _ _ _ | listVal _ => rfl

theorem later_alloc (σ : Store) (v : Value) : σ.Later (σ.alloc v).2 := by
  refine ⟨Nat.le_succ _, ?_⟩
  intro r hr
  simp [Store.alloc, Nat.ne_of_lt hr]

/-- Assigning a cell that was allocated later. -/
theorem Store.Later.assign {σ τ : Store} (h : σ.Later τ) {r : Nat} (hr : σ.size ≤ r) (v : Value) :
    σ.Later (τ.assign r v).2 := by
  refine ⟨h.size_le, ?_⟩
  intro i hi
  have hne : i ≠ r := by omega
  simpa [Store.assign, hne] using h.cells_eq i hi

/-! ### The recursive calls of an evaluation -/

structure Config where
  expr : Expr
  env : Environment
  store : Store

/-- The expressions whose two subexpressions are evaluated as a tuple. -/
inductive Operands : Expr → Expr → Expr → Prop where
  | binary (op : BinaryOp) (e1 e2 : Expr) : Operands (op.expr e1 e2) e1 e2
  | app (e1 e2 : Expr) : Operands (.app e1 e2) e1 e2

theorem Operands.part {e e1 e2 : Expr} (h : Operands e e1 e2) : Part e1 e ∧ Part e2 e := by
  cases h with
  | binary op e1 e2 => exact ⟨.left, .right⟩
  | app e1 e2 => exact ⟨.function, .argument⟩

/-- `Calls order c d`: evaluating `c` makes the recursive call `d`. -/
inductive Calls (order : Order) : Config → Config → Prop where
  | left {e e1 e2 env σ σ'} : Operands e e1 e2 →
      (order = .leftToRight ∧ σ' = σ ∨
        order = .rightToLeft ∧ ∃ n v, eval order n e2 env σ = some (.ok (v, σ'))) →
      Calls order ⟨e, env, σ⟩ ⟨e1, env, σ'⟩
  | right {e e1 e2 env σ σ'} : Operands e e1 e2 →
      (order = .rightToLeft ∧ σ' = σ ∨
        order = .leftToRight ∧ ∃ n v, eval order n e1 env σ = some (.ok (v, σ'))) →
      Calls order ⟨e, env, σ⟩ ⟨e2, env, σ'⟩
  | body {e1 e2 env σ n var body defs x σ'} :
      operands order (eval order n e1 env) (eval order n e2 env) σ =
        some (.ok ((.closure var body defs, x), σ')) →
      Calls order ⟨.app e1 e2, env, σ⟩ ⟨body, (var, x) :: defs, σ'⟩
  | operand {op : UnaryOp} {e1 env σ} : Calls order ⟨op.expr e1, env, σ⟩ ⟨e1, env, σ⟩
  | letBound {name v inE env σ} : Calls order ⟨.letE name v inE, env, σ⟩ ⟨v, env, σ⟩
  | letBody {name v inE env σ n x σ'} : eval order n v env σ = some (.ok (x, σ')) →
      Calls order ⟨.letE name v inE, env, σ⟩ ⟨inE, (name, x) :: env, σ'⟩
  | recBound {name fxn e1 env σ} :
      Calls order ⟨.letRec name fxn e1, env, σ⟩
        ⟨fxn, (name, .ref σ.size) :: env, (σ.alloc (.int 999)).2⟩
  | recBody {name fxn e1 env σ n c σ'} :
      eval order n fxn ((name, .ref σ.size) :: env) (σ.alloc (.int 999)).2 =
        some (.ok (c, σ')) →
      Calls order ⟨.letRec name fxn e1, env, σ⟩
        ⟨e1, (name, .ref σ.size) :: env, (σ'.assign σ.size c).2⟩
  | condition {e1 e2 e3 env σ} : Calls order ⟨.ifE e1 e2 e3, env, σ⟩ ⟨e1, env, σ⟩
  | thenE {e1 e2 e3 env σ n σ'} : eval order n e1 env σ = some (.ok (.bool true, σ')) →
      Calls order ⟨.ifE e1 e2 e3, env, σ⟩ ⟨e2, env, σ'⟩
  | elseE {e1 e2 e3 env σ n σ'} : eval order n e1 env σ = some (.ok (.bool false, σ')) →
      Calls order ⟨.ifE e1 e2 e3, env, σ⟩ ⟨e3, env, σ'⟩

/-! ### Invariants -/

/-- Properties that the steps of an evaluation keep. All but that of the stores may depend on
the number of cells, and grow with it. -/
structure Invariant where
  value : Nat → Value → Prop
  entry : Nat → Value → Prop
  expr : Nat → Expr → Prop
  store : Store → Prop
  value_mono : ∀ {m n : Nat} {v : Value}, value m v → m ≤ n → value n v
  entry_mono : ∀ {m n : Nat} {v : Value}, entry m v → m ≤ n → entry n v
  expr_mono : ∀ {m n : Nat} {e : Expr}, expr m e → m ≤ n → expr n e
  part : ∀ {n : Nat} {e1 e : Expr}, expr n e → Part e1 e → expr n e1
  under : ∀ {n : Nat} {name : String} {e1 e : Expr}, expr n e → Under name e1 e → expr n e1
  literal : ∀ {n : Nat} {v : Value}, expr n (.val v) → value n v
  int : ∀ {n : Nat} (i : Int63), value n (.int i)
  bool : ∀ {n : Nat} (b : Bool), value n (.bool b)
  nil : ∀ {n : Nat}, value n (.listVal [])
  cons : ∀ {n : Nat} {v : Value} {l : List Value},
    value n v → value n (.listVal l) → value n (.listVal (v :: l))
  uncons : ∀ {n : Nat} {v : Value} {l : List Value},
    value n (.listVal (v :: l)) → value n v ∧ value n (.listVal l)
  closure : ∀ {n : Nat} {var : String} {e : Expr} {env clEnv : Environment}, expr n e →
    (∀ b ∈ env, entry n b.2) → Captures (captured var e) env clEnv →
    value n (.closure var e clEnv)
  body : ∀ {n : Nat} {var : String} {e : Expr} {env : Environment},
    value n (.closure var e env) → expr n e ∧ ∀ b ∈ env, entry n b.2
  /-- A returned value is bound. -/
  bound : ∀ {n : Nat} {v : Value}, value n v → entry n v
  /-- A cell is bound. -/
  cell : ∀ {n r : Nat}, r < n → entry n (.ref r)
  deref : ∀ {σ : Store} {v : Value}, store σ → entry σ.size v → value σ.size (σ.deref v)
  alloc : ∀ {σ : Store} (i : Int63), store σ → store (σ.alloc (.int i)).2
  assign : ∀ {σ : Store} {r : Nat} {v : Value}, store σ → value σ.size v →
    store (σ.assign r v).2

/-- The exceptions of an evaluation, from those of its parts. -/
structure Invariant.Raises (I : Invariant) (E : Expr → Environment → Exn → Prop) : Prop where
  part : ∀ {e1 e : Expr} {env : Environment} {x : Exn}, Part e1 e → E e1 env x → E e env x
  under : ∀ {name : String} {e1 e : Expr} {v : Value} {env : Environment} {x : Exn},
    Under name e1 e → E e1 ((name, v) :: env) x → E e env x
  body : ∀ {n : Nat} {var : String} {body : Expr} {v : Value} {defs env : Environment}
    {e1 e2 : Expr} {x : Exn}, I.value n (.closure var body defs) →
    E body ((var, v) :: defs) x → E (.app e1 e2) env x
  missing : ∀ {name : String} {env : Environment}, find name env = none →
    E (.id name) env (.unboundVariable name)
  uncaptured : ∀ {var : String} {e1 : Expr} {env : Environment} {x : Exn},
    makeClosure var e1 env = .error x → E (.lam var e1) env x
  other : ∀ {e : Expr} {env : Environment} {x : Exn}, (∀ name, x ≠ .unboundVariable name) →
    E e env x

structure Invariant.Holds (I : Invariant) (c : Config) : Prop where
  expr : I.expr c.store.size c.expr
  env : ∀ b ∈ c.env, I.entry c.store.size b.2
  store : I.store c.store

/-- What an evaluation that started from `σ` ends with. -/
structure Invariant.Result (I : Invariant) (σ : Store) (v : Value) (τ : Store) : Prop where
  value : I.value τ.size v
  store : I.store τ
  later : σ.Later τ

namespace Invariant

variable {I : Invariant} {e e1 : Expr} {env : Environment} {σ τ : Store}

theorem binary (I : Invariant) (op : BinaryOp) {n : Nat} {v w u : Value} (hv : I.value n v)
    (hw : I.value n w) (h : op.apply v w = .ok u) : I.value n u := by
  have hr := op.apply_result v w
  rw [h] at hr
  cases hr with
  | int i => exact I.int i
  | bool b => exact I.bool b
  | cons hl =>
      subst hl
      exact I.cons hv hw

theorem unary (I : Invariant) (op : UnaryOp) {n : Nat} {v u : Value} (hv : I.value n v)
    (h : op.apply v = .ok u) : I.value n u := by
  have hr := op.apply_result v
  rw [h] at hr
  cases hr with
  | int i => exact I.int i
  | bool b => exact I.bool b
  | head hl =>
      subst hl
      exact (I.uncons hv).1
  | tail hl =>
      subst hl
      exact (I.uncons hv).2

theorem raises_any (I : Invariant) : I.Raises fun _ _ _ => True :=
  ⟨fun _ _ => trivial, fun _ _ => trivial, fun _ _ => trivial, fun _ => trivial,
    fun _ => trivial, fun _ => trivial⟩

theorem Holds.part (h : I.Holds ⟨e, env, σ⟩) (hp : Part e1 e) (hτ : I.store τ)
    (hl : σ.Later τ) : I.Holds ⟨e1, env, τ⟩ :=
  ⟨I.expr_mono (I.part h.expr hp) hl.size_le, fun b hb => I.entry_mono (h.env b hb) hl.size_le,
    hτ⟩

theorem Holds.under {name : String} {v : Value} (h : I.Holds ⟨e, env, σ⟩) (hu : Under name e1 e)
    (hv : I.entry τ.size v) (hτ : I.store τ) (hl : σ.Later τ) :
    I.Holds ⟨e1, (name, v) :: env, τ⟩ :=
  ⟨I.expr_mono (I.under h.expr hu) hl.size_le,
    List.forall_mem_cons.mpr ⟨hv, fun b hb => I.entry_mono (h.env b hb) hl.size_le⟩, hτ⟩

/-- The bound expression starts with its cell, which holds the placeholder. -/
theorem Holds.recBound {name : String} {fxn : Expr} (h : I.Holds ⟨.letRec name fxn e1, env, σ⟩) :
    I.Holds ⟨fxn, (name, .ref σ.size) :: env, (σ.alloc (.int 999)).2⟩ :=
  h.under .recBound (I.cell (Nat.lt_succ_self _)) (I.alloc 999 h.store) (later_alloc σ _)

theorem Holds.recBody {name : String} {fxn : Expr} {v : Value}
    (h : I.Holds ⟨.letRec name fxn e1, env, σ⟩) (hr : I.Result (σ.alloc (.int 999)).2 v τ) :
    I.Holds ⟨e1, (name, .ref σ.size) :: env, (τ.assign σ.size v).2⟩ :=
  h.under .recBody (I.cell hr.later.size_le) (I.assign hr.store hr.value)
    (((later_alloc σ _).trans hr.later).assign (Nat.le_refl _) v)

/-- The call of a closure. -/
theorem Holds.body {var : String} {body : Expr} {defs : Environment} {x : Value}
    (hf : I.value τ.size (.closure var body defs)) (hx : I.value τ.size x) (hτ : I.store τ) :
    I.Holds ⟨body, (var, x) :: defs, τ⟩ :=
  ⟨(I.body hf).1, List.forall_mem_cons.mpr ⟨I.bound hx, (I.body hf).2⟩, hτ⟩

theorem Result.ensures {E : Exn → Prop} {o : Outcome Store Exn Value} (hl : σ.Later τ)
    (h : Ensures o (I.Result τ) E) : Ensures o (I.Result σ) E :=
  h.mono (fun _ _ hr => ⟨hr.value, hr.store, hl.trans hr.later⟩) fun _ hx => hx

theorem eval (I : Invariant) {E : Expr → Environment → Exn → Prop} (hE : I.Raises E)
    (order : Order) (n : Nat) {c : Config} (h : I.Holds c) :
    Ensures (Evaluator.eval order n c.expr c.env c.store) (I.Result c.store)
      (E c.expr c.env) := by
  induction n generalizing c with
  | zero => trivial
  | succ n ih =>
      obtain ⟨e, env, σ⟩ := c
      change Ensures (evalWith (source order) (n + 1) e env σ) (I.Result σ) (E e env)
      have part : ∀ {e1 τ}, Part e1 e → I.store τ → σ.Later τ →
          Ensures (Evaluator.eval order n e1 env τ) (I.Result τ) (E e env) :=
        fun hp hτ hl => (ih (h.part hp hτ hl)).mono (fun _ _ hr => hr) fun _ => hE.part hp
      have under : ∀ {name e1 v τ}, Under name e1 e → I.Holds ⟨e1, (name, v) :: env, τ⟩ →
          Ensures (Evaluator.eval order n e1 ((name, v) :: env) τ) (I.Result τ) (E e env) :=
        fun hu hd => (ih hd).mono (fun _ _ hr => hr) fun _ => hE.under hu
      have first {e1} (hp : Part e1 e) := part hp h.store (.refl σ)
      have pair : ∀ e1 e2, Part e1 e → Part e2 e →
          Ensures (operands order (Evaluator.eval order n e1 env) (Evaluator.eval order n e2 env) σ)
            (fun p τ => I.value τ.size p.1 ∧ I.value τ.size p.2 ∧ I.store τ ∧ σ.Later τ)
            (E e env) := by
        intro e1 e2 h1 h2
        refine Ensures.operands_along order (R := fun v τ => I.value τ.size v) Store.Later.refl
          (fun _ _ _ => .trans) (fun _ _ _ hv hl => I.value_mono hv hl.size_le) h.store ?_ ?_
        · exact fun τ hτ hl =>
            (part h1 hτ hl).mono (fun _ _ hr => ⟨hr.value, hr.store, hr.later⟩) fun _ hx => hx
        · exact fun τ hτ hl =>
            (part h2 hτ hl).mono (fun _ _ hr => ⟨hr.value, hr.store, hr.later⟩) fun _ hx => hx
      cases e using Expr.shapes with
      | val v => exact ⟨I.literal h.expr, h.store, .refl σ⟩
      | nil => exact ⟨I.nil, h.store, .refl σ⟩
      | binary op e1 e2 =>
          rw [evalWith_binary]
          refine (pair e1 e2 .left .right).bind ?_
          rintro ⟨v, w⟩ τ ⟨hv, hw, hτ, hl⟩
          cases ha : op.apply v w with
          | ok u => exact ⟨I.binary op hv hw ha, hτ, hl⟩
          | error x => exact hE.other fun y hy => op.apply_ne_unbound v w y (hy ▸ ha)
      | unary op e1 =>
          rw [evalWith_unary]
          refine (first .operand).bind ?_
          intro v τ hr
          cases ha : op.apply v with
          | ok u => exact ⟨I.unary op hr.value ha, hr.store, hr.later⟩
          | error x => exact hE.other fun y hy => op.apply_ne_unbound v y (hy ▸ ha)
      | letE name v inE =>
          refine (first .letBound).bind ?_
          intro x τ hr
          exact Result.ensures hr.later
            (under .letBody (h.under .letBody (I.bound hr.value) hr.store hr.later))
      | id name =>
          simp only [evalWith]
          cases hf : find name env with
          | none => exact hE.missing hf
          | some v => exact ⟨I.deref h.store (h.env _ (find_mem hf)), h.store, .refl σ⟩
      | lam var e1 =>
          change Ensures (Comp.ofExcept (makeClosure var e1 env) σ) _ _
          cases hm : makeClosure var e1 env with
          | error x => exact hE.uncaptured hm
          | ok v =>
              obtain ⟨clEnv, rfl, hc⟩ := makeClosure_ok hm
              exact ⟨I.closure (I.under h.expr .lam) h.env hc, h.store, .refl σ⟩
      | app e1 e2 =>
          refine (pair e1 e2 .function .argument).bind ?_
          rintro ⟨f, x⟩ τ ⟨hf, hx, hτ, hl⟩
          cases f with
          | closure var body defs =>
              exact Result.ensures hl
                ((ih (.body hf hx hτ)).mono (fun _ _ hr => hr) fun _ => hE.body hf)
          | int _ | bool _ | ref _ | listVal _ => exact hE.other fun _ => nofun
      | letRec name fxn e1 =>
          refine (under .recBound h.recBound).bind ?_
          intro c τ hr
          have hl := ((later_alloc σ _).trans hr.later).assign (Nat.le_refl _) c
          exact Result.ensures hl (under .recBody (h.recBody hr))
      | ifE e1 e2 e3 =>
          refine (first .condition).bind ?_
          intro v τ hr
          cases v with
          | bool b =>
              cases b with
              | true => exact Result.ensures hr.later (part .thenE hr.store hr.later)
              | false => exact Result.ensures hr.later (part .elseE hr.store hr.later)
          | int _ | closure _ _ _ | ref _ | listVal _ => exact hE.other fun _ => nofun

theorem Holds.result {order : Order} {n : Nat} {c : Config} {v : Value} (h : I.Holds c)
    (hr : Evaluator.eval order n c.expr c.env c.store = some (.ok (v, τ))) :
    I.Result c.store v τ :=
  (I.eval I.raises_any order n h).of_ok hr

/-- The two operands of a call. -/
theorem Holds.operands {order : Order} {n : Nat} {e2 : Expr} {v w : Value}
    (h : I.Holds ⟨.app e1 e2, env, σ⟩)
    (hr : operands order (Evaluator.eval order n e1 env) (Evaluator.eval order n e2 env) σ =
      some (.ok ((v, w), τ))) :
    I.value τ.size v ∧ I.value τ.size w ∧ I.store τ := by
  have run {e1 τ} (hp : Part e1 (.app _ e2)) (hτ : I.store τ) (hl : σ.Later τ) :=
    (I.eval I.raises_any order n (h.part hp hτ hl)).mono
      (fun _ _ hr => And.intro hr.value (And.intro hr.store hr.later)) fun _ hx => hx
  have hpair := Ensures.operands_along order (R := fun v τ => I.value τ.size v) Store.Later.refl
    (fun _ _ _ => .trans) (fun _ _ _ hv hl => I.value_mono hv hl.size_le) h.store
    (fun _ => run .function) fun _ => run .argument
  obtain ⟨hv, hw, hτ, _⟩ := hpair.of_ok hr
  exact ⟨hv, hw, hτ⟩

theorem Holds.call {order : Order} {c d : Config} (h : I.Holds c) (hcall : Calls order c d) :
    I.Holds d := by
  cases hcall with
  | left hop hstore =>
      obtain ⟨_, rfl⟩ | ⟨_, n, v, hr⟩ := hstore
      · exact h.part hop.part.1 h.store (.refl _)
      · have hright := (h.part hop.part.2 h.store (.refl _)).result hr
        exact h.part hop.part.1 hright.store hright.later
  | right hop hstore =>
      obtain ⟨_, rfl⟩ | ⟨_, n, v, hr⟩ := hstore
      · exact h.part hop.part.2 h.store (.refl _)
      · have hleft := (h.part hop.part.1 h.store (.refl _)).result hr
        exact h.part hop.part.2 hleft.store hleft.later
  | body hr =>
      obtain ⟨hf, hx, hτ⟩ := h.operands hr
      exact .body hf hx hτ
  | operand => exact h.part .operand h.store (.refl _)
  | letBound => exact h.part .letBound h.store (.refl _)
  | letBody hr =>
      have hbound := (h.part .letBound h.store (.refl _)).result hr
      exact h.under .letBody (I.bound hbound.value) hbound.store hbound.later
  | recBound => exact h.recBound
  | recBody hr => exact h.recBody (h.recBound.result hr)
  | condition => exact h.part .condition h.store (.refl _)
  | thenE hr =>
      have hcondition := (h.part .condition h.store (.refl _)).result hr
      exact h.part .thenE hcondition.store hcondition.later
  | elseE hr =>
      have hcondition := (h.part .condition h.store (.refl _)).result hr
      exact h.part .elseE hcondition.store hcondition.later

/-- Every call made on the way, at any depth, starts within the invariant. -/
theorem Holds.reached {order : Order} {c d : Config} (h : I.Holds c)
    (hd : Relation.ReflTransGen (Calls order) c d) : I.Holds d := by
  induction hd with
  | refl => exact h
  | tail _ hcall ih => exact ih.call hcall

end Invariant

/-- The invariant that asks for nothing. -/
def anything : Invariant where
  value _ _ := True
  entry _ _ := True
  expr _ _ := True
  store _ := True
  value_mono _ _ := trivial
  entry_mono _ _ := trivial
  expr_mono _ _ := trivial
  part _ _ := trivial
  under _ _ := trivial
  literal _ := trivial
  int _ := trivial
  bool _ := trivial
  nil := trivial
  cons _ _ := trivial
  uncons _ := ⟨trivial, trivial⟩
  closure _ _ _ := trivial
  body _ := ⟨trivial, fun _ _ => trivial⟩
  bound _ := trivial
  cell _ := trivial
  deref _ _ := trivial
  alloc _ _ := trivial
  assign _ _ := trivial

/-- An evaluation writes to no cell that existed before. -/
theorem eval_later (order : Order) (n : Nat) (e : Expr) (env : Environment) (σ : Store) :
    Ensures (eval order n e env σ) (fun _ τ => σ.Later τ) (fun _ => True) :=
  (anything.eval anything.raises_any order n (c := ⟨e, env, σ⟩)
    ⟨trivial, fun _ _ => trivial, trivial⟩).mono (fun _ _ hr => hr.later) fun _ hx => hx

end UmnProjects.Evaluator
