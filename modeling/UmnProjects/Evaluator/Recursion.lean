import UmnProjects.Evaluator.Invariants

/-!
Recursion through mutable cells against recursion through recursive closures.

The reference interpreter has no store: a recursive binding yields a closure that
remembers its own name and binds it to itself whenever it is applied. A value of
the evaluator represents a reference value relative to a store; the knot that the
evaluator ties through a cell is the self-reference of the recursive closure.
-/
namespace UmnProjects.Evaluator
open UmnProjects.Computation

inductive RefValue where
  | int (v : Int63)
  | bool (v : Bool)
  | closure (var : String) (e : Expr) (env : List (String × RefValue))
  | recClosure (name var : String) (e : Expr) (env : List (String × RefValue))
  | listVal (l : List RefValue)

abbrev RefEnvironment := List (String × RefValue)

mutual

/-- The reference value of a literal. Closure and reference literals have none and
are outside the reference interpreter's domain. -/
def ofLiteral : Value → RefValue
  | .int v => .int v
  | .bool v => .bool v
  | .listVal l => .listVal (ofLiterals l)
  | .closure _ _ _ | .ref _ => .listVal []

def ofLiterals : List Value → List RefValue
  | [] => []
  | v :: l => ofLiteral v :: ofLiterals l

end

def BinaryOp.applyRef : BinaryOp → RefValue → RefValue → Except Exn RefValue
  | .add, .int v1, .int v2 => .ok (.int (v1 + v2))
  | .sub, .int v1, .int v2 => .ok (.int (v1 - v2))
  | .mul, .int v1, .int v2 => .ok (.int (v1 * v2))
  | .div, .int v1, .int v2 =>
      if v2 = 0 then .error (.divisionByZero (.int v1)) else .ok (.int (v1.sdiv v2))
  | .lt, .int v1, .int v2 => .ok (.bool (v1.slt v2))
  | .gt, .int v1, .int v2 => .ok (.bool (v2.slt v1))
  | .eq, .int v1, .int v2 => .ok (.bool (v1 == v2))
  | .and, .bool v1, .bool v2 => .ok (.bool (v1 && v2))
  | .or, .bool v1, .bool v2 => .ok (.bool (v1 || v2))
  | .cons, x, .listVal l1 => .ok (.listVal (x :: l1))
  | op, _, _ => .error (.incorrectType op.name)

def UnaryOp.applyRef : UnaryOp → RefValue → Except Exn RefValue
  | .neg, .int v1 => .ok (.int (0 - v1))
  | .not, .bool v1 => .ok (.bool (!v1))
  | .head, .listVal [] => .error .headOfEmptyList
  | .head, .listVal (v :: _) => .ok v
  | .tail, .listVal [] => .error .tailOfEmptyList
  | .tail, .listVal (_ :: l1) => .ok (.listVal l1)
  | .isEmpty, .listVal l1 => .ok (.bool l1.isEmpty)
  | op, _ => .error (.incorrectType op.name)

/-- The reference interpreter; it has no store to speak of. -/
def evalRef (order : Order) : Nat → Expr → RefEnvironment → Comp Unit Exn RefValue
  | 0, _, _ => Comp.exhausted
  | n + 1, e, env =>
    let binary (op : BinaryOp) (e1 e2 : Expr) : Comp Unit Exn RefValue := do
      let p ← operands order (evalRef order n e1 env) (evalRef order n e2 env)
      Comp.ofExcept (op.applyRef p.1 p.2)
    let unary (op : UnaryOp) (e1 : Expr) : Comp Unit Exn RefValue := do
      let v ← evalRef order n e1 env
      Comp.ofExcept (op.applyRef v)
    match e with
    | .val v => pure (ofLiteral v)
    | .add e1 e2 => binary .add e1 e2
    | .sub e1 e2 => binary .sub e1 e2
    | .mul e1 e2 => binary .mul e1 e2
    | .div e1 e2 => binary .div e1 e2
    | .neg e1 => unary .neg e1
    | .lt e1 e2 => binary .lt e1 e2
    | .gt e1 e2 => binary .gt e1 e2
    | .eq e1 e2 => binary .eq e1 e2
    | .and e1 e2 => binary .and e1 e2
    | .or e1 e2 => binary .or e1 e2
    | .not e1 => unary .not e1
    | .letE name v inE => do
        let x ← evalRef order n v env
        evalRef order n inE ((name, x) :: env)
    | .id name =>
        match find name env with
        | some v => pure v
        | none => Comp.raise (.unboundVariable name)
    | .lam var e1 => pure (.closure var e1 env)
    | .app e1 e2 => do
        let p ← operands order (evalRef order n e1 env) (evalRef order n e2 env)
        match p.1 with
        | .closure var body defs => evalRef order n body ((var, p.2) :: defs)
        | .recClosure name var body defs =>
            -- the closure rebinds itself under its own name
            evalRef order n body ((var, p.2) :: (name, .recClosure name var body defs) :: defs)
        | _ => Comp.raise (.incorrectType "App")
    | .letRec name fxn e1 =>
        match fxn with
        | .lam var body => evalRef order n e1 ((name, .recClosure name var body env) :: env)
        | _ => Comp.raise (.incorrectType "LetRec")
    | .ifE e1 e2 e3 => do
        let v ← evalRef order n e1 env
        match v with
        | .bool true => evalRef order n e2 env
        | .bool false => evalRef order n e3 env
        | _ => Comp.raise (.incorrectType "If")
    | .nil => pure (.listVal [])
    | .cons e1 e2 => binary .cons e1 e2
    | .head e1 => unary .head e1
    | .tail e1 => unary .tail e1
    | .isEmpty e1 => unary .isEmpty e1

theorem evalRef_binary (order : Order) (n : Nat) (op : BinaryOp) (e1 e2 : Expr)
    (env : RefEnvironment) :
    evalRef order (n + 1) (op.expr e1 e2) env = (do
      let p ← operands order (evalRef order n e1 env) (evalRef order n e2 env)
      Comp.ofExcept (op.applyRef p.1 p.2)) := by
  cases op <;> rfl

theorem evalRef_unary (order : Order) (n : Nat) (op : UnaryOp) (e1 : Expr)
    (env : RefEnvironment) :
    evalRef order (n + 1) (op.expr e1) env = (do
      let v ← evalRef order n e1 env
      Comp.ofExcept (op.applyRef v)) := by
  cases op <;> rfl

/-- The bound expression of every recursive binding is a lambda. -/
def RecursiveLambdas : Expr → Prop
  | .val _ | .nil | .id _ => True
  | .add e1 e2 | .sub e1 e2 | .mul e1 e2 | .div e1 e2 | .lt e1 e2
  | .gt e1 e2 | .eq e1 e2 | .and e1 e2 | .or e1 e2 | .app e1 e2
  | .cons e1 e2 | .letE _ e1 e2 => RecursiveLambdas e1 ∧ RecursiveLambdas e2
  | .neg e1 | .not e1 | .head e1 | .tail e1 | .isEmpty e1 | .lam _ e1 => RecursiveLambdas e1
  | .letRec _ fxn e1 =>
      (∃ var body, fxn = .lam var body) ∧ RecursiveLambdas fxn ∧ RecursiveLambdas e1
  | .ifE e1 e2 e3 => RecursiveLambdas e1 ∧ RecursiveLambdas e2 ∧ RecursiveLambdas e3

theorem recursiveLambdas_binary (op : BinaryOp) (e1 e2 : Expr) :
    RecursiveLambdas (op.expr e1 e2) ↔ RecursiveLambdas e1 ∧ RecursiveLambdas e2 := by
  cases op <;> rfl

theorem recursiveLambdas_unary (op : UnaryOp) (e1 : Expr) :
    RecursiveLambdas (op.expr e1) ↔ RecursiveLambdas e1 := by
  cases op <;> rfl

/-- The programs both interpreters agree on. -/
structure Expr.Recursive (e : Expr) : Prop where
  plain : e.Plain
  lambdas : RecursiveLambdas e

theorem Part.recursiveLambdas {e1 e : Expr} (h : Part e1 e) (hl : RecursiveLambdas e) :
    RecursiveLambdas e1 := by
  cases h with
  | left => exact ((recursiveLambdas_binary _ _ _).mp hl).1
  | right => exact ((recursiveLambdas_binary _ _ _).mp hl).2
  | operand => exact (recursiveLambdas_unary _ _).mp hl
  | letBound | function | condition => exact hl.1
  | argument => exact hl.2
  | thenE => exact hl.2.1
  | elseE => exact hl.2.2

theorem Under.recursiveLambdas {name : String} {e1 e : Expr} (h : Under name e1 e)
    (hl : RecursiveLambdas e) : RecursiveLambdas e1 := by
  cases h with
  | lam => exact hl
  | letBody => exact hl.2
  | recBound => exact hl.2.1
  | recBody => exact hl.2.2

theorem Expr.Recursive.part {e1 e : Expr} (he : e.Recursive) (h : Part e1 e) : e1.Recursive :=
  ⟨he.plain.part h, h.recursiveLambdas he.lambdas⟩

theorem Expr.Recursive.under {name : String} {e1 e : Expr} (he : e.Recursive)
    (h : Under name e1 e) : e1.Recursive :=
  ⟨he.plain.under h, h.recursiveLambdas he.lambdas⟩

/-- A value of the evaluator stands, in this store, for a reference value: equal
integers and booleans, lists element by element, closures of the same parameter and
body. Only the captured names of a closure matter; a recursive closure is one whose
own name, where captured, is bound to a cell that holds the closure itself. -/
inductive Represents (σ : Store) : Value → RefValue → Prop where
  | int (v : Int63) : Represents σ (.int v) (.int v)
  | bool (v : Bool) : Represents σ (.bool v) (.bool v)
  | nil : Represents σ (.listVal []) (.listVal [])
  | cons {v : Value} {w : RefValue} {l : List Value} {m : List RefValue} :
      Represents σ v w → Represents σ (.listVal l) (.listVal m) →
      Represents σ (.listVal (v :: l)) (.listVal (w :: m))
  | closure {var : String} {e : Expr} {env : Environment} {renv : RefEnvironment} :
      (∀ y ∈ captured var e, ∃ v, find y env = some v ∧ ∀ r, v = .ref r → r < σ.size) →
      (∀ y ∈ captured var e, ∃ w, find y renv = some w) →
      (∀ y ∈ captured var e, ∀ v w, find y env = some v → find y renv = some w →
        Represents σ (σ.deref v) w) →
      e.Recursive → Represents σ (.closure var e env) (.closure var e renv)
  | recClosure {name var : String} {e : Expr} {env : Environment} {renv : RefEnvironment}
      {r : Nat} :
      r < σ.size → σ.cells r = .closure var e env →
      (name ∈ captured var e → find name env = some (.ref r)) →
      (∀ y ∈ captured var e, y ≠ name →
        ∃ v, find y env = some v ∧ ∀ r, v = .ref r → r < σ.size) →
      (∀ y ∈ captured var e, y ≠ name → ∃ w, find y renv = some w) →
      (∀ y ∈ captured var e, y ≠ name → ∀ v w, find y env = some v → find y renv = some w →
        Represents σ (σ.deref v) w) →
      e.Recursive → Represents σ (.closure var e env) (.recClosure name var e renv)

def EnvRepresents (σ : Store) (names : List String) (env : Environment)
    (renv : RefEnvironment) : Prop :=
  ∀ y ∈ names, ∃ v w, find y env = some v ∧ find y renv = some w ∧
    (∀ r, v = .ref r → r < σ.size) ∧ Represents σ (σ.deref v) w

theorem Represents.later {σ σ' : Store} (h : σ.Later σ') {v : Value} {w : RefValue}
    (hv : Represents σ v w) : Represents σ' v w := by
  induction hv with
  | int v => exact .int v
  | bool v => exact .bool v
  | nil => exact .nil
  | cons _ _ ihv ihl => exact .cons ihv ihl
  | closure hb hb' _ he ih =>
      refine .closure ?_ hb' ?_ he
      · intro y hy
        obtain ⟨v, hv, hr⟩ := hb y hy
        exact ⟨v, hv, fun r h' => Nat.lt_of_lt_of_le (hr r h') h.size_le⟩
      · intro y hy v w hv hw
        obtain ⟨u, hu, hr⟩ := hb y hy
        obtain rfl : u = v := Option.some.inj (hu.symm.trans hv)
        rw [h.deref hr]
        exact ih y hy u w hu hw
  | recClosure hr hcell hself hb hb' _ he ih =>
      refine .recClosure (Nat.lt_of_lt_of_le hr h.size_le) ?_ hself ?_ hb' ?_ he
      · rw [h.cells_eq _ hr, hcell]
      · intro y hy hne
        obtain ⟨v, hv, hr⟩ := hb y hy hne
        exact ⟨v, hv, fun r h' => Nat.lt_of_lt_of_le (hr r h') h.size_le⟩
      · intro y hy hne v w hv hw
        obtain ⟨u, hu, hr⟩ := hb y hy hne
        obtain rfl : u = v := Option.some.inj (hu.symm.trans hv)
        rw [h.deref hr]
        exact ih y hy hne u w hu hw

theorem EnvRepresents.later {σ σ' : Store} (h : σ.Later σ') {names : List String}
    {env : Environment} {renv : RefEnvironment} (henv : EnvRepresents σ names env renv) :
    EnvRepresents σ' names env renv := by
  intro y hy
  obtain ⟨v, w, hv, hw, hr, hvw⟩ := henv y hy
  refine ⟨v, w, hv, hw, fun r h' => Nat.lt_of_lt_of_le (hr r h') h.size_le, ?_⟩
  rw [h.deref hr]
  exact hvw.later h

theorem EnvRepresents.sub {σ : Store} {names names' : List String} {env : Environment}
    {renv : RefEnvironment} (h : EnvRepresents σ names env renv)
    (sub : ∀ y ∈ names', y ∈ names) : EnvRepresents σ names' env renv :=
  fun y hy => h y (sub y hy)

theorem EnvRepresents.part {σ : Store} {e1 e : Expr} {env : Environment} {renv : RefEnvironment}
    (h : EnvRepresents σ (freevars e) env renv) (hp : Part e1 e) :
    EnvRepresents σ (freevars e1) env renv :=
  h.sub hp.freevars

theorem EnvRepresents.cons {σ : Store} {names : List String} {env : Environment}
    {renv : RefEnvironment} {name : String} {v : Value} {w : RefValue}
    (hr : ∀ r, v = .ref r → r < σ.size) (hvw : Represents σ (σ.deref v) w)
    (h : EnvRepresents σ (names.filter (fun x' => name ≠ x')) env renv) :
    EnvRepresents σ names ((name, v) :: env) ((name, w) :: renv) := by
  intro y hy
  by_cases hn : name = y
  · exact ⟨v, w, by simp [hn], by simp [hn], hr, hvw⟩
  · obtain ⟨a, b, ha, hb, hab⟩ := h y (by simp [hy, hn])
    exact ⟨a, b, by simp [hn, ha], by simp [hn, hb], hab⟩

/-- A represented value is never itself a reference. -/
theorem Represents.deref {σ : Store} {v : Value} {w : RefValue} (h : Represents σ v w) :
    σ.deref v = v ∧ ∀ r, v ≠ .ref r := by
  cases h <;> exact ⟨rfl, fun _ => nofun⟩

theorem EnvRepresents.cons_value {σ : Store} {names : List String} {env : Environment}
    {renv : RefEnvironment} {name : String} {v : Value} {w : RefValue}
    (hvw : Represents σ v w)
    (h : EnvRepresents σ (names.filter (fun x' => name ≠ x')) env renv) :
    EnvRepresents σ names ((name, v) :: env) ((name, w) :: renv) := by
  obtain ⟨hd, hne⟩ := hvw.deref
  exact EnvRepresents.cons (fun r hr => absurd hr (hne r)) (by rwa [hd]) h

theorem EnvRepresents.under {σ : Store} {name : String} {e1 e : Expr} {env : Environment}
    {renv : RefEnvironment} {v : Value} {w : RefValue}
    (h : EnvRepresents σ (freevars e) env renv) (hu : Under name e1 e) (hvw : Represents σ v w) :
    EnvRepresents σ (freevars e1) ((name, v) :: env) ((name, w) :: renv) :=
  EnvRepresents.cons_value hvw (h.sub hu.freevars)

theorem Value.Plain.represents {v : Value} (h : v.Plain) (σ : Store) :
    Represents σ v (ofLiteral v) := by
  induction h with
  | int v => exact .int v
  | bool v => exact .bool v
  | nil => exact .nil
  | cons _ _ ihv ihl => exact .cons ihv ihl

def RecResult (σ : Store) (v : Value) (σ' : Store) (w : RefValue) (_ : Unit) : Prop :=
  Represents σ' v w ∧ σ.Later σ'

theorem BinaryOp.apply_represents (op : BinaryOp) {σ : Store} {v w : Value} {v' w' : RefValue}
    (hv : Represents σ v v') (hw : Represents σ w w') :
    Agree (fun a τ b (_ : Unit) => Represents τ a b ∧ τ = σ)
      (Comp.ofExcept (op.apply v w) σ) (Comp.ofExcept (op.applyRef v' w') ()) := by
  cases op
  case cons =>
    cases hw with
    | nil => exact .returned ⟨.cons hv .nil, rfl⟩
    | cons hh hl => exact .returned ⟨.cons hv (.cons hh hl), rfl⟩
    | int _ | bool _ | closure _ _ _ _ | recClosure _ _ _ _ _ _ _ => cases hv <;> exact .raised _
  case div =>
    cases hv <;> cases hw <;> try exact .raised _
    simp only [BinaryOp.apply, BinaryOp.applyRef]
    split
    · exact .raised _
    · exact .returned ⟨.int _, rfl⟩
  all_goals
    cases hv <;> cases hw <;>
      first
      | exact .raised _
      | exact .returned ⟨.int _, rfl⟩
      | exact .returned ⟨.bool _, rfl⟩

theorem UnaryOp.apply_represents (op : UnaryOp) {σ : Store} {v : Value} {v' : RefValue}
    (hv : Represents σ v v') :
    Agree (fun a τ b (_ : Unit) => Represents τ a b ∧ τ = σ)
      (Comp.ofExcept (op.apply v) σ) (Comp.ofExcept (op.applyRef v') ()) := by
  cases op <;> cases hv <;>
    first
    | exact .raised _
    | exact .returned ⟨.int _, rfl⟩
    | exact .returned ⟨.bool _, rfl⟩
    | exact .returned ⟨by assumption, rfl⟩

/-- Tying the knot: the cell receives the closure that captured it. -/
theorem represents_knot {σ : Store} {name var : String} {body : Expr} {env clEnv : Environment}
    {renv : RefEnvironment} (hb : body.Recursive)
    (hc : Captures (captured var body) ((name, .ref σ.size) :: env) clEnv)
    (h : EnvRepresents σ ((captured var body).filter (fun x' => name ≠ x')) env renv) :
    let σ' := (((σ.alloc (.int 999)).2).assign σ.size (.closure var body clEnv)).2
    σ.Later σ' ∧ Represents σ' (.closure var body clEnv) (.recClosure name var body renv) := by
  intro σ'
  have hlater : σ.Later σ' := by
    refine ⟨Nat.le_succ _, ?_⟩
    intro r hr
    simp [σ', Store.alloc, Store.assign, Nat.ne_of_lt hr]
  -- outside its own name the closure captured what the environment holds
  have hother : ∀ y ∈ captured var body, y ≠ name →
      ∃ v w, find y clEnv = some v ∧ find y renv = some w ∧
        (∀ r, v = .ref r → r < σ.size) ∧ Represents σ (σ.deref v) w := by
    intro y hy hne
    obtain ⟨v, hv, hv'⟩ := hc.find hy
    obtain ⟨a, w, ha, hw, hr, haw⟩ := h y (by simp [hy, Ne.symm hne])
    simp only [find_cons, Ne.symm hne, if_false] at hv'
    obtain rfl : a = v := Option.some.inj (ha.symm.trans hv')
    exact ⟨a, w, hv, hw, hr, haw⟩
  refine ⟨hlater, .recClosure (r := σ.size) (Nat.lt_succ_self _) ?_ ?_ ?_ ?_ ?_ hb⟩
  · simp [σ', Store.assign]
  · intro hname
    obtain ⟨v, hv, hv'⟩ := hc.find hname
    simp only [find_cons, if_true] at hv'
    rw [hv, ← hv']
  · intro y hy hne
    obtain ⟨v, _, hv, _, hr, _⟩ := hother y hy hne
    exact ⟨v, hv, fun r h' => Nat.lt_of_lt_of_le (hr r h') hlater.size_le⟩
  · intro y hy hne
    obtain ⟨_, w, _, hw, _, _⟩ := hother y hy hne
    exact ⟨w, hw⟩
  · intro y hy hne v w hv hw
    obtain ⟨a, b, ha, hb', hr, hab⟩ := hother y hy hne
    obtain rfl : a = v := Option.some.inj (ha.symm.trans hv)
    obtain rfl : b = w := Option.some.inj (hb'.symm.trans hw)
    rw [hlater.deref hr]
    exact hab.later hlater

/-- Applying a represented closure runs the same body in represented environments. -/
theorem Represents.apply {σ : Store} {var : String} {body : Expr} {defs : Environment}
    {f : RefValue} {x : Value} {x' : RefValue}
    (hf : Represents σ (.closure var body defs) f) (hx : Represents σ x x') :
    body.Recursive ∧ ((∃ renv, f = .closure var body renv ∧
      EnvRepresents σ (freevars body) ((var, x) :: defs) ((var, x') :: renv)) ∨
      ∃ name renv, f = .recClosure name var body renv ∧
        EnvRepresents σ (freevars body) ((var, x) :: defs)
          ((var, x') :: (name, .recClosure name var body renv) :: renv)) := by
  cases hf with
  | @closure _ _ _ renv hb hb' hdefs he =>
      refine ⟨he, .inl ⟨renv, rfl, EnvRepresents.cons_value hx ?_⟩⟩
      intro y hy
      obtain ⟨v, hv, hr⟩ := hb y hy
      obtain ⟨w, hw⟩ := hb' y hy
      exact ⟨v, w, hv, hw, hr, hdefs y hy v w hv hw⟩
  | @recClosure name _ _ _ renv r hr hcell hself hb hb' hdefs he =>
      refine ⟨he, .inr ⟨name, renv, rfl, EnvRepresents.cons_value hx ?_⟩⟩
      intro y hy
      by_cases hn : y = name
      · subst hn
        refine ⟨.ref r, .recClosure y var body renv, hself hy, by simp, ?_, ?_⟩
        · intro r' hr'
          cases hr'
          exact hr
        · simp only [Store.deref, hcell]
          exact .recClosure hr hcell hself hb hb' hdefs he
      · obtain ⟨v, hv, hvr⟩ := hb y hy hn
        obtain ⟨w, hw⟩ := hb' y hy hn
        exact ⟨v, w, hv, by simp [Ne.symm hn, hw], hvr, hdefs y hy hn v w hv hw⟩

/-- A lambda closes to a representation of the closure over the whole environment. -/
theorem makeClosure_represents {σ : Store} {var : String} {e1 : Expr} {env : Environment}
    {renv : RefEnvironment} (he : e1.Recursive) (h : EnvRepresents σ (captured var e1) env renv) :
    ∃ clEnv, makeClosure var e1 env = .ok (.closure var e1 clEnv) ∧
      Represents σ (.closure var e1 clEnv) (.closure var e1 renv) := by
  have hfound : ∀ y ∈ captured var e1, ∃ v, find y env = some v := by
    intro y hy
    obtain ⟨v, _, hv, _⟩ := h y hy
    exact ⟨v, hv⟩
  obtain ⟨clEnv, hm, hc⟩ := makeClosure_total var e1 hfound
  refine ⟨clEnv, hm, .closure ?_ ?_ ?_ he⟩
  · intro y hy
    obtain ⟨v, hv, hv'⟩ := hc.find hy
    obtain ⟨a, _, ha, _, hr, _⟩ := h y hy
    obtain rfl : a = v := Option.some.inj (ha.symm.trans hv')
    exact ⟨a, hv, hr⟩
  · intro y hy
    obtain ⟨_, w, _, hw, _, _⟩ := h y hy
    exact ⟨w, hw⟩
  · intro y hy v w hv hw
    obtain ⟨u, hu, hu'⟩ := hc.find hy
    obtain ⟨a, b, ha, hb, _, hab⟩ := h y hy
    obtain rfl : u = v := Option.some.inj (hu.symm.trans hv)
    obtain rfl : a = u := Option.some.inj (ha.symm.trans hu')
    obtain rfl : b = w := Option.some.inj (hb.symm.trans hw)
    exact hab

/-- The bound lambda closes at once, so the cell is filled before it can be read. -/
theorem makeClosure_knot {σ : Store} {name var : String} {body : Expr} {env : Environment}
    {renv : RefEnvironment} (hb : body.Recursive)
    (h : EnvRepresents σ ((captured var body).filter (fun x' => name ≠ x')) env renv) :
    ∃ clEnv, makeClosure var body ((name, .ref σ.size) :: env) = .ok (.closure var body clEnv) ∧
      let σ' := (((σ.alloc (.int 999)).2).assign σ.size (.closure var body clEnv)).2
      σ.Later σ' ∧
        Represents σ' (.closure var body clEnv) (.recClosure name var body renv) := by
  have hfound : ∀ y ∈ captured var body, ∃ v, find y ((name, .ref σ.size) :: env) = some v := by
    intro y hy
    by_cases hn : name = y
    · exact ⟨.ref σ.size, by simp [hn]⟩
    · obtain ⟨v, _, hv, _⟩ := h y (by simp [hy, hn])
      exact ⟨v, by simp [hn, hv]⟩
  obtain ⟨clEnv, hm, hc⟩ := makeClosure_total var body hfound
  exact ⟨clEnv, hm, represents_knot hb hc h⟩

/-- A recursive binding whose lambda closes goes on with the cell assigned. -/
theorem evalWith_letRec_lam (order : Order) (n : Nat) {name var : String} {body e1 : Expr}
    {env : Environment} {σ : Store} {c : Value}
    (hm : makeClosure var body ((name, .ref σ.size) :: env) = .ok c) :
    evalWith (source order) (n + 2) (.letRec name (.lam var body) e1) env σ =
      evalWith (source order) (n + 1) e1 ((name, .ref σ.size) :: env)
        (((σ.alloc (.int 999)).2).assign σ.size c).2 := by
  have hbound : evalWith (source order) (n + 1) (.lam var body) ((name, .ref σ.size) :: env)
      (σ.alloc (.int 999)).2 = some (.ok (c, (σ.alloc (.int 999)).2)) := by
    change Comp.ofExcept (makeClosure var body _) _ = _
    rw [hm]
    rfl
  change (evalWith (source order) (n + 1) (.lam var body) ((name, .ref σ.size) :: env) >>= fun c =>
    Comp.act (Store.assign σ.size c) >>= fun _ =>
      evalWith (source order) (n + 1) e1 ((name, .ref σ.size) :: env)) (σ.alloc (.int 999)).2 = _
  rw [Comp.bind_ok hbound, Comp.act_bind]

theorem RecResult.from_later {σ τ τ' : Store} {v : Value} {w : RefValue} (hl : σ.Later τ)
    (h : RecResult τ v τ' w ()) : RecResult σ v τ' w () :=
  ⟨h.1, hl.trans h.2⟩

theorem eval_represents (order : Order) (n : Nat) (e : Expr) (env : Environment)
    (renv : RefEnvironment) (σ : Store) (he : e.Recursive)
    (henv : EnvRepresents σ (freevars e) env renv) :
    Agree (RecResult σ) (eval order n e env σ) (evalRef order n e renv ()) := by
  induction n generalizing e env renv σ with
  | zero => exact .exhausted
  | succ n ih =>
      change Agree _ (evalWith (source order) (n + 1) e env σ) _
      have part : ∀ e1 τ, Part e1 e → σ.Later τ →
          Agree (RecResult τ) (eval order n e1 env τ) (evalRef order n e1 renv ()) :=
        fun e1 τ hp hl => ih e1 env renv τ (he.part hp) ((henv.later hl).part hp)
      have pair : ∀ e1 e2, Part e1 e → Part e2 e →
          Agree (fun p τ q (_ : Unit) => Represents τ p.1 q.1 ∧ Represents τ p.2 q.2 ∧ True ∧
              σ.Later τ)
            (operands order (eval order n e1 env) (eval order n e2 env) σ)
            (operands order (evalRef order n e1 renv) (evalRef order n e2 renv) ()) := by
        intro e1 e2 h1 h2
        exact Agree.operands order (I := fun _ _ => True) (L := fun σ _ τ _ => σ.Later τ)
          (R := fun v τ w _ => Represents τ v w) (fun σ _ => .refl σ)
          (fun _ _ _ _ _ _ h h' => h.trans h') (fun _ _ _ _ _ _ h hl => h.later hl) trivial
          (fun s t _ hl => (part e1 s h1 hl).mono (fun _ _ _ _ h => ⟨h.1, trivial, h.2⟩))
          (fun s t _ hl => (part e2 s h2 hl).mono (fun _ _ _ _ h => ⟨h.1, trivial, h.2⟩))
      cases e using Expr.shapes with
      | val v => exact .returned ⟨(he.plain v (by simp [literals])).represents σ, .refl σ⟩
      | nil => exact .returned ⟨.nil, .refl σ⟩
      | binary op e1 e2 =>
          rw [evalWith_binary, evalRef_binary]
          refine (pair e1 e2 .left .right).bind ?_
          rintro ⟨v, w⟩ τ ⟨v', w'⟩ _ ⟨hv, hw, _, hl⟩
          refine (op.apply_represents hv hw).mono ?_
          rintro a τ' b _ ⟨hab, rfl⟩
          exact ⟨hab, hl⟩
      | unary op e1 =>
          rw [evalWith_unary, evalRef_unary]
          refine (part e1 σ .operand (.refl σ)).bind ?_
          rintro v τ v' _ ⟨hv, hl⟩
          refine (op.apply_represents hv).mono ?_
          rintro a τ' b _ ⟨hab, rfl⟩
          exact ⟨hab, hl⟩
      | letE name v inE =>
          refine (part v σ .letBound (.refl σ)).bind ?_
          rintro x τ x' _ ⟨hx, hl⟩
          exact (ih inE _ _ τ (he.under .letBody) ((henv.later hl).under .letBody hx)).mono
            (fun _ _ _ _ h => h.from_later hl)
      | id name =>
          obtain ⟨v, w, hv, hw, _, hvw⟩ := henv name (by simp [freevars])
          simp only [evalWith, evalRef, hv, hw]
          exact .returned ⟨hvw, .refl σ⟩
      | lam var e1 =>
          obtain ⟨clEnv, hm, hrep⟩ := makeClosure_represents (he.under .lam) henv
          change Agree _ (Comp.ofExcept (makeClosure var e1 env) σ) _
          rw [hm]
          exact .returned ⟨hrep, .refl σ⟩
      | app e1 e2 =>
          refine (pair e1 e2 .function .argument).bind ?_
          rintro ⟨f, x⟩ τ ⟨f', x'⟩ _ ⟨hf, hx, _, hl⟩
          cases f with
          | closure var body defs =>
              obtain ⟨hbody, ⟨renv', rfl, henv'⟩ | ⟨name, renv', rfl, henv'⟩⟩ := hf.apply hx
              · exact (ih body _ _ τ hbody henv').mono (fun _ _ _ _ h => h.from_later hl)
              · exact (ih body _ _ τ hbody henv').mono (fun _ _ _ _ h => h.from_later hl)
          | int _ | bool _ | ref _ | listVal _ => cases hf <;> exact .raised _
      | letRec name fxn e1 =>
          obtain ⟨⟨var, body, rfl⟩, _, _⟩ := he.lambdas
          cases n with
          | zero => exact .exhausted
          | succ n =>
              have hu : Under name (.lam var body) (.letRec name (.lam var body) e1) := .recBound
              obtain ⟨clEnv, hm, hl, hrec⟩ :=
                makeClosure_knot ((he.under hu).under .lam) (henv.sub hu.freevars)
              rw [evalWith_letRec_lam order n hm]
              refine (ih e1 _ _ _ (he.under .recBody) (EnvRepresents.cons ?_ ?_
                ((henv.later hl).sub (Under.recBody).freevars))).mono
                (fun _ _ _ _ h => h.from_later hl)
              · intro r hr
                cases hr
                exact Nat.lt_succ_self _
              · simpa [Store.deref, Store.assign] using hrec
      | ifE e1 e2 e3 =>
          refine (part e1 σ .condition (.refl σ)).bind ?_
          rintro v τ v' _ ⟨hv, hl⟩
          cases hv with
          | bool b =>
              cases b with
              | true => exact (part e2 τ .thenE hl).mono (fun _ _ _ _ h => h.from_later hl)
              | false => exact (part e3 τ .elseE hl).mono (fun _ _ _ _ h => h.from_later hl)
          | int _ | nil | cons _ _ | closure _ _ _ _ | recClosure _ _ _ _ _ _ _ => exact .raised _

/-- Recursion through cells and recursion through recursive closures have the same outcome. -/
theorem eval_sameOutcome_evalRef (order : Order) (e : Expr) (σ : Store)
    (closed : freevars e = []) (he : e.Plain) (lambdas : RecursiveLambdas e) :
    SameOutcome (fun v σ' w (_ : Unit) => Represents σ' v w)
      (fun n => eval order n e [] σ) (fun n => evalRef order n e [] ()) := by
  apply sameOutcome_of_agree
  intro n
  refine (eval_represents order n e [] [] σ ⟨he, lambdas⟩ ?_).mono (fun _ _ _ _ h => h.1)
  intro y hy
  rw [closed] at hy
  cases hy

theorem eval_sameOutcome_evalRef_sumTo4 :
    SameOutcome (fun v σ' w (_ : Unit) => Represents σ' v w)
      (fun n => eval .rightToLeft n sumTo4 [] Store.empty)
      (fun n => evalRef .rightToLeft n sumTo4 [] ()) :=
  eval_sameOutcome_evalRef .rightToLeft sumTo4 Store.empty rfl sumTo4_plain
    (by simp [sumTo4, sumToN, RecursiveLambdas])

end UmnProjects.Evaluator
