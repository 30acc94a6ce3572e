import UmnProjects.Foundations.Computation
import UmnProjects.Evaluator.Syntax

/-!
The evaluator with its mutable cells, bounded in the depth of recursive calls.

OCaml leaves the evaluation order of a tuple open, so the order of the operands
of the strict operators and of application is a parameter. The way a lambda is
closed and the placeholder written into a fresh cell are parameters as well; the
source's choices are collected in `source`, and `eval` is the source's evaluator.
-/
namespace UmnProjects.Evaluator
open UmnProjects.Computation

/-- The exceptions the evaluator raises. -/
inductive Exn where
  | divisionByZero (v : Value)
  | unboundVariable (name : String)
  | incorrectType (op : String)
  | headOfEmptyList
  | tailOfEmptyList

/-- The reference cells; those from `size` on are not allocated yet. -/
structure Store where
  size : Nat
  cells : Nat → Value

def Store.empty : Store := ⟨0, fun _ => .int 0⟩

def Store.alloc (v : Value) (σ : Store) : Nat × Store :=
  (σ.size, ⟨σ.size + 1, fun i => if i = σ.size then v else σ.cells i⟩)

def Store.assign (r : Nat) (v : Value) (σ : Store) : Unit × Store :=
  ((), { σ with cells := fun i => if i = r then v else σ.cells i })

abbrev EvalM := Comp Store Exn

/-- `List.find` on the first component of the bindings. -/
def find {V : Type} (name : String) : List (String × V) → Option V
  | [] => none
  | (var, v) :: env => if var = name then some v else find name env

@[simp] theorem find_nil {V : Type} (name : String) : find name ([] : List (String × V)) = none :=
  rfl

@[simp] theorem find_cons {V : Type} (name var : String) (v : V) (env : List (String × V)) :
    find name ((var, v) :: env) = if var = name then some v else find name env := rfl

theorem find_mem {name : String} {v : Value} {env : Environment} (h : find name env = some v) :
    (name, v) ∈ env := by
  induction env with
  | nil => simp at h
  | cons b env ih =>
      obtain ⟨var, w⟩ := b
      rw [find_cons] at h
      split at h
      · next hv => simp_all
      · exact List.mem_cons_of_mem _ (ih h)

/-- The binding of one captured name. -/
def getVal (env : Environment) (name : String) : Except Exn (String × Value) :=
  match find name env with
  | some v => .ok (name, v)
  | none => .error (.unboundVariable name)

/-- The names a closure with this parameter and body captures. -/
def captured (var : String) (e : Expr) : List String :=
  (freevars e).filter (fun x' => var ≠ x')

theorem mem_captured {var y : String} {e : Expr} :
    y ∈ captured var e ↔ y ∈ freevars e ∧ var ≠ y := by
  simp [captured]

/-- `List.map` with a function that may raise. -/
def mapExcept {A B : Type} (f : A → Except Exn B) : List A → Except Exn (List B)
  | [] => .ok []
  | a :: l => match f a with
    | .error x => .error x
    | .ok b => match mapExcept f l with
      | .error x => .error x
      | .ok bs => .ok (b :: bs)

def makeClosure (var : String) (e : Expr) (env : Environment) : Except Exn Value :=
  match mapExcept (getVal env) (captured var e) with
  | .error x => .error x
  | .ok clEnv => .ok (.closure var e clEnv)

/-- The name under which an operator reports operands of a wrong type. -/
def BinaryOp.name : BinaryOp → String
  | .add => "Add" | .sub => "Sub" | .mul => "Mul" | .div => "Div" | .lt => "Lt"
  | .gt => "Gt" | .eq => "Eq" | .and => "And" | .or => "or" | .cons => "Cons"

def UnaryOp.name : UnaryOp → String
  | .neg => "Neg" | .not => "Not" | .head => "Head" | .tail => "Tail" | .isEmpty => "IsEmpty"

def BinaryOp.apply : BinaryOp → Value → Value → Except Exn Value
  | .add, .int v1, .int v2 => .ok (.int (v1 + v2))
  | .sub, .int v1, .int v2 => .ok (.int (v1 - v2))
  | .mul, .int v1, .int v2 => .ok (.int (v1 * v2))
  | .div, .int v1, .int v2 =>
      if v2 = 0 then .error (.divisionByZero (.int v1)) else .ok (.int (v1.sdiv v2))
  | .lt, .int v1, .int v2 => .ok (.bool (v1.slt v2))
  | .gt, .int v1, .int v2 => .ok (.bool (v2.slt v1))
  | .eq, .int v1, .int v2 => .ok (.bool (v1 == v2))
  | .and, .bool v1, .bool v2 => .ok (.bool (v1 && v2))
  | .or, .bool v1, .bool v2 => .ok (.bool (v1 || v2))
  | .cons, x, .listVal l1 => .ok (.listVal (x :: l1))
  | op, _, _ => .error (.incorrectType op.name)

def UnaryOp.apply : UnaryOp → Value → Except Exn Value
  | .neg, .int v1 => .ok (.int (0 - v1))
  | .not, .bool v1 => .ok (.bool (!v1))
  | .head, .listVal [] => .error .headOfEmptyList
  | .head, .listVal (v :: _) => .ok v
  | .tail, .listVal [] => .error .tailOfEmptyList
  | .tail, .listVal (_ :: l1) => .ok (.listVal l1)
  | .isEmpty, .listVal l1 => .ok (.bool l1.isEmpty)
  | op, _ => .error (.incorrectType op.name)

/-- `!r` -/
def Store.deref (σ : Store) : Value → Value
  | .ref r => σ.cells r
  | v => v

structure Variant where
  order : Order
  makeClosure : String → Expr → Environment → Except Exn Value
  placeholder : Int63

def source (order : Order) : Variant := ⟨order, makeClosure, 999⟩

def evalWith (V : Variant) : Nat → Expr → Environment → EvalM Value
  | 0, _, _ => Comp.exhausted
  | n + 1, e, env =>
    let binary (op : BinaryOp) (e1 e2 : Expr) : EvalM Value := do
      let p ← operands V.order (evalWith V n e1 env) (evalWith V n e2 env)
      Comp.ofExcept (op.apply p.1 p.2)
    let unary (op : UnaryOp) (e1 : Expr) : EvalM Value := do
      let v ← evalWith V n e1 env
      Comp.ofExcept (op.apply v)
    match e with
    | .val v => pure v
    | .add e1 e2 => binary .add e1 e2
    | .sub e1 e2 => binary .sub e1 e2
    | .mul e1 e2 => binary .mul e1 e2
    | .div e1 e2 => binary .div e1 e2
    | .neg e1 => unary .neg e1
    | .lt e1 e2 => binary .lt e1 e2
    | .gt e1 e2 => binary .gt e1 e2
    | .eq e1 e2 => binary .eq e1 e2
    | .and e1 e2 => binary .and e1 e2
    | .or e1 e2 => binary .or e1 e2
    | .not e1 => unary .not e1
    | .letE name v inE => do
        let x ← evalWith V n v env
        evalWith V n inE ((name, x) :: env)
    | .id name =>
        match find name env with
        | some v => Comp.act fun σ => (σ.deref v, σ)
        | none => Comp.raise (.unboundVariable name)
    | .lam var e1 => Comp.ofExcept (V.makeClosure var e1 env)
    | .app e1 e2 => do
        let p ← operands V.order (evalWith V n e1 env) (evalWith V n e2 env)
        match p.1 with
        | .closure var body defs => evalWith V n body ((var, p.2) :: defs)
        | _ => Comp.raise (.incorrectType "App")
    | .letRec name fxn e1 => do
        let recFxn ← Comp.act (Store.alloc (.int V.placeholder))
        let c ← evalWith V n fxn ((name, .ref recFxn) :: env)
        Comp.act (Store.assign recFxn c)
        evalWith V n e1 ((name, .ref recFxn) :: env)
    | .ifE e1 e2 e3 => do
        let v ← evalWith V n e1 env
        match v with
        | .bool true => evalWith V n e2 env
        | .bool false => evalWith V n e3 env
        | _ => Comp.raise (.incorrectType "If")
    | .nil => pure (.listVal [])
    | .cons e1 e2 => binary .cons e1 e2
    | .head e1 => unary .head e1
    | .tail e1 => unary .tail e1
    | .isEmpty e1 => unary .isEmpty e1

def eval (order : Order) (n : Nat) (e : Expr) (env : Environment) : EvalM Value :=
  evalWith (source order) n e env

theorem evalWith_binary (V : Variant) (n : Nat) (op : BinaryOp) (e1 e2 : Expr)
    (env : Environment) :
    evalWith V (n + 1) (op.expr e1 e2) env = (do
      let p ← operands V.order (evalWith V n e1 env) (evalWith V n e2 env)
      Comp.ofExcept (op.apply p.1 p.2)) := by
  cases op <;> rfl

theorem evalWith_unary (V : Variant) (n : Nat) (op : UnaryOp) (e1 : Expr) (env : Environment) :
    evalWith V (n + 1) (op.expr e1) env = (do
      let v ← evalWith V n e1 env
      Comp.ofExcept (op.apply v)) := by
  cases op <;> rfl

/-- A larger bound never changes an outcome. -/
theorem evalWith_below (V : Variant) (n : Nat) (e : Expr) (env : Environment) (σ : Store) :
    Below (evalWith V n e env σ) (evalWith V (n + 1) e env σ) := by
  induction n generalizing e env σ with
  | zero => exact .none _
  | succ n ih =>
      cases e using Expr.shapes with
      | val _ | id _ | lam _ _ | nil => exact .refl _
      | binary op e1 e2 =>
          rw [evalWith_binary, evalWith_binary]
          exact (Below.operands V.order (ih e1 env) (ih e2 env)).bind fun p t => .refl _
      | unary op e1 =>
          rw [evalWith_unary, evalWith_unary]
          exact (ih e1 env σ).bind fun v t => .refl _
      | letE name v inE => exact (ih v env σ).bind fun x t => ih inE _ t
      | app e1 e2 =>
          refine (Below.operands V.order (ih e1 env) (ih e2 env)).bind fun p t => ?_
          obtain ⟨f, x⟩ := p
          cases f with
          | closure var body defs => exact ih body _ t
          | int _ | bool _ | ref _ | listVal _ => exact .refl _
      | letRec name fxn e1 =>
          exact (ih fxn _ _).bind fun c t => ih e1 _ _
      | ifE e1 e2 e3 =>
          refine (ih e1 env σ).bind fun v t => ?_
          cases v with
          | bool b =>
              cases b with
              | true => exact ih e2 env t
              | false => exact ih e3 env t
          | int _ | closure _ _ _ | ref _ | listVal _ => exact .refl _

/-- The bound only decides whether an evaluation ends, never how. -/
theorem evalWith_outcome_unique (V : Variant) {n m : Nat} {e : Expr} {env : Environment}
    {σ : Store} {r r' : Except Exn (Value × Store)} (hn : evalWith V n e env σ = some r)
    (hm : evalWith V m e env σ = some r') : r = r' :=
  outcome_unique (fun k => evalWith V k e env σ) (fun k => evalWith_below V k e env σ) hn hm

end UmnProjects.Evaluator
