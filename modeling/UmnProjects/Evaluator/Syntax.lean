import Mathlib.Data.List.Basic

/-!
Values, expressions and free variables of the expression evaluator.

Integers are OCaml's 63-bit native integers. A reference value is the address of
a cell; the cells themselves are the evaluator's store. The ten binary and five
unary strict operators keep their own constructors and are also reached through
an operator code, so that one case stands for a whole family.
-/
namespace UmnProjects.Evaluator

/-- OCaml's native integers. -/
abbrev Int63 := BitVec 63

mutual

inductive Value where
  | int (v : Int63)
  | bool (v : Bool)
  | closure (var : String) (e : Expr) (env : List (String × Value))
  | ref (r : Nat)
  | listVal (l : List Value)

inductive Expr where
  | val (v : Value)
  | add (e1 e2 : Expr)
  | sub (e1 e2 : Expr)
  | mul (e1 e2 : Expr)
  | div (e1 e2 : Expr)
  | neg (e1 : Expr)
  | lt (e1 e2 : Expr)
  | gt (e1 e2 : Expr)
  | eq (e1 e2 : Expr)
  | and (e1 e2 : Expr)
  | or (e1 e2 : Expr)
  | not (e1 : Expr)
  | letE (name : String) (v inE : Expr)
  | id (name : String)
  | lam (var : String) (e1 : Expr)
  | app (e1 e2 : Expr)
  | letRec (name : String) (fxn e1 : Expr)
  | ifE (e1 e2 e3 : Expr)
  | nil
  | cons (e1 e2 : Expr)
  | head (e1 : Expr)
  | tail (e1 : Expr)
  | isEmpty (e1 : Expr)

end

abbrev Environment := List (String × Value)

/-- The strict binary operators other than application. -/
inductive BinaryOp where
  | add | sub | mul | div | lt | gt | eq | and | or | cons

inductive UnaryOp where
  | neg | not | head | tail | isEmpty

def BinaryOp.expr : BinaryOp → Expr → Expr → Expr
  | .add => .add | .sub => .sub | .mul => .mul | .div => .div
  | .lt => .lt | .gt => .gt | .eq => .eq | .and => .and | .or => .or | .cons => .cons

def UnaryOp.expr : UnaryOp → Expr → Expr
  | .neg => .neg | .not => .not | .head => .head | .tail => .tail | .isEmpty => .isEmpty

/-- Case analysis with one case for all binary and one for all unary operators. -/
@[elab_as_elim]
theorem Expr.shapes {P : Expr → Prop} (val : ∀ v, P (.val v))
    (binary : ∀ (op : BinaryOp) e1 e2, P (op.expr e1 e2))
    (unary : ∀ (op : UnaryOp) e1, P (op.expr e1))
    (letE : ∀ name v inE, P (.letE name v inE)) (id : ∀ name, P (.id name))
    (lam : ∀ var e1, P (.lam var e1)) (app : ∀ e1 e2, P (.app e1 e2))
    (letRec : ∀ name fxn e1, P (.letRec name fxn e1))
    (ifE : ∀ e1 e2 e3, P (.ifE e1 e2 e3)) (nil : P .nil) (e : Expr) : P e := by
  cases e with
  | val v => exact val v
  | add e1 e2 => exact binary .add e1 e2
  | sub e1 e2 => exact binary .sub e1 e2
  | mul e1 e2 => exact binary .mul e1 e2
  | div e1 e2 => exact binary .div e1 e2
  | lt e1 e2 => exact binary .lt e1 e2
  | gt e1 e2 => exact binary .gt e1 e2
  | eq e1 e2 => exact binary .eq e1 e2
  | and e1 e2 => exact binary .and e1 e2
  | or e1 e2 => exact binary .or e1 e2
  | cons e1 e2 => exact binary .cons e1 e2
  | neg e1 => exact unary .neg e1
  | not e1 => exact unary .not e1
  | head e1 => exact unary .head e1
  | tail e1 => exact unary .tail e1
  | isEmpty e1 => exact unary .isEmpty e1
  | letE name v inE => exact letE name v inE
  | id name => exact id name
  | lam var e1 => exact lam var e1
  | app e1 e2 => exact app e1 e2
  | letRec name fxn e1 => exact letRec name fxn e1
  | ifE e1 e2 e3 => exact ifE e1 e2 e3
  | nil => exact nil

def freevars : Expr → List String
  | .val _ | .nil => []
  | .add e1 e2 | .sub e1 e2 | .mul e1 e2 | .div e1 e2 | .lt e1 e2
  | .gt e1 e2 | .eq e1 e2 | .and e1 e2 | .or e1 e2 | .app e1 e2
  | .cons e1 e2 => freevars e1 ++ freevars e2
  | .neg e1 | .not e1 | .head e1 | .tail e1 | .isEmpty e1 => freevars e1
  | .letE x e1 e2 => freevars e1 ++ (freevars e2).filter (fun x' => x ≠ x')
  | .letRec x e1 e2 => (freevars e1 ++ freevars e2).filter (fun x' => x ≠ x')
  | .id x => [x]
  | .lam x e1 => (freevars e1).filter (fun x' => x ≠ x')
  | .ifE e1 e2 e3 => freevars e1 ++ freevars e2 ++ freevars e3

@[simp] theorem freevars_binary (op : BinaryOp) (e1 e2 : Expr) :
    freevars (op.expr e1 e2) = freevars e1 ++ freevars e2 := by
  cases op <;> rfl

@[simp] theorem freevars_unary (op : UnaryOp) (e1 : Expr) :
    freevars (op.expr e1) = freevars e1 := by
  cases op <;> rfl

/-- The values written in an expression, closures not entered. -/
def literals : Expr → List Value
  | .val v => [v]
  | .nil | .id _ => []
  | .add e1 e2 | .sub e1 e2 | .mul e1 e2 | .div e1 e2 | .lt e1 e2
  | .gt e1 e2 | .eq e1 e2 | .and e1 e2 | .or e1 e2 | .app e1 e2
  | .cons e1 e2 | .letE _ e1 e2 | .letRec _ e1 e2 => literals e1 ++ literals e2
  | .neg e1 | .not e1 | .head e1 | .tail e1 | .isEmpty e1 | .lam _ e1 => literals e1
  | .ifE e1 e2 e3 => literals e1 ++ literals e2 ++ literals e3

@[simp] theorem literals_binary (op : BinaryOp) (e1 e2 : Expr) :
    literals (op.expr e1 e2) = literals e1 ++ literals e2 := by
  cases op <;> rfl

@[simp] theorem literals_unary (op : UnaryOp) (e1 : Expr) :
    literals (op.expr e1) = literals e1 := by
  cases op <;> rfl

/-- `Part e1 e`: evaluating `e` evaluates `e1` in the same environment. -/
inductive Part : Expr → Expr → Prop where
  | left {op : BinaryOp} {e1 e2 : Expr} : Part e1 (op.expr e1 e2)
  | right {op : BinaryOp} {e1 e2 : Expr} : Part e2 (op.expr e1 e2)
  | operand {op : UnaryOp} {e1 : Expr} : Part e1 (op.expr e1)
  | letBound {name : String} {v inE : Expr} : Part v (.letE name v inE)
  | function {e1 e2 : Expr} : Part e1 (.app e1 e2)
  | argument {e1 e2 : Expr} : Part e2 (.app e1 e2)
  | condition {e1 e2 e3 : Expr} : Part e1 (.ifE e1 e2 e3)
  | thenE {e1 e2 e3 : Expr} : Part e2 (.ifE e1 e2 e3)
  | elseE {e1 e2 e3 : Expr} : Part e3 (.ifE e1 e2 e3)

/-- `Under name e1 e`: `e1` stands in `e` below a binder of `name`. -/
inductive Under : String → Expr → Expr → Prop where
  | lam {var : String} {e1 : Expr} : Under var e1 (.lam var e1)
  | letBody {name : String} {v inE : Expr} : Under name inE (.letE name v inE)
  | recBound {name : String} {fxn e1 : Expr} : Under name fxn (.letRec name fxn e1)
  | recBody {name : String} {fxn e1 : Expr} : Under name e1 (.letRec name fxn e1)

theorem Part.freevars {e1 e : Expr} (h : Part e1 e) :
    ∀ y ∈ Evaluator.freevars e1, y ∈ Evaluator.freevars e := by
  cases h <;> simp +contextual [Evaluator.freevars]

theorem Part.literals {e1 e : Expr} (h : Part e1 e) :
    ∀ v ∈ Evaluator.literals e1, v ∈ Evaluator.literals e := by
  cases h <;> simp +contextual [Evaluator.literals]

theorem Under.freevars {name : String} {e1 e : Expr} (h : Under name e1 e) :
    ∀ y ∈ (Evaluator.freevars e1).filter (fun x' => name ≠ x'), y ∈ Evaluator.freevars e := by
  cases h <;> simp +contextual [Evaluator.freevars]

theorem Under.literals {name : String} {e1 e : Expr} (h : Under name e1 e) :
    ∀ v ∈ Evaluator.literals e1, v ∈ Evaluator.literals e := by
  cases h <;> simp +contextual [Evaluator.literals]

/-- A literal without closures and references: integers, booleans and their lists. -/
inductive Value.Plain : Value → Prop where
  | int (v : Int63) : Value.Plain (.int v)
  | bool (v : Bool) : Value.Plain (.bool v)
  | nil : Value.Plain (.listVal [])
  | cons {v : Value} {l : List Value} :
      Value.Plain v → Value.Plain (.listVal l) → Value.Plain (.listVal (v :: l))

def Expr.Plain (e : Expr) : Prop := ∀ v ∈ literals e, v.Plain

theorem Expr.Plain.part {e1 e : Expr} (he : e.Plain) (h : Part e1 e) : e1.Plain :=
  fun v hv => he v (h.literals v hv)

theorem Expr.Plain.under {name : String} {e1 e : Expr} (he : e.Plain) (h : Under name e1 e) :
    e1.Plain :=
  fun v hv => he v (h.literals v hv)

def sumToN : Expr :=
  .letRec "sumToN"
    (.lam "n"
      (.ifE (.eq (.id "n") (.val (.int 0)))
        (.val (.int 0))
        (.add (.id "n")
          (.app (.id "sumToN") (.sub (.id "n") (.val (.int 1)))))))
    (.id "sumToN")

def sumTo4 : Expr := .app sumToN (.val (.int 4))

theorem sumTo4_plain : sumTo4.Plain := by
  intro v hv
  simp only [sumTo4, sumToN, literals, List.cons_append, List.nil_append, List.mem_cons,
    List.not_mem_nil, or_false] at hv
  obtain rfl | rfl | rfl | rfl := hv <;> exact .int _

end UmnProjects.Evaluator
