import UmnProjects.Evaluator.Recursion
import Mathlib.Algebra.Group.Nat.Defs
import Mathlib.Tactic.Ring

/-!
The two recursive programs of the tests. Both are functions that call themselves through a cell;
a call computes its value without touching the store.
-/
namespace UmnProjects.Evaluator
open UmnProjects.Computation

def sum : Expr :=
  .letRec "sum"
    (.lam "lst"
      (.ifE (.isEmpty (.id "lst"))
        (.val (.int 0))
        (.add (.head (.id "lst"))
          (.app (.id "sum") (.tail (.id "lst"))))))
    (.id "sum")

/-- The chain of `Cons` that ends in `Nil`. -/
def consChain : List Int63 → Expr
  | [] => .nil
  | k :: l => .cons (.val (.int k)) (consChain l)

/-! ### Evaluations that leave the store alone -/

def Computes (order : Order) (e : Expr) (env : Environment) (σ : Store) (v : Value) : Prop :=
  Returns (fun n => eval order n e env σ) v σ

section Rules

variable {order : Order} {env : Environment} {σ τ : Store} {e1 e2 e3 : Expr} {v w u : Value}

theorem eval_of_le {n m : Nat} {e : Expr} {r : Except Exn (Value × Store)}
    (h : eval order n e env σ = some r) (hle : n ≤ m) : eval order m e env σ = some r :=
  outcome_of_le (fun n => eval order n e env σ)
    (fun n => evalWith_below (source order) n e env σ) h hle

theorem computes_val : Computes order (.val v) env σ v := ⟨1, rfl⟩

theorem computes_nil : Computes order .nil env σ (.listVal []) := ⟨1, rfl⟩

theorem computes_id {name : String} (h : find name env = some w) (hv : σ.deref w = v) :
    Computes order (.id name) env σ v := by
  refine ⟨1, ?_⟩
  simp only [eval, evalWith, h, Comp.act, hv]

theorem computes_binary (op : BinaryOp) (h1 : Computes order e1 env σ v)
    (h2 : Computes order e2 env σ w) (h : op.apply v w = .ok u) :
    Computes order (op.expr e1 e2) env σ u := by
  obtain ⟨n, hn⟩ := h1
  obtain ⟨m, hm⟩ := h2
  refine ⟨max n m + 1, ?_⟩
  have hright := eval_of_le hm (Nat.le_max_right n m)
  have hpair := operands_ok order (eval_of_le hn (Nat.le_max_left n m)) hright hright
  change evalWith (source order) (max n m + 1) (op.expr e1 e2) env σ = _
  rw [evalWith_binary]
  refine (Comp.bind_ok hpair).trans ?_
  rw [h]
  rfl

theorem computes_unary (op : UnaryOp) (h1 : Computes order e1 env σ v)
    (h : op.apply v = .ok u) : Computes order (op.expr e1) env σ u := by
  obtain ⟨n, hn⟩ := h1
  refine ⟨n + 1, ?_⟩
  change evalWith (source order) (n + 1) (op.expr e1) env σ = _
  rw [evalWith_unary]
  refine (Comp.bind_ok hn).trans ?_
  rw [h]
  rfl

theorem computes_if (b : Bool) (h1 : Computes order e1 env σ (.bool b))
    (h : Computes order (cond b e2 e3) env σ v) : Computes order (.ifE e1 e2 e3) env σ v := by
  obtain ⟨n, hn⟩ := h1
  obtain ⟨m, hm⟩ := h
  have hbranch := eval_of_le hm (Nat.le_max_right n m)
  refine ⟨max n m + 1, ?_⟩
  refine (Comp.bind_ok (eval_of_le hn (Nat.le_max_left n m))).trans ?_
  cases b with
  | true => exact hbranch
  | false => exact hbranch

variable {var : String} {body : Expr} {defs : Environment}

/-- The function may be made in the course of the call, the argument is a pure one. -/
theorem returns_app (h1 : Returns (fun n => eval order n e1 env σ) (.closure var body defs) τ)
    (h2 : ∀ ρ, Computes order e2 env ρ w) (h : Computes order body ((var, w) :: defs) τ v) :
    Returns (fun n => eval order n (.app e1 e2) env σ) v τ := by
  obtain ⟨n, hn⟩ := h1
  obtain ⟨m, hm⟩ := h2 σ
  obtain ⟨m', hm'⟩ := h2 τ
  obtain ⟨k, hk⟩ := h
  obtain ⟨b, hb⟩ : ∃ b, n ≤ b ∧ m ≤ b ∧ m' ≤ b ∧ k ≤ b :=
    ⟨n + m + m' + k, by omega, by omega, by omega, by omega⟩
  have hpair := operands_ok order (eval_of_le hn hb.1) (eval_of_le hm hb.2.1)
    (eval_of_le hm' hb.2.2.1)
  refine ⟨b + 1, ?_⟩
  exact (Comp.bind_ok hpair).trans (eval_of_le hk hb.2.2.2)

/-- A function that binds its own name holds its own cell, and the cell holds the function. -/
theorem returns_recursive (order : Order) {name : String} {c : Value}
    (h : makeClosure var body [(name, .ref σ.size)] = .ok c) :
    ∃ τ, τ.cells σ.size = c ∧
      Returns (fun n => eval order n (.letRec name (.lam var body) (.id name)) [] σ) c τ := by
  refine ⟨(((σ.alloc (.int 999)).2).assign σ.size c).2, by simp [Store.assign], 2, ?_⟩
  change evalWith (source order) 2 _ [] σ = _
  rw [evalWith_letRec_lam order 0 h]
  simp [evalWith, Comp.act, Store.deref, Store.assign]

end Rules

/-! ### sumToN -/

def sumToNBody : Expr :=
  .ifE (.eq (.id "n") (.val (.int 0)))
    (.val (.int 0))
    (.add (.id "n") (.app (.id "sumToN") (.sub (.id "n") (.val (.int 1)))))

def sumToNClosure (r : Nat) : Value := .closure "n" sumToNBody [("sumToN", .ref r)]

theorem makeClosure_sumToN (r : Nat) :
    makeClosure "n" sumToNBody [("sumToN", .ref r)] = .ok (sumToNClosure r) := rfl

theorem triangle_succ (k : Nat) : (k + 1) * (k + 1 + 1) / 2 = k + 1 + k * (k + 1) / 2 := by
  have h : (k + 1) * (k + 1 + 1) = k * (k + 1) + (k + 1) * 2 := by ring
  rw [h, Nat.add_mul_div_right _ _ (by decide)]
  omega

/-- The induction is on the number of calls. -/
theorem sumToN_call {order : Order} {σ : Store} {r : Nat} (h : σ.cells r = sumToNClosure r)
    (k : Nat) (hk : k < 2 ^ 63) :
    Computes order sumToNBody [("n", .int (BitVec.ofNat 63 k)), ("sumToN", .ref r)] σ
      (.int (BitVec.ofNat 63 (k * (k + 1) / 2))) := by
  have hn : ∀ (k : Nat) (ρ : Store), Computes order (.id "n")
      [("n", .int (BitVec.ofNat 63 k)), ("sumToN", .ref r)] ρ (.int (BitVec.ofNat 63 k)) :=
    fun k ρ => computes_id rfl rfl
  induction k with
  | zero =>
      apply computes_if true
      · exact computes_binary .eq (hn 0 σ) computes_val rfl
      · exact computes_val
  | succ k ih =>
      have hne : BitVec.ofNat 63 (k + 1) ≠ 0 := by
        intro h0
        have hval := congrArg BitVec.toNat h0
        rw [BitVec.toNat_ofNat, Nat.mod_eq_of_lt hk] at hval
        exact absurd hval (Nat.succ_ne_zero k)
      apply computes_if false
      · refine computes_binary .eq (hn (k + 1) σ) computes_val ?_
        rw [BinaryOp.apply, beq_eq_false_iff_ne.mpr hne]
      · have hself : Computes order (.id "sumToN")
            [("n", .int (BitVec.ofNat 63 (k + 1))), ("sumToN", .ref r)] σ (sumToNClosure r) :=
          computes_id rfl h
        have hless : ∀ ρ, Computes order (.sub (.id "n") (.val (.int 1)))
            [("n", .int (BitVec.ofNat 63 (k + 1))), ("sumToN", .ref r)] ρ
            (.int (BitVec.ofNat 63 k)) := by
          intro ρ
          refine computes_binary .sub (hn (k + 1) ρ) computes_val ?_
          rw [BinaryOp.apply, BitVec.ofNat_add]
          exact congrArg (fun i => Except.ok (Value.int i)) (BitVec.add_sub_cancel _ _)
        have hcall := returns_app hself hless (ih (by omega))
        refine computes_binary .add (hn (k + 1) σ) hcall ?_
        rw [BinaryOp.apply, triangle_succ, BitVec.ofNat_add (k + 1)]

/-! ### sum -/

def sumBody : Expr :=
  .ifE (.isEmpty (.id "lst"))
    (.val (.int 0))
    (.add (.head (.id "lst")) (.app (.id "sum") (.tail (.id "lst"))))

def sumClosure (r : Nat) : Value := .closure "lst" sumBody [("sum", .ref r)]

theorem makeClosure_sum (r : Nat) :
    makeClosure "lst" sumBody [("sum", .ref r)] = .ok (sumClosure r) := rfl

/-- The value of the chain of `Cons`. -/
def intList (l : List Int63) : Value := .listVal (l.map .int)

theorem computes_consChain {order : Order} {env : Environment} (l : List Int63) (σ : Store) :
    Computes order (consChain l) env σ (intList l) := by
  induction l with
  | nil => exact computes_nil
  | cons k l ih => exact computes_binary .cons computes_val ih rfl

theorem sum_call {order : Order} {σ : Store} {r : Nat} (h : σ.cells r = sumClosure r)
    (l : List Int63) :
    Computes order sumBody [("lst", intList l), ("sum", .ref r)] σ
      (.int (BitVec.ofInt 63 (l.map BitVec.toInt).sum)) := by
  have hlst : ∀ (l : List Int63) (ρ : Store), Computes order (.id "lst")
      [("lst", intList l), ("sum", .ref r)] ρ (intList l) :=
    fun l ρ => computes_id rfl rfl
  induction l with
  | nil =>
      apply computes_if true
      · exact computes_unary .isEmpty (hlst [] σ) rfl
      · exact computes_val
  | cons k l ih =>
      apply computes_if false
      · exact computes_unary .isEmpty (hlst (k :: l) σ) rfl
      · have hself : Computes order (.id "sum") [("lst", intList (k :: l)), ("sum", .ref r)] σ
            (sumClosure r) :=
          computes_id rfl h
        have hrest : ∀ ρ, Computes order (.tail (.id "lst"))
            [("lst", intList (k :: l)), ("sum", .ref r)] ρ (intList l) :=
          fun ρ => computes_unary .tail (hlst (k :: l) ρ) rfl
        have hhead : Computes order (.head (.id "lst"))
            [("lst", intList (k :: l)), ("sum", .ref r)] σ (.int k) :=
          computes_unary .head (hlst (k :: l) σ) rfl
        refine computes_binary .add hhead (returns_app hself hrest ih) ?_
        simp [BinaryOp.apply, BitVec.ofInt_add]

/-- In whatever order operands are evaluated and whatever cells there are: the sum of the
numbers up to `n`, and the sum of a list, as native integers. -/
theorem sums_returned (order : Order) (σ : Store) :
    (∀ n, n < 2 ^ 62 → ∃ τ, Returns
      (fun m => eval order m (.app sumToN (.val (.int (BitVec.ofNat 63 n)))) [] σ)
      (.int (BitVec.ofNat 63 (n * (n + 1) / 2))) τ) ∧
    ∀ l : List Int63, ∃ τ, Returns (fun m => eval order m (.app sum (consChain l)) [] σ)
      (.int (BitVec.ofInt 63 (l.map BitVec.toInt).sum)) τ := by
  constructor
  · intro n hn
    obtain ⟨τ, hcell, hfun⟩ := returns_recursive order (makeClosure_sumToN σ.size)
    exact ⟨τ, returns_app hfun (fun _ => computes_val) (sumToN_call hcell n (by omega))⟩
  · intro l
    obtain ⟨τ, hcell, hfun⟩ := returns_recursive order (makeClosure_sum σ.size)
    exact ⟨τ, returns_app hfun (computes_consChain l) (sum_call hcell l)⟩

theorem sums_returned_four : ∃ τ, Returns (fun m => eval .rightToLeft m sumTo4 [] Store.empty)
    (.int 10) τ :=
  (sums_returned .rightToLeft Store.empty).1 4 (by decide)

end UmnProjects.Evaluator
