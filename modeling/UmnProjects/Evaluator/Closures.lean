import UmnProjects.Evaluator.Eval

/-!
What `makeClosure` does, and well-formed closures: those whose environment binds
every free variable of the body other than the parameter. The predicate is
hereditary through environments, lists and literals; it stops at a reference,
whose content is the store's business.
-/
namespace UmnProjects.Evaluator
open UmnProjects.Computation

theorem mapExcept_ok {A B : Type} {f : A → Except Exn B} {l : List A} {bs : List B}
    (h : mapExcept f l = .ok bs) : List.Forall₂ (fun a b => f a = .ok b) l bs := by
  induction l generalizing bs with
  | nil =>
      simp only [mapExcept, Except.ok.injEq] at h
      subst h
      exact .nil
  | cons a l ih =>
      simp only [mapExcept] at h
      cases hf : f a with
      | error x => simp [hf] at h
      | ok b =>
          cases hl : mapExcept f l with
          | error x => simp [hf, hl] at h
          | ok bs' =>
              simp only [hf, hl, Except.ok.injEq] at h
              subst h
              exact .cons hf (ih hl)

theorem mapExcept_error {A B : Type} {f : A → Except Exn B} {l : List A} {x : Exn}
    (h : mapExcept f l = .error x) : ∃ a ∈ l, f a = .error x := by
  induction l with
  | nil => simp [mapExcept] at h
  | cons a l ih =>
      simp only [mapExcept] at h
      cases hf : f a with
      | error y =>
          simp only [hf, Except.error.injEq] at h
          exact ⟨a, List.mem_cons_self, by rw [hf, h]⟩
      | ok b =>
          cases hl : mapExcept f l with
          | error y =>
              simp only [hf, hl, Except.error.injEq] at h
              obtain ⟨c, hc, hfc⟩ := ih (by rw [hl, h])
              exact ⟨c, List.mem_cons_of_mem _ hc, hfc⟩
          | ok bs => simp [hf, hl] at h

theorem getVal_ok {env : Environment} {name : String} {b : String × Value}
    (h : getVal env name = .ok b) : b.1 = name ∧ find name env = some b.2 := by
  unfold getVal at h
  cases hf : find name env with
  | none => simp [hf] at h
  | some v =>
      simp only [hf, Except.ok.injEq] at h
      subst h
      exact ⟨rfl, rfl⟩

theorem getVal_error {env : Environment} {name : String} {x : Exn}
    (h : getVal env name = .error x) : find name env = none ∧ x = .unboundVariable name := by
  unfold getVal at h
  cases hf : find name env with
  | none =>
      simp only [hf, Except.error.injEq] at h
      exact ⟨rfl, h.symm⟩
  | some v => simp [hf] at h

/-- A captured environment binds the captured names, in their order, to what the
enclosing environment finds for them. -/
structure Captures (names : List String) (env clEnv : Environment) : Prop where
  names_eq : clEnv.map Prod.fst = names
  bound : ∀ b ∈ clEnv, find b.1 env = some b.2

theorem captures_of_forall₂ {names : List String} {env clEnv : Environment}
    (h : List.Forall₂ (fun a b => getVal env a = .ok b) names clEnv) :
    Captures names env clEnv := by
  induction h with
  | nil => exact ⟨rfl, by simp⟩
  | cons ha hs ih =>
      obtain ⟨hname, hfind⟩ := getVal_ok ha
      refine ⟨by simp [hname, ih.names_eq], ?_⟩
      intro c hc
      rcases List.mem_cons.mp hc with rfl | hc
      · rw [hname, hfind]
      · exact ih.bound c hc

theorem Captures.find {names : List String} {env clEnv : Environment}
    (h : Captures names env clEnv) {y : String} (hy : y ∈ names) :
    ∃ v, Evaluator.find y clEnv = some v ∧ Evaluator.find y env = some v := by
  obtain ⟨hnames, hbound⟩ := h
  subst hnames
  induction clEnv with
  | nil => simp at hy
  | cons b clEnv ih =>
      obtain ⟨z, w⟩ := b
      by_cases hz : z = y
      · subst hz
        exact ⟨w, by simp, hbound (z, w) List.mem_cons_self⟩
      · have hy' : y ∈ clEnv.map Prod.fst := by
          simpa [Ne.symm hz] using hy
        obtain ⟨v, hv, hv'⟩ := ih (fun c hc => hbound c (List.mem_cons_of_mem _ hc)) hy'
        exact ⟨v, by simpa [hz] using hv, hv'⟩

theorem makeClosure_ok {var : String} {e : Expr} {env : Environment} {v : Value}
    (h : makeClosure var e env = .ok v) :
    ∃ clEnv, v = .closure var e clEnv ∧ Captures (captured var e) env clEnv := by
  unfold makeClosure at h
  cases hm : mapExcept (getVal env) (captured var e) with
  | error x => simp [hm] at h
  | ok clEnv =>
      simp only [hm, Except.ok.injEq] at h
      exact ⟨clEnv, h.symm, captures_of_forall₂ (mapExcept_ok hm)⟩

theorem makeClosure_error {var : String} {e : Expr} {env : Environment} {x : Exn}
    (h : makeClosure var e env = .error x) :
    ∃ y ∈ captured var e, find y env = none ∧ x = .unboundVariable y := by
  unfold makeClosure at h
  cases hm : mapExcept (getVal env) (captured var e) with
  | error y =>
      simp only [hm, Except.error.injEq] at h
      subst h
      obtain ⟨a, ha, hx⟩ := mapExcept_error hm
      exact ⟨a, ha, getVal_error hx⟩
  | ok clEnv => simp [hm] at h

/-- Closing a lambda succeeds where every captured name is bound. -/
theorem makeClosure_total (var : String) (e : Expr) {env : Environment}
    (h : ∀ y ∈ captured var e, ∃ v, find y env = some v) :
    ∃ clEnv, makeClosure var e env = .ok (.closure var e clEnv) ∧
      Captures (captured var e) env clEnv := by
  cases hm : makeClosure var e env with
  | error x =>
      obtain ⟨y, hy, hnone, _⟩ := makeClosure_error hm
      obtain ⟨v, hv⟩ := h y hy
      rw [hnone] at hv
      cases hv
  | ok v =>
      obtain ⟨clEnv, rfl, hc⟩ := makeClosure_ok hm
      exact ⟨clEnv, rfl, hc⟩

section Cells

variable {P : Value → Prop} {σ : Store}

theorem Store.forall_deref (h : ∀ r, P (σ.cells r)) {v : Value} (hv : P v) : P (σ.deref v) := by
  cases v with
  | ref r => exact h r
  | int _ | bool _ | closure _ _ _ | listVal _ => exact hv

theorem Store.forall_alloc (h : ∀ r, P (σ.cells r)) {v : Value} (hv : P v) (r : Nat) :
    P ((σ.alloc v).2.cells r) := by
  simp only [Store.alloc]
  split
  · exact hv
  · exact h r

theorem Store.forall_assign (h : ∀ r, P (σ.cells r)) (r : Nat) {v : Value} (hv : P v) (i : Nat) :
    P ((σ.assign r v).2.cells i) := by
  simp only [Store.assign]
  split
  · exact hv
  · exact h i

end Cells

inductive Value.WF : Value → Prop where
  | int (v : Int63) : Value.WF (.int v)
  | bool (v : Bool) : Value.WF (.bool v)
  | ref (r : Nat) : Value.WF (.ref r)
  | nil : Value.WF (.listVal [])
  | cons {v : Value} {l : List Value} :
      Value.WF v → Value.WF (.listVal l) → Value.WF (.listVal (v :: l))
  | closure {var : String} {e : Expr} {env : Environment} :
      (∀ y ∈ captured var e, ∃ v, find y env = some v) →
      (∀ b ∈ env, Value.WF b.2) → (∀ v ∈ literals e, Value.WF v) →
      Value.WF (.closure var e env)

def Expr.WF (e : Expr) : Prop := ∀ v ∈ literals e, v.WF

theorem Expr.WF.part {e1 e : Expr} (he : e.WF) (h : Part e1 e) : e1.WF :=
  fun v hv => he v (h.literals v hv)

theorem Expr.WF.under {name : String} {e1 e : Expr} (he : e.WF) (h : Under name e1 e) : e1.WF :=
  fun v hv => he v (h.literals v hv)

def EnvWF (env : Environment) : Prop := ∀ b ∈ env, b.2.WF

def Store.WF (σ : Store) : Prop := ∀ r, (σ.cells r).WF

theorem EnvWF.find {env : Environment} (h : EnvWF env) {name : String} {v : Value}
    (hv : Evaluator.find name env = some v) : v.WF :=
  h _ (find_mem hv)

/-- A closure made from a well-formed environment is well formed. -/
theorem Captures.wf {var : String} {e : Expr} {env clEnv : Environment}
    (h : Captures (captured var e) env clEnv) (he : e.WF) (henv : EnvWF env) :
    (Value.closure var e clEnv).WF := by
  refine .closure ?_ ?_ he
  · intro y hy
    obtain ⟨v, hv, _⟩ := h.find hy
    exact ⟨v, hv⟩
  · intro b hb
    exact henv.find (h.bound b hb)

/-- What a binary operator can do; it never reports a missing name. -/
inductive BinaryResult (v w : Value) : Except Exn Value → Prop where
  | int (i : Int63) : BinaryResult v w (.ok (.int i))
  | bool (b : Bool) : BinaryResult v w (.ok (.bool b))
  | cons {l1 : List Value} : w = .listVal l1 → BinaryResult v w (.ok (.listVal (v :: l1)))
  | divisionByZero (v1 : Value) : BinaryResult v w (.error (.divisionByZero v1))
  | incorrectType (op : String) : BinaryResult v w (.error (.incorrectType op))

/-- What a unary operator can do. -/
inductive UnaryResult (v : Value) : Except Exn Value → Prop where
  | int (i : Int63) : UnaryResult v (.ok (.int i))
  | bool (b : Bool) : UnaryResult v (.ok (.bool b))
  | head {h : Value} {l1 : List Value} : v = .listVal (h :: l1) → UnaryResult v (.ok h)
  | tail {h : Value} {l1 : List Value} :
      v = .listVal (h :: l1) → UnaryResult v (.ok (.listVal l1))
  | headOfEmptyList : UnaryResult v (.error .headOfEmptyList)
  | tailOfEmptyList : UnaryResult v (.error .tailOfEmptyList)
  | incorrectType (op : String) : UnaryResult v (.error (.incorrectType op))

theorem BinaryOp.apply_result (op : BinaryOp) (v w : Value) : BinaryResult v w (op.apply v w) := by
  cases op
  case cons =>
    cases w with
    | listVal l1 => exact .cons rfl
    | int _ | bool _ | ref _ | closure _ _ _ => cases v <;> exact .incorrectType _
  case div =>
    cases v <;> cases w <;> try exact .incorrectType _
    simp only [BinaryOp.apply]
    split
    · exact .divisionByZero _
    · exact .int _
  all_goals
    cases v <;> cases w <;>
      first
      | exact .incorrectType _
      | exact .int _
      | exact .bool _

theorem UnaryOp.apply_result (op : UnaryOp) (v : Value) : UnaryResult v (op.apply v) := by
  cases v with
  | listVal l1 =>
      cases l1 with
      | nil =>
          cases op with
          | head => exact .headOfEmptyList
          | tail => exact .tailOfEmptyList
          | isEmpty => exact .bool _
          | neg | not => exact .incorrectType _
      | cons h l1 =>
          cases op with
          | head => exact .head rfl
          | tail => exact .tail rfl
          | isEmpty => exact .bool _
          | neg | not => exact .incorrectType _
  | int i =>
      cases op with
      | neg => exact .int _
      | not | head | tail | isEmpty => exact .incorrectType _
  | bool b =>
      cases op with
      | not => exact .bool _
      | neg | head | tail | isEmpty => exact .incorrectType _
  | ref _ | closure _ _ _ => cases op <;> exact .incorrectType _

theorem BinaryOp.apply_ne_unbound (op : BinaryOp) (v w : Value) (y : String) :
    op.apply v w ≠ .error (.unboundVariable y) := by
  intro h
  have hr := op.apply_result v w
  rw [h] at hr
  cases hr

theorem UnaryOp.apply_ne_unbound (op : UnaryOp) (v : Value) (y : String) :
    op.apply v ≠ .error (.unboundVariable y) := by
  intro h
  have hr := op.apply_result v
  rw [h] at hr
  cases hr

end UmnProjects.Evaluator
