import UmnProjects.Evaluator.Closures

/-!
Closures that keep only the free variables of the lambda against closures that
keep the whole environment. The two evaluators run in lock step on values that
agree on every name a closure can read.
-/
namespace UmnProjects.Evaluator
open UmnProjects.Computation

/-- Equality up to closure bindings of names that are not free in the closure. -/
inductive Value.Trims : Value → Value → Prop where
  | int (v : Int63) : Value.Trims (.int v) (.int v)
  | bool (v : Bool) : Value.Trims (.bool v) (.bool v)
  | ref (r : Nat) : Value.Trims (.ref r) (.ref r)
  | nil : Value.Trims (.listVal []) (.listVal [])
  | cons {v w : Value} {l m : List Value} :
      Value.Trims v w → Value.Trims (.listVal l) (.listVal m) →
      Value.Trims (.listVal (v :: l)) (.listVal (w :: m))
  | closure {var : String} {e : Expr} {env env' : Environment} :
      (∀ y ∈ captured var e, ∃ v, find y env = some v) →
      (∀ y ∈ captured var e, ∃ w, find y env' = some w) →
      (∀ y ∈ captured var e, ∀ v w, find y env = some v → find y env' = some w →
        Value.Trims v w) →
      e.Plain → Value.Trims (.closure var e env) (.closure var e env')

def EnvTrims (names : List String) (env env' : Environment) : Prop :=
  ∀ y ∈ names, ∃ v w, find y env = some v ∧ find y env' = some w ∧ v.Trims w

structure StoreTrims (σ σ' : Store) : Prop where
  size_eq : σ.size = σ'.size
  cells : ∀ r, (σ.cells r).Trims (σ'.cells r)

/-- The interpreter whose closures keep the whole environment. -/
def fullCapture (order : Order) : Variant :=
  ⟨order, fun var e env => .ok (.closure var e env), 999⟩

theorem Value.Plain.trims {v : Value} (h : v.Plain) : v.Trims v := by
  induction h with
  | int v => exact .int v
  | bool v => exact .bool v
  | nil => exact .nil
  | cons _ _ ihv ihl => exact .cons ihv ihl

theorem EnvTrims.sub {names names' : List String} {env env' : Environment}
    (h : EnvTrims names env env') (sub : ∀ y ∈ names', y ∈ names) : EnvTrims names' env env' :=
  fun y hy => h y (sub y hy)

theorem EnvTrims.part {e1 e : Expr} {env env' : Environment}
    (h : EnvTrims (freevars e) env env') (hp : Part e1 e) : EnvTrims (freevars e1) env env' :=
  h.sub hp.freevars

/-- Entering a binder: only the names other than the bound one are needed outside. -/
theorem EnvTrims.cons {names : List String} {env env' : Environment} {name : String}
    {v w : Value} (hvw : v.Trims w)
    (h : EnvTrims (names.filter (fun x' => name ≠ x')) env env') :
    EnvTrims names ((name, v) :: env) ((name, w) :: env') := by
  intro y hy
  by_cases hn : name = y
  · exact ⟨v, w, by simp [hn], by simp [hn], hvw⟩
  · obtain ⟨a, b, ha, hb, hab⟩ := h y (by simp [hy, hn])
    exact ⟨a, b, by simp [hn, ha], by simp [hn, hb], hab⟩

theorem EnvTrims.under {name : String} {e1 e : Expr} {env env' : Environment} {v w : Value}
    (h : EnvTrims (freevars e) env env') (hu : Under name e1 e) (hvw : v.Trims w) :
    EnvTrims (freevars e1) ((name, v) :: env) ((name, w) :: env') :=
  EnvTrims.cons hvw (h.sub hu.freevars)

theorem EnvTrims.closure {var : String} {e : Expr} {env env' : Environment}
    (h : EnvTrims (captured var e) env env') (he : e.Plain) :
    (Value.closure var e env).Trims (.closure var e env') := by
  refine .closure ?_ ?_ ?_ he
  · intro y hy
    obtain ⟨v, _, hv, _, _⟩ := h y hy
    exact ⟨v, hv⟩
  · intro y hy
    obtain ⟨_, w, _, hw, _⟩ := h y hy
    exact ⟨w, hw⟩
  · intro y hy v w hv hw
    obtain ⟨a, b, ha, hb, hab⟩ := h y hy
    rw [ha] at hv
    rw [hb] at hw
    cases hv
    cases hw
    exact hab

/-- Keeping only the captured names on the left changes nothing the body can read. -/
theorem Captures.trims {var : String} {e : Expr} {env env' clEnv : Environment}
    (hc : Captures (captured var e) env clEnv) (h : EnvTrims (captured var e) env env') :
    EnvTrims (captured var e) clEnv env' := by
  intro y hy
  obtain ⟨v, hv, hv'⟩ := hc.find hy
  obtain ⟨a, b, ha, hb, hab⟩ := h y hy
  rw [hv'] at ha
  cases ha
  exact ⟨v, b, hv, hb, hab⟩

theorem StoreTrims.deref {σ σ' : Store} (h : StoreTrims σ σ') {v w : Value} (hv : v.Trims w) :
    (σ.deref v).Trims (σ'.deref w) := by
  cases hv with
  | ref r => exact h.cells r
  | int v => exact .int v
  | bool v => exact .bool v
  | nil => exact .nil
  | cons hv hl => exact .cons hv hl
  | closure h1 h2 h3 he => exact .closure h1 h2 h3 he

theorem StoreTrims.alloc {σ σ' : Store} (h : StoreTrims σ σ') {v w : Value} (hv : v.Trims w) :
    StoreTrims (σ.alloc v).2 (σ'.alloc w).2 := by
  refine ⟨by simp only [Store.alloc, h.size_eq], ?_⟩
  intro r
  simp only [Store.alloc, h.size_eq]
  split
  · exact hv
  · exact h.cells r

theorem StoreTrims.assign {σ σ' : Store} (h : StoreTrims σ σ') {v w : Value} (hv : v.Trims w)
    (r : Nat) : StoreTrims (σ.assign r v).2 (σ'.assign r w).2 := by
  refine ⟨h.size_eq, ?_⟩
  intro i
  simp only [Store.assign]
  split
  · exact hv
  · exact h.cells i

def TrimsResult (v : Value) (σ : Store) (w : Value) (σ' : Store) : Prop :=
  v.Trims w ∧ StoreTrims σ σ'

theorem BinaryOp.apply_trims (op : BinaryOp) {v v' w w' : Value} (hv : v.Trims v')
    (hw : w.Trims w') {σ σ' : Store} (hσ : StoreTrims σ σ') :
    Agree TrimsResult (Comp.ofExcept (op.apply v w) σ) (Comp.ofExcept (op.apply v' w') σ') := by
  cases op
  case cons =>
    cases hw with
    | nil => exact .returned ⟨.cons hv .nil, hσ⟩
    | cons hh hl => exact .returned ⟨.cons hv (.cons hh hl), hσ⟩
    | int _ | bool _ | ref _ | closure _ _ _ _ => cases hv <;> exact .raised _
  case div =>
    cases hv <;> cases hw <;> try exact .raised _
    simp only [BinaryOp.apply]
    split
    · exact .raised _
    · exact .returned ⟨.int _, hσ⟩
  all_goals
    cases hv <;> cases hw <;>
      first
      | exact .raised _
      | exact .returned ⟨.int _, hσ⟩
      | exact .returned ⟨.bool _, hσ⟩

theorem UnaryOp.apply_trims (op : UnaryOp) {v v' : Value} (hv : v.Trims v')
    {σ σ' : Store} (hσ : StoreTrims σ σ') :
    Agree TrimsResult (Comp.ofExcept (op.apply v) σ) (Comp.ofExcept (op.apply v') σ') := by
  cases op <;> cases hv <;>
    first
    | exact .raised _
    | exact .returned ⟨.int _, hσ⟩
    | exact .returned ⟨.bool _, hσ⟩
    | exact .returned ⟨by assumption, hσ⟩

/-- Closing a lambda on both sides yields closures of the same lambda. -/
theorem makeClosure_trims {var : String} {e1 : Expr} {env env' : Environment} {σ σ' : Store}
    (he : e1.Plain) (h : EnvTrims (captured var e1) env env') (hσ : StoreTrims σ σ') :
    Agree TrimsResult (Comp.ofExcept (makeClosure var e1 env) σ)
      (Comp.ofExcept (.ok (.closure var e1 env')) σ') := by
  have hfound : ∀ y ∈ captured var e1, ∃ v, find y env = some v := by
    intro y hy
    obtain ⟨v, _, hv, _⟩ := h y hy
    exact ⟨v, hv⟩
  obtain ⟨clEnv, hm, hc⟩ := makeClosure_total var e1 hfound
  rw [hm]
  exact .returned ⟨(hc.trims h).closure he, hσ⟩

/-- Applying a closure enters the same body in environments that agree. -/
theorem Value.Trims.apply {var : String} {body : Expr} {defs : Environment} {f' x x' : Value}
    (hf : (Value.closure var body defs).Trims f') (hx : x.Trims x') :
    body.Plain ∧ ∃ defs', f' = .closure var body defs' ∧
      EnvTrims (freevars body) ((var, x) :: defs) ((var, x') :: defs') := by
  cases hf with
  | @closure _ _ _ defs' hb hb' hdefs hbody =>
      refine ⟨hbody, defs', rfl, EnvTrims.cons hx ?_⟩
      intro y hy
      obtain ⟨v, hv⟩ := hb y hy
      obtain ⟨w, hw⟩ := hb' y hy
      exact ⟨v, w, hv, hw, hdefs y hy v w hv hw⟩

theorem eval_trims (order : Order) (n : Nat) (e : Expr) (env env' : Environment) (σ σ' : Store)
    (he : e.Plain) (henv : EnvTrims (freevars e) env env') (hσ : StoreTrims σ σ') :
    Agree TrimsResult (eval order n e env σ) (evalWith (fullCapture order) n e env' σ') := by
  induction n generalizing e env env' σ σ' with
  | zero => exact .exhausted
  | succ n ih =>
      change Agree _ (evalWith (source order) (n + 1) e env σ) _
      have part : ∀ e1 t t', Part e1 e → StoreTrims t t' →
          Agree TrimsResult (eval order n e1 env t) (evalWith (fullCapture order) n e1 env' t') :=
        fun e1 t t' hp ht => ih e1 env env' t t' (he.part hp) (henv.part hp) ht
      have under : ∀ name v w e1 t t', Under name e1 e → Value.Trims v w → StoreTrims t t' →
          Agree TrimsResult (eval order n e1 ((name, v) :: env) t)
            (evalWith (fullCapture order) n e1 ((name, w) :: env') t') :=
        fun name v w e1 t t' hu hvw ht => ih e1 _ _ t t' (he.under hu) (henv.under hu hvw) ht
      -- neither the values nor the stores move under one another, so `operands` needs no frame
      have pair : ∀ e1 e2, Part e1 e → Part e2 e →
          Agree (fun p t q t' => p.1.Trims q.1 ∧ p.2.Trims q.2 ∧ StoreTrims t t' ∧ True)
            (operands order (eval order n e1 env) (eval order n e2 env) σ)
            (operands order (evalWith (fullCapture order) n e1 env')
              (evalWith (fullCapture order) n e2 env') σ') := by
        intro e1 e2 h1 h2
        exact Agree.operands order (I := StoreTrims) (L := fun _ _ _ _ => True)
          (R := fun v _ w _ => v.Trims w) (fun _ _ => trivial) (fun _ _ _ _ _ _ _ _ => trivial)
          (fun _ _ _ _ _ _ h _ => h) hσ
          (fun s t hst _ => (part e1 s t h1 hst).mono (fun _ _ _ _ h => ⟨h.1, h.2, trivial⟩))
          (fun s t hst _ => (part e2 s t h2 hst).mono (fun _ _ _ _ h => ⟨h.1, h.2, trivial⟩))
      cases e using Expr.shapes with
      | val v => exact .returned ⟨(he v (by simp [literals])).trims, hσ⟩
      | nil => exact .returned ⟨.nil, hσ⟩
      | binary op e1 e2 =>
          rw [evalWith_binary, evalWith_binary]
          refine (pair e1 e2 .left .right).bind ?_
          rintro ⟨v, w⟩ t ⟨v', w'⟩ t' ⟨hv, hw, ht, _⟩
          exact op.apply_trims hv hw ht
      | unary op e1 =>
          rw [evalWith_unary, evalWith_unary]
          refine (part e1 σ σ' .operand hσ).bind ?_
          rintro v t v' t' ⟨hv, ht⟩
          exact op.apply_trims hv ht
      | letE name v inE =>
          refine (part v σ σ' .letBound hσ).bind ?_
          rintro x t x' t' ⟨hx, ht⟩
          exact under name x x' inE t t' .letBody hx ht
      | id name =>
          obtain ⟨v, w, hv, hw, hvw⟩ := henv name (by simp [freevars])
          simp only [evalWith, hv, hw]
          exact .returned ⟨hσ.deref hvw, hσ⟩
      | lam var e1 => exact makeClosure_trims (he.under .lam) henv hσ
      | app e1 e2 =>
          refine (pair e1 e2 .function .argument).bind ?_
          rintro ⟨f, x⟩ t ⟨f', x'⟩ t' ⟨hf, hx, ht, _⟩
          cases f with
          | closure var body defs =>
              obtain ⟨hbody, defs', rfl, hdefs⟩ := hf.apply hx
              exact ih body _ _ t t' hbody hdefs ht
          | int _ | bool _ | ref _ | listVal _ => cases hf <;> exact .raised _
      | letRec name fxn e1 =>
          have hcell : (Value.ref σ.size).Trims (.ref σ'.size) := by
            rw [hσ.size_eq]
            exact .ref _
          refine (under name _ _ fxn _ _ .recBound hcell (hσ.alloc (.int 999))).bind ?_
          rintro c t c' t' ⟨hc, ht⟩
          refine under name _ _ e1 (t.assign σ.size c).2 (t'.assign σ'.size c').2 .recBody hcell ?_
          rw [← hσ.size_eq]
          exact ht.assign hc σ.size
      | ifE e1 e2 e3 =>
          refine (part e1 σ σ' .condition hσ).bind ?_
          rintro v t v' t' ⟨hv, ht⟩
          cases hv with
          | bool b =>
              cases b with
              | true => exact part e2 t t' .thenE ht
              | false => exact part e3 t t' .elseE ht
          | int _ | ref _ | nil | cons _ _ | closure _ _ _ _ => exact .raised _

/-- Trimming closures to their free variables is not observable by a closed program. -/
theorem eval_sameOutcome_fullCapture (order : Order) (e : Expr) (env : Environment)
    (closed : freevars e = []) (he : e.Plain) :
    SameOutcome TrimsResult (fun n => eval order n e env Store.empty)
      (fun n => evalWith (fullCapture order) n e env Store.empty) := by
  apply sameOutcome_of_agree
  intro n
  apply eval_trims order n e env env Store.empty Store.empty he
  · intro y hy
    rw [closed] at hy
    cases hy
  · exact ⟨rfl, fun _ => .int 0⟩

theorem eval_sameOutcome_fullCapture_sumTo4 :
    SameOutcome TrimsResult (fun n => eval .rightToLeft n sumTo4 [] Store.empty)
      (fun n => evalWith (fullCapture .rightToLeft) n sumTo4 [] Store.empty) :=
  eval_sameOutcome_fullCapture .rightToLeft sumTo4 [] rfl sumTo4_plain

end UmnProjects.Evaluator
