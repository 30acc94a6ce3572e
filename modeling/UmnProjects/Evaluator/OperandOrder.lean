import UmnProjects.Foundations.Correspondence
import UmnProjects.Evaluator.Invariants
import Mathlib.Data.List.Forall2

/-!
Operands from left to right against operands from right to left. The two runs allocate their
cells in different orders, so their values and stores agree up to a correspondence between the
cells they have allocated. The cells that the other operand has allocated in the meantime do not
matter to an operand.
-/
namespace UmnProjects.Evaluator
open UmnProjects.Computation Correspondences

/-! ### Values up to renaming -/

/-- Equal values but for references, which `π` relates. -/
inductive Value.Renamed (π : Nat → Nat → Prop) : Value → Value → Prop where
  | int (v : Int63) : Value.Renamed π (.int v) (.int v)
  | bool (v : Bool) : Value.Renamed π (.bool v) (.bool v)
  | ref {r s : Nat} : π r s → Value.Renamed π (.ref r) (.ref s)
  | nil : Value.Renamed π (.listVal []) (.listVal [])
  | cons {v w : Value} {l m : List Value} :
      Value.Renamed π v w → Value.Renamed π (.listVal l) (.listVal m) →
      Value.Renamed π (.listVal (v :: l)) (.listVal (w :: m))
  | closure {var : String} {e : Expr} : (∀ v ∈ literals e, Value.Renamed π v v) →
      Value.Renamed π (.closure var e []) (.closure var e [])
  | capture {var name : String} {e : Expr} {v w : Value} {env env' : Environment} :
      Value.Renamed π v w → Value.Renamed π (.closure var e env) (.closure var e env') →
      Value.Renamed π (.closure var e ((name, v) :: env)) (.closure var e ((name, w) :: env'))

/-- The literals of the expression are the same on both sides. -/
def Expr.Renamed (π : Nat → Nat → Prop) (e : Expr) : Prop := ∀ v ∈ literals e, v.Renamed π v

/-- The same names in the same order, bound to the same values. -/
def EnvRenamed (π : Nat → Nat → Prop) : Environment → Environment → Prop :=
  List.Forall₂ fun b b' => b.1 = b'.1 ∧ b.2.Renamed π b'.2

structure StoreRenamed (π : Nat → Nat → Prop) (σ σ' : Store) : Prop where
  bounds : ∀ r s, π r s → r < σ.size ∧ s < σ'.size
  cells : ∀ r s, π r s → (σ.cells r).Renamed π (σ'.cells s)

theorem Value.Renamed.mono {π π' : Nat → Nat → Prop} {v w : Value} (h : v.Renamed π w)
    (hle : π ≤ π') : v.Renamed π' w := by
  induction h with
  | int v => exact .int v
  | bool v => exact .bool v
  | ref h => exact .ref (hle _ _ h)
  | nil => exact .nil
  | cons _ _ ihv ihl => exact .cons ihv ihl
  | closure _ ih => exact .closure ih
  | capture _ _ ihv ihc => exact .capture ihv ihc

theorem Expr.Renamed.mono {π π' : Nat → Nat → Prop} {e : Expr} (h : e.Renamed π) (hle : π ≤ π') :
    e.Renamed π' :=
  fun v hv => (h v hv).mono hle

theorem EnvRenamed.mono {π π' : Nat → Nat → Prop} {env env' : Environment}
    (h : EnvRenamed π env env') (hle : π ≤ π') : EnvRenamed π' env env' :=
  h.imp fun _ _ hb => ⟨hb.1, hb.2.mono hle⟩

theorem EnvRenamed.bind {π : Nat → Nat → Prop} {env env' : Environment}
    (h : EnvRenamed π env env') {v w : Value} (hvw : v.Renamed π w) (name : String) :
    EnvRenamed π ((name, v) :: env) ((name, w) :: env') :=
  List.Forall₂.cons ⟨rfl, hvw⟩ h

theorem Expr.Renamed.part {π : Nat → Nat → Prop} {e1 e : Expr} (he : e.Renamed π)
    (h : Part e1 e) : e1.Renamed π :=
  fun v hv => he v (h.literals v hv)

theorem Expr.Renamed.under {π : Nat → Nat → Prop} {name : String} {e1 e : Expr}
    (he : e.Renamed π) (h : Under name e1 e) : e1.Renamed π :=
  fun v hv => he v (h.literals v hv)

theorem EnvRenamed.closure {π : Nat → Nat → Prop} {var : String} {e : Expr}
    {env env' : Environment} (h : EnvRenamed π env env') (he : e.Renamed π) :
    (Value.closure var e env).Renamed π (.closure var e env') := by
  induction h with
  | nil => exact .closure he
  | @cons b b' env env' hb _ ih =>
      obtain ⟨name, v⟩ := b
      obtain ⟨name', w⟩ := b'
      obtain ⟨hname, hvw⟩ := hb
      cases hname
      exact .capture hvw ih

theorem Value.Renamed.of_closure {π : Nat → Nat → Prop} {var : String} {e : Expr}
    {env : Environment} {f : Value} (h : (Value.closure var e env).Renamed π f) :
    e.Renamed π ∧ ∃ env', f = .closure var e env' ∧ EnvRenamed π env env' := by
  induction env generalizing f with
  | nil =>
      cases h with
      | closure he => exact ⟨he, [], rfl, .nil⟩
  | cons b env ih =>
      cases h with
      | capture hvw hrest =>
          obtain ⟨he, env', heq, henv⟩ := ih hrest
          cases heq
          exact ⟨he, _, rfl, .cons ⟨rfl, hvw⟩ henv⟩

/-- A name has related first bindings, or none on either side. -/
theorem EnvRenamed.find {π : Nat → Nat → Prop} {env env' : Environment}
    (h : EnvRenamed π env env') (name : String) :
    (Evaluator.find name env = none ∧ Evaluator.find name env' = none) ∨
      ∃ v w, Evaluator.find name env = some v ∧ Evaluator.find name env' = some w ∧
        v.Renamed π w := by
  induction h with
  | nil => exact .inl ⟨rfl, rfl⟩
  | @cons b b' env env' hb _ ih =>
      obtain ⟨y, v⟩ := b
      obtain ⟨y', w⟩ := b'
      obtain ⟨hname, hvw⟩ := hb
      cases hname
      by_cases hy : y = name
      · exact .inr ⟨v, w, by simp [hy], by simp [hy], hvw⟩
      · simpa [hy] using ih

theorem getVal_renamed {π : Nat → Nat → Prop} {env env' : Environment}
    (h : EnvRenamed π env env') {name : String} {b : String × Value}
    (hb : getVal env name = .ok b) :
    ∃ b', getVal env' name = .ok b' ∧ b.1 = b'.1 ∧ b.2.Renamed π b'.2 := by
  obtain ⟨hname, hfind⟩ := getVal_ok hb
  obtain ⟨hnone, _⟩ | ⟨v, w, hv, hw, hvw⟩ := h.find name
  · rw [hfind] at hnone
    cases hnone
  · rw [hfind] at hv
    cases hv
    exact ⟨(name, w), by rw [getVal, hw], hname, hvw⟩

theorem mapExcept_renamed {π : Nat → Nat → Prop} {env env' : Environment}
    (h : EnvRenamed π env env') {names : List String} {clEnv : Environment}
    (hm : mapExcept (getVal env) names = .ok clEnv) :
    ∃ clEnv', mapExcept (getVal env') names = .ok clEnv' ∧ EnvRenamed π clEnv clEnv' := by
  have hall := mapExcept_ok hm
  clear hm
  induction hall with
  | nil => exact ⟨[], rfl, .nil⟩
  | cons hb _ ih =>
      obtain ⟨b', hb', hrenamed⟩ := getVal_renamed h hb
      obtain ⟨clEnv', hclEnv', hrest⟩ := ih
      refine ⟨b' :: clEnv', ?_, .cons hrenamed hrest⟩
      rw [mapExcept, hb', hclEnv']

theorem makeClosure_renamed {π : Nat → Nat → Prop} {env env' : Environment}
    (h : EnvRenamed π env env') {var : String} {e : Expr} (he : e.Renamed π) {v : Value}
    (hm : makeClosure var e env = .ok v) :
    ∃ w, makeClosure var e env' = .ok w ∧ v.Renamed π w := by
  rw [makeClosure] at hm
  cases hmap : mapExcept (getVal env) (captured var e) with
  | error x =>
      rw [hmap] at hm
      cases hm
  | ok clEnv =>
      rw [hmap] at hm
      cases hm
      obtain ⟨clEnv', hmap', hclEnv⟩ := mapExcept_renamed h hmap
      refine ⟨.closure var e clEnv', ?_, hclEnv.closure he⟩
      rw [makeClosure, hmap']

theorem StoreRenamed.deref {π : Nat → Nat → Prop} {σ σ' : Store} (h : StoreRenamed π σ σ')
    {v w : Value} (hvw : v.Renamed π w) : (σ.deref v).Renamed π (σ'.deref w) := by
  cases hvw with
  | ref hrs => exact h.cells _ _ hrs
  | int v => exact .int v
  | bool v => exact .bool v
  | nil => exact .nil
  | cons hv hl => exact .cons hv hl
  | closure he => exact .closure he
  | capture hv hc => exact .capture hv hc

theorem BinaryOp.apply_renamed (op : BinaryOp) {π : Nat → Nat → Prop} {v v' w w' u : Value}
    (hv : v.Renamed π v') (hw : w.Renamed π w') (h : op.apply v w = .ok u) :
    ∃ u', op.apply v' w' = .ok u' ∧ u.Renamed π u' := by
  cases op
  case cons =>
    cases hw with
    | nil =>
        cases h
        exact ⟨_, rfl, .cons hv .nil⟩
    | cons hh hl =>
        cases h
        exact ⟨_, rfl, .cons hv (.cons hh hl)⟩
    | int _ | bool _ | ref _ | closure _ | capture _ _ => cases hv <;> cases h
  case div =>
    cases hv <;> cases hw <;> try cases h
    simp only [BinaryOp.apply] at h ⊢
    split at h
    · cases h
    · next hzero =>
        cases h
        exact ⟨_, if_neg hzero, .int _⟩
  all_goals
    cases hv <;> cases hw <;> cases h
    all_goals
      first
      | exact ⟨_, rfl, .int _⟩
      | exact ⟨_, rfl, .bool _⟩

theorem UnaryOp.apply_renamed (op : UnaryOp) {π : Nat → Nat → Prop} {v v' u : Value}
    (hv : v.Renamed π v') (h : op.apply v = .ok u) :
    ∃ u', op.apply v' = .ok u' ∧ u.Renamed π u' := by
  cases op <;> cases hv <;> cases h <;>
    first
    | exact ⟨_, rfl, .int _⟩
    | exact ⟨_, rfl, .bool _⟩
    | exact ⟨_, rfl, by assumption⟩

/-! ### Two runs -/

/-- From related stores each run has moved on to a later one, and `ν` matches up the cells the
two have allocated on the way. -/
structure Grown (π : Nat → Nat → Prop) (σ σ' : Store) (ν : Nat → Nat → Prop) (τ τ' : Store) :
    Prop where
  fresh : Correspondence ν (Set.Ico σ.size τ.size) (Set.Ico σ'.size τ'.size)
  store : StoreRenamed (π ⊔ ν) τ τ'
  left : σ.Later τ
  right : σ'.Later τ'

/-- Another run may have gone on in the meantime. -/
theorem StoreRenamed.later {π : Nat → Nat → Prop} {σ σ' τ τ' : Store} (h : StoreRenamed π σ σ')
    (hl : σ.Later τ) (hr : σ'.Later τ') : StoreRenamed π τ τ' := by
  refine ⟨?_, ?_⟩
  · intro r s hrs
    obtain ⟨hlt, hlt'⟩ := h.bounds r s hrs
    exact ⟨Nat.lt_of_lt_of_le hlt hl.size_le, Nat.lt_of_lt_of_le hlt' hr.size_le⟩
  · intro r s hrs
    obtain ⟨hlt, hlt'⟩ := h.bounds r s hrs
    rw [hl.cells_eq r hlt, hr.cells_eq s hlt']
    exact h.cells r s hrs

theorem Grown.refl {π : Nat → Nat → Prop} {σ σ' : Store} (h : StoreRenamed π σ σ') :
    Grown π σ σ' ⊥ σ σ' := by
  refine ⟨?_, by rwa [sup_bot_eq], .refl σ, .refl σ'⟩
  rw [Set.Ico_self, Set.Ico_self]
  exact .empty

theorem Grown.trans {π ν μ : Nat → Nat → Prop} {σ σ' τ τ' ρ ρ' : Store}
    (h : Grown π σ σ' ν τ τ') (h' : Grown (π ⊔ ν) τ τ' μ ρ ρ') :
    Grown π σ σ' (ν ⊔ μ) ρ ρ' := by
  refine ⟨?_, ?_, h.left.trans h'.left, h.right.trans h'.right⟩
  · exact h.fresh.append h'.fresh h.left.size_le h'.left.size_le h.right.size_le h'.right.size_le
  · rw [← sup_assoc]
    exact h'.store

/-- The first run goes on from `σ` over `τ` to `ρ`, the second one the other way round, from
`σ'` over `τ'` to `ρ'`. -/
theorem Grown.cross {π ν μ : Nat → Nat → Prop} {σ σ' τ τ' ρ ρ' : Store}
    (h : Grown π σ τ' ν τ ρ') (h' : Grown π τ σ' μ ρ τ') : Grown π σ σ' (ν ⊔ μ) ρ ρ' := by
  have hle : π ⊔ ν ≤ π ⊔ (ν ⊔ μ) := sup_le_sup_left le_sup_left π
  have hle' : π ⊔ μ ≤ π ⊔ (ν ⊔ μ) := sup_le_sup_left le_sup_right π
  have hfirst := h.store.later h'.left (.refl ρ')
  have hsecond := h'.store.later (.refl ρ) h.right
  refine ⟨?_, ?_, h.left.trans h'.left, h'.right.trans h.right⟩
  · exact h.fresh.cross h'.fresh h.left.size_le h'.left.size_le h'.right.size_le h.right.size_le
  · refine ⟨?_, ?_⟩
    · rintro r s (hrs | hrs | hrs)
      · exact hfirst.bounds r s (.inl hrs)
      · exact hfirst.bounds r s (.inr hrs)
      · exact hsecond.bounds r s (.inr hrs)
    · rintro r s (hrs | hrs | hrs)
      · exact (hfirst.cells r s (.inl hrs)).mono hle
      · exact (hfirst.cells r s (.inr hrs)).mono hle
      · exact (hsecond.cells r s (.inr hrs)).mono hle'

def RenamedResult (π : Nat → Nat → Prop) (σ σ' : Store) (v : Value) (τ : Store) (w : Value)
    (τ' : Store) : Prop :=
  ∃ ν, Grown π σ σ' ν τ τ' ∧ v.Renamed (π ⊔ ν) w

/-- What the rest of an evaluation returns counts from where the evaluation started. -/
theorem Grown.result {π ν : Nat → Nat → Prop} {σ σ' τ τ' : Store} (h : Grown π σ σ' ν τ τ')
    {v w : Value} {ρ ρ' : Store} (hr : RenamedResult (π ⊔ ν) τ τ' v ρ w ρ') :
    RenamedResult π σ σ' v ρ w ρ' := by
  obtain ⟨μ, hgrown, hvw⟩ := hr
  exact ⟨ν ⊔ μ, h.trans hgrown, by rwa [← sup_assoc]⟩

/-- The left run evaluates the first operand first, the right run the second one. Each operand
is evaluated from related stores, since the other one leaves alone what is related. -/
theorem carries_operands {m1 m2 n1 n2 : EvalM Value} {π : Nat → Nat → Prop} {σ σ' : Store}
    (hσ : StoreRenamed π σ σ') (hm1 : Ensures (m1 σ) (fun _ τ => σ.Later τ) fun _ => True)
    (h1 : ∀ τ τ', StoreRenamed π τ τ' → Carries (RenamedResult π τ τ') (m1 τ) (n1 τ'))
    (h2 : ∀ τ τ', StoreRenamed π τ τ' → Carries (RenamedResult π τ τ') (m2 τ) (n2 τ')) :
    Carries (fun p ρ q ρ' => ∃ ν, Grown π σ σ' ν ρ ρ' ∧ p.1.Renamed (π ⊔ ν) q.1 ∧
        p.2.Renamed (π ⊔ ν) q.2)
      (operands .leftToRight m1 m2 σ) (operands .rightToLeft n1 n2 σ') := by
  intro p ρ hrun
  obtain ⟨v, τ, hv, hrest⟩ := Comp.bind_eq_ok hrun
  obtain ⟨w, ρ₀, hw, hpair⟩ := Comp.bind_eq_ok hrest
  cases hpair
  have hτ : StoreRenamed π τ σ' := hσ.later (hm1.of_ok hv) (.refl σ')
  obtain ⟨w', τ', hw', μ, hright, hww'⟩ := h2 τ σ' hτ w ρ hw
  have hσ' : StoreRenamed π σ τ' := hσ.later (.refl σ) hright.right
  obtain ⟨v', ρ', hv', ν, hleft, hvv'⟩ := h1 σ τ' hσ' v τ hv
  refine ⟨(v', w'), ρ', ?_, ν ⊔ μ, hleft.cross hright, ?_, ?_⟩
  · rw [operands, Comp.bind_ok hw', Comp.bind_ok hv']
    rfl
  · exact hvv'.mono (sup_le_sup_left le_sup_left π)
  · exact hww'.mono (sup_le_sup_left le_sup_right π)

theorem carries_ofExcept {π : Nat → Nat → Prop} {σ σ' : Store} (hσ : StoreRenamed π σ σ')
    {r r' : Except Exn Value}
    (h : ∀ v, r = .ok v → ∃ w, r' = .ok w ∧ v.Renamed π w) :
    Carries (RenamedResult π σ σ') (Comp.ofExcept r σ) (Comp.ofExcept r' σ') := by
  cases r with
  | error x => exact .raised
  | ok v =>
      obtain ⟨w, hw, hvw⟩ := h v rfl
      rw [hw]
      exact .returned ⟨⊥, .refl hσ, by rwa [sup_bot_eq]⟩

/-- The cells that both runs allocate next. -/
def nextCells (σ σ' : Store) (r s : Nat) : Prop := r = σ.size ∧ s = σ'.size

/-- Both runs allocate a cell for the same binding. -/
theorem Grown.alloc {π : Nat → Nat → Prop} {σ σ' : Store} (h : StoreRenamed π σ σ') (p : Int63) :
    Grown π σ σ' (nextCells σ σ') (σ.alloc (.int p)).2 (σ'.alloc (.int p)).2 := by
  have hlater := h.later (later_alloc σ (.int p)) (later_alloc σ' (.int p))
  refine ⟨.next σ.size σ'.size, ⟨?_, ?_⟩, later_alloc σ _, later_alloc σ' _⟩
  · rintro r s (hrs | ⟨rfl, rfl⟩)
    · exact hlater.bounds r s hrs
    · exact ⟨Nat.lt_succ_self _, Nat.lt_succ_self _⟩
  · rintro r s (hrs | ⟨rfl, rfl⟩)
    · exact (hlater.cells r s hrs).mono le_sup_left
    · simpa [Store.alloc] using Value.Renamed.int p

/-- Both runs assign the cells of one binding. They are related to one another only, as all other
pairs are of cells from before or of cells from after. -/
theorem Grown.assign {π ν : Nat → Nat → Prop} {σ σ' τ τ' : Store} (hσ : StoreRenamed π σ σ')
    (h : Grown (π ⊔ nextCells σ σ') (σ.alloc (.int 999)).2 (σ'.alloc (.int 999)).2 ν τ τ')
    {v w : Value} (hvw : v.Renamed (π ⊔ nextCells σ σ' ⊔ ν) w) :
    Grown π σ σ' (nextCells σ σ' ⊔ ν) (τ.assign σ.size v).2 (τ'.assign σ'.size w).2 := by
  have hgrown := (Grown.alloc hσ 999).trans h
  have hpair : ∀ r s, (π ⊔ nextCells σ σ' ⊔ ν) r s →
      (r = σ.size ∧ s = σ'.size) ∨ (r ≠ σ.size ∧ s ≠ σ'.size) := by
    rintro r s ((hrs | hrs) | hrs)
    · obtain ⟨hr, hs⟩ := hσ.bounds r s hrs
      exact .inr ⟨Nat.ne_of_lt hr, Nat.ne_of_lt hs⟩
    · exact .inl hrs
    · obtain ⟨hr, hs⟩ := h.fresh.mem r s hrs
      exact .inr ⟨Nat.ne_of_gt hr.1, Nat.ne_of_gt hs.1⟩
  refine ⟨hgrown.fresh, ⟨hgrown.store.bounds, ?_⟩, hgrown.left.assign (Nat.le_refl _) v,
    hgrown.right.assign (Nat.le_refl _) w⟩
  intro r s hrs
  rw [← sup_assoc] at hrs ⊢
  obtain ⟨rfl, rfl⟩ | ⟨hr, hs⟩ := hpair r s hrs
  · simpa [Store.assign] using hvw
  · simpa [Store.assign, hr, hs] using h.store.cells r s hrs

theorem eval_carries (n : Nat) (e : Expr) (env env' : Environment) (σ σ' : Store)
    (π : Nat → Nat → Prop) (he : e.Renamed π) (henv : EnvRenamed π env env')
    (hσ : StoreRenamed π σ σ') :
    Carries (RenamedResult π σ σ') (eval .leftToRight n e env σ)
      (eval .rightToLeft n e env' σ') := by
  induction n generalizing e env env' σ σ' π with
  | zero => exact .exhausted
  | succ n ih =>
      change Carries _ (evalWith (source .leftToRight) (n + 1) e env σ)
        (evalWith (source .rightToLeft) (n + 1) e env' σ')
      have part : ∀ e1 τ τ', Part e1 e → StoreRenamed π τ τ' → Carries (RenamedResult π τ τ')
          (eval .leftToRight n e1 env τ) (eval .rightToLeft n e1 env' τ') :=
        fun e1 τ τ' hp hτ => ih e1 env env' τ τ' π (he.part hp) henv hτ
      have grown : ∀ e1 v w ν τ τ' name, Under name e1 e → Grown π σ σ' ν τ τ' →
          Value.Renamed (π ⊔ ν) v w → Carries (RenamedResult π σ σ')
            (eval .leftToRight n e1 ((name, v) :: env) τ)
            (eval .rightToLeft n e1 ((name, w) :: env') τ') := by
        intro e1 v w ν τ τ' name hu hτ hvw
        exact (ih e1 _ _ τ τ' (π ⊔ ν) ((he.under hu).mono le_sup_left)
          ((henv.mono le_sup_left).bind hvw name) hτ.store).mono fun _ _ _ _ h => hτ.result h
      have rest : ∀ e1 ν τ τ', Part e1 e → Grown π σ σ' ν τ τ' → Carries (RenamedResult π σ σ')
          (eval .leftToRight n e1 env τ) (eval .rightToLeft n e1 env' τ') :=
        fun e1 ν τ τ' hp hτ => (ih e1 env env' τ τ' (π ⊔ ν) ((he.part hp).mono le_sup_left)
          (henv.mono le_sup_left) hτ.store).mono fun _ _ _ _ h => hτ.result h
      have pair : ∀ e1 e2, Part e1 e → Part e2 e →
          Carries (fun p ρ q ρ' => ∃ ν, Grown π σ σ' ν ρ ρ' ∧ p.1.Renamed (π ⊔ ν) q.1 ∧
              p.2.Renamed (π ⊔ ν) q.2)
            (operands .leftToRight (eval .leftToRight n e1 env) (eval .leftToRight n e2 env) σ)
            (operands .rightToLeft (eval .rightToLeft n e1 env') (eval .rightToLeft n e2 env')
              σ') :=
        fun e1 e2 hp hp' => carries_operands hσ (eval_later .leftToRight n e1 env σ)
          (fun τ τ' hτ => part e1 τ τ' hp hτ) fun τ τ' hτ => part e2 τ τ' hp' hτ
      cases e using Expr.shapes with
      | val v => exact .returned ⟨⊥, .refl hσ, by rw [sup_bot_eq]; exact he v (by simp [literals])⟩
      | nil => exact .returned ⟨⊥, .refl hσ, .nil⟩
      | binary op e1 e2 =>
          rw [evalWith_binary, evalWith_binary]
          refine (pair e1 e2 .left .right).bind ?_
          rintro p τ q τ' ⟨ν, hτ, hp, hq⟩
          exact (carries_ofExcept hτ.store fun u hu => op.apply_renamed hp hq hu).mono
            fun _ _ _ _ h => hτ.result h
      | unary op e1 =>
          rw [evalWith_unary, evalWith_unary]
          refine (part e1 σ σ' .operand hσ).bind ?_
          rintro v τ w τ' ⟨ν, hτ, hvw⟩
          exact (carries_ofExcept hτ.store fun u hu => op.apply_renamed hvw hu).mono
            fun _ _ _ _ h => hτ.result h
      | letE name v inE =>
          refine (part v σ σ' .letBound hσ).bind ?_
          rintro x τ x' τ' ⟨ν, hτ, hx⟩
          exact grown inE x x' ν τ τ' name .letBody hτ hx
      | id name =>
          simp only [evalWith]
          obtain ⟨hnone, _⟩ | ⟨v, w, hv, hw, hvw⟩ := henv.find name
          · rw [hnone]
            exact .raised
          · rw [hv, hw]
            exact .returned ⟨⊥, .refl hσ, by rw [sup_bot_eq]; exact hσ.deref hvw⟩
      | lam var e1 =>
          exact carries_ofExcept hσ fun v hv => makeClosure_renamed henv (he.under .lam) hv
      | app e1 e2 =>
          refine (pair e1 e2 .function .argument).bind ?_
          rintro ⟨f, x⟩ τ ⟨f', x'⟩ τ' ⟨ν, hτ, hf, hx⟩
          cases f with
          | closure var body defs =>
              obtain ⟨hbody, defs', rfl, hdefs⟩ := hf.of_closure
              exact (ih body _ _ τ τ' (π ⊔ ν) hbody (hdefs.bind hx var) hτ.store).mono
                fun _ _ _ _ h => hτ.result h
          | int _ | bool _ | ref _ | listVal _ => exact .raised
      | letRec name fxn e1 =>
          have hcell : (Value.ref σ.size).Renamed (π ⊔ nextCells σ σ') (.ref σ'.size) :=
            .ref (.inr ⟨rfl, rfl⟩)
          refine Carries.bind (R := RenamedResult (π ⊔ nextCells σ σ') (σ.alloc (.int 999)).2
            (σ'.alloc (.int 999)).2) ?_ ?_
          · exact ih fxn ((name, .ref σ.size) :: env) ((name, .ref σ'.size) :: env') _ _
              (π ⊔ nextCells σ σ') ((he.under .recBound).mono le_sup_left)
              ((henv.mono le_sup_left).bind hcell name) (Grown.alloc hσ 999).store
          · rintro c τ c' τ' ⟨ν, hτ, hc⟩
            refine grown e1 _ _ _ (τ.assign σ.size c).2 (τ'.assign σ'.size c').2 name .recBody
              (Grown.assign hσ hτ hc) ?_
            rw [← sup_assoc]
            exact hcell.mono le_sup_left
      | ifE e1 e2 e3 =>
          refine (part e1 σ σ' .condition hσ).bind ?_
          rintro v τ w τ' ⟨ν, hτ, hvw⟩
          cases hvw with
          | bool b =>
              cases b with
              | true => exact rest e2 ν τ τ' .thenE hτ
              | false => exact rest e3 ν τ τ' .elseE hτ
          | int _ | ref _ | nil | cons _ _ | closure _ | capture _ _ => exact .raised

/-! ### Programs that hold existing cells only -/

/-- Every reference in the value, at any depth, is one of the first `size` cells. -/
inductive Value.Allocated (size : Nat) : Value → Prop where
  | int (v : Int63) : Value.Allocated size (.int v)
  | bool (v : Bool) : Value.Allocated size (.bool v)
  | ref {r : Nat} : r < size → Value.Allocated size (.ref r)
  | nil : Value.Allocated size (.listVal [])
  | cons {v : Value} {l : List Value} : Value.Allocated size v →
      Value.Allocated size (.listVal l) → Value.Allocated size (.listVal (v :: l))
  | closure {var : String} {e : Expr} {env : Environment} :
      (∀ b ∈ env, Value.Allocated size b.2) → (∀ v ∈ literals e, Value.Allocated size v) →
      Value.Allocated size (.closure var e env)

/-- The cells that existed before keep their numbers. -/
def oldCells (σ : Store) (r s : Nat) : Prop := r = s ∧ r < σ.size

theorem Value.Allocated.renamed {σ : Store} {v : Value} (h : v.Allocated σ.size) :
    v.Renamed (oldCells σ) v := by
  induction h with
  | int v => exact .int v
  | bool v => exact .bool v
  | ref hr => exact .ref ⟨rfl, hr⟩
  | nil => exact .nil
  | cons _ _ ihv ihl => exact .cons ihv ihl
  | closure _ _ ihenv ihlits =>
      exact EnvRenamed.closure (List.forall₂_same.mpr fun b hb => ⟨rfl, ihenv b hb⟩) ihlits

theorem returns_rightToLeft (e : Expr) (env : Environment) (σ : Store)
    (he : ∀ v ∈ literals e, v.Allocated σ.size) (henv : ∀ b ∈ env, b.2.Allocated σ.size)
    (hσ : ∀ r < σ.size, (σ.cells r).Allocated σ.size) (v : Value) (τ : Store)
    (h : Returns (fun n => eval .leftToRight n e env σ) v τ) :
    ∃ ν w τ', Returns (fun n => eval .rightToLeft n e env σ) w τ' ∧
      Correspondence ν (Set.Ico σ.size τ.size) (Set.Ico σ.size τ'.size) ∧
      v.Renamed (oldCells σ ⊔ ν) w ∧ StoreRenamed (oldCells σ ⊔ ν) τ τ' ∧
      σ.Later τ ∧ σ.Later τ' := by
  have hstore : StoreRenamed (oldCells σ) σ σ := by
    refine ⟨?_, ?_⟩
    · rintro r s ⟨rfl, hr⟩
      exact ⟨hr, hr⟩
    · rintro r s ⟨rfl, hr⟩
      exact (hσ r hr).renamed
  have henv' : EnvRenamed (oldCells σ) env env :=
    List.forall₂_same.mpr fun b hb => ⟨rfl, (henv b hb).renamed⟩
  obtain ⟨n, hn⟩ := h
  obtain ⟨w, τ', hw, ν, hgrown, hvw⟩ := eval_carries n e env env σ σ (oldCells σ)
    (fun v hv => (he v hv).renamed) henv' hstore v τ hn
  exact ⟨ν, w, τ', ⟨n, hw⟩, hgrown.fresh, hvw, hgrown.store, hgrown.left, hgrown.right⟩

/-- Two functions that call themselves, whose cells are allocated in either order. -/
def twoFunctions : Expr :=
  .cons (.letRec "f" (.lam "x" (.app (.id "f") (.id "x"))) (.id "f"))
    (.cons (.letRec "g" (.lam "x" (.app (.id "g") (.id "x"))) (.id "g")) .nil)

theorem returns_rightToLeft_twoFunctions : ∃ v τ ν w τ',
    Returns (fun n => eval .leftToRight n twoFunctions [] Store.empty) v τ ∧
    Returns (fun n => eval .rightToLeft n twoFunctions [] Store.empty) w τ' ∧
    Correspondence ν (Set.Ico 0 τ.size) (Set.Ico 0 τ'.size) ∧
    v.Renamed (oldCells Store.empty ⊔ ν) w := by
  have hrun : ∃ v τ, eval .leftToRight 4 twoFunctions [] Store.empty = some (.ok (v, τ)) :=
    ⟨_, _, rfl⟩
  obtain ⟨v, τ, hv⟩ := hrun
  obtain ⟨ν, w, τ', hw, hν, hvw, _⟩ := returns_rightToLeft twoFunctions [] Store.empty
    (fun v hv => by cases hv) (fun b hb => by cases hb) (fun r hr => by cases hr) v τ ⟨4, hv⟩
  exact ⟨v, τ, ν, w, τ', ⟨4, hv⟩, hw, hν, hvw⟩

end UmnProjects.Evaluator
