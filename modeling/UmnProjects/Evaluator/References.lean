import UmnProjects.Evaluator.Invariants

/-!
Where references can be. Where none is written in the program, a value that holds one holds it
in the environment of a closure only, and a cell holds no reference at all.
-/
namespace UmnProjects.Evaluator
open UmnProjects.Computation

/-! ### References in values -/

/-- No reference but in the environments of closures, and there to the first `size` cells. -/
inductive Value.Proper (size : Nat) : Value → Prop where
  | int (v : Int63) : Value.Proper size (.int v)
  | bool (v : Bool) : Value.Proper size (.bool v)
  | nil : Value.Proper size (.listVal [])
  | cons {v : Value} {l : List Value} :
      Value.Proper size v → Value.Proper size (.listVal l) → Value.Proper size (.listVal (v :: l))
  | closure {var : String} {e : Expr} {env : Environment} :
      (∀ b ∈ env, ∀ r, b.2 = .ref r → r < size) →
      (∀ b ∈ env, (∀ r, b.2 ≠ .ref r) → Value.Proper size b.2) →
      (∀ v ∈ literals e, Value.Proper size v) → Value.Proper size (.closure var e env)

/-- No reference is written in the expression. -/
def Expr.Proper (size : Nat) (e : Expr) : Prop := ∀ v ∈ literals e, v.Proper size

/-- An entry is one of the first `size` cells or a value without a reference. -/
structure EnvProper (size : Nat) (env : Environment) : Prop where
  cells : ∀ b ∈ env, ∀ r, b.2 = .ref r → r < size
  values : ∀ b ∈ env, (∀ r, b.2 ≠ .ref r) → b.2.Proper size

def Store.Proper (σ : Store) : Prop := ∀ r < σ.size, (σ.cells r).Proper σ.size

/-- A reference, or a list that holds one at some depth. -/
inductive Value.Exposes : Value → Prop where
  | ref (r : Nat) : Value.Exposes (.ref r)
  | element {v : Value} {l : List Value} : v ∈ l → Value.Exposes v → Value.Exposes (.listVal l)

theorem Value.Proper.element {size : Nat} {v : Value} {l : List Value}
    (h : (Value.listVal l).Proper size) (hv : v ∈ l) : v.Proper size := by
  induction l with
  | nil => cases hv
  | cons w l ih =>
      cases h with
      | cons hw hl =>
          obtain rfl | hv := List.mem_cons.mp hv
          · exact hw
          · exact ih hl hv

theorem Value.Proper.not_exposes {size : Nat} {v : Value} (h : v.Proper size) : ¬ v.Exposes := by
  intro hexposes
  induction hexposes with
  | ref r => cases h
  | element hv _ ih => exact ih (h.element hv)

theorem Value.Proper.mono {n m : Nat} {v : Value} (h : v.Proper n) (hle : n ≤ m) :
    v.Proper m := by
  induction h with
  | int v => exact .int v
  | bool v => exact .bool v
  | nil => exact .nil
  | cons _ _ ihv ihl => exact .cons ihv ihl
  | closure hcells _ _ ihvalues ihlits =>
      exact .closure (fun b hb r hr => Nat.lt_of_lt_of_le (hcells b hb r hr) hle) ihvalues ihlits

theorem Expr.Proper.mono {n m : Nat} {e : Expr} (h : e.Proper n) (hle : n ≤ m) : e.Proper m :=
  fun v hv => (h v hv).mono hle

theorem Expr.Proper.part {size : Nat} {e1 e : Expr} (he : e.Proper size) (h : Part e1 e) :
    e1.Proper size :=
  fun v hv => he v (h.literals v hv)

theorem Expr.Proper.under {size : Nat} {name : String} {e1 e : Expr} (he : e.Proper size)
    (h : Under name e1 e) : e1.Proper size :=
  fun v hv => he v (h.literals v hv)

theorem Store.Proper.alloc {σ : Store} (h : σ.Proper) (i : Int63) :
    (σ.alloc (.int i)).2.Proper := by
  intro r hr
  simp only [Store.alloc]
  split
  · exact .int i
  · have hr' : r < σ.size + 1 := hr
    exact (h r (by omega)).mono (Nat.le_succ _)

theorem Store.Proper.assign {σ : Store} (h : σ.Proper) {v : Value} (hv : v.Proper σ.size)
    (r : Nat) : (σ.assign r v).2.Proper := by
  intro i hi
  simp only [Store.assign]
  split
  · exact hv
  · exact h i hi

/-! ### References in environments -/

/-- What an environment may hold: one of the first `size` cells or a value without a
reference. -/
structure Value.Bindable (size : Nat) (v : Value) : Prop where
  cell : ∀ r, v = .ref r → r < size
  value : (∀ r, v ≠ .ref r) → v.Proper size

theorem envProper_iff {size : Nat} {env : Environment} :
    EnvProper size env ↔ ∀ b ∈ env, b.2.Bindable size := by
  constructor
  · exact fun h b hb => ⟨h.cells b hb, h.values b hb⟩
  · exact fun h => ⟨fun b hb => (h b hb).cell, fun b hb => (h b hb).value⟩

theorem Value.Bindable.mono {n m : Nat} {v : Value} (h : v.Bindable n) (hle : n ≤ m) :
    v.Bindable m :=
  ⟨fun r hr => Nat.lt_of_lt_of_le (h.cell r hr) hle, fun hne => (h.value hne).mono hle⟩

theorem Value.Proper.bindable {size : Nat} {v : Value} (h : v.Proper size) :
    v.Bindable size := by
  refine ⟨?_, fun _ => h⟩
  intro r hr
  rw [hr] at h
  cases h

theorem Value.bindable_ref {size r : Nat} (hr : r < size) : (Value.ref r).Bindable size := by
  refine ⟨?_, fun hne => absurd rfl (hne r)⟩
  intro i hi
  cases hi
  exact hr

/-- The one dereference of `Id` is enough. -/
theorem Value.Bindable.deref {σ : Store} {v : Value} (h : v.Bindable σ.size) (hσ : σ.Proper) :
    (σ.deref v).Proper σ.size := by
  cases v with
  | ref r => exact hσ r (h.cell r rfl)
  | int _ | bool _ | closure _ _ _ | listVal _ => exact h.value fun _ => nofun

theorem Captures.proper {size : Nat} {var : String} {e : Expr} {env clEnv : Environment}
    (h : Captures (captured var e) env clEnv) (he : e.Proper size)
    (henv : ∀ b ∈ env, b.2.Bindable size) : (Value.closure var e clEnv).Proper size := by
  have hclEnv : ∀ b ∈ clEnv, b.2.Bindable size :=
    fun b hb => henv _ (find_mem (h.bound b hb))
  exact .closure (fun b hb => (hclEnv b hb).cell) (fun b hb => (hclEnv b hb).value) he

/-- References that closures hold only, as an invariant. -/
def confined : Invariant where
  value := Value.Proper
  entry := Value.Bindable
  expr := Expr.Proper
  store := Store.Proper
  value_mono := Value.Proper.mono
  entry_mono := Value.Bindable.mono
  expr_mono := Expr.Proper.mono
  part := Expr.Proper.part
  under := Expr.Proper.under
  literal h := h _ (by simp [literals])
  int := .int
  bool := .bool
  nil := .nil
  cons := .cons
  uncons h := by
    cases h with
    | cons hv hl => exact ⟨hv, hl⟩
  closure he henv hc := hc.proper he henv
  body h := by
    cases h with
    | closure hcells hvalues he => exact ⟨he, fun b hb => ⟨hcells b hb, hvalues b hb⟩⟩
  bound := Value.Proper.bindable
  cell := Value.bindable_ref
  deref h hv := hv.deref h
  alloc i h := h.alloc i
  assign h hv := h.assign hv _

/-- From an expression without references and an environment whose references are cells without
them: neither a value that is returned nor the content of a cell exposes a reference, in any
call on the way and at its end, and what `Id` finds exposes none after one dereference. -/
theorem references_confined (order : Order) (e : Expr) (env : Environment) (σ : Store)
    (he : e.Proper σ.size) (henv : EnvProper σ.size env) (hσ : σ.Proper) (d : Config)
    (hd : Relation.ReflTransGen (Calls order) ⟨e, env, σ⟩ d) :
    (∀ r < d.store.size, ¬ (d.store.cells r).Exposes) ∧
    (∀ n v τ, eval order n d.expr d.env d.store = some (.ok (v, τ)) →
      ¬ v.Exposes ∧ ∀ r < τ.size, ¬ (τ.cells r).Exposes) ∧
    ∀ name v, d.expr = .id name → find name d.env = some v → ¬ (d.store.deref v).Exposes := by
  have hholds : confined.Holds ⟨e, env, σ⟩ := ⟨he, envProper_iff.mp henv, hσ⟩
  have hreached := hholds.reached hd
  refine ⟨?_, ?_, ?_⟩
  · intro r hr
    exact (hreached.store r hr).not_exposes
  · intro n v τ hr
    have hresult := hreached.result hr
    exact ⟨hresult.value.not_exposes, fun r hr => (hresult.store r hr).not_exposes⟩
  · intro name v _ hv
    exact ((hreached.env _ (find_mem hv)).deref hreached.store).not_exposes

/-- The bound lambda captures a cell of the environment, and is kept in the cell of its name. -/
theorem references_confined_captured :
    ∃ v τ, eval .leftToRight 4 (.letRec "f" (.lam "x" (.id "y")) (.app (.id "f") (.id "y")))
        [("y", .ref 0)] (Store.empty.alloc (.int 7)).2 = some (.ok (v, τ)) ∧
      v = .int 7 ∧ τ.cells 1 = .closure "x" (.id "y") [("y", .ref 0)] ∧
      ¬ v.Exposes ∧ ∀ r < τ.size, ¬ (τ.cells r).Exposes := by
  refine ⟨_, _, rfl, rfl, rfl, (references_confined .leftToRight
    (.letRec "f" (.lam "x" (.id "y")) (.app (.id "f") (.id "y"))) [("y", .ref 0)]
    (Store.empty.alloc (.int 7)).2 ?_ ?_ ?_ _ .refl).2.1 4 _ _ rfl⟩
  · exact fun v hv => by cases hv
  · refine ⟨?_, ?_⟩
    · intro b hb r hr
      obtain rfl := List.mem_singleton.mp hb
      cases hr
      decide
    · intro b hb hne
      obtain rfl := List.mem_singleton.mp hb
      exact absurd rfl (hne 0)
  · intro r hr
    have hr0 : r = 0 := Nat.lt_one_iff.mp hr
    rw [hr0]
    exact .int 7

end UmnProjects.Evaluator
