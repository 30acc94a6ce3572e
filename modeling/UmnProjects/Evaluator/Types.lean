import UmnProjects.Foundations.Worlds
import UmnProjects.Evaluator.Recursion

/-!
Simple types for expressions. The evaluator checks the kinds of values when an operator is
applied; an expression that has a type passes all these checks, however its operands are
ordered, and with recursion through cells.
-/
namespace UmnProjects.Evaluator
open UmnProjects.Computation

inductive Ty where
  | int
  | bool
  | list (A : Ty)
  | fn (A B : Ty)

abbrev Context := List (String × Ty)

inductive BinaryOp.Types : BinaryOp → Ty → Ty → Ty → Prop where
  | add : BinaryOp.Types .add .int .int .int
  | sub : BinaryOp.Types .sub .int .int .int
  | mul : BinaryOp.Types .mul .int .int .int
  | div : BinaryOp.Types .div .int .int .int
  | lt : BinaryOp.Types .lt .int .int .bool
  | gt : BinaryOp.Types .gt .int .int .bool
  | eq : BinaryOp.Types .eq .int .int .bool
  | and : BinaryOp.Types .and .bool .bool .bool
  | or : BinaryOp.Types .or .bool .bool .bool
  | cons {A : Ty} : BinaryOp.Types .cons A (.list A) (.list A)

inductive UnaryOp.Types : UnaryOp → Ty → Ty → Prop where
  | neg : UnaryOp.Types .neg .int .int
  | not : UnaryOp.Types .not .bool .bool
  | head {A : Ty} : UnaryOp.Types .head (.list A) A
  | tail {A : Ty} : UnaryOp.Types .tail (.list A) (.list A)
  | isEmpty {A : Ty} : UnaryOp.Types .isEmpty (.list A) .bool

inductive LiteralTyped : Value → Ty → Prop where
  | int (v : Int63) : LiteralTyped (.int v) .int
  | bool (v : Bool) : LiteralTyped (.bool v) .bool
  | nil {A : Ty} : LiteralTyped (.listVal []) (.list A)
  | cons {v : Value} {l : List Value} {A : Ty} :
      LiteralTyped v A → LiteralTyped (.listVal l) (.list A) →
      LiteralTyped (.listVal (v :: l)) (.list A)

/-- What a recursive binding may bind: while it is evaluated its cell holds an integer, and a
lambda captures the cell without looking at it. -/
def MayRecur (fxn : Expr) (A : Ty) : Prop := A = .int ∨ ∃ var body, fxn = .lam var body

inductive Typed : Context → Expr → Ty → Prop where
  | val {Γ v A} : LiteralTyped v A → Typed Γ (.val v) A
  | binary {Γ op e1 e2 A B C} : BinaryOp.Types op A B C → Typed Γ e1 A → Typed Γ e2 B →
      Typed Γ (op.expr e1 e2) C
  | unary {Γ op e1 A B} : UnaryOp.Types op A B → Typed Γ e1 A → Typed Γ (op.expr e1) B
  | letE {Γ name v inE A B} : Typed Γ v A → Typed ((name, A) :: Γ) inE B →
      Typed Γ (.letE name v inE) B
  | id {Γ name A} : find name Γ = some A → Typed Γ (.id name) A
  | lam {Γ var e1 A B} : Typed ((var, A) :: Γ) e1 B → Typed Γ (.lam var e1) (.fn A B)
  | app {Γ e1 e2 A B} : Typed Γ e1 (.fn A B) → Typed Γ e2 A → Typed Γ (.app e1 e2) B
  | letRec {Γ name fxn e1 A B} : MayRecur fxn A → Typed ((name, A) :: Γ) fxn A →
      Typed ((name, A) :: Γ) e1 B → Typed Γ (.letRec name fxn e1) B
  | ifE {Γ e1 e2 e3 A} : Typed Γ e1 .bool → Typed Γ e2 A → Typed Γ e3 A →
      Typed Γ (.ifE e1 e2 e3) A
  | nil {Γ A} : Typed Γ .nil (.list A)

theorem Typed.lam_inv {Γ : Context} {var : String} {body : Expr} {C : Ty}
    (h : Typed Γ (.lam var body) C) :
    ∃ A B, C = .fn A B ∧ Typed ((var, A) :: Γ) body B := by
  generalize he : Expr.lam var body = e at h
  cases h with
  | @binary _ op => cases op <;> cases he
  | @unary _ op => cases op <;> cases he
  | lam h1 =>
      cases he
      exact ⟨_, _, rfl, h1⟩
  | val _ | letE _ _ | id _ | app _ _ | letRec _ _ _ | ifE _ _ _ | nil => cases he

/-- The exceptions of the operators that are partial on values of the right types. -/
inductive Exn.OfPartial : Exn → Prop where
  | divisionByZero (v : Int63) : Exn.OfPartial (.divisionByZero (.int v))
  | headOfEmptyList : Exn.OfPartial .headOfEmptyList
  | tailOfEmptyList : Exn.OfPartial .tailOfEmptyList

/-! ### Types of values -/

/-- The types of the cells allocated so far. -/
structure StoreType where
  cells : List Ty

instance : Preorder StoreType where
  le S S' := S.cells <+: S'.cells
  le_refl S := List.prefix_refl S.cells
  le_trans _ _ _ := List.IsPrefix.trans

theorem StoreType.cell_mono {S S' : StoreType} (hle : S ≤ S') {r : Nat} {A : Ty}
    (hr : S.cells[r]? = some A) : S'.cells[r]? = some A := by
  obtain ⟨hlt, rfl⟩ := List.getElem?_eq_some_iff.mp hr
  exact List.prefix_iff_getElem?.mp hle r hlt

/-- What an environment may hold for a name of this type: a value or a cell. -/
inductive Bound (S : StoreType) : Value → Ty → Prop where
  | int (v : Int63) : Bound S (.int v) .int
  | bool (v : Bool) : Bound S (.bool v) .bool
  | nil {A : Ty} : Bound S (.listVal []) (.list A)
  | cons {v : Value} {l : List Value} {A : Ty} : (∀ r, v ≠ .ref r) → Bound S v A →
      Bound S (.listVal l) (.list A) → Bound S (.listVal (v :: l)) (.list A)
  | closure {var : String} {body : Expr} {defs : Environment} {Γ : Context} {A B : Ty} :
      Typed ((var, A) :: Γ) body B →
      (∀ y ∈ captured var body, ∀ C, find y Γ = some C → ∃ v, find y defs = some v) →
      (∀ y ∈ captured var body, ∀ C v, find y Γ = some C → find y defs = some v →
        Bound S v C) →
      Bound S (.closure var body defs) (.fn A B)
  | cell {r : Nat} {A : Ty} : S.cells[r]? = some A → Bound S (.ref r) A

theorem cell_of_ref {S : StoreType} {r : Nat} {A : Ty} (h : Bound S (.ref r) A) :
    S.cells[r]? = some A := by
  cases h with
  | cell hr => exact hr

/-- What an evaluation may return at this type. -/
structure ValueTyped (S : StoreType) (v : Value) (A : Ty) : Prop where
  bound : Bound S v A
  notRef : ∀ r, v ≠ .ref r

structure StoreTyped (S : StoreType) (σ : Store) : Prop where
  length_eq : S.cells.length = σ.size
  cells : ∀ r A, S.cells[r]? = some A → ValueTyped S (σ.cells r) A

/-- The names in question are bound as the context says. -/
def EnvTyped (S : StoreType) (Γ : Context) (env : Environment) (names : List String) : Prop :=
  ∀ y ∈ names, ∀ C, find y Γ = some C → ∃ v, find y env = some v ∧ Bound S v C

section Values

variable {S S' : StoreType} {v w u : Value} {A B C : Ty} {Γ : Context} {env : Environment}

theorem Bound.mono (h : Bound S v A) (hle : S ≤ S') : Bound S' v A := by
  induction h with
  | int v => exact .int v
  | bool v => exact .bool v
  | nil => exact .nil
  | cons hne _ _ ihv ihl => exact .cons hne ihv ihl
  | closure hbody hbound _ ih => exact .closure hbody hbound ih
  | cell hr => exact .cell (StoreType.cell_mono hle hr)

theorem ValueTyped.mono (h : ValueTyped S v A) (hle : S ≤ S') : ValueTyped S' v A :=
  ⟨h.bound.mono hle, h.notRef⟩

theorem EnvTyped.mono {names : List String} (h : EnvTyped S Γ env names) (hle : S ≤ S') :
    EnvTyped S' Γ env names := by
  intro y hy C hC
  obtain ⟨v, hv, hbound⟩ := h y hy C hC
  exact ⟨v, hv, hbound.mono hle⟩

theorem EnvTyped.sub {names names' : List String} (h : EnvTyped S Γ env names)
    (hsub : ∀ y ∈ names', y ∈ names) : EnvTyped S Γ env names' :=
  fun y hy => h y (hsub y hy)

theorem EnvTyped.cons {name : String} {names : List String}
    (h : EnvTyped S Γ env (names.filter (fun x' => name ≠ x'))) (hv : Bound S v A) :
    EnvTyped S ((name, A) :: Γ) ((name, v) :: env) names := by
  intro y hy C hC
  rw [find_cons] at hC ⊢
  by_cases hname : name = y
  · rw [if_pos hname] at hC ⊢
    cases hC
    exact ⟨v, rfl, hv⟩
  · rw [if_neg hname] at hC ⊢
    exact h y (by simp [hy, hname]) C hC

theorem ValueTyped.int (i : Int63) : ValueTyped S (.int i) .int := ⟨.int i, nofun⟩

theorem ValueTyped.bool (b : Bool) : ValueTyped S (.bool b) .bool := ⟨.bool b, nofun⟩

theorem ValueTyped.nil : ValueTyped S (.listVal []) (.list A) := ⟨.nil, nofun⟩

theorem ValueTyped.cons {l : List Value} (hv : ValueTyped S v A)
    (hl : ValueTyped S (.listVal l) (.list A)) : ValueTyped S (.listVal (v :: l)) (.list A) :=
  ⟨.cons hv.notRef hv.bound hl.bound, nofun⟩

theorem LiteralTyped.valueTyped (h : LiteralTyped v A) : ValueTyped S v A := by
  induction h with
  | int v => exact .int v
  | bool v => exact .bool v
  | nil => exact .nil
  | cons _ _ ihv ihl => exact ihv.cons ihl

/-! ### Canonical forms -/

theorem ValueTyped.int_inv (h : ValueTyped S v .int) : ∃ i, v = .int i := by
  obtain ⟨hbound, hne⟩ := h
  cases hbound with
  | int i => exact ⟨i, rfl⟩
  | cell _ => exact absurd rfl (hne _)

theorem ValueTyped.bool_inv (h : ValueTyped S v .bool) : ∃ b, v = .bool b := by
  obtain ⟨hbound, hne⟩ := h
  cases hbound with
  | bool b => exact ⟨b, rfl⟩
  | cell _ => exact absurd rfl (hne _)

theorem ValueTyped.list_inv (h : ValueTyped S v (.list A)) :
    v = .listVal [] ∨ ∃ w l, v = .listVal (w :: l) ∧ ValueTyped S w A ∧
      ValueTyped S (.listVal l) (.list A) := by
  obtain ⟨hbound, hne⟩ := h
  cases hbound with
  | nil => exact .inl rfl
  | cons hw hv hl => exact .inr ⟨_, _, rfl, ⟨hv, hw⟩, hl, nofun⟩
  | cell _ => exact absurd rfl (hne _)

/-- A function brings the context of its body along. -/
theorem ValueTyped.fn_inv (h : ValueTyped S v (.fn A B)) :
    ∃ var body defs Γ, v = .closure var body defs ∧ Typed ((var, A) :: Γ) body B ∧
      EnvTyped S Γ defs (captured var body) := by
  obtain ⟨hbound, hne⟩ := h
  cases hbound with
  | closure hbody hfind htyped =>
      refine ⟨_, _, _, _, rfl, hbody, ?_⟩
      intro y hy C hC
      obtain ⟨w, hw⟩ := hfind y hy C hC
      exact ⟨w, hw, htyped y hy C w hC hw⟩
  | cell _ => exact absurd rfl (hne _)

/-! ### Operators -/

/-- An operator returns a value of its type or raises one of its own exceptions. -/
def Yields (S : StoreType) (C : Ty) : Except Exn Value → Prop
  | .ok u => ValueTyped S u C
  | .error x => x.OfPartial

theorem BinaryOp.Types.apply {op : BinaryOp} (hop : op.Types A B C) (hv : ValueTyped S v A)
    (hw : ValueTyped S w B) : Yields S C (op.apply v w) := by
  cases hop with
  | cons =>
      obtain rfl | ⟨x, l, rfl, hx, hl⟩ := hw.list_inv
      · exact hv.cons .nil
      · exact hv.cons (hx.cons hl)
  | and | or =>
      obtain ⟨i, rfl⟩ := hv.bool_inv
      obtain ⟨j, rfl⟩ := hw.bool_inv
      exact .bool _
  | div =>
      obtain ⟨i, rfl⟩ := hv.int_inv
      obtain ⟨j, rfl⟩ := hw.int_inv
      rw [BinaryOp.apply]
      split
      · exact .divisionByZero i
      · exact ValueTyped.int _
  | add | sub | mul =>
      obtain ⟨i, rfl⟩ := hv.int_inv
      obtain ⟨j, rfl⟩ := hw.int_inv
      exact ValueTyped.int _
  | lt | gt | eq =>
      obtain ⟨i, rfl⟩ := hv.int_inv
      obtain ⟨j, rfl⟩ := hw.int_inv
      exact ValueTyped.bool _

theorem UnaryOp.Types.apply {op : UnaryOp} (hop : op.Types A B) (hv : ValueTyped S v A) :
    Yields S B (op.apply v) := by
  cases hop with
  | neg =>
      obtain ⟨i, rfl⟩ := hv.int_inv
      exact ValueTyped.int _
  | not =>
      obtain ⟨b, rfl⟩ := hv.bool_inv
      exact ValueTyped.bool _
  | head =>
      obtain rfl | ⟨w, l, rfl, hw, hl⟩ := hv.list_inv
      · exact .headOfEmptyList
      · exact hw
  | tail =>
      obtain rfl | ⟨w, l, rfl, hw, hl⟩ := hv.list_inv
      · exact .tailOfEmptyList
      · exact hl
  | isEmpty =>
      obtain rfl | ⟨w, l, rfl, hw, hl⟩ := hv.list_inv
      · exact ValueTyped.bool _
      · exact ValueTyped.bool _

end Values

/-! ### Closures and cells -/

section Cells

variable {S : StoreType} {σ : Store} {A B : Ty} {Γ : Context} {env : Environment}

/-- Whatever a typed expression mentions has a type. -/
theorem Typed.find_of_mem {e : Expr} (he : Typed Γ e A) {y : String} (hy : y ∈ freevars e) :
    ∃ C, find y Γ = some C := by
  have under {name : String} {B : Ty} {Γ : Context} (hne : name ≠ y)
      (h : ∃ C, find y ((name, B) :: Γ) = some C) : ∃ C, find y Γ = some C := by
    rwa [find_cons, if_neg hne] at h
  induction he with
  | val _ | nil => simp [freevars] at hy
  | id hname =>
      obtain rfl := List.mem_singleton.mp hy
      exact ⟨_, hname⟩
  | binary _ _ _ ih1 ih2 =>
      rw [freevars_binary, List.mem_append] at hy
      exact hy.elim ih1 ih2
  | unary _ _ ih1 =>
      rw [freevars_unary] at hy
      exact ih1 hy
  | app _ _ ih1 ih2 => exact (List.mem_append.mp hy).elim ih1 ih2
  | ifE _ _ _ ih1 ih2 ih3 =>
      obtain hy | hy := List.mem_append.mp hy
      · exact (List.mem_append.mp hy).elim ih1 ih2
      · exact ih3 hy
  | lam _ ih1 =>
      obtain ⟨hy, hne⟩ := mem_captured.mp hy
      exact under hne (ih1 hy)
  | letE _ _ ih1 ih2 =>
      obtain hy | hy := List.mem_append.mp hy
      · exact ih1 hy
      · obtain ⟨hy, hne⟩ := mem_captured.mp hy
        exact under hne (ih2 hy)
  | letRec _ _ _ ih1 ih2 =>
      simp only [freevars, List.mem_filter, List.mem_append, decide_eq_true_eq] at hy
      exact under hy.2 (hy.1.elim ih1 ih2)

/-- A lambda with a type can be closed. -/
theorem makeClosure_typed {var : String} {e : Expr} (he : Typed ((var, A) :: Γ) e B)
    (henv : EnvTyped S Γ env (captured var e)) :
    ∃ c, makeClosure var e env = .ok c ∧ ValueTyped S c (.fn A B) := by
  have hfind : ∀ y ∈ captured var e, ∃ v, find y env = some v := by
    intro y hy
    obtain ⟨C, hC⟩ := (Typed.lam he).find_of_mem hy
    obtain ⟨v, hv, -⟩ := henv y hy C hC
    exact ⟨v, hv⟩
  obtain ⟨clEnv, hc, hcaptures⟩ := makeClosure_total var e hfind
  refine ⟨_, hc, .closure he ?_ ?_, nofun⟩
  · intro y hy C hC
    obtain ⟨v, hv, -⟩ := hcaptures.find hy
    exact ⟨v, hv⟩
  · intro y hy C v hC hv
    obtain ⟨w, hw, hbound⟩ := henv y hy C hC
    obtain ⟨u, hu, hu'⟩ := hcaptures.find hy
    rw [hv] at hu
    rw [hw] at hu'
    cases hu
    cases hu'
    exact hbound

/-- The store type after the next allocation. -/
def StoreType.alloc (S : StoreType) (A : Ty) : StoreType := ⟨S.cells ++ [A]⟩

theorem StoreType.le_alloc (S : StoreType) (A : Ty) : S ≤ S.alloc A :=
  List.prefix_append S.cells [A]

theorem StoreTyped.alloc_cell (hσ : StoreTyped S σ) (A : Ty) :
    Bound (S.alloc A) (.ref σ.size) A := by
  apply Bound.cell
  rw [← hσ.length_eq]
  exact List.getElem?_concat_length

theorem StoreTyped.deref {v : Value} (hσ : StoreTyped S σ) (hv : Bound S v A) :
    ValueTyped S (σ.deref v) A := by
  cases hv with
  | cell hr => exact hσ.cells _ _ hr
  | int i => exact .int i
  | bool b => exact .bool b
  | nil => exact .nil
  | cons hne hv hl => exact ⟨.cons hne hv hl, nofun⟩
  | closure hbody hbound hdefs => exact ⟨.closure hbody hbound hdefs, nofun⟩

theorem StoreTyped.assign {r : Nat} {v : Value} (hσ : StoreTyped S σ)
    (hv : ∀ A, S.cells[r]? = some A → ValueTyped S v A) : StoreTyped S (σ.assign r v).2 := by
  refine ⟨hσ.length_eq, ?_⟩
  intro i A hi
  simp only [Store.assign]
  split
  · next hir =>
      subst hir
      exact hv A hi
  · exact hσ.cells i A hi

/-- A new cell that holds a value of its type from the start. -/
theorem StoreTyped.alloc {v : Value} (hσ : StoreTyped S σ) (hv : ValueTyped (S.alloc A) v A) :
    StoreTyped (S.alloc A) (σ.alloc v).2 := by
  have hlength := hσ.length_eq
  refine ⟨by simp [StoreType.alloc, Store.alloc, hlength], ?_⟩
  intro i C hi
  simp only [StoreType.alloc, List.getElem?_append, List.getElem?_singleton, hlength] at hi
  simp only [Store.alloc]
  split at hi
  · next hlt =>
      rw [if_neg (Nat.ne_of_lt hlt)]
      exact (hσ.cells i C hi).mono (S.le_alloc A)
  · split at hi
    · next hge hzero =>
        cases hi
        rw [if_pos (by omega)]
        exact hv
    · cases hi

/-- A new cell whose first content is gone before anyone looks at it. -/
theorem StoreTyped.alloc_assign {v w : Value} (hσ : StoreTyped S σ)
    (hw : ValueTyped (S.alloc A) w A) :
    StoreTyped (S.alloc A) (((σ.alloc v).2).assign σ.size w).2 := by
  have hassign : (((σ.alloc v).2).assign σ.size w).2 = (σ.alloc w).2 := by
    simp only [Store.alloc, Store.assign, Store.mk.injEq, true_and]
    funext i
    split
    · rfl
    · rfl
  rw [hassign]
  exact hσ.alloc hw

end Cells

end UmnProjects.Evaluator
