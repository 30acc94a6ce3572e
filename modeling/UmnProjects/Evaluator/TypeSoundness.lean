import UmnProjects.Evaluator.Types

/-!
Typed expressions are evaluated without an error in the kinds of values. The store type grows
with every recursive binding; the cell of a recursive function is typed from the moment the
function is in it.
-/
namespace UmnProjects.Evaluator
open UmnProjects.Computation

variable {S : StoreType} {A B C : Ty} {Γ : Context} {env : Environment} {σ : Store}

/-- A run from typed stores that returns a value of the type or raises as it may. -/
abbrev SafeRun (S : StoreType) (A : Ty) (o : Outcome Store Exn Value) : Prop :=
  Within StoreTyped Exn.OfPartial S (fun S' v => ValueTyped S' v A) o

theorem Yields.safeRun {r : Except Exn Value} (h : Yields S A r) (hσ : StoreTyped S σ) :
    SafeRun S A (Comp.ofExcept r σ) := by
  cases r with
  | ok u => exact .returned hσ h
  | error x => exact h

/-- The induction is on the bound; the premise is that of all evaluations with a smaller one. -/
theorem eval_safe (order : Order) (n : Nat) {e : Expr} (he : Typed Γ e A)
    (henv : EnvTyped S Γ env (freevars e)) (hσ : StoreTyped S σ) :
    SafeRun S A (eval order n e env σ) := by
  induction n generalizing Γ e A S env σ with
  | zero => trivial
  | succ n ih =>
      change SafeRun S A (evalWith (source order) (n + 1) e env σ)
      have part {e1 A1 S' τ} (h1 : Typed Γ e1 A1) (hp : Part e1 e) (hle : S ≤ S')
          (hτ : StoreTyped S' τ) : SafeRun S' A1 (eval order n e1 env τ) :=
        ih h1 ((henv.sub hp.freevars).mono hle) hτ
      have under {name e1 A1 B1 v S' τ} (h1 : Typed ((name, B1) :: Γ) e1 A1)
          (hu : Under name e1 e) (hv : Bound S' v B1) (hle : S ≤ S') (hτ : StoreTyped S' τ) :
          SafeRun S' A1 (eval order n e1 ((name, v) :: env) τ) :=
        ih h1 (((henv.sub hu.freevars).mono hle).cons hv) hτ
      have pair {e1 e2 A1 A2} (h1 : Typed Γ e1 A1) (h2 : Typed Γ e2 A2) (hp1 : Part e1 e)
          (hp2 : Part e2 e) :
          Within StoreTyped Exn.OfPartial S
            (fun S' p => ValueTyped S' p.1 A1 ∧ ValueTyped S' p.2 A2)
            (operands order (eval order n e1 env) (eval order n e2 env) σ) :=
        Within.operands order (fun _ _ _ hle hv => hv.mono hle) (fun _ _ _ hle hv => hv.mono hle)
          (fun _ _ hle hτ => part h1 hp1 hle hτ) (fun _ _ hle hτ => part h2 hp2 hle hτ) hσ
      cases he with
      | val hv => exact .returned hσ hv.valueTyped
      | nil => exact .returned hσ .nil
      | binary hop h1 h2 =>
          rw [evalWith_binary]
          apply (pair h1 h2 .left .right).bind
          intro S' p τ hle hτ hp
          exact (hop.apply hp.1 hp.2).safeRun hτ
      | unary hop h1 =>
          rw [evalWith_unary]
          apply (part h1 .operand (le_refl S) hσ).bind
          intro S' v τ hle hτ hv
          exact (hop.apply hv).safeRun hτ
      | letE h1 h2 =>
          apply (part h1 .letBound (le_refl S) hσ).bind
          intro S' v τ hle hτ hv
          exact under h2 .letBody hv.bound hle hτ
      | id hname =>
          obtain ⟨v, hv, hbound⟩ := henv _ (List.mem_singleton_self _) _ hname
          simp only [evalWith, hv]
          exact .returned hσ (hσ.deref hbound)
      | lam h1 =>
          obtain ⟨c, hc, htyped⟩ := makeClosure_typed h1 henv
          change SafeRun S _ (Comp.ofExcept (makeClosure _ _ env) σ)
          rw [hc]
          exact .returned hσ htyped
      | app h1 h2 =>
          apply (pair h1 h2 .function .argument).bind
          intro S' p τ hle hτ hp
          obtain ⟨f, x⟩ := p
          obtain ⟨var, body, defs, Γ', rfl, hbody, hdefs⟩ := hp.1.fn_inv
          exact ih hbody (hdefs.cons hp.2.bound) hτ
      | ifE h1 h2 h3 =>
          apply (part h1 .condition (le_refl S) hσ).bind
          intro S' v τ hle hτ hv
          obtain ⟨b, rfl⟩ := hv.bool_inv
          cases b with
          | true => exact part h2 .thenE hle hτ
          | false => exact part h3 .elseE hle hτ
      | @letRec _ name fxn e1 D _ hrec h1 h2 =>
          have hle := S.le_alloc D
          have hcell := hσ.alloc_cell D
          obtain rfl | ⟨var, body, rfl⟩ := hrec
          · -- the placeholder is an integer, as is what takes its place
            have hτ := hσ.alloc (ValueTyped.int 999)
            refine Within.earlier ?_ hle
            apply (under h1 .recBound hcell hle hτ).bind
            intro S' c τ hle' hτ' hc
            refine under h2 .recBody (hcell.mono hle') (le_trans hle hle') (hτ'.assign ?_)
            intro C hC
            have hint := StoreType.cell_mono hle' (cell_of_ref hcell)
            rw [hC] at hint
            cases hint
            exact hc
          · obtain ⟨A', B', rfl, hbody⟩ := h1.lam_inv
            have hbound : Under name (.lam var body) (.letRec name (.lam var body) e1) := .recBound
            have henv' := ((henv.sub hbound.freevars).mono hle).cons hcell
            obtain ⟨c, hc, htyped⟩ := makeClosure_typed hbody henv'
            cases n with
            | zero => trivial
            | succ n =>
                rw [evalWith_letRec_lam order n hc]
                exact (under h2 .recBody hcell hle (hσ.alloc_assign htyped)).earlier hle

/-- Whatever the bound and the order of operands: a typed expression returns a value of its type
in a typed store, or raises for a division by zero or for the head or tail of an empty list. It
never meets a value of the wrong kind or a name that is not bound. -/
theorem typed_evaluation_safe (order : Order) (n : Nat) {e : Expr} (he : Typed Γ e A)
    (henv : EnvTyped S Γ env (freevars e)) (hσ : StoreTyped S σ) :
    (∀ v τ, eval order n e env σ = some (.ok (v, τ)) →
      ∃ S', S ≤ S' ∧ StoreTyped S' τ ∧ ValueTyped S' v A) ∧
    ∀ x, eval order n e env σ = some (.error x) → x.OfPartial := by
  have hsafe := eval_safe order n he henv hσ
  exact ⟨fun v τ hr => hsafe.of_ok hr, fun x hr => hsafe.of_error hr⟩

theorem sumToN_typed (Γ : Context) : Typed Γ sumToN (.fn .int .int) := by
  have hn : Typed (("n", .int) :: ("sumToN", .fn .int .int) :: Γ) (.id "n") .int := .id rfl
  refine .letRec (.inr ⟨_, _, rfl⟩) (.lam (.ifE ?_ ?_ ?_)) (.id rfl)
  · exact .binary .eq hn (.val (.int 0))
  · exact .val (.int 0)
  · refine .binary .add hn (.app (.id rfl) ?_)
    exact .binary .sub hn (.val (.int 1))

/-- The argument is the content of a cell. -/
theorem typed_evaluation_safe_sumToN :
    (∀ v τ, eval .rightToLeft 40 (.app sumToN (.id "y")) [("y", .ref 0)]
        (Store.empty.alloc (.int 4)).2 = some (.ok (v, τ)) →
      ∃ S', ⟨[.int]⟩ ≤ S' ∧ StoreTyped S' τ ∧ ValueTyped S' v .int) ∧
    ∀ x, eval .rightToLeft 40 (.app sumToN (.id "y")) [("y", .ref 0)]
      (Store.empty.alloc (.int 4)).2 = some (.error x) → x.OfPartial := by
  have hy : Bound ⟨[.int]⟩ (.ref 0) .int := .cell rfl
  refine typed_evaluation_safe .rightToLeft 40 (Γ := [("y", .int)]) (S := ⟨[.int]⟩) (A := .int)
    (.app (sumToN_typed _) (.id rfl)) ?_ ?_
  · exact EnvTyped.cons (fun y _ C hC => by cases hC) hy
  · exact StoreTyped.alloc (S := ⟨[]⟩) ⟨rfl, fun r C hr => by simp at hr⟩ (.int 4)

end UmnProjects.Evaluator
