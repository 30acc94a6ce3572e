import Mathlib.Logic.Relation

/-!
Runs of a labelled system given by a partial step function, restricted to the
steps that meet a condition on the state before the step and its label.
-/
namespace UmnProjects.Runs

variable {S A : Type}

/-- `Run step ok s t`: a run from `s` to `t` all of whose steps meet `ok`. -/
inductive Run (step : S → A → Option S) (ok : S → A → Prop) (s : S) : S → Prop where
  | refl : Run step ok s s
  | tail {t u : S} {a : A} : Run step ok s t → ok t a → step t a = some u → Run step ok s u

/-- What holds at the start and is kept by every allowed step holds after a run. -/
theorem Run.invariant {step : S → A → Option S} {ok : S → A → Prop} {I : S → Prop}
    (keep : ∀ s a t, ok s a → step s a = some t → I s → I t) {s t : S}
    (h : Run step ok s t) (hs : I s) : I t := by
  induction h with
  | refl => exact hs
  | tail _ hok hstep ih => exact keep _ _ _ hok hstep ih

theorem Run.mono {step : S → A → Option S} {ok ok' : S → A → Prop}
    (h : ∀ s a, ok s a → ok' s a) {s t : S} (hr : Run step ok s t) : Run step ok' s t := by
  induction hr with
  | refl => exact .refl
  | tail _ hok hstep ih => exact .tail ih (h _ _ hok) hstep

theorem Run.trans {step : S → A → Option S} {ok : S → A → Prop} {s t u : S}
    (h : Run step ok s t) (h' : Run step ok t u) : Run step ok s u := by
  induction h' with
  | refl => exact h
  | tail _ hok hstep ih => exact .tail ih hok hstep

/-- Perform a list of labels in order. -/
def perform (step : S → A → Option S) : S → List A → Option S
  | s, [] => some s
  | s, a :: as => match step s a with
    | none => none
    | some t => perform step t as

/-- One more label after those that were performed. -/
theorem perform_concat {step : S → A → Option S} {as : List A} {a : A} {s t u : S}
    (h : perform step s as = some t) (ha : step t a = some u) :
    perform step s (as ++ [a]) = some u := by
  induction as generalizing s with
  | nil =>
      cases h
      simp [perform, ha]
  | cons b as ih =>
      rw [perform] at h
      rw [List.cons_append, perform]
      cases hb : step s b with
      | none => simp [hb] at h
      | some v =>
          simp only [hb] at h ⊢
          exact ih h

theorem run_of_perform {step : S → A → Option S} {ok : S → A → Prop} {as : List A} {s t : S}
    (h : perform step s as = some t) (hok : ∀ a ∈ as, ∀ s, ok s a) : Run step ok s t := by
  suffices gen : ∀ r, Run step ok r s → Run step ok r t from gen s .refl
  intro r hr
  induction as generalizing s with
  | nil =>
      cases h
      exact hr
  | cons a as ih =>
      simp only [perform] at h
      cases ha : step s a with
      | none => simp [ha] at h
      | some u =>
          simp only [ha] at h
          exact ih h (fun b hb => hok b (List.mem_cons_of_mem _ hb))
            (.tail hr (hok a List.mem_cons_self s) ha)

/-- A performed list of labels each of which passed a check is a run that meets the condition the
check is enough for. -/
theorem run_of_checked {step : S → A → Option S} {ok : S → A → Prop} {check : S → A → Bool}
    (hcheck : ∀ s a, check s a = true → ok s a) (as : List A) {s t : S}
    (h : perform (fun s a => if check s a then step s a else none) s as = some t) :
    Run step ok s t := by
  suffices hchecked : Run (fun s a => if check s a then step s a else none) (fun _ _ => True) s t by
    clear h
    induction hchecked with
    | refl => exact .refl
    | @tail u v a _ _ hstep ih =>
        split at hstep
        · next hpass => exact .tail ih (hcheck u a hpass) hstep
        · cases hstep
  exact run_of_perform h fun _ _ _ => trivial

/-- What holds at the start, and is kept by every step that is added to the labels, holds of the
labels performed and the state they lead to. -/
theorem perform_induction {step : S → A → Option S} {I : List A → S → Prop} {s t : S} {as : List A}
    (start : I [] s) (keep : ∀ done u a u', step u a = some u' → I done u → I (done ++ [a]) u')
    (h : perform step s as = some t) : I as t := by
  suffices gen : ∀ done, I done s → I (done ++ as) t from gen [] start
  clear start
  intro done hdone
  induction as generalizing s done with
  | nil =>
      cases h
      rw [List.append_nil]
      exact hdone
  | cons a as ih =>
      simp only [perform] at h
      cases ha : step s a with
      | none => simp [ha] at h
      | some u =>
          simp only [ha] at h
          rw [List.append_cons]
          exact ih h _ (keep done s a u ha hdone)

/-! ### Termination -/

abbrev Reaches (step : S → A → Option S) : S → S → Prop := Run step (fun _ _ => True)

/-- Every run from `s` is finite. -/
def Terminates (step : S → A → Option S) (s : S) : Prop :=
  Acc (fun t s => ∃ a, step s a = some t) s

def Final (step : S → A → Option S) (s : S) : Prop := ∀ a, step s a = none

/-- Runs that keep an invariant end when each step lowers a well-founded measure. -/
theorem terminates_of_measure {step : S → A → Option S} {I : S → Prop} {M : Type}
    {r : M → M → Prop} (wf : WellFounded r) (measure : S → M)
    (keep : ∀ s a t, step s a = some t → I s → I t)
    (lower : ∀ s a t, step s a = some t → I s → r (measure t) (measure s))
    {s : S} (hs : I s) : Terminates step s := by
  generalize hm : measure s = m
  induction m using wf.induction generalizing s with
  | _ m ih =>
      subst hm
      refine ⟨s, ?_⟩
      intro t ht
      obtain ⟨a, hstep⟩ := ht
      exact ih _ (lower s a t hstep hs) (keep s a t hstep hs) rfl

theorem Run.head {step : S → A → Option S} {ok : S → A → Prop} {s t u : S} {a : A}
    (hok : ok s a) (hstep : step s a = some t) (h : Run step ok t u) : Run step ok s u :=
  (Run.tail .refl hok hstep).trans h

theorem Run.cases_head {step : S → A → Option S} {ok : S → A → Prop} {s u : S}
    (h : Run step ok s u) :
    s = u ∨ ∃ a t, ok s a ∧ step s a = some t ∧ Run step ok t u := by
  induction h with
  | refl => exact .inl rfl
  | tail _ hok hstep ih =>
      cases ih with
      | inl heq =>
          subst heq
          exact .inr ⟨_, _, hok, hstep, .refl⟩
      | inr hfirst =>
          obtain ⟨a, t, hok', hstep', hrun⟩ := hfirst
          exact .inr ⟨a, t, hok', hstep', .tail hrun hok hstep⟩

/-- With one label the run to the end is the only one. -/
theorem Run.final_unique [Subsingleton A] {step : S → A → Option S} {s t u : S}
    (ht : Reaches step s t) (hfinal : Final step t) (hu : Reaches step s u)
    (hfinal' : Final step u) : t = u := by
  suffices back : Reaches step u t by
    obtain heq | ⟨a, r, _, hstep, _⟩ := back.cases_head
    · exact heq.symm
    · rw [hfinal' a] at hstep
      cases hstep
  clear hfinal'
  induction hu with
  | refl => exact ht
  | @tail r u a hrun hok hstep ih =>
      obtain heq | ⟨b, r', _, hstep', hrest⟩ := ih.cases_head
      · subst heq
        rw [hfinal a] at hstep
        cases hstep
      · rw [Subsingleton.elim b a, hstep] at hstep'
        cases hstep'
        exact hrest

theorem Terminates.exists_final {step : S → A → Option S} {s : S} (h : Terminates step s) :
    ∃ t, Reaches step s t ∧ Final step t := by
  induction h with
  | intro s _ ih =>
      by_cases hfinal : Final step s
      · exact ⟨s, .refl, hfinal⟩
      · obtain ⟨a, ha⟩ := Classical.not_forall.mp hfinal
        obtain ⟨t, ht⟩ := Option.ne_none_iff_exists'.mp ha
        obtain ⟨u, hrun, hu⟩ := ih t ⟨a, ht⟩
        exact ⟨u, .head trivial ht hrun, hu⟩

end UmnProjects.Runs
