import Mathlib.Data.List.Perm.Basic
import UmnProjects.Swish.PipelineCommands

/-!
The loop that waits for the children. Its bound lets it call `wait` once more than there are
children, and the call that finds none left decides what is returned.
-/
namespace UmnProjects.Swish
open Descriptors

/-- The child ended by itself, with status 0. -/
def ExitedZero (status : Nat) : Prop := status % 128 = 0 ∧ WEXITSTATUS status = 0

/-- `wait` was called once for each child, and 0 is returned if and only if all of them ended
well. -/
structure Reports (calls : Calls) (f : Finished) : Prop where
  once : f.waiting.calls = f.parent.children.length
  reported : f.waiting.waited.Perm (List.range f.parent.children.length)
  verdict : f.retVal = 0 ↔
    ∀ child, child < f.parent.children.length → ExitedZero (calls.status child)

variable {calls : Calls} {n i : Nat} {s : Parent}

/-! ### Children and their number -/

def Counted (s : Parent) : Prop := s.childrenCreated = s.children.length

theorem counted_closeEnd {ok : Bool} {idx : Nat} {s' : Parent} (h : Counted s)
    (hs : s.closeEnd ok idx = some s') : Counted s' := by
  simp only [Parent.closeEnd] at hs
  split at hs
  · cases hs
    exact h
  · cases hs

theorem counted_closeAnyway (h : Counted s) (idx : Nat) : Counted (s.closeAnyway idx) := by
  simp only [Parent.closeAnyway]
  split
  · exact h
  · next hs => exact counted_closeEnd h hs

theorem counted_openPipe (h : Counted s) : (openPipe calls n i s).Leads Counted Counted := by
  rw [openPipe]
  split
  · exact h
  · split
    · exact h
    · by_cases hi : i > 0
      · simp only [if_pos hi]
        exact counted_closeAnyway h _
      · simp only [if_neg hi]
        exact h

theorem counted_forkChild (h : Counted s) : (forkChild calls n i s).Leads Counted Counted := by
  rw [forkChild]
  split
  · change s.childrenCreated + 1 = (s.children ++ [_]).length
    rw [List.length_append, List.length_singleton, h]
  · have hnew : Counted
        (if i ≠ n then (s.closeAnyway (2 * i)).closeAnyway (2 * i + 1) else s) := by
      split
      · exact counted_closeAnyway (counted_closeAnyway h _) _
      · exact h
    by_cases hi : i > 0
    · simp only [if_pos hi]
      exact counted_closeAnyway hnew _
    · simp only [if_neg hi]
      exact hnew

theorem counted_closeKept (h : Counted s) : (closeKept calls i s).Leads Counted Counted := by
  rw [closeKept]
  split
  · split
    · exact h
    · next hclose => exact counted_closeEnd h hclose
  · exact h

theorem counted_closeRead (h : Counted s) : (closeRead calls n i s).Leads Counted Counted := by
  rw [closeRead]
  split
  · split
    · exact h
    · next s' hclose =>
        have hs' : Counted s' := counted_closeEnd h hclose
        exact hs'
  · exact h

theorem counted_iteration (h : Counted s) : (iteration calls n i s).Leads Counted Counted :=
  (((counted_openPipe h).andThen fun _ h => counted_forkChild h).andThen
    fun _ h => counted_closeKept h).andThen fun _ h => counted_closeRead h

theorem counted_createProcesses (calls : Calls) (tokens : Tokens) (table : Table File) :
    Counted (createProcesses calls tokens table) := by
  refine creationLoop_induction (P := fun _ => Counted) ?_ ?_ _ (Nat.le_refl _) ?_
  · exact fun _ _ _ h => counted_iteration h
  · exact fun _ h => counted_iteration h
  · rfl

/-! ### Waiting -/

theorem waitOnce_calls (calls : Calls) (i : Nat) (w : Waiting) :
    (waitOnce calls i w).calls = w.calls + 1 := by
  rw [waitOnce]
  split <;> rfl

/-- A call reports a child that is left or none. -/
theorem waitOnce_perm (calls : Calls) (i : Nat) (w : Waiting) :
    ((waitOnce calls i w).waited ++ (waitOnce calls i w).left).Perm (w.waited ++ w.left) := by
  rw [waitOnce]
  split
  · next child hchild _ =>
      obtain ⟨hlt, rfl⟩ := List.getElem?_eq_some_iff.mp hchild
      rw [List.append_assoc]
      exact (List.getElem_cons_eraseIdx_perm hlt).append_left w.waited
  · exact List.Perm.refl _

theorem waitOnce_left (hw : calls.waitFails i = false) (w : Waiting) :
    (waitOnce calls i w).left.length = w.left.length - 1 := by
  rw [waitOnce, hw]
  split
  · next hchild _ =>
      obtain ⟨hlt, _⟩ := List.getElem?_eq_some_iff.mp hchild
      exact List.length_eraseIdx_of_lt hlt
  · next hnone =>
      have hempty : ¬ calls.waitPicks i % w.left.length < w.left.length := fun hlt =>
        hnone _ (List.getElem?_eq_getElem hlt) rfl
      have hzero : w.left.length = 0 := by
        by_contra hpos
        exact hempty (Nat.mod_lt _ (by omega))
      change w.left.length = _
      omega

/-- `-1` is never taken back, and it is what a call that fails gives. -/
theorem waitOnce_retVal (w : Waiting)
    (h : w.retVal = -1 ∨ w.left = [] ∨ calls.waitFails i = true) :
    (waitOnce calls i w).retVal = -1 := by
  rw [waitOnce]
  split
  · next hchild hwait =>
      cases h with
      | inl hret =>
          simp only [hret]
          split <;> rfl
      | inr hfails =>
          cases hfails with
          | inl hnil =>
              rw [hnil] at hchild
              cases hchild
          | inr htrue =>
              rw [htrue] at hwait
              cases hwait
  · rfl

theorem waitLoop_calls (calls : Calls) (created rounds : Nat) (w : Waiting) :
    (waitLoop calls created rounds w).calls = w.calls + rounds := by
  induction rounds generalizing w with
  | zero => rfl
  | succ rounds ih =>
      rw [waitLoop, ih, waitOnce_calls]
      omega

theorem waitLoop_perm (calls : Calls) (created rounds : Nat) (w : Waiting) :
    ((waitLoop calls created rounds w).waited ++ (waitLoop calls created rounds w).left).Perm
      (w.waited ++ w.left) := by
  induction rounds generalizing w with
  | zero => exact List.Perm.refl _
  | succ rounds ih =>
      rw [waitLoop]
      exact (ih _).trans (waitOnce_perm calls _ w)

theorem waitLoop_left (hw : ∀ i, calls.waitFails i = false) (created rounds : Nat) (w : Waiting) :
    (waitLoop calls created rounds w).left.length = w.left.length - rounds := by
  induction rounds generalizing w with
  | zero => rfl
  | succ rounds ih =>
      rw [waitLoop, ih, waitOnce_left (hw _)]
      omega

theorem waitLoop_retVal (calls : Calls) (created rounds : Nat) (w : Waiting)
    (h : w.retVal = -1) : (waitLoop calls created rounds w).retVal = -1 := by
  induction rounds generalizing w with
  | zero => exact h
  | succ rounds ih =>
      rw [waitLoop]
      exact ih _ (waitOnce_retVal w (.inl h))

/-- Of more calls than there are children left one fails. -/
theorem waitLoop_exhausted (calls : Calls) (created rounds : Nat) (w : Waiting)
    (h : w.left.length < rounds) : (waitLoop calls created rounds w).retVal = -1 := by
  induction rounds generalizing w with
  | zero => cases h
  | succ rounds ih =>
      rw [waitLoop]
      by_cases hfails : w.left = [] ∨ calls.waitFails (created - rounds) = true
      · exact waitLoop_retVal calls _ _ _ (waitOnce_retVal w (.inr hfails))
      · rw [not_or, Bool.not_eq_true, ← ne_eq, ← List.length_pos_iff] at hfails
        refine ih _ ?_
        rw [waitOnce_left hfails.2]
        omega

/-- Each child is reported once, whatever the order, if `wait` fails only without one. -/
theorem runPipelinedCommands_waited (hw : ∀ i, calls.waitFails i = false) (tokens : Tokens)
    (table : Table File) :
    let f := runPipelinedCommands calls tokens table
    f.waiting.waited.Perm (List.range f.parent.children.length) := by
  intro f
  have hcreated : (createProcesses calls tokens table).childrenCreated =
      f.parent.children.length := counted_createProcesses calls tokens table
  have hperm : (f.waiting.waited ++ f.waiting.left).Perm
      (List.range f.parent.children.length) := waitLoop_perm calls _ _ _
  have hleft : f.waiting.left.length =
      (List.range f.parent.children.length).length -
        ((createProcesses calls tokens table).childrenCreated + 1) := waitLoop_left hw _ _ _
  have hnil : f.waiting.left = [] := by
    apply List.eq_nil_of_length_eq_zero
    rw [hleft, hcreated, List.length_range]
    omega
  rwa [hnil, List.append_nil] at hperm

/-- The bound of the loop is one too high: `wait` is called once more than there are children
and 0 is never returned. -/
theorem runPipelinedCommands_neverReports (calls : Calls) (tokens : Tokens) (table : Table File) :
    let f := runPipelinedCommands calls tokens table
    ¬ Reports calls f ∧ f.waiting.calls = f.parent.children.length + 1 ∧ f.retVal = -1 ∧
      ((∀ i, calls.waitFails i = false) →
        f.waiting.waited.Perm (List.range f.parent.children.length)) := by
  intro f
  have hcreated : (createProcesses calls tokens table).childrenCreated =
      f.parent.children.length := counted_createProcesses calls tokens table
  have hcalls : f.waiting.calls = f.parent.children.length + 1 := by
    rw [← hcreated]
    exact (waitLoop_calls calls _ _ _).trans (Nat.zero_add _)
  refine ⟨?_, hcalls, ?_, fun hw => runPipelinedCommands_waited hw tokens table⟩
  · intro h
    have honce := h.once
    omega
  · refine waitLoop_exhausted calls _ _ _ ?_
    rw [hcreated]
    simp only [List.length_range]
    exact Nat.lt_succ_self _

/-- Two commands that both end well, and the shell is told that they failed. -/
theorem runPipelinedCommands_twoCommands :
    smoothCalls.Succeed ∧ (∀ i, smoothCalls.waitFails i = false) ∧
      (∀ child, ExitedZero (smoothCalls.status child)) ∧
      let f := runPipelinedCommands smoothCalls ["ls", "|", "wc"] terminal
      f.parent.children.length = 2 ∧ f.waiting.calls = 3 ∧ f.retVal = -1 ∧
        ¬ Reports smoothCalls f := by
  refine ⟨smoothCalls_succeed, fun _ => rfl, ?_, by decide, by decide, by decide, ?_⟩
  · intro _
    exact ⟨rfl, by simp [WEXITSTATUS, smoothCalls]⟩
  · intro h
    exact absurd h.once (by decide)

end UmnProjects.Swish
