import UmnProjects.Swish.PipelineWaits

/-!
What the parent leaves behind, whichever call fails. Every branch that gives up closes what is
open, but it frees the array as well, which is freed again after the waiting.
-/
namespace UmnProjects.Swish
open Descriptors

/-- Both ends of the first pipes. -/
def pipeEnds (made : Nat) : List File :=
  (List.range made).flatMap fun k => [.readEnd k, .writeEnd k]

/-- The array is freed once, each end of each pipe closed once and each child waited for. -/
structure CleansUp (f : Finished) : Prop where
  released : f.parent.frees = 1
  closings : f.parent.closed.Perm (pipeEnds f.parent.pipesMade)
  waited : f.waiting.waited.Perm (List.range f.parent.children.length)

/-- No close that is looked at in iteration `i` fails. -/
structure Closes (calls : Calls) (n i : Nat) : Prop where
  write : 0 < i → calls.closeWrite i = true
  read : i < n → calls.closeRead i = true

/-- No call of the parent fails in iteration `i`. -/
structure Smooth (calls : Calls) (n i : Nat) : Prop extends Closes calls n i where
  pipe : i < n → calls.pipe i = true
  fork : calls.fork i = true

variable {calls : Calls} {start : Table File} {n i made : Nat} {ends rest : List (Nat × File)}
  {s : Parent}

/-- The parent in iteration `i`, with no failure so far: it holds `ends` and has closed every
other end of the pipes it made. -/
structure OnWay (calls : Calls) (start : Table File) (n i made : Nat) (ends : List (Nat × File))
    (s : Parent) : Prop where
  held : Extends start s.table ends
  pipes : s.pipesMade = made
  closings : (s.closed ++ ends.map Prod.snd).Perm (pipeEnds made)
  kept : s.frees = 0
  smooth : ∀ j, j < i → Smooth calls n j

/-- The parent when the loop has ended. -/
structure Ended (calls : Calls) (n : Nat) (s : Parent) : Prop where
  frees : s.frees = 0 ∧ (∀ i, i ≤ n → Smooth calls n i) ∨
    s.frees = 1 ∧ ∃ i, i ≤ n ∧ ¬ Smooth calls n i
  closings : (∀ i, i ≤ n → Closes calls n i) → s.closed.Perm (pipeEnds s.pipesMade)

theorem pipeEnds_succ (made : Nat) :
    pipeEnds (made + 1) = pipeEnds made ++ [.readEnd made, .writeEnd made] := by
  rw [pipeEnds, List.range_succ, List.flatMap_append]
  simp only [List.flatMap_cons, List.flatMap_nil, List.append_nil]
  rfl

/-- The parent when it has closed an end. -/
def Parent.without (s : Parent) (idx : Nat) (f : File) : Parent :=
  { s with table := s.table.put (s.pipeFds idx) none, closed := s.closed ++ [f] }

theorem OnWay.perm (h : OnWay calls start n i made ends s) {ends' : List (Nat × File)}
    (hp : ends.Perm ends') : OnWay calls start n i made ends' s :=
  ⟨h.held.perm hp, h.pipes, ((hp.map Prod.snd).symm.append_left s.closed).trans h.closings,
    h.kept, h.smooth⟩

theorem OnWay.closeEnd {idx : Nat} {f : File}
    (h : OnWay calls start n i made ((s.pipeFds idx, f) :: rest) s) :
    s.closeEnd true idx = some (s.without idx f) ∧
      OnWay calls start n i made rest (s.without idx f) := by
  obtain ⟨hclose, hrest⟩ := closeEnd_spec h.held (List.Perm.refl _)
  refine ⟨hclose, hrest, h.pipes, ?_, h.kept, h.smooth⟩
  change ((s.closed ++ [f]) ++ rest.map Prod.snd).Perm (pipeEnds made)
  rw [List.append_assoc]
  exact h.closings

theorem closeEnd_false (s : Parent) (idx : Nat) : s.closeEnd false idx = none := by
  simp [Parent.closeEnd]

theorem OnWay.closeAnyway {idx : Nat} {f : File}
    (h : OnWay calls start n i made ((s.pipeFds idx, f) :: rest) s) :
    s.closeAnyway idx = s.without idx f ∧
      OnWay calls start n i made rest (s.without idx f) := by
  obtain ⟨hclose, hrest⟩ := h.closeEnd
  refine ⟨?_, hrest⟩
  rw [Parent.closeAnyway, hclose]

/-- The write end kept over is closed before the parent gives up. -/
theorem OnWay.closeKept_anyway (h : OnWay calls start n i made (keptEnd s.pipeFds i) s) :
    OnWay calls start n i made []
      (if i > 0 then s.closeAnyway (2 * (i - 1) + 1) else s) := by
  cases i with
  | zero => exact h
  | succ j =>
      obtain ⟨hclose, hrest⟩ := h.closeAnyway
      rw [if_pos (Nat.succ_pos j), Nat.add_sub_cancel, hclose]
      exact hrest

/-- A failure ends the loop; what is still held then is due to a close that failed. -/
theorem OnWay.fail {P : Parent → Prop} (h : OnWay calls start n i made ends s) (hi : i ≤ n)
    (hfailed : ¬ Smooth calls n i) (hends : Closes calls n i → ends = []) :
    s.fail.Leads P (Ended calls n) := by
  refine ⟨.inr ⟨?_, i, hi, hfailed⟩, fun hcloses => ?_⟩
  · change s.frees + 1 = 1
    rw [h.kept]
  · have hclosings := h.closings
    rw [hends (hcloses i hi), List.map_nil, List.append_nil, ← h.pipes] at hclosings
    exact hclosings

theorem newEnds_ge (pipeFds : Nat → Nat) (h : ¬ i < n) : newEnds pipeFds n i = [] :=
  if_neg h

theorem OnWay.makePipe (h : OnWay calls start n i i (keptEnd s.pipeFds i) s) (hi : i < n) :
    OnWay calls start n i (i + 1)
      (newEnds (s.makePipe i).pipeFds n i ++ keptEnd (s.makePipe i).pipeFds i)
      (s.makePipe i) := by
  have hne : 2 * i ≠ 2 * i + 1 := by omega
  have hheld := (h.held.alloc (.readEnd s.pipesMade)).alloc (.writeEnd s.pipesMade)
  have hkept : keptEnd (s.makePipe i).pipeFds i = keptEnd s.pipeFds i := keptEnd_update _ _ _ _
  have hnew : (newEnds (s.makePipe i).pipeFds n i).map Prod.snd =
      [.writeEnd i, .readEnd i] := by
    rw [newEnds, if_pos hi]
    rfl
  refine ⟨?_, congrArg Nat.succ h.pipes, ?_, h.kept, h.smooth⟩
  · simpa [Parent.makePipe, newEnds, hi, keptEnd_update, h.pipes, Function.update_of_ne hne]
      using hheld
  · have hclosings : (s.closed ++ (keptEnd s.pipeFds i).map Prod.snd).Perm (pipeEnds i) :=
      h.closings
    have hswap : [File.writeEnd i, .readEnd i].Perm [.readEnd i, .writeEnd i] :=
      List.Perm.swap _ _ _
    have hlater : (s.closed ++ ([File.writeEnd i, .readEnd i] ++
        (keptEnd s.pipeFds i).map Prod.snd)).Perm
          (s.closed ++ ((keptEnd s.pipeFds i).map Prod.snd ++ [.writeEnd i, .readEnd i])) :=
      List.perm_append_comm.append_left s.closed
    have hpaid := hclosings.append hswap
    rw [List.append_assoc] at hpaid
    rw [hkept, List.map_append, hnew, pipeEnds_succ]
    exact hlater.trans hpaid

/-! ### The parts of an iteration -/

/-- The pipes made when iteration `i` has made its own. -/
def madeBy (n i : Nat) : Nat := if i < n then i + 1 else i

theorem openPipe_onWay (hi : i ≤ n) (h : OnWay calls start n i i (keptEnd s.pipeFds i) s) :
    (openPipe calls n i s).Leads
      (fun s => (i < n → calls.pipe i = true) ∧ OnWay calls start n i (madeBy n i)
        (newEnds s.pipeFds n i ++ keptEnd s.pipeFds i) s)
      (Ended calls n) := by
  rw [openPipe]
  split
  · next hin =>
      have hnot : ¬ i < n := by omega
      refine ⟨fun hlt => absurd hlt hnot, ?_⟩
      rw [newEnds_ge _ hnot, madeBy, if_neg hnot, List.nil_append]
      exact ⟨h.held, h.pipes, h.closings, h.kept, h.smooth⟩
  · have hlt : i < n := by omega
    split
    · next hpipe =>
        refine ⟨fun _ => hpipe, ?_⟩
        rw [madeBy, if_pos hlt]
        exact h.makePipe hlt
    · next hpipe =>
        exact h.closeKept_anyway.fail hi (fun hsmooth => hpipe (hsmooth.pipe hlt)) fun _ => rfl

/-- The ends of the new pipe are closed before the parent gives up, if there is one. -/
theorem OnWay.closeNew_anyway (hi : i ≤ n)
    (h : OnWay calls start n i made (newEnds s.pipeFds n i ++ keptEnd s.pipeFds i) s) :
    ∃ s', (if i ≠ n then (s.closeAnyway (2 * i)).closeAnyway (2 * i + 1) else s) = s' ∧
      OnWay calls start n i made (keptEnd s'.pipeFds i) s' := by
  by_cases hin : i = n
  · refine ⟨s, if_neg fun hne => hne hin, ?_⟩
    rwa [newEnds_ge _ (by omega), List.nil_append] at h
  · rw [if_pos hin]
    rw [newEnds, if_pos (by omega)] at h
    obtain ⟨hread, hfirst⟩ := (h.perm (List.Perm.swap _ _ _)).closeAnyway
    have hnext : OnWay calls start n i made
        (((s.without (2 * i) (.readEnd i)).pipeFds (2 * i + 1), .writeEnd i) ::
          keptEnd s.pipeFds i) (s.without (2 * i) (.readEnd i)) := hfirst
    obtain ⟨hwrite, hsecond⟩ := hnext.closeAnyway
    refine ⟨_, rfl, ?_⟩
    rw [hread, hwrite]
    exact hsecond

theorem forkChild_onWay (hi : i ≤ n)
    (h : OnWay calls start n i made (newEnds s.pipeFds n i ++ keptEnd s.pipeFds i) s) :
    (forkChild calls n i s).Leads
      (fun s => calls.fork i = true ∧ OnWay calls start n i made
        (newEnds s.pipeFds n i ++ keptEnd s.pipeFds i) s)
      (Ended calls n) := by
  rw [forkChild]
  split
  · next hfork => exact ⟨hfork, h.held, h.pipes, h.closings, h.kept, h.smooth⟩
  · next hfork =>
      obtain ⟨s', hs', h'⟩ := h.closeNew_anyway hi
      simp only [hs']
      exact h'.closeKept_anyway.fail hi (fun hsmooth => hfork hsmooth.fork) fun _ => rfl

theorem closeKept_onWay (hi : i ≤ n)
    (h : OnWay calls start n i made (newEnds s.pipeFds n i ++ keptEnd s.pipeFds i) s) :
    (closeKept calls i s).Leads
      (fun s => (0 < i → calls.closeWrite i = true) ∧
        OnWay calls start n i made (newEnds s.pipeFds n i) s)
      (Ended calls n) := by
  cases i with
  | zero =>
      rw [keptEnd, List.append_nil] at h
      exact ⟨fun h0 => absurd h0 (Nat.lt_irrefl 0), h⟩
  | succ j =>
      rw [closeKept, if_pos (Nat.succ_pos j), Nat.add_sub_cancel]
      cases hok : calls.closeWrite (j + 1) with
      | true =>
          obtain ⟨hclose, hrest⟩ := (h.perm List.perm_append_comm).closeEnd
          rw [hclose]
          exact ⟨fun _ => rfl, hrest⟩
      | false =>
          have hnot : ¬ Closes calls n (j + 1) := by
            intro hcloses
            have hwrite := hcloses.write (Nat.succ_pos j)
            rw [hok] at hwrite
            cases hwrite
          rw [closeEnd_false]
          exact h.fail hi (fun hsmooth => hnot hsmooth.toCloses) fun hcloses => absurd hcloses hnot

theorem closeRead_onWay (hi : i < n) (hsmooth : Closes calls n i → Smooth calls n i)
    (hwrite : 0 < i → calls.closeWrite i = true)
    (h : OnWay calls start n i (i + 1) (newEnds s.pipeFds n i) s) :
    (closeRead calls n i s).Leads
      (fun s => OnWay calls start n (i + 1) (i + 1) (keptEnd s.pipeFds (i + 1)) s)
      (Ended calls n) := by
  rw [closeRead, if_pos (Nat.ne_of_lt hi)]
  rw [newEnds, if_pos hi] at h
  cases hok : calls.closeRead i with
  | true =>
      obtain ⟨hclose, hrest⟩ := (h.perm (List.Perm.swap _ _ _)).closeEnd
      rw [hclose]
      refine ⟨hrest.held, hrest.pipes, hrest.closings, hrest.kept, fun j hj => ?_⟩
      by_cases hlast : j = i
      · rw [hlast]
        exact hsmooth ⟨hwrite, fun _ => hok⟩
      · exact h.smooth j (by omega)
  | false =>
      have hnot : ¬ Closes calls n i := by
        intro hcloses
        have hread := hcloses.read hi
        rw [hok] at hread
        cases hread
      rw [closeEnd_false]
      exact h.fail (Nat.le_of_lt hi) (fun hall => hnot hall.toCloses) fun hcloses =>
        absurd hcloses hnot

/-- The parts of an iteration before its last one. -/
theorem parts_onWay (hi : i ≤ n) (h : OnWay calls start n i i (keptEnd s.pipeFds i) s) :
    (((openPipe calls n i s).andThen (forkChild calls n i)).andThen (closeKept calls i)).Leads
      (fun s => (i < n → calls.pipe i = true) ∧ calls.fork i = true ∧
        (0 < i → calls.closeWrite i = true) ∧
        OnWay calls start n i (madeBy n i) (newEnds s.pipeFds n i) s)
      (Ended calls n) := by
  refine Flow.Leads.andThen (P := fun s => (i < n → calls.pipe i = true) ∧
    calls.fork i = true ∧ OnWay calls start n i (madeBy n i)
      (newEnds s.pipeFds n i ++ keptEnd s.pipeFds i) s) ?_ ?_
  · refine (openPipe_onWay hi h).andThen fun s h => ?_
    exact (forkChild_onWay hi h.2).mono (fun s hs => ⟨h.1, hs⟩) fun s hs => hs
  · intro s h
    exact (closeKept_onWay hi h.2.2).mono (fun s hs => ⟨h.1, h.2.1, hs⟩) fun s hs => hs

theorem creationLoop_ended (rounds : Nat) (hr : rounds ≤ n)
    (h : OnWay calls start n (n - rounds) (n - rounds) (keptEnd s.pipeFds (n - rounds)) s) :
    Ended calls n (creationLoop calls n (rounds + 1) s) := by
  refine creationLoop_induction
    (P := fun i s => OnWay calls start n i i (keptEnd s.pipeFds i) s) ?_ ?_ rounds hr h
  · intro i s hi h
    refine (parts_onWay (Nat.le_of_lt hi) h).andThen fun s h => ?_
    obtain ⟨hpipe, hfork, hwrite, hs⟩ := h
    rw [madeBy, if_pos hi] at hs
    exact closeRead_onWay hi (fun hcloses => ⟨hcloses, hpipe, hfork⟩) hwrite hs
  · intro s h
    refine (parts_onWay (Nat.le_refl n) h).andThen fun s h => ?_
    obtain ⟨hpipe, hfork, hwrite, hs⟩ := h
    -- the last iteration has no pipe of its own
    rw [madeBy, if_neg (Nat.lt_irrefl n), newEnds_ge _ (Nat.lt_irrefl n)] at hs
    rw [closeRead, if_neg fun hne => hne rfl]
    refine ⟨.inl ⟨hs.kept, fun i hi => ?_⟩, fun _ => ?_⟩
    · by_cases hlast : i = n
      · rw [hlast]
        exact ⟨⟨hwrite, fun hlt => absurd hlt (Nat.lt_irrefl n)⟩, hpipe, hfork⟩
      · exact hs.smooth i (by omega)
    · have hclosings := hs.closings
      rw [List.map_nil, List.append_nil, ← hs.pipes] at hclosings
      exact hclosings

theorem onWay_start (calls : Calls) (tokens : Tokens) (start : Table File) (n : Nat) :
    OnWay calls start n 0 0 (keptEnd (Parent.start calls tokens start).pipeFds 0)
      (.start calls tokens start) where
  held := Extends.refl start
  pipes := rfl
  closings := List.Perm.refl _
  kept := rfl
  smooth := fun _ hj => absurd hj (Nat.not_lt_zero _)

theorem createProcesses_ended (calls : Calls) (tokens : Tokens) (table : Table File) :
    Ended calls (strvecNumOccurrences tokens "|") (createProcesses calls tokens table) := by
  have hstart := onWay_start calls tokens table (strvecNumOccurrences tokens "|")
  rw [← Nat.sub_self (strvecNumOccurrences tokens "|")] at hstart
  exact creationLoop_ended _ (Nat.le_refl _) hstart

/-- The parent cleans up if and only if nothing fails: with any failure the array is freed
twice. The pipe ends and the children are accounted for whenever the closes succeed. -/
theorem runPipelinedCommands_cleansUp (calls : Calls) (hw : ∀ i, calls.waitFails i = false)
    (tokens : Tokens) (table : Table File) :
    let n := strvecNumOccurrences tokens "|"
    let f := runPipelinedCommands calls tokens table
    (CleansUp f ↔ ∀ i, i ≤ n → Smooth calls n i) ∧
    ((∃ i, i ≤ n ∧ ¬ Smooth calls n i) → f.parent.frees = 2) ∧
    ((∀ i, i ≤ n → Closes calls n i) →
      f.parent.closed.Perm (pipeEnds f.parent.pipesMade) ∧
      f.waiting.waited.Perm (List.range f.parent.children.length)) := by
  intro n f
  have hended : Ended calls n (createProcesses calls tokens table) :=
    createProcesses_ended calls tokens table
  have hwaited := runPipelinedCommands_waited hw tokens table
  have hfrees : f.parent.frees = (createProcesses calls tokens table).frees + 1 := rfl
  refine ⟨⟨fun h => ?_, fun h => ?_⟩, fun hfailed => ?_, fun hcloses => ?_⟩
  · cases hended.frees with
    | inl hsmooth => exact hsmooth.2
    | inr hfailed =>
        have hreleased := h.released
        omega
  · cases hended.frees with
    | inl hsmooth =>
        refine ⟨?_, hended.closings fun i hi => (h i hi).toCloses, hwaited⟩
        omega
    | inr hfailed =>
        obtain ⟨i, hi, hnot⟩ := hfailed.2
        exact absurd (h i hi) hnot
  · cases hended.frees with
    | inl hsmooth =>
        obtain ⟨i, hi, hnot⟩ := hfailed
        exact absurd (hsmooth.2 i hi) hnot
    | inr hfailed => omega
  · exact ⟨hended.closings hcloses, hwaited⟩

theorem runPipelinedCommands_cleansUp_smooth :
    CleansUp (runPipelinedCommands smoothCalls ["ls", "|", "sort", "|", "wc"] terminal) :=
  (runPipelinedCommands_cleansUp smoothCalls (fun _ => rfl) ["ls", "|", "sort", "|", "wc"]
    terminal).1.mpr fun _ _ => ⟨⟨fun _ => rfl, fun _ => rfl⟩, fun _ => rfl, rfl⟩

/-- No descriptors are left for a pipe. -/
def noPipeCalls : Calls := { smoothCalls with pipe := fun _ => false }

/-- The first `pipe` fails, and what it was to fill is freed twice. -/
theorem runPipelinedCommands_noPipe :
    (runPipelinedCommands noPipeCalls ["ls", "|", "wc"] terminal).parent.frees = 2 ∧
      ¬ CleansUp (runPipelinedCommands noPipeCalls ["ls", "|", "wc"] terminal) := by
  have hfrees : (runPipelinedCommands noPipeCalls ["ls", "|", "wc"] terminal).parent.frees = 2 := by
    decide
  refine ⟨hfrees, fun h => ?_⟩
  have hreleased := h.released
  omega

end UmnProjects.Swish
