import UmnProjects.Foundations.Segments
import UmnProjects.Swish.PipelineDescriptors

/-!
Which tokens each child is handed. Before iteration `i` the parent's tokens are the line up
to the end of the segment that is next from the right.
-/
namespace UmnProjects.Swish
open Descriptors

/-! ### String vectors -/

theorem findLastBelow_append (before after : Tokens) {s : String} (h : s ∉ after) (k : Nat)
    (hk : k ≤ after.length) :
    findLastBelow (before ++ s :: after) s (before.length + 1 + k) = before.length := by
  induction k with
  | zero => simp [findLastBelow]
  | succ k ih =>
      have hget : (before ++ s :: after)[before.length + 1 + k]? = after[k]? := by
        rw [List.getElem?_append_right (by omega)]
        have hidx : before.length + 1 + k - before.length = k + 1 := by omega
        rw [hidx, List.getElem?_cons_succ]
      have hne : after[k]? ≠ some s := fun heq => h (List.mem_of_getElem? heq)
      rw [← Nat.add_assoc, findLastBelow, hget, if_neg hne]
      exact ih (by omega)

theorem strvecFindLast_append (before : Tokens) {after : Tokens} {s : String} (h : s ∉ after) :
    strvecFindLast (before ++ s :: after) s = before.length := by
  have hlength : (before ++ s :: after).length = before.length + 1 + after.length := by
    simp only [List.length_append, List.length_cons]
    omega
  rw [strvecFindLast, hlength]
  exact findLastBelow_append before after h after.length (Nat.le_refl _)

theorem strvecTake_append (before rest : Tokens) (h : before.length < 2147483648) :
    strvecTake (before ++ rest) (asUnsigned before.length) = before := by
  have hindex : asUnsigned before.length = before.length := by
    rw [asUnsigned]
    omega
  rw [hindex, strvecTake, List.take_left]

/-- A slice up to the end of the vector. -/
theorem strvecSlice_end (vec : Tokens) (start : Nat) :
    strvecSlice vec start vec.length = vec.drop start := by
  have hstop : (if asUnsigned vec.length > vec.length then (vec.length : Int) else vec.length) =
      vec.length := by
    split <;> rfl
  have hstart : ¬ (start : Int) < 0 := by omega
  simp only [strvecSlice, hstop, if_neg hstart, Int.toNat_natCast]
  refine List.take_of_length_le ?_
  rw [List.length_drop]
  omega

/-! ### The invariant of the creation loop -/

variable {calls : Calls} {segments : List Tokens} {n i k : Nat} {s : Parent}

/-- A child that reaches `run_command` has the segment of its iteration. -/
def Handed (segments : List Tokens) (n : Nat) (children : List Child) : Prop :=
  ∀ i args t, children[i]? = some (.runCommand args t) → segments[n - i]? = some args

/-- The parent in iteration `i`, before it notes what the next command needs, with `k`
children. -/
structure Cut (segments : List Tokens) (n i k : Nat) (s : Parent) : Prop where
  tokens : s.tokens.splitOn "|" = segments.take (n - i + 1)
  short : s.tokens.length < 2147483648
  curr : s.currPipeIdx = if i = n then -1 else strvecFindLast s.tokens "|"
  last : s.lastPipeIdx = s.tokens.length
  created : s.children.length = k
  handed : Handed segments n s.children

/-- The parent when the loop has ended. -/
structure Handled (segments : List Tokens) (n : Nat) (s : Parent) : Prop where
  created : s.children.length ≤ n + 1
  handed : Handed segments n s.children

/-- What holds after the part of the body that made the flow. -/
def Flow.Leads (goesOn stops : Parent → Prop) : Flow → Prop
  | .continue_ s => goesOn s
  | .break_ s => stops s

theorem Flow.Leads.andThen {P Q R : Parent → Prop} {flow : Flow} {next : Parent → Flow}
    (h : flow.Leads P R) (hnext : ∀ s, P s → (next s).Leads Q R) :
    (flow.andThen next).Leads Q R := by
  cases flow with
  | continue_ s => exact hnext s h
  | break_ s => exact h

theorem Flow.Leads.mono {P P' Q Q' : Parent → Prop} {flow : Flow} (h : flow.Leads P Q)
    (hP : ∀ s, P s → P' s) (hQ : ∀ s, Q s → Q' s) : flow.Leads P' Q' := by
  cases flow with
  | continue_ s => exact hP s h
  | break_ s => exact hQ s h

/-- What every iteration leads on to, and what the last one or a break leaves; by induction on
the iterations to go. -/
theorem creationLoop_induction {calls : Calls} {n : Nat} {P : Nat → Parent → Prop}
    {Q : Parent → Prop}
    (step : ∀ i s, i < n → P i s → (iteration calls n i s).Leads (P (i + 1)) Q)
    (last : ∀ s, P n s → (iteration calls n n s).Leads Q Q) (rounds : Nat) (hr : rounds ≤ n)
    {s : Parent} (h : P (n - rounds) s) : Q (creationLoop calls n (rounds + 1) s) := by
  induction rounds generalizing s with
  | zero =>
      have hlast := last s h
      rw [creationLoop, Nat.sub_zero]
      cases hit : iteration calls n n s with
      | continue_ s' =>
          rw [hit] at hlast
          exact hlast
      | break_ s' =>
          rw [hit] at hlast
          exact hlast
  | succ rounds ih =>
      have hstep := step (n - (rounds + 1)) s (by omega) h
      rw [creationLoop]
      cases hit : iteration calls n (n - (rounds + 1)) s with
      | continue_ s' =>
          rw [hit] at hstep
          have hnext : n - (rounds + 1) + 1 = n - rounds := by omega
          exact ih (by omega) (hnext ▸ hstep)
      | break_ s' =>
          rw [hit] at hstep
          exact hstep

/-- Nothing of the parent that the invariant speaks of is changed. -/
structure SameCut (s s' : Parent) : Prop where
  tokens : s'.tokens = s.tokens
  curr : s'.currPipeIdx = s.currPipeIdx
  last : s'.lastPipeIdx = s.lastPipeIdx
  children : s'.children = s.children

theorem SameCut.refl (s : Parent) : SameCut s s := ⟨rfl, rfl, rfl, rfl⟩

theorem SameCut.trans {s s' s'' : Parent} (h : SameCut s s') (h' : SameCut s' s'') :
    SameCut s s'' :=
  ⟨h'.tokens.trans h.tokens, h'.curr.trans h.curr, h'.last.trans h.last,
    h'.children.trans h.children⟩

theorem Cut.congr (h : Cut segments n i k s) {s' : Parent} (hs : SameCut s s') :
    Cut segments n i k s' where
  tokens := by rw [hs.tokens]; exact h.tokens
  short := by rw [hs.tokens]; exact h.short
  curr := by rw [hs.curr, hs.tokens]; exact h.curr
  last := by rw [hs.last, hs.tokens]; exact h.last
  created := by rw [hs.children]; exact h.created
  handed := by rw [hs.children]; exact h.handed

theorem Cut.handled (h : Cut segments n i k s) (hk : k ≤ n + 1) {s' : Parent}
    (hs : SameCut s s') : Handled segments n s' where
  created := by rw [hs.children, h.created]; exact hk
  handed := by rw [hs.children]; exact h.handed

theorem sameCut_closeEnd {ok : Bool} {idx : Nat} {s' : Parent}
    (h : s.closeEnd ok idx = some s') : SameCut s s' := by
  simp only [Parent.closeEnd] at h
  split at h
  · cases h
    exact ⟨rfl, rfl, rfl, rfl⟩
  · cases h

theorem sameCut_closeAnyway (s : Parent) (idx : Nat) : SameCut s (s.closeAnyway idx) := by
  simp only [Parent.closeAnyway]
  split
  · exact .refl s
  · next h => exact sameCut_closeEnd h

theorem fail_leads {P : Parent → Prop} (h : Cut segments n i k s) (hk : k ≤ n + 1)
    {s' : Parent} (hs : SameCut s s') : s'.fail.Leads P (Handled segments n) :=
  h.handled hk (hs.trans ⟨rfl, rfl, rfl, rfl⟩)

theorem openPipe_leads (hi : i ≤ n) (h : Cut segments n i i s) :
    (openPipe calls n i s).Leads (Cut segments n i i) (Handled segments n) := by
  rw [openPipe]
  split
  · exact h.congr ⟨rfl, rfl, rfl, rfl⟩
  · split
    · exact h.congr ⟨rfl, rfl, rfl, rfl⟩
    · refine fail_leads h (by omega) ?_
      split
      · exact sameCut_closeAnyway s _
      · exact .refl s

/-- Before the last iteration a pipe is left, and the segment behind it is the next one. -/
theorem Cut.last_segment (h : Cut segments n i k s) (hn : segments.length = n + 1) (hi : i < n) :
    ∃ before after, s.tokens = before ++ "|" :: after ∧ "|" ∉ after ∧
      before.splitOn "|" = segments.take (n - i) ∧ segments[n - i]? = some after := by
  have hcount := Segments.length_splitOn (a := "|") s.tokens
  rw [h.tokens, List.length_take] at hcount
  have hmem : "|" ∈ s.tokens := List.count_pos_iff.mp (by omega)
  obtain ⟨before, after, htokens, hafter⟩ := Segments.eq_append_cons_last_of_mem hmem
  have hsplit := h.tokens
  have hlt : n - i < segments.length := by omega
  rw [htokens, Segments.splitOn_append_cons_last before hafter, ← List.take_append_getElem hlt]
    at hsplit
  obtain ⟨hbefore, hsegment⟩ := List.append_inj' hsplit rfl
  refine ⟨before, after, htokens, hafter, hbefore, ?_⟩
  rw [List.getElem?_eq_getElem hlt, List.cons.inj hsegment |>.1]

/-- The slice cut out in iteration `i`. -/
theorem Cut.slice_eq (h : Cut segments n i k s) (hn : segments.length = n + 1) (hi : i ≤ n) :
    segments[n - i]? = some (strvecSlice s.tokens (s.currPipeIdx + 1) s.lastPipeIdx) := by
  rw [h.last, h.curr]
  by_cases hin : i = n
  · have hcount := Segments.length_splitOn (a := "|") s.tokens
    rw [h.tokens, List.length_take] at hcount
    have hnot : "|" ∉ s.tokens := List.count_eq_zero.mp (by omega)
    have hfirst := h.tokens
    rw [List.splitOn_eq_singleton hnot, hin, Nat.sub_self] at hfirst
    have hwhole : strvecSlice s.tokens (-1 + 1) s.tokens.length = s.tokens := by
      have hstart : (-1 + 1 : Int) = (0 : Nat) := rfl
      rw [hstart, strvecSlice_end, List.drop_zero]
    rw [if_pos hin, hwhole, hin, Nat.sub_self]
    have hget := congrArg (fun l => l[0]?) hfirst
    simpa using hget.symm
  · obtain ⟨before, after, htokens, hafter, _, hsegment⟩ := h.last_segment hn (by omega)
    have hstart : ((before.length : Int) + 1) = (before.length + 1 : Nat) := rfl
    have hdrop : (before ++ "|" :: after).drop (before.length + 1) = after := by
      rw [List.drop_append, List.drop_eq_nil_of_le (by omega)]
      simp
    rw [if_neg hin, hsegment, htokens, strvecFindLast_append before hafter, hstart,
      strvecSlice_end, hdrop]

theorem args_of_childProcess {args : Tokens} {t : Table File}
    (h : childProcess calls n i s = .runCommand args t) :
    args = strvecSlice s.tokens (s.currPipeIdx + 1) s.lastPipeIdx := by
  simp only [childProcess] at h
  split at h
  · cases h
  · split at h
    · simp only [runPipedCommand] at h
      split at h
      · cases h
      · split at h
        · cases h
        · cases h
          rfl
    · cases h

theorem forkChild_leads (hn : segments.length = n + 1) (hi : i ≤ n)
    (h : Cut segments n i i s) :
    (forkChild calls n i s).Leads (Cut segments n i (i + 1)) (Handled segments n) := by
  rw [forkChild]
  split
  · refine ⟨h.tokens, h.short, h.curr, h.last, ?_, ?_⟩
    · simp [h.created]
    · intro j args t hj
      obtain hold | ⟨hj, hchild⟩ := child_cases hj
      · exact h.handed j args t hold
      · rw [hj, h.created, h.slice_eq hn hi]
        exact congrArg some (args_of_childProcess hchild.symm).symm
  · refine fail_leads h (by omega) ?_
    have hnew : SameCut s
        (if i ≠ n then (s.closeAnyway (2 * i)).closeAnyway (2 * i + 1) else s) := by
      split
      · exact (sameCut_closeAnyway s _).trans (sameCut_closeAnyway _ _)
      · exact .refl s
    split
    · exact hnew.trans (sameCut_closeAnyway _ _)
    · exact hnew

theorem closeKept_leads (hi : i ≤ n) (h : Cut segments n i (i + 1) s) :
    (closeKept calls i s).Leads (Cut segments n i (i + 1)) (Handled segments n) := by
  rw [closeKept]
  split
  · split
    · exact fail_leads h (by omega) (.refl s)
    · next hclose => exact h.congr (sameCut_closeEnd hclose)
  · exact h

theorem advance_cut (hn : segments.length = n + 1) (hi : i < n)
    (h : Cut segments n i (i + 1) s) : Cut segments n (i + 1) (i + 1) (s.advance n i) := by
  obtain ⟨before, after, htokens, hafter, hbefore, _⟩ := h.last_segment hn hi
  have hshort := h.short
  rw [htokens, List.length_append] at hshort
  have hcurr : s.currPipeIdx = before.length := by
    rw [h.curr, if_neg (by omega), htokens, strvecFindLast_append before hafter]
  have htake : strvecTake s.tokens (asUnsigned s.currPipeIdx) = before := by
    rw [hcurr, htokens]
    exact strvecTake_append before _ (by omega)
  have hlength : n - (i + 1) + 1 = n - i := by omega
  refine ⟨?_, ?_, ?_, ?_, h.created, h.handed⟩
  · simp only [Parent.advance, htake, hlength]
    exact hbefore
  · simp only [Parent.advance, htake]
    omega
  · simp only [Parent.advance, htake]
  · simp only [Parent.advance, htake]
    exact hcurr

theorem closeRead_leads (hn : segments.length = n + 1) (hi : i < n)
    (h : Cut segments n i (i + 1) s) :
    (closeRead calls n i s).Leads (Cut segments n (i + 1) (i + 1)) (Handled segments n) := by
  rw [closeRead, if_pos (by omega)]
  split
  · exact fail_leads h (by omega) (.refl s)
  · next hclose => exact advance_cut hn hi (h.congr (sameCut_closeEnd hclose))

/-- The parts of an iteration before its last one. -/
theorem parts_leads (hn : segments.length = n + 1) (hi : i ≤ n) (h : Cut segments n i i s) :
    (((openPipe calls n i s).andThen (forkChild calls n i)).andThen (closeKept calls i)).Leads
      (Cut segments n i (i + 1)) (Handled segments n) :=
  ((openPipe_leads hi h).andThen fun _ h => forkChild_leads hn hi h).andThen
    fun _ h => closeKept_leads hi h

theorem creationLoop_handled (hn : segments.length = n + 1) (rounds : Nat) (hr : rounds ≤ n)
    (h : Cut segments n (n - rounds) (n - rounds) s) :
    Handled segments n (creationLoop calls n (rounds + 1) s) := by
  refine creationLoop_induction (P := fun i => Cut segments n i i) ?_ ?_ rounds hr h
  · intro i s hi h
    exact (parts_leads hn (by omega) h).andThen fun _ h => closeRead_leads hn hi h
  · intro s h
    -- the last iteration notes nothing more
    have hend : ∀ s, Cut segments n n (n + 1) s →
        (closeRead calls n n s).Leads (Cut segments n n (n + 1)) (Handled segments n) := by
      intro s h
      rw [closeRead, if_neg fun hne => hne rfl]
      exact h
    have hlast : (iteration calls n n s).Leads (Cut segments n n (n + 1)) (Handled segments n) :=
      (parts_leads hn (Nat.le_refl n) h).andThen hend
    exact hlast.mono (fun _ h => h.handled (Nat.le_refl _) (.refl _)) fun _ h => h

theorem cut_start (calls : Calls) (tokens : Tokens) (table : Table File)
    (h : tokens.length < 2147483648) :
    Cut (tokens.splitOn "|") (strvecNumOccurrences tokens "|") 0 0
      (.start calls tokens table) where
  tokens := by
    rw [List.take_of_length_le]
    · rfl
    · rw [Segments.length_splitOn, Nat.sub_zero]
      exact Nat.le_refl _
  short := h
  curr := by
    simp only [Parent.start]
    split
    · next hzero => rw [if_pos hzero.symm]
    · next hpos => rw [if_neg fun hzero => hpos hzero.symm]
  last := rfl
  created := rfl
  handed := by
    intro i args t hget
    cases hget

def Child.args : Child → Option Tokens
  | .runCommand args _ => some args
  | .exit _ => none

/-- Without failures every child reaches its `run_command`. -/
theorem children_run (hc : calls.Succeed) (hslice : ∀ i, calls.slice i = true)
    (tokens : Tokens) {table : Table File} (hs : ShellTable table) :
    let children := (createProcesses calls tokens table).children
    children.length = strvecNumOccurrences tokens "|" + 1 ∧
      ∀ child ∈ children, ∃ args t, child = .runCommand args t := by
  intro children
  have hend : AfterKept calls table (strvecNumOccurrences tokens "|")
      (strvecNumOccurrences tokens "|") (createProcesses calls tokens table) := by
    refine creationLoop_spec hc hs _ (Nat.le_refl _) ?_
    rw [Nat.sub_self]
    exact atHead_start calls tokens table _
  refine ⟨hend.forked, fun child hchild => ?_⟩
  obtain ⟨i, hget⟩ := List.mem_iff_getElem?.mp hchild
  have hwired := hend.wired i child hget
  cases child with
  | runCommand args t => exact ⟨args, t, rfl⟩
  | exit status =>
      simp only [Child.Wired, hslice] at hwired
      cases hwired

/-- Each child gets the segment of its iteration, counted from the right, and a loop without
failures makes one child for every segment. -/
theorem createProcesses_handed (calls : Calls) (tokens : Tokens) (table : Table File)
    (h : tokens.length < 2147483648) :
    let n := strvecNumOccurrences tokens "|"
    let segments := tokens.splitOn "|"
    let children := (createProcesses calls tokens table).children
    segments.length = n + 1 ∧
    children.length ≤ n + 1 ∧
    (∀ i args t, children[i]? = some (.runCommand args t) → segments[n - i]? = some args) ∧
    (calls.Succeed → (∀ i, calls.slice i = true) → ShellTable table →
      children.map Child.args = segments.reverse.map some) := by
  intro n segments children
  have hn : segments.length = n + 1 := Segments.length_splitOn tokens
  have hhandled : Handled segments n (createProcesses calls tokens table) := by
    refine creationLoop_handled hn n (Nat.le_refl n) ?_
    rw [Nat.sub_self]
    exact cut_start calls tokens table h
  refine ⟨hn, hhandled.created, hhandled.handed, fun hc hslice hs => ?_⟩
  obtain ⟨hlength, hrun⟩ := children_run hc hslice tokens hs
  refine List.ext_getElem (by simpa [hn] using hlength) fun i hi hi' => ?_
  rw [List.length_map] at hi
  obtain ⟨args, t, hchild⟩ := hrun children[i] (List.getElem_mem hi)
  have hget : children[i]? = some (.runCommand args t) := by
    rw [List.getElem?_eq_getElem hi, hchild]
  have hsegment := hhandled.handed i args t hget
  have hindex : segments.length - 1 - i = n - i := by omega
  have hlt : n - i < segments.length := by omega
  rw [List.getElem?_eq_getElem hlt] at hsegment
  simp only [List.getElem_map, List.getElem_reverse, hindex, hchild, Child.args, hsegment]

/-- Of two commands the right one is given to the first child. -/
theorem createProcesses_handed_twoCommands :
    (createProcesses smoothCalls ["ls", "-l", "|", "wc"] terminal).children.map Child.args =
      [some ["wc"], some ["ls", "-l"]] :=
  (createProcesses_handed smoothCalls ["ls", "-l", "|", "wc"] terminal (by decide)).2.2.2
    smoothCalls_succeed (fun _ => rfl) terminal_shell

end UmnProjects.Swish
