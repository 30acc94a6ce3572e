import UmnProjects.Swish.Pipeline

/-!
Who holds which pipe end. Before iteration `i` the parent holds the write end of pipe
`i - 1` and nothing else, whatever the descriptors are numbered.
-/
namespace UmnProjects.Swish
open Descriptors

/-- No call fails but, perhaps, the copying of tokens in a child. -/
structure Calls.Succeed (calls : Calls) : Prop where
  pipe : ∀ i, calls.pipe i = true
  fork : ∀ i, calls.fork i = true
  closeWrite : ∀ i, calls.closeWrite i = true
  closeRead : ∀ i, calls.closeRead i = true
  childClose : ∀ i, calls.childClose i = true
  dup2In : ∀ i, calls.dup2In i = true
  dup2Out : ∀ i, calls.dup2Out i = true

/-- The shell has its standard input and output open and no end of any pipe. -/
structure ShellTable (start : Table File) : Prop where
  stdin : start.files 0 ≠ none
  stdout : start.files 1 ≠ none
  noRead : ∀ fd k, start.files fd ≠ some (.readEnd k)
  noWrite : ∀ fd k, start.files fd ≠ some (.writeEnd k)

/-- What the child of iteration `i` finds at its `run_command`. -/
structure WiredTable (start : Table File) (n i : Nat) (t : Table File) : Prop where
  stdin : t.files 0 = if i < n then some (.readEnd i) else start.files 0
  stdout : t.files 1 = if 0 < i then some (.writeEnd (i - 1)) else start.files 1
  readEnds : ∀ fd k, t.files fd = some (.readEnd k) → k = i
  writeEnds : ∀ fd k, t.files fd = some (.writeEnd k) → i = k + 1

def Child.Wired (calls : Calls) (start : Table File) (n i : Nat) : Child → Prop
  | .runCommand _ t => WiredTable start n i t
  | .exit _ => calls.slice i = false

/-- The write end kept over from the iteration before. -/
def keptEnd (pipeFds : Nat → Nat) : Nat → List (Nat × File)
  | 0 => []
  | j + 1 => [(pipeFds (2 * j + 1), .writeEnd j)]

/-- The ends of the pipe made in this iteration. -/
def newEnds (pipeFds : Nat → Nat) (n i : Nat) : List (Nat × File) :=
  if i < n then [(pipeFds (2 * i + 1), .writeEnd i), (pipeFds (2 * i), .readEnd i)] else []

/-- What is known of the parent from the head of iteration `i` to its fork. -/
structure Ledger (calls : Calls) (start : Table File) (n i : Nat) (s : Parent) : Prop where
  retVal : s.retVal = 0
  created : s.childrenCreated = i
  forked : s.children.length = i
  write : s.writeToPipe = if 0 < i then 2 * ((i - 1 : Nat) : Int) + 1 else -1
  wired : ∀ (j : Nat) (c : Child), s.children[j]? = some c → c.Wired calls start n j
  closedRead : ∀ k, s.closed.count (.readEnd k) = if k < i then 1 else 0
  closedWrite : ∀ k, s.closed.count (.writeEnd k) = if k + 1 < i then 1 else 0
  closedLength : s.closed.length = 2 * i - 1

structure AtHead (calls : Calls) (start : Table File) (n i : Nat) (s : Parent) : Prop
    extends Ledger calls start n i s where
  made : s.pipesMade = i
  held : Extends start s.table (keptEnd s.pipeFds i)

structure AtFork (calls : Calls) (start : Table File) (n i : Nat) (s : Parent) : Prop
    extends Ledger calls start n i s where
  made : s.pipesMade = if i < n then i + 1 else i
  read : s.readFromPipe = if i < n then 2 * (i : Int) else -1
  held : Extends start s.table (newEnds s.pipeFds n i ++ keptEnd s.pipeFds i)

/-- What is known of the parent between its fork and the end of iteration `i`. -/
structure Forked (calls : Calls) (start : Table File) (n i : Nat) (s : Parent) : Prop where
  retVal : s.retVal = 0
  created : s.childrenCreated = i + 1
  forked : s.children.length = i + 1
  wired : ∀ (j : Nat) (c : Child), s.children[j]? = some c → c.Wired calls start n j
  made : s.pipesMade = if i < n then i + 1 else i
  closedRead : ∀ k, s.closed.count (.readEnd k) = if k < i then 1 else 0

structure AfterFork (calls : Calls) (start : Table File) (n i : Nat) (s : Parent) : Prop
    extends Forked calls start n i s where
  closedWrite : ∀ k, s.closed.count (.writeEnd k) = if k + 1 < i then 1 else 0
  closedLength : s.closed.length = 2 * i - 1
  held : Extends start s.table (newEnds s.pipeFds n i ++ keptEnd s.pipeFds i)

/-- For `i = n` this is the state in which the loop ends. -/
structure AfterKept (calls : Calls) (start : Table File) (n i : Nat) (s : Parent) : Prop
    extends Forked calls start n i s where
  closedWrite : ∀ k, s.closed.count (.writeEnd k) = if k < i then 1 else 0
  closedLength : s.closed.length = 2 * i
  held : Extends start s.table (newEnds s.pipeFds n i)

variable {calls : Calls} {start : Table File} {n i : Nat} {s : Parent}

theorem keptEnd_update (pipeFds : Nat → Nat) (i r w : Nat) :
    keptEnd (Function.update (Function.update pipeFds (2 * i) r) (2 * i + 1) w) i =
      keptEnd pipeFds i := by
  cases i with
  | zero => rfl
  | succ j =>
      have h1 : 2 * j + 1 ≠ 2 * (j + 1) + 1 := by omega
      have h2 : 2 * j + 1 ≠ 2 * (j + 1) := by omega
      simp only [keptEnd, Function.update_of_ne h1, Function.update_of_ne h2]

theorem openPipe_spec (hc : calls.Succeed) (hi : i ≤ n) (h : AtHead calls start n i s) :
    ∃ s', openPipe calls n i s = .continue_ s' ∧ AtFork calls start n i s' := by
  by_cases hin : i = n
  · refine ⟨_, if_pos hin, ⟨h.retVal, h.created, h.forked, h.write, h.wired, h.closedRead,
      h.closedWrite, h.closedLength⟩, ?_, ?_, ?_⟩
    · simpa [hin] using h.made
    · simp [hin]
    · simpa [hin, newEnds] using h.held
  · have hlt : i < n := by omega
    refine ⟨s.makePipe i, by simp [openPipe, hin, hc.pipe], ⟨h.retVal, h.created, h.forked,
      h.write, h.wired, h.closedRead, h.closedWrite, h.closedLength⟩, ?_, ?_, ?_⟩
    · simp [Parent.makePipe, h.made, hlt]
    · simp [Parent.makePipe, hlt]
    · have hheld := (h.held.alloc (.readEnd s.pipesMade)).alloc (.writeEnd s.pipesMade)
      have hne : 2 * i ≠ 2 * i + 1 := by omega
      simpa [Parent.makePipe, newEnds, hlt, keptEnd_update, h.made,
        Function.update_of_ne hne] using hheld

/-- Redirecting to an open end, or leaving the descriptor alone. -/
theorem redirect_of_open {pipes : Nat → Nat} {t : Table File} {k : Nat} (newfd : Nat) {f : File}
    (h : t.files (pipes k) = some f) :
    redirect true pipes (k : Int) newfd t = some (t.put newfd (some f)) := by
  simp [redirect, Table.dup2_of_open h]

theorem redirect_none {ok : Bool} {pipes : Nat → Nat} {t : Table File} {newfd : Nat} :
    redirect ok pipes (-1) newfd t = some t := by
  simp [redirect]

/-- The ends a child of iteration `i` is left with besides the one kept over. -/
def readEnds (pipeFds : Nat → Nat) (n i : Nat) : List (Nat × File) :=
  if i < n then [(pipeFds (2 * i), .readEnd i)] else []

theorem newEnds_cons (pipeFds : Nat → Nat) (hi : i < n) :
    newEnds pipeFds n i = (pipeFds (2 * i + 1), .writeEnd i) :: readEnds pipeFds n i := by
  simp [newEnds, readEnds, hi]

theorem redirectIn_spec {t : Table File} {pipeFds : Nat → Nat} {ends : List (Nat × File)}
    (hs : ShellTable start) (h : Extends start t ends)
    (sub : ∀ e ∈ readEnds pipeFds n i, e ∈ ends) :
    ∃ t', redirect true pipeFds (if i < n then 2 * (i : Int) else -1) 0 t = some t' ∧
      t'.files 0 = (if i < n then some (.readEnd i) else start.files 0) ∧
      ∀ fd, fd ≠ 0 → t'.files fd = t.files fd := by
  by_cases hi : i < n
  · have hopen := h.opened _ (sub (pipeFds (2 * i), .readEnd i) (by simp [readEnds, hi]))
    refine ⟨t.put 0 (some (.readEnd i)), ?_, ?_, ?_⟩
    · simpa [hi] using redirect_of_open 0 hopen
    · simp [hi]
    · intro fd hfd
      simp [hfd]
  · refine ⟨t, by simp [hi, redirect_none], ?_, fun _ _ => rfl⟩
    simpa [hi] using h.of_base hs.stdin

theorem redirectOut_spec {t : Table File} {pipeFds : Nat → Nat}
    (stdout : t.files 1 = start.files 1)
    (kept : ∀ e ∈ keptEnd pipeFds i, t.files e.1 = some e.2) :
    ∃ t', redirect true pipeFds (if 0 < i then 2 * ((i - 1 : Nat) : Int) + 1 else -1) 1 t =
        some t' ∧
      t'.files 1 = (if 0 < i then some (.writeEnd (i - 1)) else start.files 1) ∧
      ∀ fd, fd ≠ 1 → t'.files fd = t.files fd := by
  cases i with
  | zero => exact ⟨t, by simp [redirect_none], by simpa using stdout, fun _ _ => rfl⟩
  | succ j =>
      have hopen := kept (pipeFds (2 * j + 1), .writeEnd j) (by simp [keptEnd])
      refine ⟨t.put 1 (some (.writeEnd j)), ?_, ?_, ?_⟩
      · simpa using redirect_of_open 1 hopen
      · simp
      · intro fd hfd
        simp [hfd]

theorem mem_readEnds {pipeFds : Nat → Nat} {fd : Nat} {f : File}
    (h : (fd, f) ∈ readEnds pipeFds n i) : f = .readEnd i := by
  by_cases hi : i < n
  · have heq : fd = pipeFds (2 * i) ∧ f = .readEnd i := by simpa [readEnds, hi] using h
    exact heq.2
  · simp [readEnds, hi] at h

theorem mem_keptEnd {pipeFds : Nat → Nat} {fd : Nat} {f : File}
    (h : (fd, f) ∈ keptEnd pipeFds i) : 0 < i ∧ f = .writeEnd (i - 1) := by
  cases i with
  | zero => cases h
  | succ j =>
      have heq : fd = pipeFds (2 * j + 1) ∧ f = .writeEnd j := by simpa [keptEnd] using h
      exact ⟨by omega, heq.2⟩

/-- A table that differs from one with these ends only at the standard descriptors. -/
theorem wiredTable_of_extends {t t' : Table File} {pipeFds : Nat → Nat}
    (hs : ShellTable start)
    (h : Extends start t (readEnds pipeFds n i ++ keptEnd pipeFds i))
    (stdin : t'.files 0 = if i < n then some (.readEnd i) else start.files 0)
    (stdout : t'.files 1 = if 0 < i then some (.writeEnd (i - 1)) else start.files 1)
    (others : ∀ fd, fd ≠ 0 → fd ≠ 1 → t'.files fd = t.files fd) : WiredTable start n i t' := by
  have origin : ∀ fd f, t'.files fd = some f →
      start.files fd = some f ∨ f = .readEnd i ∨ 0 < i ∧ f = .writeEnd (i - 1) := by
    intro fd f hf
    by_cases h0 : fd = 0
    · subst fd
      rw [stdin] at hf
      by_cases hi : i < n
      · simp only [if_pos hi, Option.some.injEq] at hf
        exact .inr (.inl hf.symm)
      · simp only [if_neg hi] at hf
        exact .inl hf
    · by_cases h1 : fd = 1
      · subst fd
        rw [stdout] at hf
        by_cases hi : 0 < i
        · simp only [if_pos hi, Option.some.injEq] at hf
          exact .inr (.inr ⟨hi, hf.symm⟩)
        · simp only [if_neg hi] at hf
          exact .inl hf
      · rw [others fd h0 h1] at hf
        obtain hb | hmem := h.origin hf
        · exact .inl hb
        · obtain hr | hk := List.mem_append.mp hmem
          · exact .inr (.inl (mem_readEnds hr))
          · exact .inr (.inr (mem_keptEnd hk))
  refine ⟨stdin, stdout, ?_, ?_⟩
  · intro fd k hf
    obtain hb | hr | ⟨_, hw⟩ := origin fd _ hf
    · exact absurd hb (hs.noRead fd k)
    · exact File.readEnd.inj hr
    · cases hw
  · intro fd k hf
    obtain hb | hr | ⟨hi, hw⟩ := origin fd _ hf
    · exact absurd hb (hs.noWrite fd k)
    · cases hr
    · have hk := File.writeEnd.inj hw
      omega

/-- The write end of the new pipe is closed in the child before anything else. -/
theorem child_closes (hc : calls.Succeed) (hi : i ≤ n) (h : AtFork calls start n i s) :
    ∃ t, (if i ≠ n then
        if calls.childClose i then s.table.close (s.pipeFds (2 * i + 1)) else none
      else some s.table) = some t ∧
      Extends start t (readEnds s.pipeFds n i ++ keptEnd s.pipeFds i) := by
  have held := h.held
  by_cases hin : i = n
  · refine ⟨s.table, by simp [hin], ?_⟩
    simpa [newEnds, readEnds, hin] using held
  · rw [newEnds_cons s.pipeFds (show i < n by omega)] at held
    have hopen := held.opened _ List.mem_cons_self
    refine ⟨s.table.put (s.pipeFds (2 * i + 1)) none, ?_, held.close⟩
    simp [hin, hc.childClose, Table.close_of_open hopen]

theorem childProcess_wired (hc : calls.Succeed) (hs : ShellTable start) (hi : i ≤ n)
    (h : AtFork calls start n i s) :
    (childProcess calls n i s).Wired calls start n i := by
  obtain ⟨t, hclose, ht⟩ := child_closes hc hi h
  unfold childProcess
  simp only [hclose]
  by_cases slice : calls.slice i = true
  · simp only [slice, if_true]
    have input := redirectIn_spec hs ht (fun e he => List.mem_append_left _ he)
    obtain ⟨t₁, hin, stdin, same₁⟩ := input
    have stdout₁ : t₁.files 1 = start.files 1 := by
      rw [same₁ 1 (by omega)]
      exact ht.of_base hs.stdout
    have kept : ∀ e ∈ keptEnd s.pipeFds i, t₁.files e.1 = some e.2 := by
      intro e he
      have hmem := List.mem_append_right (readEnds s.pipeFds n i) he
      have hne : e.1 ≠ 0 := by
        intro h0
        exact hs.stdin (h0 ▸ ht.free e hmem)
      rw [same₁ e.1 hne]
      exact ht.opened e hmem
    obtain ⟨t₂, hout, stdout, same₂⟩ := redirectOut_spec stdout₁ kept
    simp only [runPipedCommand, h.read, h.write, hc.dup2In, hc.dup2Out, hin, hout]
    refine wiredTable_of_extends hs ht ?_ stdout ?_
    · rw [same₂ 0 (by omega)]
      exact stdin
    · intro fd h0 h1
      rw [same₂ fd h1, same₁ fd h0]
  · simp only [slice]
    simpa [Child.Wired] using slice

/-- A child is one forked before or the one just forked. -/
theorem child_cases {children : List Child} {new c : Child} {j : Nat}
    (h : (children ++ [new])[j]? = some c) :
    children[j]? = some c ∨ j = children.length ∧ c = new := by
  obtain ⟨hlength, _⟩ := List.getElem?_eq_some_iff.mp h
  rw [List.length_append, List.length_singleton] at hlength
  by_cases hold : j < children.length
  · rw [List.getElem?_append_left hold] at h
    exact .inl h
  · have hj : j = children.length := by omega
    rw [hj, List.getElem?_concat_length] at h
    exact .inr ⟨hj, (Option.some.inj h).symm⟩

theorem forkChild_spec (hc : calls.Succeed) (hs : ShellTable start) (hi : i ≤ n)
    (h : AtFork calls start n i s) :
    ∃ s', forkChild calls n i s = .continue_ s' ∧ AfterFork calls start n i s' := by
  have child := childProcess_wired hc hs hi h
  refine ⟨{ s with
      children := s.children ++ [childProcess calls n i s]
      childrenCreated := s.childrenCreated + 1 }, by simp [forkChild, hc.fork],
    ⟨h.retVal, by simp [h.created], by simp [h.forked], ?_, h.made, h.closedRead⟩,
    h.closedWrite, h.closedLength, h.held⟩
  intro j c hj
  obtain hold | ⟨hj, hc⟩ := child_cases hj
  · exact h.wired j c hold
  · rw [hj, h.forked, hc]
    simpa using child

/-- Closing an end the parent holds. -/
theorem closeEnd_spec {idx : Nat} {f : File} {ends rest : List (Nat × File)}
    (h : Extends start s.table ends) (hp : ends.Perm ((s.pipeFds idx, f) :: rest)) :
    s.closeEnd true idx = some { s with
      table := s.table.put (s.pipeFds idx) none
      closed := s.closed ++ [f] } ∧
    Extends start (s.table.put (s.pipeFds idx) none) rest := by
  have h' := h.perm hp
  have hopen := h'.opened _ List.mem_cons_self
  exact ⟨by simp [Parent.closeEnd, hopen], h'.close⟩

theorem count_keptEnd_write (pipeFds : Nat → Nat) (i k : Nat) :
    ((keptEnd pipeFds i).map Prod.snd).count (.writeEnd k) = if k + 1 = i then 1 else 0 := by
  cases i with
  | zero => simp [keptEnd]
  | succ j =>
      by_cases hk : k = j
      · simp [keptEnd, hk]
      · simp [keptEnd, hk, Ne.symm hk]

theorem count_keptEnd_read (pipeFds : Nat → Nat) (i k : Nat) :
    ((keptEnd pipeFds i).map Prod.snd).count (.readEnd k) = 0 := by
  cases i with
  | zero => simp [keptEnd]
  | succ j => simp [keptEnd]

theorem length_keptEnd (pipeFds : Nat → Nat) (i : Nat) :
    (keptEnd pipeFds i).length = if 0 < i then 1 else 0 := by
  cases i with
  | zero => rfl
  | succ j => simp [keptEnd]

/-- The write end kept over is closed, if there is one. -/
theorem closeKept_closes (hc : calls.Succeed)
    (held : Extends start s.table (newEnds s.pipeFds n i ++ keptEnd s.pipeFds i)) :
    ∃ t, closeKept calls i s = .continue_ { s with
        table := t
        closed := s.closed ++ (keptEnd s.pipeFds i).map Prod.snd } ∧
      Extends start t (newEnds s.pipeFds n i) := by
  cases i with
  | zero =>
      refine ⟨s.table, by simp [closeKept, keptEnd], ?_⟩
      simpa [keptEnd] using held
  | succ j =>
      have hperm : (newEnds s.pipeFds n (j + 1) ++ keptEnd s.pipeFds (j + 1)).Perm
          (keptEnd s.pipeFds (j + 1) ++ newEnds s.pipeFds n (j + 1)) := List.perm_append_comm
      obtain ⟨hclose, hheld⟩ := closeEnd_spec held hperm
      refine ⟨_, ?_, hheld⟩
      simp [closeKept, hc.closeWrite, hclose, keptEnd]

theorem closeKept_spec (hc : calls.Succeed) (h : AfterFork calls start n i s) :
    ∃ s', closeKept calls i s = .continue_ s' ∧ AfterKept calls start n i s' := by
  obtain ⟨t, hkept, held⟩ := closeKept_closes hc h.held
  refine ⟨_, hkept, ⟨h.retVal, h.created, h.forked, h.wired, h.made, ?_⟩, ?_, ?_, held⟩
  · intro k
    simpa [count_keptEnd_read] using h.closedRead k
  · intro k
    have hcount := h.closedWrite k
    by_cases hk : k + 1 = i
    · have h2 : k < i := by omega
      simp [count_keptEnd_write, hcount, hk, h2]
    · have hcond : k + 1 < i ↔ k < i := by omega
      simp [count_keptEnd_write, hcount, hk, hcond]
  · have hlen := h.closedLength
    have hkept := length_keptEnd s.pipeFds i
    simp only [List.length_append, List.length_map, hlen, hkept]
    by_cases h0 : 0 < i
    · simp only [h0, if_true]
      omega
    · simp only [h0, if_false]
      omega

theorem closeRead_spec (hc : calls.Succeed) (hi : i < n) (h : AfterKept calls start n i s) :
    ∃ s', closeRead calls n i s = .continue_ s' ∧ AtHead calls start n (i + 1) s' := by
  have hne : i ≠ n := by omega
  have hswap : (newEnds s.pipeFds n i).Perm
      [(s.pipeFds (2 * i), .readEnd i), (s.pipeFds (2 * i + 1), .writeEnd i)] := by
    rw [newEnds, if_pos hi]
    exact List.Perm.swap _ _ _
  obtain ⟨hread, held⟩ := closeEnd_spec h.held hswap
  have hrun : closeRead calls n i s = .continue_ (Parent.advance n { s with
      table := s.table.put (s.pipeFds (2 * i)) none
      closed := s.closed ++ [.readEnd i] } i) := by
    simp only [closeRead, hc.closeRead, hread, if_pos hne]
  refine ⟨_, hrun, ⟨h.retVal, h.created, h.forked, ?_, h.wired, ?_, ?_, ?_⟩, ?_, held⟩
  · simp [Parent.advance]
  · intro k
    have hcount := h.closedRead k
    by_cases hk : k = i
    · subst k
      simp [Parent.advance, hcount]
    · have hcond : k < i + 1 ↔ k < i := by omega
      simp [Parent.advance, hcount, Ne.symm hk, hcond]
  · intro k
    simpa [Parent.advance, List.count_singleton] using h.closedWrite k
  · have hlen := h.closedLength
    simp only [Parent.advance, List.length_append, List.length_singleton, hlen]
    omega
  · simpa [Parent.advance, hi] using h.made

theorem iteration_spec (hc : calls.Succeed) (hs : ShellTable start) (hi : i < n)
    (h : AtHead calls start n i s) :
    ∃ s', iteration calls n i s = .continue_ s' ∧ AtHead calls start n (i + 1) s' := by
  obtain ⟨s₁, hpipe, h₁⟩ := openPipe_spec hc (by omega) h
  obtain ⟨s₂, hfork, h₂⟩ := forkChild_spec hc hs (by omega) h₁
  obtain ⟨s₃, hkept, h₃⟩ := closeKept_spec hc h₂
  obtain ⟨s₄, hread, h₄⟩ := closeRead_spec hc hi h₃
  exact ⟨s₄, by simp only [iteration, hpipe, Flow.andThen, hfork, hkept, hread], h₄⟩

theorem iteration_last (hc : calls.Succeed) (hs : ShellTable start)
    (h : AtHead calls start n n s) :
    ∃ s', iteration calls n n s = .continue_ s' ∧ AfterKept calls start n n s' := by
  obtain ⟨s₁, hpipe, h₁⟩ := openPipe_spec hc (by omega) h
  obtain ⟨s₂, hfork, h₂⟩ := forkChild_spec hc hs (by omega) h₁
  obtain ⟨s₃, hkept, h₃⟩ := closeKept_spec hc h₂
  exact ⟨s₃, by simp [iteration, hpipe, Flow.andThen, hfork, hkept, closeRead], h₃⟩

/-- The rest of the loop, by induction on the iterations to go. -/
theorem creationLoop_spec (hc : calls.Succeed) (hs : ShellTable start) (rounds : Nat)
    (hr : rounds ≤ n) (h : AtHead calls start n (n - rounds) s) :
    AfterKept calls start n n (creationLoop calls n (rounds + 1) s) := by
  induction rounds generalizing s with
  | zero =>
      obtain ⟨s', hit, h'⟩ := iteration_last hc hs h
      simpa only [creationLoop, Nat.sub_zero, hit] using h'
  | succ rounds ih =>
      obtain ⟨s', hit, h'⟩ := iteration_spec hc hs (by omega) h
      rw [creationLoop, hit]
      apply ih (by omega)
      have hnext : n - (rounds + 1) + 1 = n - rounds := by omega
      rwa [hnext] at h'

theorem atHead_start (calls : Calls) (tokens : Tokens) (start : Table File) (n : Nat) :
    AtHead calls start n 0 (.start calls tokens start) where
  retVal := rfl
  created := rfl
  write := rfl
  wired := by simp [Parent.start]
  closedRead := by simp [Parent.start]
  closedWrite := by simp [Parent.start]
  closedLength := rfl
  made := rfl
  forked := rfl
  held := Extends.refl start

/-- With all calls succeeding the parent ends where it started and each child has exactly
the pipe ends that make the pipeline. -/
theorem createProcesses_wired (calls : Calls) (hc : calls.Succeed) (tokens : Tokens)
    (start : Table File) (hs : ShellTable start) :
    let n := strvecNumOccurrences tokens "|"
    let s := createProcesses calls tokens start
    (∀ k, k < n → s.closed.count (.readEnd k) = 1 ∧ s.closed.count (.writeEnd k) = 1) ∧
    s.closed.length = 2 * n ∧
    (∀ fd, s.table.files fd = start.files fd) ∧
    s.retVal = 0 ∧ s.children.length = n + 1 ∧
    ∀ i c, s.children[i]? = some c →
      (calls.slice i = true → ∃ args t, c = .runCommand args t) ∧
      ∀ args t, c = .runCommand args t →
        t.files 0 = (if i = n then start.files 0 else some (.readEnd i)) ∧
        t.files 1 = (if i = 0 then start.files 1 else some (.writeEnd (i - 1))) ∧
        (∀ fd k, t.files fd = some (.writeEnd k) → i = k + 1) ∧
        (∀ fd k, t.files fd = some (.readEnd k) → i = k) := by
  intro n s
  have hend : AfterKept calls start n n s := by
    apply creationLoop_spec hc hs n (Nat.le_refl n)
    rw [Nat.sub_self]
    exact atHead_start calls tokens start n
  refine ⟨?_, hend.closedLength, ?_, hend.retVal, hend.forked, ?_⟩
  · intro k hk
    exact ⟨by simp [hend.closedRead, hk], by simp [hend.closedWrite, hk]⟩
  · intro fd
    exact hend.held.rest fd (by simp [newEnds])
  · intro i c hget
    have wired := hend.wired i c hget
    have hin : i ≤ n := by
      obtain ⟨hlt, _⟩ := List.getElem?_eq_some_iff.mp hget
      have := hend.forked
      omega
    cases c with
    | exit _ =>
        refine ⟨?_, by simp⟩
        intro hslice
        simp [Child.Wired, hslice] at wired
    | runCommand args t =>
        refine ⟨fun _ => ⟨args, t, rfl⟩, ?_⟩
        intro args' t' heq
        cases heq
        refine ⟨?_, ?_, wired.writeEnds, fun fd k hf => (wired.readEnds fd k hf).symm⟩
        · rw [wired.stdin]
          by_cases h : i = n
          · simp [h]
          · simp [h, show i < n by omega]
        · rw [wired.stdout]
          by_cases h : i = 0
          · simp [h]
          · simp [h, show 0 < i by omega]

/-- No call fails and the array is full of zeros when it is allocated. -/
def smoothCalls : Calls :=
  { pipe := fun _ => true, fork := fun _ => true, closeWrite := fun _ => true
    closeRead := fun _ => true, childClose := fun _ => true, slice := fun _ => true
    dup2In := fun _ => true, dup2Out := fun _ => true, status := fun _ => 0
    waitFails := fun _ => false, waitPicks := fun _ => 0, malloc := fun _ => 0 }

/-- A shell with its three standard descriptors open. -/
def terminal : Table File where
  files := fun fd => if fd < 3 then some (.own fd) else none
  bound := 3
  closed := by
    intro fd hfd
    simp [show ¬ fd < 3 by omega]

theorem smoothCalls_succeed : smoothCalls.Succeed := by
  constructor <;> exact fun _ => rfl

theorem terminal_shell : ShellTable terminal := by
  refine ⟨by decide, by decide, ?_, ?_⟩
  · intro fd k
    simp [terminal]
  · intro fd k
    simp [terminal]

theorem createProcesses_wired_threeCommands :
    (createProcesses smoothCalls ["ls", "|", "sort", "|", "wc"] terminal).closed.length = 4 ∧
    ∀ c, (createProcesses smoothCalls ["ls", "|", "sort", "|", "wc"] terminal).children[1]? =
      some c → ∃ args t, c = .runCommand args t ∧
        t.files 0 = some (.readEnd 1) ∧ t.files 1 = some (.writeEnd 0) := by
  have wired := createProcesses_wired smoothCalls smoothCalls_succeed
    ["ls", "|", "sort", "|", "wc"] terminal terminal_shell
  refine ⟨wired.2.1, ?_⟩
  intro c hc
  obtain ⟨runs, table⟩ := wired.2.2.2.2.2 1 c hc
  obtain ⟨args, t, hrun⟩ := runs rfl
  obtain ⟨stdin, stdout, _⟩ := table args t hrun
  exact ⟨args, t, hrun, stdin, stdout⟩

end UmnProjects.Swish
