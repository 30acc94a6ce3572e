import UmnProjects.Foundations.Descriptors

/-!
`run_pipelined_commands`. The parent's variables, its descriptor table, the children
it has forked and what it has closed and freed are one record; what the system calls
report is given by `Calls`. A child is followed until it calls `run_command` or exits.
-/
namespace UmnProjects.Swish
open Descriptors

inductive File where
  | own (name : Nat)
  | readEnd (pipe : Nat)
  | writeEnd (pipe : Nat)
deriving DecidableEq

abbrev Tokens := List String

/-- The loop of `strvec_find_last`, from the index below `i` downwards. -/
def findLastBelow (vec : Tokens) (s : String) : Nat → Int
  | 0 => -1
  | i + 1 => if vec[i]? = some s then i else findLastBelow vec s i

def strvecFindLast (vec : Tokens) (s : String) : Int :=
  findLastBelow vec s vec.length

def strvecNumOccurrences (vec : Tokens) (s : String) : Nat :=
  vec.count s

/-- An `int` handed to an `unsigned` parameter, modulo 2 to the power 32. -/
def asUnsigned (n : Int) : Nat :=
  (n % 4294967296).toNat

def strvecTake (vec : Tokens) (n : Nat) : Tokens :=
  vec.take n

/-- The comparison of `end` with the length is one of unsigned numbers. -/
def strvecSlice (vec : Tokens) (start stop : Int) : Tokens :=
  let start := if start < 0 then 0 else start
  let stop := if asUnsigned stop > vec.length then (vec.length : Int) else stop
  (vec.drop start.toNat).take (stop - start).toNat

/-- What the calls report, by iteration of the loop they are made in. -/
structure Calls where
  pipe : Nat → Bool
  fork : Nat → Bool
  closeWrite : Nat → Bool
  closeRead : Nat → Bool
  childClose : Nat → Bool
  slice : Nat → Bool
  dup2In : Nat → Bool
  dup2Out : Nat → Bool
  /-- The raw status of the child of each iteration. -/
  status : Nat → Nat
  /-- `wait` reports an error although a child is left. -/
  waitFails : Nat → Bool
  /-- Which of the children left `wait` reports. -/
  waitPicks : Nat → Nat
  /-- The contents of the array before the first `pipe`. -/
  malloc : Nat → Nat

inductive Child where
  | runCommand (tokens : Tokens) (table : Table File)
  | exit (status : Nat)

structure Parent where
  tokens : Tokens
  table : Table File
  pipesMade : Nat
  pipeFds : Nat → Nat
  currPipeIdx : Int
  lastPipeIdx : Int
  writeToPipe : Int
  readFromPipe : Int
  childrenCreated : Nat
  retVal : Int
  children : List Child
  closed : List File
  frees : Nat

/-- How an iteration of the loop ends. -/
inductive Flow where
  | continue_ (s : Parent)
  | break_ (s : Parent)

section

variable (calls : Calls) (numPipes : Nat)

/-- `dup2(pipes[idx], newfd)`, where a negative index means that nothing is to be done. -/
def redirect (ok : Bool) (pipes : Nat → Nat) (idx : Int) (newfd : Nat) (t : Table File) :
    Option (Table File) :=
  if 0 ≤ idx then
    if ok then t.dup2 (pipes idx.toNat) newfd else none
  else some t

def runPipedCommand (i : Nat) (tokens : Tokens) (pipes : Nat → Nat) (inIdx outIdx : Int)
    (t : Table File) : Child :=
  match redirect (calls.dup2In i) pipes inIdx 0 t with
  | none => .exit 1
  | some t => match redirect (calls.dup2Out i) pipes outIdx 1 t with
    | none => .exit 1
    | some t => .runCommand tokens t

/-- The branch of the child, from its copy of the parent's state. -/
def childProcess (i : Nat) (s : Parent) : Child :=
  let closed :=
    if i ≠ numPipes then
      if calls.childClose i then s.table.close (s.pipeFds (2 * i + 1)) else none
    else some s.table
  match closed with
  | none => .exit 1
  | some t =>
      if calls.slice i then
        let tokensToPipe := strvecSlice s.tokens (s.currPipeIdx + 1) s.lastPipeIdx
        runPipedCommand calls i tokensToPipe s.pipeFds s.readFromPipe s.writeToPipe t
      else .exit 1

/-- `close(pipe_fds[idx])` in the parent. A failed close leaves the descriptor open. -/
def Parent.closeEnd (s : Parent) (ok : Bool) (idx : Nat) : Option Parent :=
  match s.table.files (s.pipeFds idx), ok with
  | some f, true =>
      some { s with table := s.table.put (s.pipeFds idx) none, closed := s.closed ++ [f] }
  | _, _ => none

/-- A close whose result is not looked at. -/
def Parent.closeAnyway (s : Parent) (idx : Nat) : Parent :=
  match s.closeEnd true idx with
  | none => s
  | some s' => s'

def Parent.free (s : Parent) : Parent := { s with frees := s.frees + 1 }

def Parent.fail (s : Parent) : Flow := .break_ { s.free with retVal := -1 }

/-- `pipe(pipe_fds + 2 * i)`. -/
def Parent.makePipe (s : Parent) (i : Nat) : Parent :=
  let (r, t) := s.table.alloc (.readEnd s.pipesMade)
  let (w, t) := t.alloc (.writeEnd s.pipesMade)
  { s with
    table := t
    pipesMade := s.pipesMade + 1
    pipeFds := Function.update (Function.update s.pipeFds (2 * i) r) (2 * i + 1) w
    readFromPipe := 2 * i }

/-- The first part of the body: the pipe the next child reads from. -/
def openPipe (i : Nat) (s : Parent) : Flow :=
  if i = numPipes then .continue_ { s with readFromPipe := -1 }
  else if calls.pipe i then .continue_ (s.makePipe i)
  else
    let s := if i > 0 then s.closeAnyway (2 * (i - 1) + 1) else s
    s.fail

/-- The second part: the fork, with the child run on its copy of the state. -/
def forkChild (i : Nat) (s : Parent) : Flow :=
  if calls.fork i then
    .continue_ { s with
      children := s.children ++ [childProcess calls numPipes i s]
      childrenCreated := s.childrenCreated + 1 }
  else
    let s := if i ≠ numPipes then (s.closeAnyway (2 * i)).closeAnyway (2 * i + 1) else s
    let s := if i > 0 then s.closeAnyway (2 * (i - 1) + 1) else s
    s.fail

/-- The third part: the write end of the last iteration's pipe. -/
def closeKept (i : Nat) (s : Parent) : Flow :=
  if i > 0 then
    match s.closeEnd (calls.closeWrite i) (2 * (i - 1) + 1) with
    | none => s.fail
    | some s => .continue_ s
  else .continue_ s

/-- What the parent notes for the next command. -/
def Parent.advance (s : Parent) (i : Nat) : Parent :=
  let tokens := strvecTake s.tokens (asUnsigned s.currPipeIdx)
  { s with
    lastPipeIdx := s.currPipeIdx
    tokens := tokens
    writeToPipe := 2 * i + 1
    currPipeIdx := if i + 1 = numPipes then -1 else strvecFindLast tokens "|" }

/-- The last part: the read end of the new pipe. -/
def closeRead (i : Nat) (s : Parent) : Flow :=
  if i ≠ numPipes then
    match s.closeEnd (calls.closeRead i) (2 * i) with
    | none => s.fail
    | some s => .continue_ (s.advance numPipes i)
  else .continue_ s

def Flow.andThen (f : Flow) (next : Parent → Flow) : Flow :=
  match f with
  | .continue_ s => next s
  | .break_ s => .break_ s

def iteration (i : Nat) (s : Parent) : Flow :=
  (((openPipe calls numPipes i s).andThen (forkChild calls numPipes i)).andThen
    (closeKept calls i)).andThen (closeRead calls numPipes i)

/-- The creation loop with `rounds` iterations to go. -/
def creationLoop : Nat → Parent → Parent
  | 0, s => s
  | rounds + 1, s => match iteration calls numPipes (numPipes - rounds) s with
    | .continue_ s => creationLoop rounds s
    | .break_ s => s

end

def Parent.start (calls : Calls) (tokens : Tokens) (table : Table File) : Parent where
  tokens := tokens
  table := table
  pipesMade := 0
  pipeFds := calls.malloc
  currPipeIdx :=
    if strvecNumOccurrences tokens "|" = 0 then -1 else strvecFindLast tokens "|"
  lastPipeIdx := tokens.length
  writeToPipe := -1
  readFromPipe := -1
  childrenCreated := 0
  retVal := 0
  children := []
  closed := []
  frees := 0

/-- `run_pipelined_commands` up to the end of its creation loop. -/
def createProcesses (calls : Calls) (tokens : Tokens) (table : Table File) : Parent :=
  let numPipes := strvecNumOccurrences tokens "|"
  creationLoop calls numPipes (numPipes + 1) (.start calls tokens table)

def WEXITSTATUS (status : Nat) : Nat := status / 256 % 256

/-- The children reported by `wait` so far, those not yet reported and the return value. -/
structure Waiting where
  waited : List Nat
  left : List Nat
  calls : Nat
  retVal : Int

def waitOnce (calls : Calls) (i : Nat) (w : Waiting) : Waiting :=
  match w.left[calls.waitPicks i % w.left.length]?, calls.waitFails i with
  | some child, false =>
      { waited := w.waited ++ [child]
        left := w.left.eraseIdx (calls.waitPicks i % w.left.length)
        calls := w.calls + 1
        retVal := if WEXITSTATUS (calls.status child) ≠ 0 then -1 else w.retVal }
  | _, _ => { w with calls := w.calls + 1, retVal := -1 }

/-- The loop `for (int i = 0; i <= children_created; i++)` with `rounds` iterations to go. -/
def waitLoop (calls : Calls) (childrenCreated : Nat) : Nat → Waiting → Waiting
  | 0, w => w
  | rounds + 1, w =>
      waitLoop calls childrenCreated rounds (waitOnce calls (childrenCreated - rounds) w)

structure Finished where
  parent : Parent
  waiting : Waiting
  retVal : Int

def runPipelinedCommands (calls : Calls) (tokens : Tokens) (table : Table File) : Finished :=
  let s := createProcesses calls tokens table
  let w := waitLoop calls s.childrenCreated (s.childrenCreated + 1)
    ⟨[], List.range s.children.length, 0, s.retVal⟩
  ⟨s.free, w, w.retVal⟩

end UmnProjects.Swish
