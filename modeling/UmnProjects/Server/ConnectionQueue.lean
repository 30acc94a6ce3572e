import UmnProjects.Foundations.Runs

/-!
The connection queue and the threads inside it.

A thread is a program point of `connection_enqueue` or `connection_dequeue`. The
pthread calls are steps of their own, each may fail, a wait releases the mutex and
joins the wait set in one step, a signal wakes some of the waiters, at least one if
there is one, and a wakeup may be spurious. `connection_queue_shutdown` takes no
mutex, so each of its writes and broadcasts may fall between any two steps of the
threads. The logs of what was put in and taken out are read by no step.
-/
namespace UmnProjects.Server

abbrev ThreadId := Nat

inductive Call where
  | enqueue (connectionFd : Int)
  | dequeue
deriving DecidableEq

/-- The condition variables. -/
inductive Cond where
  | empty
  | full
deriving DecidableEq

inductive Thread where
  | idle
  | locking (c : Call)
  | testing (c : Call)
  | flagTest (c : Call)
  | entering (c : Call)
  | waiting (c : Call)
  | woken (c : Call)
  | updating (c : Call)
  | signalling (c : Call) (ret : Int)
  | unlocking (c : Call) (ret : Int)
  | returned (c : Call) (ret : Int)
deriving DecidableEq

/-- How far the one call of `connection_queue_shutdown` has come. -/
inductive Shutdown where
  | notCalled
  | flagSet
  | emptyBroadcast (retVal : Int)
  | returned (retVal : Int)
deriving DecidableEq

structure Ring where
  clientFds : Int → Int
  length : Int
  readIdx : Int
  writeIdx : Int

structure State where
  ring : Ring
  shutdown : Int
  mutex : Option ThreadId
  waitSet : Cond → List ThreadId
  threads : ThreadId → Thread
  closing : Shutdown
  enqueued : List (ThreadId × Int)
  dequeued : List (ThreadId × Int)

def connectionQueueInit : State where
  ring := ⟨fun _ => 0, 0, 0, 0⟩
  shutdown := 0
  mutex := none
  waitSet := fun _ => []
  threads := fun _ => .idle
  closing := .notCalled
  enqueued := []
  dequeued := []

section Steps

variable (CAPACITY : Nat)

/-- The `while` condition of the call. -/
def Call.blocked (r : Ring) : Call → Bool
  | .enqueue _ => r.length == CAPACITY
  | .dequeue => r.length == 0

/-- The condition the call waits on. -/
def Call.waitsOn : Call → Cond
  | .enqueue _ => .full
  | .dequeue => .empty

/-- The condition the call signals once it has changed the queue. -/
def Call.signals : Call → Cond
  | .enqueue _ => .empty
  | .dequeue => .full

/-- The index after `index`, circling back at the end of the array. -/
def nextIndex (index : Int) : Int :=
  if index + 1 = CAPACITY then 0 else index + 1

def Call.update (r : Ring) : Call → Int × Ring
  | .enqueue connectionFd =>
      (0, { r with
        clientFds := fun i => if i = r.writeIdx then connectionFd else r.clientFds i
        length := r.length + 1
        writeIdx := nextIndex CAPACITY r.writeIdx })
  | .dequeue =>
      (r.clientFds r.readIdx, { r with
        length := r.length - 1
        readIdx := nextIndex CAPACITY r.readIdx })

def State.goto (s : State) (t : ThreadId) (p : Thread) : State :=
  { s with threads := fun u => if u = t then p else s.threads u }

def State.record (s : State) (t : ThreadId) (ret : Int) : Call → State
  | .enqueue connectionFd => { s with enqueued := s.enqueued ++ [(t, connectionFd)] }
  | .dequeue => { s with dequeued := s.dequeued ++ [(t, ret)] }

def Thread.wake : Thread → Thread
  | .waiting c => .woken c
  | p => p

/-- Remove some waiters from a wait set; they then need the mutex again. -/
def State.wake (s : State) (k : Cond) (chosen : List ThreadId) : State :=
  { s with
    waitSet := fun k' => if k' = k then (s.waitSet k).filter (fun u => u ∉ chosen) else s.waitSet k'
    threads := fun u => if u ∈ chosen then (s.threads u).wake else s.threads u }

inductive Action where
  | call (t : ThreadId) (c : Call)
  | lock (t : ThreadId) (ok : Bool)
  | test (t : ThreadId)
  | readFlag (t : ThreadId)
  | wait (t : ThreadId) (ok : Bool)
  | wakeup (t : ThreadId)
  | relock (t : ThreadId)
  | update (t : ThreadId)
  | signal (t : ThreadId) (ok : Bool) (chosen : List ThreadId)
  | unlock (t : ThreadId) (ok : Bool)
  | setFlag
  | broadcastEmpty (ok : Bool)
  | broadcastFull (ok : Bool)

/-- The pthread call of the step, if it is one, succeeds. -/
def Action.Succeeds : Action → Prop
  | .lock _ ok | .wait _ ok | .signal _ ok _ | .unlock _ ok => ok = true
  | .broadcastEmpty ok | .broadcastFull ok => ok = true
  | _ => True

instance : DecidablePred Action.Succeeds
  | .lock _ ok | .wait _ ok | .signal _ ok _ | .unlock _ ok =>
      inferInstanceAs (Decidable (ok = true))
  | .broadcastEmpty ok | .broadcastFull ok => inferInstanceAs (Decidable (ok = true))
  | .call _ _ | .test _ | .readFlag _ | .wakeup _ | .relock _ | .update _ => .isTrue trivial
  | .setFlag => .isTrue trivial

def step (s : State) : Action → Option State
  | .call t c =>
      match s.threads t with
      | .idle | .returned _ _ => some (s.goto t (.locking c))
      | _ => none
  | .lock t ok =>
      match s.threads t with
      | .locking c =>
          if ok then
            if s.mutex = none then some { s.goto t (.testing c) with mutex := some t } else none
          else some (s.goto t (.returned c (-1)))
      | _ => none
  | .test t =>
      match s.threads t with
      | .testing c =>
          some (s.goto t (if c.blocked CAPACITY s.ring then .flagTest c else .updating c))
      | _ => none
  | .readFlag t =>
      match s.threads t with
      | .flagTest c =>
          some (s.goto t (if s.shutdown = 1 then .unlocking c (-1) else .entering c))
      | _ => none
  | .wait t ok =>
      match s.threads t with
      | .entering c =>
          if ok then
            some { s.goto t (.waiting c) with
              mutex := none
              waitSet := fun k => if k = c.waitsOn then s.waitSet k ++ [t] else s.waitSet k }
          else some (s.goto t (.unlocking c (-1)))
      | _ => none
  | .wakeup t =>
      match s.threads t with
      | .waiting c => some (s.wake c.waitsOn [t])
      | _ => none
  | .relock t =>
      match s.threads t with
      | .woken c =>
          if s.mutex = none then some { s.goto t (.testing c) with mutex := some t } else none
      | _ => none
  | .update t =>
      match s.threads t with
      | .updating c =>
          let (ret, r) := c.update CAPACITY s.ring
          some { (s.record t ret c).goto t (.signalling c ret) with ring := r }
      | _ => none
  | .signal t ok chosen =>
      match s.threads t with
      | .signalling c ret =>
          if ok then
            if (∀ u ∈ chosen, u ∈ s.waitSet c.signals) ∧
                (chosen = [] → s.waitSet c.signals = []) then
              some ((s.wake c.signals chosen).goto t (.unlocking c ret))
            else none
          else some (s.goto t (.unlocking c (-1)))
      | _ => none
  | .unlock t ok =>
      match s.threads t with
      | .unlocking c ret =>
          if ok then some { s.goto t (.returned c ret) with mutex := none }
          else some (s.goto t (.returned c (-1)))
      | _ => none
  | .setFlag =>
      match s.closing with
      | .notCalled => some { s with shutdown := 1, closing := .flagSet }
      | _ => none
  | .broadcastEmpty ok =>
      match s.closing with
      | .flagSet =>
          if ok then
            some { s.wake .empty (s.waitSet .empty) with closing := .emptyBroadcast 0 }
          else some { s with closing := .emptyBroadcast (-1) }
      | _ => none
  | .broadcastFull ok =>
      match s.closing with
      | .emptyBroadcast retVal =>
          if ok then
            some { s.wake .full (s.waitSet .full) with closing := .returned retVal }
          else some { s with closing := .returned (-1) }
      | _ => none

end Steps

end UmnProjects.Server
