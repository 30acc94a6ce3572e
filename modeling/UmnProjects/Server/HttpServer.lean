import UmnProjects.Server.ConnectionQueue

/-!
The server around the queue: `main` accepts clients and queues their descriptors, the
worker threads take them out, answer and close them.

Thread 0 runs `main`, threads 1 to `N_THREADS` run `thread_func`. What the clients, the
file system, the signals and the scheduler do is in the label of the step. A descriptor
that was closed may be given out again, so clients are numbered as they are accepted and
the table of descriptors says for which client an open descriptor stands.
-/
namespace UmnProjects.Server

def BUFSIZE : Nat := 512

/-- The loops that put the path together; both leave room for the final zero. -/
def resourcePath (serveDir request : List Char) : List Char :=
  let first := serveDir.take (BUFSIZE - 1)
  first ++ request.take (BUFSIZE - 1 - first.length)

theorem resourcePath_fits (serveDir request : List Char) :
    (resourcePath serveDir request).length < BUFSIZE := by
  simp only [resourcePath, List.length_append, List.length_take, BUFSIZE]
  omega

inductive Main where
  | loop
  | accepting
  | enqueue (clientFd : Int)
  | enqueuing (clientFd : Int)
  | refused (clientFd : Int)
  | shutdown
  | joining (i : Nat)
  | joined
  | failed
deriving DecidableEq

inductive Worker where
  | dequeue
  | dequeuing
  | reading (clientFd : Int)
  | responding (clientFd : Int) (path : List Char)
  | closing (clientFd : Int)
  | exited
deriving DecidableEq

/-- A descriptor, or -1 with `errno` set to `EINTR` or to something else. -/
inductive Accept where
  | client (clientFd : Int)
  | interrupted
  | failed

structure HttpServer where
  queue : State
  keepGoing : Int
  main : Main
  workers : ThreadId → Worker
  descriptors : Int → Option Nat
  accepted : List Int
  closed : List (ThreadId × Option Nat)

inductive Event where
  | handleSigint
  | testKeepGoing
  | accept (result : Accept)
  | enqueue
  | enqueued
  | closeRefused
  | shutdownReturned
  | join
  | queue (a : Action)
  | dequeue (t : ThreadId)
  | dequeued (t : ThreadId)
  | readHttpRequest (t : ThreadId) (request : Option (List Char))
  | writeHttpResponse (t : ThreadId) (ok : Bool)
  | close (t : ThreadId)

/-- The pthread call of the step, if it is one, succeeds. -/
def Event.Succeeds : Event → Prop
  | .queue a => a.Succeeds
  | _ => True

namespace HttpServer

def goto (s : HttpServer) (t : ThreadId) (w : Worker) : HttpServer :=
  { s with workers := fun u => if u = t then w else s.workers u }

/-- The next client gets a descriptor that no open connection has. -/
def accept (s : HttpServer) (clientFd : Int) : HttpServer :=
  { s with
    descriptors := fun fd => if fd = clientFd then some s.accepted.length else s.descriptors fd
    accepted := s.accepted ++ [clientFd] }

def close (s : HttpServer) (t : ThreadId) (clientFd : Int) : HttpServer :=
  { s with
    descriptors := fun fd => if fd = clientFd then none else s.descriptors fd
    closed := s.closed ++ [(t, s.descriptors clientFd)] }

/-- The steps inside the queue's functions; `main` is the one that shuts it down. -/
def Inside (s : HttpServer) : Action → Prop
  | .call _ _ => False
  | .setFlag | .broadcastEmpty _ | .broadcastFull _ => s.main = .shutdown
  | _ => True

instance (s : HttpServer) : DecidablePred s.Inside
  | .call _ _ => .isFalse id
  | .setFlag => inferInstanceAs (Decidable (s.main = .shutdown))
  | .broadcastEmpty _ => inferInstanceAs (Decidable (s.main = .shutdown))
  | .broadcastFull _ => inferInstanceAs (Decidable (s.main = .shutdown))
  | .lock _ _ | .test _ | .readFlag _ | .wait _ _ | .wakeup _ | .relock _ => .isTrue trivial
  | .update _ | .signal _ _ _ | .unlock _ _ => .isTrue trivial

section Steps

variable (N_THREADS : Nat)

def start : HttpServer where
  queue := connectionQueueInit
  keepGoing := 1
  main := .loop
  workers := fun t => if 1 ≤ t ∧ t ≤ N_THREADS then .dequeue else .exited
  descriptors := fun _ => none
  accepted := []
  closed := []

variable (CAPACITY : Nat) (serveDir : List Char)

def step (s : HttpServer) : Event → Option HttpServer
  | .handleSigint => some { s with keepGoing := 0 }
  | .testKeepGoing =>
      match s.main with
      | .loop => some { s with main := if s.keepGoing ≠ 0 then .accepting else .shutdown }
      | _ => none
  | .accept result =>
      match s.main, result with
      | .accepting, .client clientFd =>
          if 0 ≤ clientFd ∧ s.descriptors clientFd = none then
            some { s.accept clientFd with main := .enqueue clientFd }
          else none
      | .accepting, .interrupted => some { s with main := .shutdown }
      | .accepting, .failed => some { s with main := .loop }
      | _, _ => none
  | .enqueue =>
      match s.main with
      | .enqueue clientFd =>
          match Server.step CAPACITY s.queue (.call 0 (.enqueue clientFd)) with
          | some q => some { s with queue := q, main := .enqueuing clientFd }
          | none => none
      | _ => none
  | .enqueued =>
      match s.main, s.queue.threads 0 with
      | .enqueuing clientFd, .returned _ ret =>
          some { s with main := if ret = -1 then .refused clientFd else .loop }
      | _, _ => none
  | .closeRefused =>
      match s.main with
      | .refused clientFd => some { s.close 0 clientFd with main := .shutdown }
      | _ => none
  | .shutdownReturned =>
      match s.main, s.queue.closing with
      | .shutdown, .returned retVal =>
          some { s with main := if retVal = -1 then .failed else .joining 0 }
      | _, _ => none
  | .join =>
      match s.main with
      | .joining i =>
          if i < N_THREADS then
            if s.workers (i + 1) = .exited then some { s with main := .joining (i + 1) } else none
          else some { s with main := .joined }
      | _ => none
  | .queue a =>
      if s.Inside a then
        match Server.step CAPACITY s.queue a with
        | some q => some { s with queue := q }
        | none => none
      else none
  | .dequeue t =>
      match s.workers t with
      | .dequeue =>
          match Server.step CAPACITY s.queue (.call t .dequeue) with
          | some q => some { s.goto t .dequeuing with queue := q }
          | none => none
      | _ => none
  | .dequeued t =>
      match s.workers t, s.queue.threads t with
      | .dequeuing, .returned _ ret =>
          some (s.goto t (if ret = -1 then .exited else .reading ret))
      | _, _ => none
  | .readHttpRequest t request =>
      match s.workers t, request with
      | .reading clientFd, some request =>
          some (s.goto t (.responding clientFd (resourcePath serveDir request)))
      | .reading clientFd, none => some (s.goto t (.closing clientFd))
      | _, _ => none
  | .writeHttpResponse t _ =>
      match s.workers t with
      | .responding clientFd _ => some (s.goto t (.closing clientFd))
      | _ => none
  | .close t =>
      match s.workers t with
      | .closing clientFd => some ((s.close t clientFd).goto t .dequeue)
      | _ => none

end Steps

end HttpServer

end UmnProjects.Server
