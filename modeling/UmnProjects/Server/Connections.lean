import UmnProjects.Foundations.Handover
import UmnProjects.Server.HttpServerInvariant

/-!
The way of a connection: `main` accepts it, the queue hands it to one worker, the worker
closes it. Whatever the schedule, nothing is left open when the workers are joined.
-/
namespace UmnProjects.Server
open Runs Handover

/-- The number of workers `main` has joined. -/
def Main.reaped (N_THREADS : Nat) : Main → Nat
  | .joining i => i
  | .joined => N_THREADS
  | _ => 0

namespace HttpServer

/-- The client a worker has taken out of the queue and not yet closed. -/
def inHand (s : HttpServer) (t : ThreadId) : Option Int :=
  match s.workers t with
  | .dequeuing => ((s.queue.threads t).result.map Prod.snd).filter (fun ret => ret ≠ -1)
  | w => w.clientFd

def ledger (s : HttpServer) : Ledger ThreadId Int where
  accepted := s.accepted
  taken := s.queue.dequeued
  held := s.inHand
  table := s.descriptors
  closed := s.closed

/-- The workers that were joined have exited. -/
def Reaped (N_THREADS : Nat) (s : HttpServer) : Prop :=
  ∀ t, 1 ≤ t → t ≤ s.main.reaped N_THREADS → s.workers t = .exited

section Steps

variable {N_THREADS CAPACITY : Nat} {s s' : HttpServer} {e : Event}

theorem Reaped.keep (h : Reaped N_THREADS s)
    (main : s'.main.reaped N_THREADS ≤ s.main.reaped N_THREADS)
    (workers : ∀ t, s.workers t = .exited → s'.workers t = .exited) : Reaped N_THREADS s' := by
  intro t h1 ht
  exact workers t (h t h1 (ht.trans main))

theorem goto_exited {t u : ThreadId} {w : Worker} (ht : s.workers t ≠ .exited)
    (hu : s.workers u = .exited) : (s.goto t w).workers u = .exited := by
  have hut : u ≠ t := by
    rintro rfl
    exact ht hu
  simpa [goto, hut] using hu

theorem Reaped.step (h : Effect N_THREADS CAPACITY s e s') (hr : Reaped N_THREADS s) :
    Reaped N_THREADS s' := by
  cases h with
  | handleSigint => exact hr
  | looped e next pc target =>
      refine hr.keep ?_ fun _ ht => ht
      obtain rfl | rfl | rfl := target <;> simp [Main.reaped]
  | shutdownReturned next pc target =>
      refine hr.keep ?_ fun _ ht => ht
      obtain rfl | rfl := target <;> simp [Main.reaped]
  | accepted _ _ _ _ | enqueue _ _ _ | closeRefused _ _ =>
      exact hr.keep (Nat.zero_le _) fun _ ht => ht
  | enqueued clientFd c ret pc returned =>
      refine hr.keep ?_ fun _ ht => ht
      split <;> simp [Main.reaped]
  | joinOne i pc lt exited =>
      intro t h1 ht
      by_cases hti : t ≤ i
      · exact hr t h1 (by simpa [pc, Main.reaped] using hti)
      · have hlast : t = i + 1 := by
          simp only [Main.reaped] at ht
          exact Nat.le_antisymm ht (Nat.lt_of_not_le hti)
        rw [hlast]
        exact exited
  | joinAll i pc le =>
      refine hr.keep ?_ fun _ ht => ht
      simpa [pc, Main.reaped] using le
  | queue a q _ _ => exact hr
  | dequeue t pc _ | dequeued t _ _ pc _ =>
      exact hr.keep (Nat.le_refl _) fun _ hu => goto_exited (by simp [pc]) hu
  | served e t w clientFd pc target =>
      refine hr.keep (Nat.le_refl _) fun _ hu => goto_exited ?_ hu
      intro hw
      simp [hw, Worker.clientFd] at pc
  | close t clientFd pc =>
      refine hr.keep (Nat.le_refl _) fun _ hu => goto_exited (s := s.close t clientFd) ?_ hu
      simp [close, pc]

/-- The number of a client is its place in the log of the queue. -/
theorem next_taken (ha : Accounts N_THREADS s) {q : State} (inv : Inv CAPACITY q)
    (enqueued : q.enqueued = s.queue.enqueued) {t : ThreadId} {clientFd : Int}
    (dequeued : q.dequeued = s.queue.dequeued ++ [(t, clientFd)]) :
    s.accepted[s.queue.dequeued.length]? = some clientFd := by
  rw [ha.accepted, ← enqueued, inv.contents_eq, dequeued]
  simp

theorem ledger_eq (accepted : s'.accepted = s.accepted)
    (dequeued : s'.queue.dequeued = s.queue.dequeued) (inHand : ∀ t, s'.inHand t = s.inHand t)
    (descriptors : s'.descriptors = s.descriptors) (closed : s'.closed = s.closed) :
    s'.ledger = s.ledger := by
  simp only [ledger, accepted, dequeued, funext inHand, descriptors, closed]

/-- Only the result of a call and the place of a worker decide what is in its hand. -/
theorem inHand_congr {t : ThreadId} (workers : s'.workers t = s.workers t)
    (result : s.workers t = .dequeuing →
      (s'.queue.threads t).result = (s.queue.threads t).result) : s'.inHand t = s.inHand t := by
  unfold inHand
  rw [workers]
  split
  · case h_1 hw => rw [result hw]
  · rfl

theorem inHand_dequeuing {t : ThreadId} (pc : s.workers t = .dequeuing) :
    s.inHand t =
      ((s.queue.threads t).result.map Prod.snd).filter (fun ret => ret ≠ -1) := by
  simp only [inHand, pc]

theorem inHand_of_clientFd {t : ThreadId} {clientFd : Int}
    (pc : (s.workers t).clientFd = some clientFd) : s.inHand t = some clientFd := by
  unfold inHand
  split
  · case h_1 hw => simp [hw, Worker.clientFd] at pc
  · exact pc

/-- Nothing passes through the hands of `main` or of a worker that has left. -/
theorem inHand_exited {t : ThreadId} (pc : s.workers t = .exited) : s.inHand t = none := by
  simp [inHand, pc, Worker.clientFd]

theorem ledger_goto {t : ThreadId} {w : Worker} {q : State}
    (dequeued : q.dequeued = s.queue.dequeued)
    (others : ∀ u, u ≠ t → (q.threads u).result = (s.queue.threads u).result)
    (here : { s.goto t w with queue := q }.inHand t = s.inHand t) :
    { s.goto t w with queue := q }.ledger = s.ledger := by
  refine ledger_eq rfl dequeued ?_ rfl rfl
  intro u
  by_cases hut : u = t
  · subst u
    exact here
  · exact inHand_congr (by simp [goto, hut]) fun _ => others u hut

/-- A step inside the queue's functions hands over at most one client. -/
theorem ledger_queue (control : Control N_THREADS s) (ha : Accounts N_THREADS s) {q : State}
    (inv : Inv CAPACITY q) (p : Progress CAPACITY s.queue q) :
    { s with queue := q }.ledger = s.ledger ∨
      Ledger.Step s.ledger { s with queue := q }.ledger := by
  cases p with
  | quiet _ _ dequeued frame =>
      left
      exact ledger_eq rfl dequeued (fun t => inHand_congr rfl fun _ => (frame t).result) rfl rfl
  | turnedAway t c pc _ eq =>
      subst eq
      left
      refine ledger_eq rfl rfl ?_ rfl rfl
      intro u
      by_cases hut : u = t
      · subst u
        by_cases hw : s.workers t = .dequeuing
        · simp [inHand, hw, pc, Thread.result]
        · exact inHand_congr rfl fun hd => absurd hd hw
      · exact inHand_congr rfl fun _ => by simp [hut]
  | updated t c pc eq =>
      have hcall := control.acting (t := t) (c := c) (by simp [pc, Thread.call])
        (by simp [pc, Thread.result])
      have others : ∀ u, u ≠ t → q.threads u = s.queue.threads u := by
        intro u hut
        subst eq
        simp [hut]
      cases c with
      | enqueue clientFd =>
          obtain ⟨rfl, _⟩ := Control.enqueuing_of_inCall hcall
          have hw := control.workers 0 (by omega)
          left
          refine ledger_eq rfl (by rw [eq]; rfl) ?_ rfl rfl
          intro u
          by_cases hu0 : u = 0
          · subst hu0
            exact inHand_congr rfl fun hd => by simp [hw] at hd
          · exact inHand_congr rfl fun _ => by rw [others u hu0]
      | dequeue =>
          obtain ⟨_, hw⟩ := Control.dequeuing_of_inCall hcall
          right
          generalize hfd : (Call.dequeue.update CAPACITY s.queue.ring).1 = clientFd at eq
          have taken : q.dequeued = s.queue.dequeued ++ [(t, clientFd)] := by
            rw [eq]
            rfl
          have next := next_taken ha inv (by rw [eq]; rfl) taken
          have nonneg := ha.nonneg clientFd (List.mem_of_getElem? next)
          have step : { s with queue := q }.ledger = s.ledger.take t clientFd := by
            have held : { s with queue := q }.inHand =
                fun u => if u = t then some clientFd else s.inHand u := by
              funext u
              by_cases hut : u = t
              · subst u
                have hne : clientFd ≠ -1 := by omega
                simp [inHand, hw, eq, Thread.result, hne]
              · rw [if_neg hut]
                exact inHand_congr rfl fun _ => by rw [others u hut]
            simp only [ledger, Ledger.take, held, taken]
          rw [step]
          refine .take t clientFd ?_ next
          show s.inHand t = none
          simp [inHand_dequeuing hw, pc, Thread.result]

theorem ledger_step (h : Effect N_THREADS CAPACITY s e s') (succeeds : e.Succeeds)
    (control : Control N_THREADS s) (inv : Inv CAPACITY s.queue) (ha : Accounts N_THREADS s) :
    s'.ledger = s.ledger ∨ Ledger.Step s.ledger s'.ledger := by
  cases h with
  | handleSigint | looped _ _ _ _ | enqueued _ _ _ _ _ | shutdownReturned _ _ _
  | joinOne _ _ _ _ | joinAll _ _ _ => exact .inl rfl
  | accepted clientFd pc _ free => exact .inr (.accept clientFd free)
  | closeRefused clientFd pc => exact absurd pc (ha.refused clientFd)
  | enqueue clientFd pc _ =>
      have hw := control.workers 0 (by omega)
      left
      refine ledger_eq rfl rfl ?_ rfl rfl
      intro u
      by_cases hu0 : u = 0
      · subst hu0
        exact inHand_congr rfl fun hd => by simp [hw] at hd
      · exact inHand_congr rfl fun _ => by simp [hu0]
  | queue a q inside hq =>
      exact ledger_queue control ha (inv.step hq)
        (progress_of_step succeeds (inside_ne_call inside) hq)
  | dequeue t pc _ =>
      left
      refine ledger_goto rfl (fun u hut => by simp [hut]) ?_
      simp [inHand, goto, pc, Thread.result, Worker.clientFd]
  | dequeued t c ret pc returned =>
      left
      refine ledger_goto (q := s.queue) rfl (fun _ _ => rfl) ?_
      by_cases hret : ret = -1
      · simp [inHand, goto, pc, returned, Thread.result, Worker.clientFd, Option.filter_some, hret]
      · simp [inHand, goto, pc, returned, Thread.result, Worker.clientFd, Option.filter_some, hret]
  | served e t w clientFd pc target =>
      left
      refine ledger_goto (q := s.queue) rfl (fun _ _ => rfl) ?_
      rw [inHand_of_clientFd pc]
      exact inHand_of_clientFd (by simpa [goto] using target)
  | close t clientFd pc =>
      right
      have serves : (s.workers t).clientFd = some clientFd := by simp [pc, Worker.clientFd]
      have step : ((s.close t clientFd).goto t .dequeue).ledger = s.ledger.close t clientFd := by
        have held : ((s.close t clientFd).goto t .dequeue).inHand =
            fun u => if u = t then none else s.inHand u := by
          funext u
          by_cases hut : u = t
          · subst u
            simp [inHand, goto, Worker.clientFd]
          · rw [if_neg hut]
            exact inHand_congr (by simp [goto, close, hut]) fun _ => rfl
        simp only [ledger, Ledger.close, held]
        rfl
      rw [step]
      exact .close t clientFd (inHand_of_clientFd serves)

/-- Everything that holds of the server in every state of its runs. -/
structure Invariant (N_THREADS CAPACITY : Nat) (s : HttpServer) : Prop where
  queue : Inv CAPACITY s.queue ∧ Watched CAPACITY s.queue
  control : Control N_THREADS s
  accounts : Accounts N_THREADS s
  reaped : Reaped N_THREADS s
  ledger : s.ledger.Valid
  takers : ∀ e ∈ s.queue.dequeued, 1 ≤ e.1 ∧ e.1 ≤ N_THREADS

theorem ledger_start (N_THREADS : Nat) :
    (start N_THREADS).ledger = ⟨[], [], fun _ => none, fun _ => none, []⟩ := by
  have held : (start N_THREADS).inHand = fun _ => none := by
    funext t
    by_cases ht : 1 ≤ t ∧ t ≤ N_THREADS <;> simp [inHand, start, ht, Worker.clientFd]
  simp only [ledger, held]
  rfl

namespace Invariant

theorem start (N_THREADS : Nat) (hc : 1 ≤ CAPACITY) :
    Invariant N_THREADS CAPACITY (start N_THREADS) where
  queue := ⟨Inv.init hc, Watched.init⟩
  control := .start N_THREADS
  accounts := .start N_THREADS
  reaped := by
    intro t h1 ht
    exact absurd (h1.trans ht) (Nat.not_succ_le_zero 0)
  ledger := by
    rw [ledger_start]
    exact .empty
  takers := by
    intro e he
    cases he

theorem step (hi : Invariant N_THREADS CAPACITY s)
    (h : Effect N_THREADS CAPACITY s e s') (succeeds : e.Succeeds) :
    Invariant N_THREADS CAPACITY s' := by
  have control := hi.control.step h succeeds
  have ledger := ledger_step h succeeds hi.control hi.queue.1 hi.accounts
  refine ⟨queue_kept h succeeds hi.queue, control,
    hi.accounts.step h succeeds hi.control hi.queue.1 hi.queue.2, hi.reaped.step h, ?_, ?_⟩
  · obtain same | step := ledger
    · rw [same]
      exact hi.ledger
    · exact hi.ledger.step step
  · have hold : s'.ledger.taken = s.ledger.taken ∨ ∃ t d,
        s'.ledger.taken = s.ledger.taken ++ [(t, d)] ∧ s'.ledger.held t = some d := by
      obtain same | step := ledger
      · exact .inl (by rw [same])
      · exact step.taken_cases
    intro e' he
    obtain same | ⟨t, d, grown, held⟩ := hold
    · rw [show s'.queue.dequeued = s.queue.dequeued from same] at he
      exact hi.takers e' he
    · rw [show s'.queue.dequeued = s.queue.dequeued ++ [(t, d)] from grown] at he
      obtain he | he := List.mem_append.mp he
      · exact hi.takers e' he
      · rw [List.mem_singleton.mp he]
        apply control.pool
        intro exited
        rw [show s'.ledger.held t = none from inHand_exited exited] at held
        cases held

theorem of_run (hc : 1 ≤ CAPACITY) {serveDir : List Char}
    (h : Run (HttpServer.step N_THREADS CAPACITY serveDir) (fun _ e => e.Succeeds)
      (HttpServer.start N_THREADS) s) : Invariant N_THREADS CAPACITY s :=
  h.invariant (fun _ _ _ ok hs hi => hi.step (effect_of_step hs) ok) (start N_THREADS hc)

/-- All workers are gone once they are joined. -/
theorem exited (hi : Invariant N_THREADS CAPACITY s) (joined : s.main = .joined) (t : ThreadId) :
    s.workers t = .exited := by
  by_cases ht : 1 ≤ t ∧ t ≤ N_THREADS
  · exact hi.reaped t ht.1 (by simpa [joined, Main.reaped] using ht.2)
  · exact hi.control.workers t ht

/-- The shutdown turns a worker away from an empty queue only, so everything was taken. -/
theorem all_taken (hn : 1 ≤ N_THREADS) (hi : Invariant N_THREADS CAPACITY s)
    (joined : s.main = .joined) : s.queue.dequeued.map Prod.snd = s.accepted := by
  have leaving : s.Leaving N_THREADS 1 := ⟨⟨le_rfl, hn⟩, .inl (hi.exited joined 1)⟩
  have empty := (hi.accounts.drained 1 leaving).2
  obtain ⟨xs, hring, hlog⟩ := hi.queue.1.fifo
  have hxs : xs = [] := by
    have hlen := hring.length_eq
    rw [empty] at hlen
    exact List.length_eq_zero_iff.mp (by omega)
  have hacc := hi.accounts.accepted
  rw [hlog, hxs] at hacc
  simpa [pending, joined] using hacc.symm

end Invariant

end Steps

/-- Past the join every accepted connection was taken by one worker, in the order of
acceptance, and closed once, by that worker; every close met an open connection. -/
theorem connections_closed_once {N_THREADS CAPACITY : Nat} (hn : 1 ≤ N_THREADS)
    (hc : 1 ≤ CAPACITY) {serveDir : List Char} {s : HttpServer}
    (h : Run (step N_THREADS CAPACITY serveDir) (fun _ e => e.Succeeds) (start N_THREADS) s)
    (joined : s.main = .joined) :
    s.queue.dequeued.map Prod.snd = s.accepted ∧
    (∀ e ∈ s.queue.dequeued, 1 ≤ e.1 ∧ e.1 ≤ N_THREADS) ∧
    (∀ i t clientFd, s.queue.dequeued[i]? = some (t, clientFd) →
      s.closed.filter (fun e => e.2 = some i) = [(t, some i)]) ∧
    (∀ e ∈ s.closed, ∃ i < s.accepted.length, e.2 = some i) ∧
    ∀ fd, s.descriptors fd = none := by
  have inv := Invariant.of_run hc h
  have taken := inv.all_taken hn joined
  have free : ∀ t, s.ledger.held t = none := fun t => inHand_exited (inv.exited joined t)
  refine ⟨taken, inv.takers, ?_, inv.ledger.closed, ?_⟩
  · intro i t clientFd hi
    exact inv.ledger.closed_once free hi
  · apply inv.ledger.table_empty free
    show s.queue.dequeued.length = s.accepted.length
    rw [← taken, List.length_map]

/-- Two clients under one descriptor; the second is served after the shutdown has begun. -/
def reusedDescriptor : List Event :=
  [.testKeepGoing, .accept (.client 4), .enqueue, .queue (.lock 0 true), .queue (.test 0),
    .queue (.update 0), .queue (.signal 0 true []), .queue (.unlock 0 true), .enqueued,
    .dequeue 1, .queue (.lock 1 true), .queue (.test 1), .queue (.update 1),
    .queue (.signal 1 true []), .queue (.unlock 1 true), .dequeued 1,
    .readHttpRequest 1 (some ['/']), .writeHttpResponse 1 true, .close 1,
    .testKeepGoing, .accept (.client 4), .enqueue, .queue (.lock 0 true), .queue (.test 0),
    .queue (.update 0), .queue (.signal 0 true []), .queue (.unlock 0 true), .enqueued,
    .testKeepGoing, .handleSigint, .accept .interrupted, .queue .setFlag,
    .queue (.broadcastEmpty true), .queue (.broadcastFull true), .shutdownReturned,
    .dequeue 1, .queue (.lock 1 true), .queue (.test 1), .queue (.update 1),
    .queue (.signal 1 true []), .queue (.unlock 1 true), .dequeued 1,
    .readHttpRequest 1 none, .close 1,
    .dequeue 1, .queue (.lock 1 true), .queue (.test 1), .queue (.readFlag 1),
    .queue (.unlock 1 true), .dequeued 1, .join, .join]

theorem connections_closed_once_reusedDescriptor :
    ∃ s, perform (step 1 5 ['.']) (start 1) reusedDescriptor = some s ∧ s.main = .joined ∧
      s.accepted = [4, 4] ∧ s.closed = [(1, some 0), (1, some 1)] ∧
      s.queue.dequeued.map Prod.snd = s.accepted ∧ ∀ fd, s.descriptors fd = none := by
  obtain ⟨s, hs⟩ : ∃ s, perform (step 1 5 ['.']) (start 1) reusedDescriptor = some s := ⟨_, rfl⟩
  have run : Run (step 1 5 ['.']) (fun _ e => e.Succeeds) (start 1) s := by
    apply run_of_perform hs
    simp [reusedDescriptor, Event.Succeeds, Action.Succeeds]
  have joined : s.main = .joined := by
    cases hs
    rfl
  have once := connections_closed_once (by decide) (by decide) run joined
  refine ⟨s, hs, joined, ?_, ?_, once.1, once.2.2.2.2⟩
  · cases hs
    rfl
  · cases hs
    rfl

end HttpServer

end UmnProjects.Server
