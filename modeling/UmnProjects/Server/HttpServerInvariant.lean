import UmnProjects.Server.HttpServer
import UmnProjects.Server.QueueOrder
import UmnProjects.Server.QueueWaiters

/-!
What a step of the server can do, and what every run keeps: which thread is in which call
of the queue, and how the accepted descriptors stand to the log of the queue.
-/
namespace UmnProjects.Server
open Runs

/-- The call a point of `main` is in. -/
def Main.call : Main → Option Call
  | .enqueuing clientFd => some (.enqueue clientFd)
  | _ => none

/-- `main` has left its loop. -/
def Main.Past : Main → Prop
  | .loop | .accepting | .enqueue _ | .enqueuing _ | .refused _ => False
  | .shutdown | .joining _ | .joined | .failed => True

def Worker.call : Worker → Option Call
  | .dequeuing => some .dequeue
  | _ => none

/-- The client the worker is about to answer or to close. -/
def Worker.clientFd : Worker → Option Int
  | .reading clientFd | .responding clientFd _ | .closing clientFd => some clientFd
  | _ => none

namespace HttpServer

/-- The steps of the server; those that differ only in the next program point are one. -/
inductive Effect (N_THREADS CAPACITY : Nat) (s : HttpServer) : Event → HttpServer → Prop where
  | handleSigint : Effect N_THREADS CAPACITY s .handleSigint { s with keepGoing := 0 }
  | looped (e : Event) (next : Main) (pc : s.main = .loop ∨ s.main = .accepting)
      (target : next = .loop ∨ next = .accepting ∨ next = .shutdown) :
      Effect N_THREADS CAPACITY s e { s with main := next }
  | accepted (clientFd : Int) (pc : s.main = .accepting) (nonneg : 0 ≤ clientFd)
      (free : s.descriptors clientFd = none) :
      Effect N_THREADS CAPACITY s (.accept (.client clientFd))
        { s.accept clientFd with main := .enqueue clientFd }
  | enqueue (clientFd : Int) (pc : s.main = .enqueue clientFd)
      (hq : Server.step CAPACITY s.queue (.call 0 (.enqueue clientFd)) =
        some (s.queue.goto 0 (.locking (.enqueue clientFd)))) :
      Effect N_THREADS CAPACITY s .enqueue
        { s with
          queue := s.queue.goto 0 (.locking (.enqueue clientFd))
          main := .enqueuing clientFd }
  | enqueued (clientFd : Int) (c : Call) (ret : Int) (pc : s.main = .enqueuing clientFd)
      (returned : s.queue.threads 0 = .returned c ret) :
      Effect N_THREADS CAPACITY s .enqueued
        { s with main := if ret = -1 then .refused clientFd else .loop }
  | closeRefused (clientFd : Int) (pc : s.main = .refused clientFd) :
      Effect N_THREADS CAPACITY s .closeRefused { s.close 0 clientFd with main := .shutdown }
  | shutdownReturned (next : Main) (pc : s.main = .shutdown)
      (target : next = .failed ∨ next = .joining 0) :
      Effect N_THREADS CAPACITY s .shutdownReturned { s with main := next }
  | joinOne (i : Nat) (pc : s.main = .joining i) (lt : i < N_THREADS)
      (exited : s.workers (i + 1) = .exited) :
      Effect N_THREADS CAPACITY s .join { s with main := .joining (i + 1) }
  | joinAll (i : Nat) (pc : s.main = .joining i) (le : N_THREADS ≤ i) :
      Effect N_THREADS CAPACITY s .join { s with main := .joined }
  | queue (a : Action) (q : State) (inside : s.Inside a)
      (hq : Server.step CAPACITY s.queue a = some q) :
      Effect N_THREADS CAPACITY s (.queue a) { s with queue := q }
  | dequeue (t : ThreadId) (pc : s.workers t = .dequeue)
      (hq : Server.step CAPACITY s.queue (.call t .dequeue) =
        some (s.queue.goto t (.locking .dequeue))) :
      Effect N_THREADS CAPACITY s (.dequeue t)
        { s.goto t .dequeuing with queue := s.queue.goto t (.locking .dequeue) }
  | dequeued (t : ThreadId) (c : Call) (ret : Int) (pc : s.workers t = .dequeuing)
      (returned : s.queue.threads t = .returned c ret) :
      Effect N_THREADS CAPACITY s (.dequeued t)
        (s.goto t (if ret = -1 then .exited else .reading ret))
  | served (e : Event) (t : ThreadId) (w : Worker) (clientFd : Int)
      (pc : (s.workers t).clientFd = some clientFd) (target : w.clientFd = some clientFd) :
      Effect N_THREADS CAPACITY s e (s.goto t w)
  | close (t : ThreadId) (clientFd : Int) (pc : s.workers t = .closing clientFd) :
      Effect N_THREADS CAPACITY s (.close t) ((s.close t clientFd).goto t .dequeue)

theorem call_eq {CAPACITY : Nat} {s q : State} {t : ThreadId} {c : Call}
    (h : Server.step CAPACITY s (.call t c) = some q) : q = s.goto t (.locking c) := by
  cases effect_of_step h with
  | call _ _ _ => rfl

theorem effect_of_step {N_THREADS CAPACITY : Nat} {serveDir : List Char} {s s' : HttpServer}
    {e : Event} (h : step N_THREADS CAPACITY serveDir s e = some s') :
    Effect N_THREADS CAPACITY s e s' := by
  cases e with
  | handleSigint => cases h; exact .handleSigint
  | testKeepGoing =>
      simp only [step] at h
      split at h
      · case h_1 pc =>
          cases h
          refine .looped _ _ (.inl pc) ?_
          split
          · exact .inr (.inl rfl)
          · exact .inr (.inr rfl)
      · cases h
  | accept result =>
      simp only [step] at h
      split at h
      · case h_1 clientFd pc =>
          split at h
          · case isTrue hc => cases h; exact .accepted clientFd pc hc.1 hc.2
          · cases h
      · case h_2 pc => cases h; exact .looped _ _ (.inr pc) (.inr (.inr rfl))
      · case h_3 pc => cases h; exact .looped _ _ (.inr pc) (.inl rfl)
      · cases h
  | enqueue =>
      simp only [step] at h
      split at h
      · case h_1 clientFd pc =>
          split at h
          · case h_1 q hq =>
              cases h
              cases call_eq hq
              exact .enqueue clientFd pc hq
          · cases h
      · cases h
  | enqueued =>
      simp only [step] at h
      split at h
      · case h_1 clientFd c ret pc returned =>
          cases h
          exact .enqueued clientFd c ret pc returned
      · cases h
  | closeRefused =>
      simp only [step] at h
      split at h
      · case h_1 clientFd pc => cases h; exact .closeRefused clientFd pc
      · cases h
  | shutdownReturned =>
      simp only [step] at h
      split at h
      · case h_1 retVal pc closing =>
          cases h
          refine .shutdownReturned _ pc ?_
          split
          · exact .inl rfl
          · exact .inr rfl
      · cases h
  | join =>
      simp only [step] at h
      split at h
      · case h_1 i pc =>
          split at h
          · case isTrue lt =>
              split at h
              · case isTrue exited => cases h; exact .joinOne i pc lt exited
              · cases h
          · case isFalse ge => cases h; exact .joinAll i pc (Nat.le_of_not_lt ge)
      · cases h
  | queue a =>
      simp only [step] at h
      split at h
      · case isTrue inside =>
          split at h
          · case h_1 q hq => cases h; exact .queue a q inside hq
          · cases h
      · cases h
  | dequeue t =>
      simp only [step] at h
      split at h
      · case h_1 pc =>
          split at h
          · case h_1 q hq =>
              cases h
              cases call_eq hq
              exact .dequeue t pc hq
          · cases h
      · cases h
  | dequeued t =>
      simp only [step] at h
      split at h
      · case h_1 c ret pc returned => cases h; exact .dequeued t c ret pc returned
      · cases h
  | readHttpRequest t request =>
      simp only [step] at h
      split at h
      · case h_1 clientFd request pc =>
          cases h
          exact .served _ t _ clientFd (by simp [pc, Worker.clientFd]) rfl
      · case h_2 clientFd pc =>
          cases h
          exact .served _ t _ clientFd (by simp [pc, Worker.clientFd]) rfl
      · cases h
  | writeHttpResponse t ok =>
      simp only [step] at h
      split at h
      · case h_1 clientFd path pc =>
          cases h
          exact .served _ t _ clientFd (by simp [pc, Worker.clientFd]) rfl
      · cases h
  | close t =>
      simp only [step] at h
      split at h
      · case h_1 clientFd pc => cases h; exact .close t clientFd pc
      · cases h

theorem inside_ne_call {s : HttpServer} {a : Action} (h : s.Inside a) (t : ThreadId) (c : Call) :
    a ≠ .call t c := by
  rintro rfl
  exact h

section Runs

variable {N_THREADS CAPACITY : Nat} {s s' : HttpServer} {e : Event}

/-- The server drives the queue through its own functions only. -/
theorem queue_step (h : Effect N_THREADS CAPACITY s e s') (succeeds : e.Succeeds) :
    s'.queue = s.queue ∨
      ∃ a : Action, a.Succeeds ∧ Server.step CAPACITY s.queue a = some s'.queue := by
  cases h with
  | enqueue clientFd pc hq =>
      refine .inr ⟨_, ?_, hq⟩
      trivial
  | dequeue t pc hq =>
      refine .inr ⟨_, ?_, hq⟩
      trivial
  | queue a q inside hq => exact .inr ⟨a, succeeds, hq⟩
  | handleSigint | looped _ _ _ _ | accepted _ _ _ _ | enqueued _ _ _ _ _ | closeRefused _ _
  | shutdownReturned _ _ _ | joinOne _ _ _ _ | joinAll _ _ _ | dequeued _ _ _ _ _
  | served _ _ _ _ _ _ | close _ _ _ => exact .inl rfl

theorem queue_kept (h : Effect N_THREADS CAPACITY s e s') (succeeds : e.Succeeds)
    (hi : Inv CAPACITY s.queue ∧ Watched CAPACITY s.queue) :
    Inv CAPACITY s'.queue ∧ Watched CAPACITY s'.queue := by
  obtain hq | ⟨a, ha, hq⟩ := queue_step h succeeds
  · rw [hq]
    exact hi
  · exact ⟨hi.1.step hq, hi.2.step hq ha hi.1⟩

end Runs

/-! ### Who is in which call -/

/-- The call thread `t` is in, by where `main` or the worker stands. -/
def inCall (s : HttpServer) (t : ThreadId) : Option Call :=
  if t = 0 then s.main.call else (s.workers t).call

/-- In the call, or out of all calls. -/
def Matches : Option Call → Thread → Prop
  | some c, p => p.call = some c
  | none, p => p.call = none ∨ p.result ≠ none

structure Control (N_THREADS : Nat) (s : HttpServer) : Prop where
  workers : ∀ t, ¬ (1 ≤ t ∧ t ≤ N_THREADS) → s.workers t = .exited
  calls : ∀ t, Matches (s.inCall t) (s.queue.threads t)

theorem Matches.returned {c : Call} {ret : Int} : Matches none (.returned c ret) :=
  .inr (by simp [Thread.result])

theorem Matches.frame {o : Option Call} {p p' : Thread} (h : Matches o p)
    (call : p'.call = p.call) (result : p.result ≠ none → p'.result ≠ none) : Matches o p' := by
  cases o with
  | some c => exact call.trans h
  | none =>
      obtain h | h := h
      · exact .inl (call.trans h)
      · exact .inr (result h)

theorem Matches.progress {CAPACITY : Nat} {q q' : State} {o : Option Call} {t : ThreadId}
    (h : Matches o (q.threads t)) (p : Progress CAPACITY q q') : Matches o (q'.threads t) := by
  refine h.frame (p.call t) ?_
  intro hr
  rw [p.result_of_settled hr]
  exact hr

namespace Control

variable {N_THREADS CAPACITY : Nat} {s s' : HttpServer} {e : Event}

theorem start (N_THREADS : Nat) : Control N_THREADS (start N_THREADS) where
  workers := by
    intro t ht
    simp [HttpServer.start, ht]
  calls := by
    intro t
    have outside : (HttpServer.start N_THREADS).inCall t = none := by
      simp only [inCall, HttpServer.start, Main.call]
      split
      · rfl
      · split
        · rfl
        · rfl
    rw [outside]
    exact .inl rfl

/-- A thread whose call is still open is where its point says. -/
theorem acting (h : Control N_THREADS s) {t : ThreadId} {c : Call}
    (call : (s.queue.threads t).call = some c) (unsettled : (s.queue.threads t).result = none) :
    s.inCall t = some c := by
  have hm := h.calls t
  cases hc : s.inCall t with
  | none =>
      rw [hc] at hm
      obtain hm | hm := hm
      · simp [call] at hm
      · exact absurd unsettled hm
  | some c' =>
      rw [hc] at hm
      exact hm.symm.trans call

theorem enqueuing_of_inCall {t : ThreadId} {clientFd : Int}
    (h : s.inCall t = some (.enqueue clientFd)) : t = 0 ∧ s.main = .enqueuing clientFd := by
  unfold inCall at h
  split at h
  · case isTrue ht =>
      refine ⟨ht, ?_⟩
      cases hm : s.main <;> simp_all [Main.call]
  · cases hw : s.workers t <;> simp [hw, Worker.call] at h

theorem dequeuing_of_inCall {t : ThreadId} (h : s.inCall t = some .dequeue) :
    t ≠ 0 ∧ s.workers t = .dequeuing := by
  unfold inCall at h
  split at h
  · cases hm : s.main <;> simp [hm, Main.call] at h
  · case isFalse ht =>
      refine ⟨ht, ?_⟩
      cases hw : s.workers t <;> simp_all [Worker.call]

/-- A worker that is not done is one of the pool. -/
theorem pool (h : Control N_THREADS s) {t : ThreadId} (ht : s.workers t ≠ .exited) :
    1 ≤ t ∧ t ≤ N_THREADS := by
  by_contra hout
  exact ht (h.workers t hout)

theorem inCall_pool (h : Control N_THREADS s) {t : ThreadId} (ht : s.workers t ≠ .exited) :
    s.inCall t = (s.workers t).call := by
  have ht0 : t ≠ 0 := Nat.one_le_iff_ne_zero.mp (h.pool ht).1
  simp [inCall, ht0]

/-- A worker with a client is in no call. -/
theorem serving (h : Control N_THREADS s) {t : ThreadId} {clientFd : Int}
    (pc : (s.workers t).clientFd = some clientFd) :
    s.workers t ≠ .exited ∧ Matches none (s.queue.threads t) := by
  have ht : s.workers t ≠ .exited := by
    intro hw
    simp [hw, Worker.clientFd] at pc
  have hcall : (s.workers t).call = none := by
    cases hw : s.workers t <;> simp_all [Worker.clientFd, Worker.call]
  have hm := h.calls t
  rw [h.inCall_pool ht, hcall] at hm
  exact ⟨ht, hm⟩

/-- Steps of `main` outside the queue. -/
theorem mainMoves (h : Control N_THREADS s) (outside : s.main.call = none)
    (workers : s'.workers = s.workers) (queue : s'.queue = s.queue)
    (target : s'.main.call = none) : Control N_THREADS s' := by
  refine ⟨?_, ?_⟩
  · rw [workers]
    exact h.workers
  · intro t
    have same : s'.inCall t = s.inCall t := by simp [inCall, workers, outside, target]
    rw [same, queue]
    exact h.calls t

/-- One thread changes its place. -/
theorem moves (h : Control N_THREADS s) (t : ThreadId)
    (pool : ∀ u, ¬ (1 ≤ u ∧ u ≤ N_THREADS) → s'.workers u = .exited)
    (here : Matches (s'.inCall t) (s'.queue.threads t))
    (others : ∀ u, u ≠ t → s'.inCall u = s.inCall u ∧ s'.queue.threads u = s.queue.threads u) :
    Control N_THREADS s' := by
  refine ⟨pool, ?_⟩
  intro u
  by_cases hut : u = t
  · subst u
    exact here
  · rw [(others u hut).1, (others u hut).2]
    exact h.calls u

theorem workerMoves (h : Control N_THREADS s) {t : ThreadId} {w : Worker}
    (ht : s.workers t ≠ .exited) (workers : s'.workers = (s.goto t w).workers)
    (main : s'.main = s.main) (here : Matches w.call (s'.queue.threads t))
    (others : ∀ u, u ≠ t → s'.queue.threads u = s.queue.threads u) : Control N_THREADS s' := by
  have inside := h.pool ht
  refine h.moves t ?_ ?_ ?_
  · intro u hu
    have hut : u ≠ t := by
      rintro rfl
      exact hu inside
    simpa [workers, goto, hut] using h.workers u hu
  · have hcall : s'.inCall t = w.call := by
      have ht0 : t ≠ 0 := Nat.one_le_iff_ne_zero.mp inside.1
      simp [inCall, ht0, workers, goto]
    rw [hcall]
    exact here
  · intro u hut
    refine ⟨?_, others u hut⟩
    simp [inCall, main, workers, goto, hut]

theorem step (h : Effect N_THREADS CAPACITY s e s') (succeeds : e.Succeeds)
    (hc : Control N_THREADS s) : Control N_THREADS s' := by
  cases h with
  | handleSigint => exact ⟨hc.workers, hc.calls⟩
  | looped e next pc target =>
      refine hc.mainMoves ?_ rfl rfl ?_
      · obtain pc | pc := pc <;> simp [pc, Main.call]
      · obtain rfl | rfl | rfl := target <;> rfl
  | accepted clientFd pc _ _ => exact hc.mainMoves (by simp [pc, Main.call]) rfl rfl rfl
  | closeRefused clientFd pc => exact hc.mainMoves (by simp [pc, Main.call]) rfl rfl rfl
  | shutdownReturned next pc target =>
      refine hc.mainMoves (by simp [pc, Main.call]) rfl rfl ?_
      obtain rfl | rfl := target <;> rfl
  | joinOne i pc _ _ => exact hc.mainMoves (by simp [pc, Main.call]) rfl rfl rfl
  | joinAll i pc _ => exact hc.mainMoves (by simp [pc, Main.call]) rfl rfl rfl
  | enqueue clientFd pc _ =>
      refine hc.moves 0 hc.workers ?_ ?_
      · simp [inCall, Main.call, Matches, Thread.call]
      · intro u hu
        simp [inCall, hu]
  | enqueued clientFd c ret pc returned =>
      refine hc.moves 0 hc.workers ?_ ?_
      · have outside : (if ret = -1 then Main.refused clientFd else Main.loop).call = none := by
          split <;> rfl
        simp only [inCall, if_true, outside, returned]
        exact .returned
      · intro u hu
        simp [inCall, hu]
  | queue a q inside hq =>
      refine ⟨hc.workers, ?_⟩
      intro t
      exact (hc.calls t).progress (progress_of_step succeeds (inside_ne_call inside) hq)
  | dequeue t pc _ =>
      refine hc.workerMoves (w := .dequeuing) (by simp [pc]) rfl rfl ?_ ?_
      · simp [Matches, Worker.call, Thread.call]
      · intro u hu
        simp [hu]
  | dequeued t c ret pc returned =>
      refine hc.workerMoves (by simp [pc]) rfl rfl ?_ fun _ _ => rfl
      have outside : (if ret = -1 then Worker.exited else Worker.reading ret).call = none := by
        split <;> rfl
      rw [outside, show (s.goto t _).queue.threads t = .returned c ret from returned]
      exact .returned
  | served e t w clientFd pc target =>
      obtain ⟨ht, hm⟩ := hc.serving pc
      refine hc.workerMoves ht rfl rfl ?_ fun _ _ => rfl
      have outside : w.call = none := by
        cases w <;> simp_all [Worker.clientFd, Worker.call]
      rw [outside]
      exact hm
  | close t clientFd pc =>
      have serves : (s.workers t).clientFd = some clientFd := by simp [pc, Worker.clientFd]
      obtain ⟨ht, hm⟩ := hc.serving serves
      exact hc.workerMoves ht rfl rfl hm fun _ _ => rfl

end Control

/-! ### What was accepted is in the queue's log, and the shutdown finds it drained -/

/-- The descriptor `main` holds between accepting it and its effect on the queue. -/
def pending (s : HttpServer) : List Int :=
  match s.main with
  | .enqueue clientFd => [clientFd]
  | .enqueuing clientFd => if (s.queue.threads 0).result = none then [clientFd] else []
  | _ => []

/-- The worker has been turned away, or is about to be. -/
def Leaving (N_THREADS : Nat) (s : HttpServer) (t : ThreadId) : Prop :=
  (1 ≤ t ∧ t ≤ N_THREADS) ∧
    (s.workers t = .exited ∨
      s.workers t = .dequeuing ∧ ∃ c, (s.queue.threads t).result = some (c, -1))

structure Accounts (N_THREADS : Nat) (s : HttpServer) : Prop where
  accepted : s.accepted = s.queue.enqueued.map Prod.snd ++ s.pending
  nonneg : ∀ clientFd ∈ s.accepted, 0 ≤ clientFd
  running : ¬ s.main.Past → s.queue.shutdown ≠ 1
  granted : ∀ clientFd c ret, s.main = .enqueuing clientFd →
    (s.queue.threads 0).result = some (c, ret) → ret = 0
  refused : ∀ clientFd, s.main ≠ .refused clientFd
  drained : ∀ t, s.Leaving N_THREADS t → s.queue.shutdown = 1 ∧ s.queue.ring.length = 0

namespace Accounts

variable {N_THREADS CAPACITY : Nat} {s s' : HttpServer} {e : Event}

theorem start (N_THREADS : Nat) : Accounts N_THREADS (start N_THREADS) where
  accepted := rfl
  nonneg := by
    intro clientFd h
    cases h
  running := by
    intro _ h
    cases h
  granted := by
    intro clientFd c ret h
    cases h
  refused := by
    intro clientFd h
    cases h
  drained := by
    intro t h
    obtain ⟨ht, hw⟩ := h
    simp [HttpServer.start, ht] at hw

/-- Steps that leave the queue's ring, its log and its flag as they are. -/
theorem keep (h : Accounts N_THREADS s) (accepted : s'.accepted = s.accepted)
    (pending : s'.pending = s.pending) (enqueued : s'.queue.enqueued = s.queue.enqueued)
    (shutdown : s'.queue.shutdown = s.queue.shutdown) (ring : s'.queue.ring = s.queue.ring)
    (past : s.main.Past → s'.main.Past)
    (granted : ∀ clientFd c ret, s'.main = .enqueuing clientFd →
      (s'.queue.threads 0).result = some (c, ret) → ret = 0)
    (refused : ∀ clientFd, s'.main ≠ .refused clientFd)
    (leaving : ∀ t, s'.Leaving N_THREADS t → s.Leaving N_THREADS t) : Accounts N_THREADS s' := by
  refine ⟨?_, ?_, ?_, granted, refused, ?_⟩
  · rw [accepted, pending, enqueued]
    exact h.accepted
  · rw [accepted]
    exact h.nonneg
  · intro hp
    rw [shutdown]
    exact h.running (mt past hp)
  · intro t ht
    rw [shutdown, ring]
    exact h.drained t (leaving t ht)

/-- Steps of `main` outside the queue. -/
theorem mainMoves (h : Accounts N_THREADS s) (next : Main)
    (pending : { s with main := next }.pending = s.pending) (past : s.main.Past → next.Past)
    (target : ∀ clientFd, next ≠ .enqueuing clientFd ∧ next ≠ .refused clientFd) :
    Accounts N_THREADS { s with main := next } := by
  refine h.keep rfl pending rfl rfl rfl past ?_ ?_ (fun _ ht => ht)
  · intro clientFd c ret hm
    exact absurd hm (target clientFd).1
  · intro clientFd
    exact (target clientFd).2

/-- Steps of a worker outside the queue. -/
theorem workerMoves (h : Accounts N_THREADS s) {t : ThreadId} {w : Worker}
    (workers : s'.workers = (s.goto t w).workers) (main : s'.main = s.main)
    (queue : s'.queue = s.queue) (accepted : s'.accepted = s.accepted)
    (target : (s.goto t w).Leaving N_THREADS t → s.Leaving N_THREADS t) :
    Accounts N_THREADS s' := by
  refine h.keep accepted ?_ ?_ ?_ ?_ ?_ ?_ ?_ ?_
  · simp only [pending, main, queue]
  · rw [queue]
  · rw [queue]
  · rw [queue]
  · rw [main]
    exact id
  · rw [main, queue]
    exact h.granted
  · rw [main]
    exact h.refused
  · intro u hu
    have hu' : (s.goto t w).Leaving N_THREADS u := by
      simpa only [Leaving, workers, queue, goto] using hu
    by_cases hut : u = t
    · subst u
      exact target hu'
    · simpa [Leaving, goto, hut] using hu'

/-- What a worker takes out was accepted. -/
theorem taken_mem (h : Accounts N_THREADS s) {q : State} (inv : Inv CAPACITY q)
    (enqueued : q.enqueued = s.queue.enqueued) {t : ThreadId} {clientFd : Int}
    (ht : (t, clientFd) ∈ q.dequeued) : clientFd ∈ s.accepted := by
  have hmem : clientFd ∈ q.dequeued.map Prod.snd := List.mem_map_of_mem (f := Prod.snd) ht
  rw [h.accepted, ← enqueued, inv.contents_eq]
  exact List.mem_append_left _ (List.mem_append_left _ hmem)

/-- `main` is past its loop when a call is turned away, so it is a worker's. -/
theorem turnedAway (h : Accounts N_THREADS s) (control : Control N_THREADS s)
    (watched : Watched CAPACITY s.queue) {t : ThreadId} {c : Call}
    (pc : s.queue.threads t = .flagTest c) (flag : s.queue.shutdown = 1) :
    Accounts N_THREADS { s with queue := s.queue.goto t (.unlocking c (-1)) } := by
  have hcall := control.acting (t := t) (c := c) (by simp [pc, Thread.call])
    (by simp [pc, Thread.result])
  cases c with
  | enqueue clientFd =>
      obtain ⟨_, hm⟩ := Control.enqueuing_of_inCall hcall
      exact absurd flag (h.running (by simp [hm, Main.Past]))
  | dequeue =>
      obtain ⟨ht0, _⟩ := Control.dequeuing_of_inCall hcall
      have blocked := watched.refused t .dequeue (.inl pc)
      refine ⟨?_, h.nonneg, h.running, ?_, h.refused, ?_⟩
      · simpa [pending, Ne.symm ht0] using h.accepted
      · simpa [Ne.symm ht0] using h.granted
      · intro u hu
        by_cases hut : u = t
        · exact ⟨flag, by simpa [Call.blocked] using blocked⟩
        · exact h.drained u (by simpa [Leaving, hut] using hu)

theorem updated (h : Accounts N_THREADS s) (control : Control N_THREADS s)
    (inv : Inv CAPACITY s.queue) {t : ThreadId} {c : Call}
    (pc : s.queue.threads t = .updating c) {q : State} (inv' : Inv CAPACITY q)
    (eq : q = { (s.queue.record t (c.update CAPACITY s.queue.ring).1 c).goto t
        (.signalling c (c.update CAPACITY s.queue.ring).1) with
      ring := (c.update CAPACITY s.queue.ring).2 }) :
    Accounts N_THREADS { s with queue := q } := by
  have hcall := control.acting (t := t) (c := c) (by simp [pc, Thread.call])
    (by simp [pc, Thread.result])
  have others : ∀ u, u ≠ t → q.threads u = s.queue.threads u := by
    intro u hut
    subst eq
    simp [hut]
  have ready := inv.ready t c pc
  cases c with
  | enqueue clientFd =>
      obtain ⟨rfl, hm⟩ := Control.enqueuing_of_inCall hcall
      have running := h.running (by simp [hm, Main.Past])
      have hacc := h.accepted
      refine ⟨?_, h.nonneg, ?_, ?_, h.refused, ?_⟩
      · subst eq
        simp [pending, hm, pc, Thread.result] at hacc
        simp [pending, hm, hacc, Thread.result, State.record]
      · intro _
        subst eq
        exact running
      · intro fd c ret _ hr
        subst eq
        simp [Thread.result, Call.update] at hr
        exact hr.2.symm
      · intro u hu
        have hu0 : u ≠ 0 := Nat.one_le_iff_ne_zero.mp hu.1.1
        have hd := h.drained u (by simpa [Leaving, others u hu0] using hu)
        exact absurd hd.1 running
  | dequeue =>
      obtain ⟨ht0, hw⟩ := Control.dequeuing_of_inCall hcall
      have main := others 0 (Ne.symm ht0)
      refine ⟨?_, h.nonneg, ?_, ?_, h.refused, ?_⟩
      · have same : { s with queue := q }.pending = s.pending := by
          simp only [pending, main]
        rw [same]
        subst eq
        exact h.accepted
      · intro hp
        subst eq
        exact h.running hp
      · intro fd c ret hm hr
        exact h.granted fd c ret hm (by simpa [main] using hr)
      · intro u hu
        by_cases hut : u = t
        · subst u
          -- a descriptor that was accepted is not the mark of a refusal
          have same : q.enqueued = s.queue.enqueued := by
            rw [eq]
            rfl
          have taken : (t, (Call.dequeue.update CAPACITY s.queue.ring).1) ∈ q.dequeued := by
            rw [eq]
            simp [State.record]
          have hneg := h.nonneg _ (h.taken_mem inv' same taken)
          subst eq
          simp [Leaving, hw, Thread.result] at hu
          omega
        · have hd := h.drained u (by simpa [Leaving, others u hut] using hu)
          simp [Call.blocked, hd.2] at ready

/-- A step inside the queue's functions. -/
theorem queueMoves (h : Accounts N_THREADS s) (control : Control N_THREADS s)
    (inv : Inv CAPACITY s.queue) (watched : Watched CAPACITY s.queue) {q : State}
    (inv' : Inv CAPACITY q) (flag : s.queue.shutdown = 1 → q.shutdown = 1)
    (unflagged : ¬ s.main.Past → q.shutdown = s.queue.shutdown)
    (p : Progress CAPACITY s.queue q) : Accounts N_THREADS { s with queue := q } := by
  cases p with
  | quiet ring enqueued dequeued frame =>
      have result : ∀ t, (q.threads t).result = (s.queue.threads t).result :=
        fun t => (frame t).result
      refine ⟨?_, h.nonneg, ?_, ?_, h.refused, ?_⟩
      · have same : { s with queue := q }.pending = s.pending := by
          simp only [pending, result]
        rw [same]
        simpa only [enqueued] using h.accepted
      · intro hp
        simpa only [unflagged hp] using h.running hp
      · intro clientFd c ret hm hr
        exact h.granted clientFd c ret hm ((result 0).symm.trans hr)
      · intro t ht
        have hd := h.drained t (by simpa only [Leaving, result] using ht)
        refine ⟨flag hd.1, ?_⟩
        simpa only [ring] using hd.2
  | turnedAway t c pc set eq =>
      subst eq
      exact h.turnedAway control watched pc set
  | updated t c pc eq => exact h.updated control inv pc inv' eq

theorem step (h : Effect N_THREADS CAPACITY s e s') (succeeds : e.Succeeds)
    (control : Control N_THREADS s) (inv : Inv CAPACITY s.queue)
    (watched : Watched CAPACITY s.queue) (ha : Accounts N_THREADS s) :
    Accounts N_THREADS s' := by
  cases h with
  | handleSigint =>
      exact ha.keep rfl rfl rfl rfl rfl id ha.granted ha.refused fun _ ht => ht
  | looped e next pc target =>
      apply ha.mainMoves
      · obtain pc | pc := pc <;> obtain rfl | rfl | rfl := target <;> simp [pending, pc]
      · obtain pc | pc := pc <;> simp [pc, Main.Past]
      · intro clientFd
        obtain rfl | rfl | rfl := target <;> simp
  | accepted clientFd pc nonneg _ =>
      have none : s.pending = [] := by simp [pending, pc]
      refine ⟨?_, ?_, ?_, ?_, ?_, ha.drained⟩
      · have hacc := ha.accepted
        rw [none, List.append_nil] at hacc
        simp [accept, pending, hacc]
      · intro fd hfd
        obtain hfd | hfd := List.mem_append.mp hfd
        · exact ha.nonneg fd hfd
        · rw [List.mem_singleton.mp hfd]
          exact nonneg
      · intro _
        exact ha.running (by simp [pc, Main.Past])
      · intro fd c ret hm
        cases hm
      · intro fd hm
        cases hm
  | enqueue clientFd pc _ =>
      refine ⟨?_, ha.nonneg, ?_, ?_, ?_, ?_⟩
      · simpa [pending, pc, Thread.result] using ha.accepted
      · intro _
        exact ha.running (by simp [pc, Main.Past])
      · intro fd c ret _ hr
        simp [Thread.result] at hr
      · intro fd hm
        cases hm
      · intro t ht
        have ht0 : t ≠ 0 := Nat.one_le_iff_ne_zero.mp ht.1.1
        exact ha.drained t (by simpa [Leaving, ht0] using ht)
  | enqueued clientFd c ret pc returned =>
      have hr : (s.queue.threads 0).result = some (c, ret) := by simp [returned, Thread.result]
      have zero := ha.granted clientFd c ret pc hr
      subst zero
      apply ha.mainMoves
      · simp [pending, pc, hr]
      · simp [pc, Main.Past]
      · simp
  | closeRefused clientFd pc => exact absurd pc (ha.refused clientFd)
  | shutdownReturned next pc target =>
      apply ha.mainMoves
      · obtain rfl | rfl := target <;> simp [pending, pc]
      · obtain rfl | rfl := target <;> simp [Main.Past]
      · intro clientFd
        obtain rfl | rfl := target <;> simp
  | joinOne i pc _ _ | joinAll i pc _ =>
      apply ha.mainMoves
      · simp [pending, pc]
      · simp [Main.Past]
      · simp
  | queue a q inside hq =>
      have hflag := shutdown_of_step hq
      refine ha.queueMoves control inv watched (inv.step hq) hflag.1 ?_
        (progress_of_step succeeds (inside_ne_call inside) hq)
      intro hp
      apply hflag.2
      rintro rfl
      exact hp (by rw [show s.main = .shutdown from inside]; trivial)
  | dequeue t pc _ =>
      have ht0 : t ≠ 0 := Nat.one_le_iff_ne_zero.mp (control.pool (by simp [pc])).1
      refine ha.keep rfl ?_ rfl rfl rfl id ?_ ha.refused ?_
      · simp [pending, goto, Ne.symm ht0]
      · simpa [goto, Ne.symm ht0] using ha.granted
      · intro u hu
        by_cases hut : u = t
        · subst u
          simp [Leaving, goto, Thread.result] at hu
        · simpa [Leaving, goto, hut] using hu
  | dequeued t c ret pc returned =>
      refine ha.workerMoves rfl rfl rfl rfl ?_
      intro ht
      refine ⟨ht.1, .inr ⟨pc, c, ?_⟩⟩
      by_cases hret : ret = -1
      · simp [returned, Thread.result, hret]
      · simp [Leaving, goto, hret] at ht
  | served e t w clientFd pc target =>
      refine ha.workerMoves rfl rfl rfl rfl ?_
      intro ht
      cases w <;> simp_all [Leaving, goto, Worker.clientFd]
  | close t clientFd pc =>
      refine ha.workerMoves rfl rfl rfl rfl ?_
      intro ht
      simp [Leaving, goto] at ht

end Accounts

end HttpServer

end UmnProjects.Server
