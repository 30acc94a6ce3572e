import Mathlib.Algebra.BigOperators.Group.Finset.Piecewise
import Mathlib.Algebra.Order.BigOperators.Group.Finset
import Mathlib.Data.Prod.Lex
import UmnProjects.Server.Standstill

/-!
Left to itself the server comes to a standstill, whatever order its threads run in: each of its
own steps uses up something that wakes waiters, or brings a thread nearer to its next wait.
-/
namespace UmnProjects.Server

open Runs

/-! ### What is left to do -/

/-- How far the thread is from its next wait or from the end of its call. -/
def Thread.distance : Thread → Nat
  | .idle | .waiting _ => 0
  | .entering _ => 1
  | .flagTest _ => 3
  | .updating _ => 4
  | .testing _ => 5
  | .locking _ | .woken _ => 6
  | .returned _ ret => if ret = -1 then 1 else 11
  | .unlocking _ ret => if ret = -1 then 2 else 12
  | .signalling _ _ => 13

/-- The signals the thread is about to send. -/
def Thread.signals : Thread → Nat
  | .signalling _ _ => 1
  | _ => 0

/-- The steps of `connection_queue_shutdown` that are left. -/
def Shutdown.left : Shutdown → Nat
  | .notCalled => 3
  | .flagSet => 2
  | .emptyBroadcast _ => 1
  | .returned _ => 0

def Worker.distance (p : Thread) : Worker → Nat
  | .exited => 0
  | .dequeuing => p.distance
  | .dequeue => 7
  | .closing _ => 8
  | .responding _ _ => 9
  | .reading _ => 10

def Main.distance (N_THREADS : Nat) (p : Thread) : Main → Nat
  | .accepting | .joined | .failed => 0
  | .joining i => N_THREADS - i + 1
  | .shutdown => N_THREADS + 2
  | .loop | .refused _ => N_THREADS + 3
  | .enqueuing _ => N_THREADS + 3 + p.distance
  | .enqueue _ => N_THREADS + 10

theorem Thread.signals_le (p : Thread) : p.signals ≤ 1 := by
  cases p <;> simp [Thread.signals]

@[simp] theorem Thread.signals_wake (p : Thread) : p.wake.signals = p.signals := by
  cases p <;> rfl

namespace HttpServer

def distance (N_THREADS : Nat) (s : HttpServer) (t : ThreadId) : Nat :=
  if t = 0 then s.main.distance N_THREADS (s.queue.threads 0)
  else (s.workers t).distance (s.queue.threads t)

/-- What can still wake waiters: two for each client that is not in the queue yet or not taken out
of it, one for each signal, and what is left of the shutdown. -/
def wakings (N_THREADS : Nat) (s : HttpServer) : Nat :=
  2 * (s.accepted.length - s.queue.dequeued.length) + 2 * s.pending.length +
    (∑ t ∈ Finset.range (N_THREADS + 1), (s.queue.threads t).signals) + s.queue.closing.left

def toDo (N_THREADS : Nat) (s : HttpServer) : ℕ ×ₗ ℕ :=
  toLex (s.wakings N_THREADS, ∑ t ∈ Finset.range (N_THREADS + 1), s.distance N_THREADS t)

section Lower

variable {N_THREADS CAPACITY : Nat} {serveDir : List Char} {s s' : HttpServer} {e : Event}

theorem toDo_lt_of_wakings (h : s'.wakings N_THREADS < s.wakings N_THREADS) :
    s'.toDo N_THREADS < s.toDo N_THREADS :=
  Prod.Lex.toLex_lt_toLex.mpr (.inl h)

theorem toDo_lt (h : s'.wakings N_THREADS ≤ s.wakings N_THREADS) {t : ThreadId}
    (ht : t ≤ N_THREADS) (others : ∀ u, u ≠ t → s'.distance N_THREADS u ≤ s.distance N_THREADS u)
    (here : s'.distance N_THREADS t < s.distance N_THREADS t) :
    s'.toDo N_THREADS < s.toDo N_THREADS := by
  obtain hless | hsame := h.lt_or_eq
  · exact toDo_lt_of_wakings hless
  · refine Prod.Lex.toLex_lt_toLex.mpr (.inr ⟨hsame, ?_⟩)
    refine Finset.sum_lt_sum ?_ ⟨t, Finset.mem_range.mpr (Nat.lt_succ_of_le ht), here⟩
    intro u _
    by_cases hut : u = t
    · exact hut ▸ here.le
    · exact others u hut

theorem wakings_le (accepted : s'.accepted = s.accepted)
    (dequeued : s'.queue.dequeued = s.queue.dequeued)
    (pending : s'.pending.length ≤ s.pending.length)
    (signals : ∀ t, (s'.queue.threads t).signals ≤ (s.queue.threads t).signals)
    (closing : s'.queue.closing.left ≤ s.queue.closing.left) :
    s'.wakings N_THREADS ≤ s.wakings N_THREADS := by
  have hsum := Finset.sum_le_sum fun t (_ : t ∈ Finset.range (N_THREADS + 1)) => signals t
  simp only [wakings, accepted, dequeued]
  omega

/-- A step of `main` outside the queue. -/
theorem toDo_main (h : s'.main.distance N_THREADS (s.queue.threads 0) <
      s.main.distance N_THREADS (s.queue.threads 0)) (workers : s'.workers = s.workers)
    (queue : s'.queue = s.queue) (accepted : s'.accepted = s.accepted)
    (pending : s'.pending.length ≤ s.pending.length) :
    s'.toDo N_THREADS < s.toDo N_THREADS := by
  refine toDo_lt (t := 0) ?_ (Nat.zero_le _) ?_ ?_
  · refine wakings_le accepted (by rw [queue]) pending ?_ ?_
    all_goals simp [queue]
  · intro u hu
    simp [distance, hu, workers, queue]
  · simpa [distance, queue] using h

/-- A step of a worker outside the queue. -/
theorem toDo_worker (control : Control N_THREADS s) {t : ThreadId} {w w' : Worker}
    (pc : s.workers t = w) (hw : w ≠ .exited)
    (h : w'.distance (s.queue.threads t) < w.distance (s.queue.threads t))
    (workers : s'.workers = (s.goto t w').workers) (main : s'.main = s.main)
    (queue : s'.queue = s.queue) (accepted : s'.accepted = s.accepted) :
    s'.toDo N_THREADS < s.toDo N_THREADS := by
  have hpool := control.pool (t := t) (by rwa [pc])
  refine toDo_lt (t := t) ?_ hpool.2 ?_ ?_
  · refine wakings_le accepted (by rw [queue]) ?_ ?_ ?_
    · simp only [pending, main, queue]
      exact le_rfl
    all_goals simp [queue]
  · intro u hu
    simp [distance, workers, main, queue, goto, hu]
  · have ht0 : t ≠ 0 := Nat.one_le_iff_ne_zero.mp hpool.1
    simpa [distance, workers, queue, goto, ht0, pc] using h

/-! ### Steps inside the queue's functions -/

theorem distance_of_inCall {t : ThreadId} (h : s.inCall t ≠ none) :
    s.distance N_THREADS t =
      (if t = 0 then N_THREADS + 3 else 0) + (s.queue.threads t).distance := by
  unfold distance
  by_cases ht0 : t = 0
  · subst ht0
    cases hm : s.main with
    | enqueuing clientFd => rfl
    | _ => simp [inCall, hm, Main.call] at h
  · rw [if_neg ht0, if_neg ht0, Nat.zero_add]
    cases hw : s.workers t with
    | dequeuing => rfl
    | _ => simp [inCall, ht0, hw, Worker.call] at h

theorem Sound.acting (h : Sound N_THREADS CAPACITY s) {t : ThreadId}
    (inside : ¬ (s.queue.threads t).Outside) : s.inCall t ≠ none ∧ t ≤ N_THREADS := by
  have hcall : s.inCall t ≠ none := fun hnone => inside (h.parked t hnone)
  refine ⟨hcall, ?_⟩
  by_cases ht0 : t = 0
  · exact ht0 ▸ Nat.zero_le _
  · refine (h.invariant.control.pool (t := t) ?_).2
    intro hw
    simp [inCall, ht0, hw, Worker.call] at hcall

theorem pending_queue {q : State}
    (h : (s.queue.threads 0).result ≠ none → (q.threads 0).result ≠ none) :
    ({ s with queue := q } : HttpServer).pending.length ≤ s.pending.length := by
  unfold pending
  cases hm : s.main with
  | enqueuing clientFd =>
      simp only
      by_cases hresult : (s.queue.threads 0).result = none
      · rw [if_pos hresult]
        split <;> simp
      · rw [if_neg (h hresult)]
        exact Nat.zero_le _
  | _ => exact le_rfl

/-- A thread moves on in its call. -/
theorem toDo_goto (hs : Sound N_THREADS CAPACITY s) {t : ThreadId} {p p' : Thread} {q : State}
    (pc : s.queue.threads t = p) (inside : ¬ p.Outside)
    (threads : q.threads = (s.queue.goto t p').threads)
    (dequeued : q.dequeued = s.queue.dequeued) (closing : q.closing = s.queue.closing)
    (distance : p'.distance < p.distance) (signals : p'.signals ≤ p.signals)
    (result : p.result ≠ none → p'.result ≠ none) :
    ({ s with queue := q } : HttpServer).toDo N_THREADS < s.toDo N_THREADS := by
  obtain ⟨hcall, ht⟩ := hs.acting (t := t) (by rwa [pc])
  have hself : q.threads t = p' := by rw [threads, State.goto_threads_self]
  have hother (u : ThreadId) (hut : u ≠ t) : q.threads u = s.queue.threads u := by
    rw [threads, State.goto_threads_of_ne _ _ _ hut]
  refine toDo_lt (t := t) ?_ ht ?_ ?_
  · refine wakings_le rfl dequeued (pending_queue ?_) ?_ (by rw [closing])
    · by_cases h0 : 0 = t
      · rw [h0, hself, pc]
        exact result
      · rw [hother 0 h0]
        exact id
    · intro u
      by_cases hut : u = t
      · rw [hut, hself, pc]
        exact signals
      · rw [hother u hut]
  · intro u hut
    have hsame := hother u hut
    unfold HttpServer.distance
    by_cases hu0 : u = 0
    · subst hu0
      simp [hsame]
    · simp [hu0, hsame]
  · rw [distance_of_inCall hcall, distance_of_inCall (s := { s with queue := q }) hcall, hself, pc]
    exact Nat.add_lt_add_left distance _

/-- A step that wakes threads, and is one of those that are counted. -/
theorem toDo_wake {q : State} (dequeued : q.dequeued = s.queue.dequeued)
    (result : ∀ t, (q.threads t).result = (s.queue.threads t).result)
    (counted : (∑ t ∈ Finset.range (N_THREADS + 1), (q.threads t).signals) + q.closing.left <
      (∑ t ∈ Finset.range (N_THREADS + 1), (s.queue.threads t).signals) +
        s.queue.closing.left) :
    ({ s with queue := q } : HttpServer).toDo N_THREADS < s.toDo N_THREADS := by
  have hpending := pending_queue (s := s) (q := q) (by rw [result]; exact id)
  refine toDo_lt_of_wakings ?_
  simp only [wakings, dequeued]
  omega

theorem signals_wake (q : State) (k : Cond) (chosen : List ThreadId) (t : ThreadId) :
    ((q.wake k chosen).threads t).signals = (q.threads t).signals := by
  obtain hp | hp := q.wake_cases k chosen t
  all_goals simp [hp]

theorem result_wake (q : State) (k : Cond) (chosen : List ThreadId) (t : ThreadId) :
    ((q.wake k chosen).threads t).result = (q.threads t).result := by
  obtain hp | hp := q.wake_cases k chosen t
  all_goals simp [hp]

theorem toDo_broadcast (k : Cond) (closing : Shutdown)
    (h : closing.left < s.queue.closing.left) :
    ({ s with queue := { s.queue.wake k (s.queue.waitSet k) with closing } } : HttpServer).toDo
      N_THREADS < s.toDo N_THREADS := by
  refine toDo_wake rfl (result_wake s.queue k _) ?_
  have hsame : (∑ t ∈ Finset.range (N_THREADS + 1),
      ((s.queue.wake k (s.queue.waitSet k)).threads t).signals) =
      ∑ t ∈ Finset.range (N_THREADS + 1), (s.queue.threads t).signals :=
    Finset.sum_congr rfl fun t _ => signals_wake s.queue k _ t
  exact hsame ▸ Nat.add_lt_add_left h _

theorem signals_sent (hs : Sound N_THREADS CAPACITY s) (k : Cond) (chosen : List ThreadId)
    {t : ThreadId} {c : Call} {ret : Int} (pc : s.queue.threads t = .signalling c ret) :
    (∑ u ∈ Finset.range (N_THREADS + 1),
        (((s.queue.wake k chosen).goto t (.unlocking c ret)).threads u).signals) <
      ∑ u ∈ Finset.range (N_THREADS + 1), (s.queue.threads u).signals := by
  have ht := (hs.acting (t := t) (by simp [pc, Thread.Outside])).2
  refine Finset.sum_lt_sum ?_ ⟨t, Finset.mem_range.mpr (Nat.lt_succ_of_le ht), ?_⟩
  · intro u _
    by_cases hut : u = t
    · rw [hut, State.goto_threads_self]
      exact Nat.zero_le _
    · rw [State.goto_threads_of_ne _ _ _ hut, signals_wake]
  · rw [State.goto_threads_self, pc]
    exact Nat.zero_lt_one

theorem signals_due {q : State} {t : ThreadId}
    (others : ∀ u, u ≠ t → q.threads u = s.queue.threads u) :
    (∑ u ∈ Finset.range (N_THREADS + 1), (q.threads u).signals) ≤
      (∑ u ∈ Finset.range (N_THREADS + 1), (s.queue.threads u).signals) + 1 := by
  calc ∑ u ∈ Finset.range (N_THREADS + 1), (q.threads u).signals
      ≤ ∑ u ∈ Finset.range (N_THREADS + 1),
          ((s.queue.threads u).signals + if u = t then 1 else 0) := by
        refine Finset.sum_le_sum fun u _ => ?_
        by_cases hut : u = t
        · rw [if_pos hut]
          exact (Thread.signals_le _).trans (Nat.le_add_left _ _)
        · rw [others u hut, if_neg hut, Nat.add_zero]
    _ = (∑ u ∈ Finset.range (N_THREADS + 1), (s.queue.threads u).signals) +
          ∑ u ∈ Finset.range (N_THREADS + 1), if u = t then 1 else 0 := Finset.sum_add_distrib
    _ ≤ (∑ u ∈ Finset.range (N_THREADS + 1), (s.queue.threads u).signals) + 1 := by
        refine Nat.add_le_add_left ?_ _
        rw [Finset.sum_ite_eq']
        split <;> simp

/-- A client comes into the queue or leaves it: worth more than the signal that is due for it. -/
theorem toDo_update (hs : Sound N_THREADS CAPACITY s) {t : ThreadId} {c : Call}
    (pc : s.queue.threads t = .updating c) {q : State}
    (hq : q = { (s.queue.record t (c.update CAPACITY s.queue.ring).1 c).goto t
        (.signalling c (c.update CAPACITY s.queue.ring).1) with
      ring := (c.update CAPACITY s.queue.ring).2 })
    (inv : Inv CAPACITY q) :
    ({ s with queue := q } : HttpServer).toDo N_THREADS < s.toDo N_THREADS := by
  have hcall := hs.invariant.control.acting (t := t) (c := c) (by simp [pc, Thread.call])
    (by simp [pc, Thread.result])
  have hdue : (∑ u ∈ Finset.range (N_THREADS + 1), (q.threads u).signals) ≤
      (∑ u ∈ Finset.range (N_THREADS + 1), (s.queue.threads u).signals) + 1 := by
    refine signals_due (t := t) fun u hut => ?_
    subst hq
    cases c <;> simp [State.record, hut]
  refine toDo_lt_of_wakings ?_
  cases c with
  | enqueue clientFd =>
      obtain ⟨rfl, hm⟩ := Control.enqueuing_of_inCall hcall
      have before : s.pending.length = 1 := by simp [pending, hm, pc, Thread.result]
      have after : ({ s with queue := q } : HttpServer).pending.length = 0 := by
        simp [pending, hm, hq, Thread.result]
      have dequeued : q.dequeued = s.queue.dequeued := by simp [hq, State.record]
      have closing : q.closing = s.queue.closing := by simp [hq, State.record]
      simp only [wakings, before, after, dequeued, closing]
      omega
  | dequeue =>
      obtain ⟨ht0, hw⟩ := Control.dequeuing_of_inCall hcall
      have taken : q.dequeued =
          s.queue.dequeued ++ [(t, (Call.dequeue.update CAPACITY s.queue.ring).1)] := by
        rw [hq]
        rfl
      have next := next_taken hs.invariant.accounts inv (by rw [hq]; rfl) taken
      have hlt := (List.getElem?_eq_some_iff.mp next).1
      have hpending := pending_queue (s := s) (q := q) (by simp [hq, Ne.symm ht0, State.record])
      have closing : q.closing = s.queue.closing := by simp [hq, State.record]
      simp only [wakings, taken, closing, List.length_append, List.length_singleton]
      omega

theorem toDo_queue (hs : Sound N_THREADS CAPACITY s) {a : Action} {q : State}
    (succeeds : a.Succeeds) (inside : s.Inside a) (own : ∀ t, a ≠ .wakeup t)
    (hq : Server.step CAPACITY s.queue a = some q) :
    ({ s with queue := q } : HttpServer).toDo N_THREADS < s.toDo N_THREADS := by
  have inv := hs.invariant.queue.1.step hq
  cases Server.effect_of_step hq with
  | call t c _ => exact inside.elim
  | wakeup t c _ => exact absurd rfl (own t)
  | lock t c pc _ | relock t c pc _ | blocked t c pc _ | passed t c pc _ | stayed t c pc _
  | wait t c pc =>
      exact toDo_goto hs pc (by simp [Thread.Outside]) rfl rfl rfl (by simp [Thread.distance])
        le_rfl (by simp [Thread.result])
  | turnedAway t c pc _ =>
      exact toDo_goto hs pc (by simp [Thread.Outside]) rfl rfl rfl (by simp [Thread.distance])
        le_rfl (by simp [Thread.result])
  | unlock t c ret pc =>
      refine toDo_goto hs pc (by simp [Thread.Outside]) rfl rfl rfl ?_ le_rfl ?_
      · simp only [Thread.distance]
        split <;> omega
      · simp [Thread.result]
  | update t c pc => exact toDo_update hs pc rfl inv
  | signal t c ret chosen pc _ _ =>
      refine toDo_wake rfl ?_ (Nat.add_lt_add_right (signals_sent hs c.signals chosen pc) _)
      intro u
      by_cases hut : u = t
      · rw [hut, State.goto_threads_self, pc]
        rfl
      · rw [State.goto_threads_of_ne _ _ _ hut, result_wake]
  | setFlag pc =>
      refine toDo_wake rfl (fun _ => rfl) (Nat.add_lt_add_left ?_ _)
      simp [pc, Shutdown.left]
  | broadcastEmpty pc => exact toDo_broadcast .empty _ (by simp [pc, Shutdown.left])
  | broadcastFull retVal pc => exact toDo_broadcast .full _ (by simp [pc, Shutdown.left])
  | lockFailed t c _ | waitFailed t c _ | signalFailed t c ret chosen _
  | unlockFailed t c ret _ | broadcastEmptyFailed _ | broadcastFullFailed retVal _ =>
      cases succeeds

end Lower

end HttpServer

/-! ### The steps the server takes by itself -/

instance : DecidablePred Event.Succeeds
  | .queue a => inferInstanceAs (Decidable a.Succeeds)
  | .handleSigint | .testKeepGoing | .accept _ | .enqueue | .enqueued => .isTrue trivial
  | .closeRefused | .shutdownReturned | .join | .dequeue _ | .dequeued _ => .isTrue trivial
  | .readHttpRequest _ _ | .writeHttpResponse _ _ | .close _ => .isTrue trivial

instance : DecidablePred Event.FromOutside
  | .accept _ | .handleSigint | .queue (.wakeup _) => .isTrue trivial
  | .queue (.call _ _) | .queue (.lock _ _) | .queue (.test _) => .isFalse id
  | .queue (.readFlag _) | .queue (.wait _ _) | .queue (.relock _) => .isFalse id
  | .queue (.update _) | .queue (.signal _ _ _) | .queue (.unlock _ _) => .isFalse id
  | .queue .setFlag | .queue (.broadcastEmpty _) | .queue (.broadcastFull _) => .isFalse id
  | .testKeepGoing | .enqueue | .enqueued | .closeRefused | .shutdownReturned => .isFalse id
  | .join | .dequeue _ | .dequeued _ | .readHttpRequest _ _ => .isFalse id
  | .writeHttpResponse _ _ | .close _ => .isFalse id

namespace HttpServer

section Settling

variable {N_THREADS CAPACITY : Nat} {serveDir : List Char} {s s' : HttpServer} {e : Event}

def ownStep (N_THREADS CAPACITY : Nat) (serveDir : List Char) (s : HttpServer) (e : Event) :
    Option HttpServer :=
  if e.Succeeds ∧ ¬ e.FromOutside then step N_THREADS CAPACITY serveDir s e else none

theorem ownStep_some (h : ownStep N_THREADS CAPACITY serveDir s e = some s') :
    e.Succeeds ∧ ¬ e.FromOutside ∧ step N_THREADS CAPACITY serveDir s e = some s' := by
  unfold ownStep at h
  split at h
  · next hown => exact ⟨hown.1, hown.2, h⟩
  · cases h

theorem atStandstill_of_final (h : Final (ownStep N_THREADS CAPACITY serveDir) s) :
    AtStandstill N_THREADS CAPACITY serveDir s := by
  intro e s' succeeds hstep
  by_contra own
  have hno := h e
  rw [ownStep, if_pos ⟨succeeds, own⟩, hstep] at hno
  cases hno

/-- `main` or a worker calls into the queue. -/
theorem toDo_call {t : ThreadId} {c : Call} (ht : t ≤ N_THREADS)
    (queue : s'.queue = s.queue.goto t (.locking c)) (accepted : s'.accepted = s.accepted)
    (pending : s'.pending.length ≤ s.pending.length) (main : t ≠ 0 → s'.main = s.main)
    (workers : ∀ u, u ≠ t → s'.workers u = s.workers u)
    (here : s'.distance N_THREADS t < s.distance N_THREADS t) :
    s'.toDo N_THREADS < s.toDo N_THREADS := by
  refine toDo_lt ?_ ht ?_ here
  · refine wakings_le accepted (by rw [queue]; rfl) pending ?_ (by rw [queue]; rfl)
    intro u
    rw [queue]
    by_cases hut : u = t
    · rw [hut, State.goto_threads_self]
      exact Nat.zero_le _
    · rw [State.goto_threads_of_ne _ _ _ hut]
  · intro u hut
    unfold distance
    rw [queue]
    by_cases hu0 : u = 0
    · subst hu0
      rw [if_pos rfl, if_pos rfl, main (Ne.symm hut), State.goto_threads_of_ne _ _ _ hut]
    · rw [if_neg hu0, if_neg hu0, workers u hut, State.goto_threads_of_ne _ _ _ hut]

theorem toDo_step (hs : Sound N_THREADS CAPACITY s) (succeeds : e.Succeeds)
    (own : ¬ e.FromOutside) (h : step N_THREADS CAPACITY serveDir s e = some s') :
    s'.toDo N_THREADS < s.toDo N_THREADS := by
  have control := hs.invariant.control
  cases e with
  | handleSigint | accept _ => exact absurd trivial own
  | queue a =>
      simp only [step] at h
      split at h
      · next inside =>
          split at h
          · next q hq =>
              cases h
              refine toDo_queue hs succeeds inside ?_ hq
              rintro t rfl
              exact own trivial
          · cases h
      · cases h
  | testKeepGoing =>
      simp only [step] at h
      split at h
      · next hm =>
          cases h
          by_cases hk : s.keepGoing = 0
          all_goals
            refine toDo_main ?_ rfl rfl rfl ?_
            · simp [hm, hk, Main.distance]
            · simp [pending, hk]
      · cases h
  | enqueue =>
      simp only [step] at h
      split at h
      · next clientFd hm =>
          split at h
          · next q hq =>
              cases h
              rw [call_eq hq]
              refine toDo_call (Nat.zero_le _) rfl rfl ?_ (absurd rfl) (fun _ _ => rfl) ?_
              · simp [pending, hm, Thread.result]
              · simp [distance, hm, Main.distance, Thread.distance]
          · cases h
      · cases h
  | enqueued =>
      simp only [step] at h
      split at h
      · next clientFd c ret hm returned =>
          cases h
          by_cases hret : ret = -1
          all_goals
            refine toDo_main ?_ rfl rfl rfl ?_
            · simp [hm, hret, returned, Main.distance, Thread.distance]
            · simp [pending, hret]
      · cases h
  | closeRefused =>
      simp only [step] at h
      split at h
      · next clientFd hm =>
          cases h
          refine toDo_main ?_ rfl rfl rfl (Nat.zero_le _)
          simp [hm, Main.distance]
      · cases h
  | shutdownReturned =>
      simp only [step] at h
      split at h
      · next retVal hm _ =>
          cases h
          by_cases hret : retVal = -1
          all_goals
            refine toDo_main ?_ rfl rfl rfl ?_
            · simp [hm, hret, Main.distance]
            · simp [pending, hret]
      · cases h
  | join =>
      simp only [step] at h
      split at h
      · next i hm =>
          split at h
          · next hi =>
              split at h
              · cases h
                refine toDo_main ?_ rfl rfl rfl (Nat.zero_le _)
                simp only [hm, Main.distance]
                omega
              · cases h
          · cases h
            refine toDo_main ?_ rfl rfl rfl (Nat.zero_le _)
            simp [hm, Main.distance]
      · cases h
  | dequeue t =>
      simp only [step] at h
      split at h
      · next hw =>
          split at h
          · next q hq =>
              cases h
              rw [call_eq hq]
              have hpool := control.pool (t := t) (by simp [hw])
              have ht0 : t ≠ 0 := Nat.one_le_iff_ne_zero.mp hpool.1
              refine toDo_call hpool.2 rfl rfl ?_ (fun _ => rfl) ?_ ?_
              · refine pending_queue (s := s) ?_
                rw [State.goto_threads_of_ne _ _ _ (Ne.symm ht0)]
                exact id
              · intro u hut
                simp [goto, hut]
              · simp [distance, ht0, goto, hw, Worker.distance, Thread.distance]
          · cases h
      · cases h
  | dequeued t =>
      simp only [step] at h
      split at h
      · next c ret hw returned =>
          cases h
          refine toDo_worker control hw (by simp) ?_ rfl rfl rfl rfl
          by_cases hret : ret = -1
          all_goals simp [hret, returned, Worker.distance, Thread.distance]
      · cases h
  | readHttpRequest t request =>
      simp only [step] at h
      split at h
      · next clientFd _ hw =>
          cases h
          exact toDo_worker control hw (by simp) (by simp [Worker.distance]) rfl rfl rfl rfl
      · next clientFd hw =>
          cases h
          exact toDo_worker control hw (by simp) (by simp [Worker.distance]) rfl rfl rfl rfl
      · cases h
  | writeHttpResponse t _ =>
      simp only [step] at h
      split at h
      · next clientFd _ hw =>
          cases h
          exact toDo_worker control hw (by simp) (by simp [Worker.distance]) rfl rfl rfl rfl
      · cases h
  | close t =>
      simp only [step] at h
      split at h
      · next clientFd hw =>
          cases h
          exact toDo_worker control hw (by simp) (by simp [Worker.distance]) rfl rfl rfl rfl
      · cases h

theorem accepted_step (own : ¬ e.FromOutside)
    (h : step N_THREADS CAPACITY serveDir s e = some s') : s'.accepted = s.accepted := by
  cases effect_of_step h with
  | accepted _ _ _ _ => exact absurd trivial own
  | handleSigint | looped _ _ _ _ | enqueue _ _ _ | enqueued _ _ _ _ _ | closeRefused _ _
  | shutdownReturned _ _ _ | joinOne _ _ _ _ | joinAll _ _ _ | queue _ _ _ _ | dequeue _ _ _
  | dequeued _ _ _ _ _ | served _ _ _ _ _ _ | close _ _ _ => rfl

theorem accepted_of_reaches (h : Reaches (ownStep N_THREADS CAPACITY serveDir) s s') :
    s'.accepted = s.accepted := by
  induction h with
  | refl => rfl
  | tail _ _ hstep ih =>
      obtain ⟨_, own, hstep⟩ := ownStep_some hstep
      exact (accepted_step own hstep).trans ih

theorem Sound.of_reaches (hs : Sound N_THREADS CAPACITY s)
    (h : Reaches (ownStep N_THREADS CAPACITY serveDir) s s') : Sound N_THREADS CAPACITY s' := by
  refine h.invariant (fun u e v _ hstep hu => ?_) hs
  obtain ⟨succeeds, _, hstep⟩ := ownStep_some hstep
  exact hu.step succeeds hstep

theorem terminates_of_sound (hs : Sound N_THREADS CAPACITY s) :
    Terminates (ownStep N_THREADS CAPACITY serveDir) s := by
  refine terminates_of_measure (I := Sound N_THREADS CAPACITY) (r := (· < ·)) wellFounded_lt
    (toDo N_THREADS) ?_ ?_ hs
  · intro u e v hstep hu
    obtain ⟨succeeds, _, hstep⟩ := ownStep_some hstep
    exact hu.step succeeds hstep
  · intro u e v hstep hu
    obtain ⟨succeeds, own, hstep⟩ := ownStep_some hstep
    exact toDo_step hu succeeds own hstep

end Settling

end HttpServer

end UmnProjects.Server
