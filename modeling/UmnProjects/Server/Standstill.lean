import UmnProjects.Server.Connections
import UmnProjects.Server.QueueClosed

/-!
The server at a standstill, where it waits for a client or a signal and could go on only by
itself if a wait ended without cause. No connection is left over there.
-/
namespace UmnProjects.Server

open Runs

/-! ### While no pthread call fails -/

/-- In none of the queue's functions. -/
def Thread.Outside (p : Thread) : Prop := p = .idle ∨ ∃ c ret, p = .returned c ret

theorem Thread.Outside.wake {p : Thread} (h : p.Outside) : p.wake = p := by
  obtain rfl | ⟨c, ret, rfl⟩ := h <;> rfl

theorem Thread.Outside.not_inSection {p : Thread} (h : p.Outside) : ¬ p.InSection := by
  obtain rfl | ⟨c, ret, rfl⟩ := h <;> exact id

/-- The mutex is held inside critical sections only, and `shutdown` reports no error. -/
structure Flawless (s : State) : Prop where
  locked : ∀ t, s.mutex = some t → (s.threads t).InSection
  closing : s.closing ≠ .emptyBroadcast (-1) ∧ s.closing ≠ .returned (-1)

namespace Flawless

variable {CAPACITY : Nat} {s s' : State} {a : Action}

theorem init : Flawless connectionQueueInit where
  locked := by
    intro t h
    cases h
  closing := by simp [connectionQueueInit]

theorem goto (h : Flawless s) {t : ThreadId} {p : Thread}
    (inside : (s.threads t).InSection → p.InSection) : Flawless (s.goto t p) := by
  refine ⟨?_, h.closing⟩
  intro u hu
  by_cases hut : u = t
  · subst hut
    rw [State.goto_threads_self]
    exact inside (h.locked u hu)
  · rw [State.goto_threads_of_ne _ _ _ hut]
    exact h.locked u hu

theorem wake (h : Flawless s) (k : Cond) (chosen : List ThreadId) :
    Flawless (s.wake k chosen) := by
  refine ⟨?_, h.closing⟩
  intro u hu
  obtain hp | hp := s.wake_cases k chosen u
  · rw [hp]
    exact h.locked u hu
  · rw [hp, Thread.inSection_wake]
    exact h.locked u hu

/-- The mutex is taken. -/
theorem acquire (h : Flawless s) {t : ThreadId} {p : Thread} (inside : p.InSection) :
    Flawless { s.goto t p with mutex := some t } := by
  refine ⟨?_, h.closing⟩
  intro u hu
  cases hu
  rw [show _ = p from s.goto_threads_self t p]
  exact inside

theorem step (h : Flawless s) (succeeds : a.Succeeds) (hs : Server.step CAPACITY s a = some s') :
    Flawless s' := by
  cases effect_of_step hs with
  | call t c ready =>
      refine h.goto fun hin => ?_
      exact absurd hin (Thread.Outside.not_inSection ready)
  | lock t c _ _ | relock t c _ _ => exact h.acquire trivial
  | blocked t c pc _ | passed t c pc _ | turnedAway t c pc _ | stayed t c pc _ =>
      exact h.goto fun _ => trivial
  | wait t c pc | unlock t c ret pc =>
      refine ⟨?_, h.closing⟩
      intro u hu
      cases hu
  | wakeup t c pc => exact h.wake _ _
  | update t c pc =>
      have hgoto := h.goto (t := t) (p := .signalling c (c.update CAPACITY s.ring).1)
        fun _ => trivial
      cases c with
      | enqueue _ | dequeue => exact ⟨hgoto.locked, h.closing⟩
  | signal t c ret chosen pc _ _ => exact (h.wake _ _).goto fun _ => trivial
  | setFlag pc => exact ⟨h.locked, by simp⟩
  | broadcastEmpty pc => exact ⟨(h.wake .empty (s.waitSet .empty)).locked, by simp⟩
  | broadcastFull retVal pc =>
      refine ⟨(h.wake .full (s.waitSet .full)).locked, by simp, ?_⟩
      intro heq
      cases heq
      exact h.closing.1 pc
  | lockFailed t c _ | waitFailed t c _ | signalFailed t c ret chosen _
  | unlockFailed t c ret _ | broadcastEmptyFailed _ | broadcastFullFailed retVal _ =>
      cases succeeds

end Flawless

/-- Who acts inside the queue's functions is in one of them. -/
theorem inside_of_actor {CAPACITY : Nat} {s s' : State} {a : Action} {t : ThreadId}
    (hs : step CAPACITY s a = some s') (actor : a.actor = some t) (inside : ∀ c, a ≠ .call t c) :
    ¬ (s.threads t).Outside := by
  have hout {p : Thread} (pc : s.threads t = p) (hp : ¬ p.Outside) : ¬ (s.threads t).Outside := by
    rwa [pc]
  cases effect_of_step hs with
  | call u c _ =>
      cases actor
      exact absurd rfl (inside c)
  | lock u c pc _ | lockFailed u c pc | blocked u c pc _ | passed u c pc _ | turnedAway u c pc _
  | stayed u c pc _ | wait u c pc | waitFailed u c pc | wakeup u c pc | relock u c pc _
  | update u c pc | signal u c ret chosen pc _ _ | signalFailed u c ret chosen pc
  | unlock u c ret pc | unlockFailed u c ret pc =>
      cases actor
      exact hout pc (by simp [Thread.Outside])
  | setFlag _ | broadcastEmpty _ | broadcastEmptyFailed _ | broadcastFull _ _
  | broadcastFullFailed _ _ => cases actor

namespace HttpServer

section Parked

variable {N_THREADS CAPACITY : Nat} {s s' : HttpServer} {e : Event}

/-- Who is in no call is in none of the queue's functions. -/
def Parked (s : HttpServer) : Prop := ∀ t, s.inCall t = none → (s.queue.threads t).Outside

namespace Parked

theorem start (N_THREADS : Nat) : Parked (start N_THREADS) := fun _ _ => .inl rfl

theorem keep (h : Parked s) (threads : s'.queue.threads = s.queue.threads)
    (calls : ∀ t, s'.inCall t = none → s.inCall t = none ∨ (s.queue.threads t).Outside) :
    Parked s' := by
  intro t ht
  rw [threads]
  obtain hcall | hout := calls t ht
  · exact h t hcall
  · exact hout

theorem mainMoves (h : Parked s) (workers : s'.workers = s.workers)
    (threads : s'.queue.threads = s.queue.threads) (outside : s.main.call = none) :
    Parked s' := by
  refine h.keep threads ?_
  intro t ht
  by_cases ht0 : t = 0
  · simp [inCall, ht0, outside]
  · left
    simpa [inCall, ht0, workers] using ht

theorem workerMoves (h : Parked s) {t : ThreadId} (main : s'.main = s.main)
    (threads : s'.queue.threads = s.queue.threads)
    (workers : ∀ u, u ≠ t → s'.workers u = s.workers u) (outside : (s.workers t).call = none) :
    Parked s' := by
  refine h.keep threads ?_
  intro u hu
  left
  by_cases hu0 : u = 0
  · simpa [inCall, hu0, main] using hu
  · by_cases hut : u = t
    · simp [inCall, hu0, hut ▸ outside]
    · simpa [inCall, hu0, workers u hut] using hu

theorem step (h : Parked s) (control : Control N_THREADS s)
    (he : Effect N_THREADS CAPACITY s e s') : Parked s' := by
  cases he with
  | handleSigint => exact h
  | looped e next pc target =>
      exact h.mainMoves rfl rfl (by obtain pc | pc := pc <;> simp [pc, Main.call])
  | accepted clientFd pc _ _ | closeRefused clientFd pc | shutdownReturned next pc _
  | joinOne i pc _ _ | joinAll i pc _ => exact h.mainMoves rfl rfl (by simp [pc, Main.call])
  | enqueue clientFd pc _ =>
      intro t ht
      by_cases ht0 : t = 0
      · simp [inCall, ht0, Main.call] at ht
      · rw [State.goto_threads_of_ne _ _ _ ht0]
        exact h t (by simpa [inCall, ht0] using ht)
  | enqueued clientFd c ret pc returned =>
      refine h.keep rfl ?_
      intro t ht
      by_cases ht0 : t = 0
      · exact .inr (.inr ⟨c, ret, ht0 ▸ returned⟩)
      · exact .inl (by simpa [inCall, ht0] using ht)
  | queue a q inside hq =>
      intro t ht
      have hout := h t ht
      by_cases hactor : a.actor = some t
      · exact absurd hout (inside_of_actor hq hactor fun c => inside_ne_call inside t c)
      · obtain hp | hp := (aside_of_step hq hactor).point
        · exact hp ▸ hout
        · rw [show ({ s with queue := q } : HttpServer).queue.threads t = q.threads t from rfl, hp,
            hout.wake]
          exact hout
  | dequeue t pc _ =>
      intro u hu
      by_cases hut : u = t
      · subst hut
        have hu0 : u ≠ 0 := Nat.one_le_iff_ne_zero.mp (control.pool (t := u) (by simp [pc])).1
        simp [inCall, hu0, HttpServer.goto, Worker.call] at hu
      · rw [State.goto_threads_of_ne _ _ _ hut]
        exact h u (by simpa [inCall, HttpServer.goto, hut] using hu)
  | dequeued t c ret pc returned =>
      refine h.keep rfl ?_
      intro u hu
      by_cases hut : u = t
      · exact .inr (.inr ⟨c, ret, hut ▸ returned⟩)
      · exact .inl (by simpa [inCall, HttpServer.goto, hut] using hu)
  | served e t w clientFd pc _ =>
      refine h.workerMoves (t := t) rfl rfl (fun u hu => by simp [HttpServer.goto, hu]) ?_
      cases hw : s.workers t <;> simp_all [Worker.clientFd, Worker.call]
  | close t clientFd pc =>
      refine h.workerMoves (t := t) rfl rfl (fun u hu => ?_) (by simp [pc, Worker.call])
      simp [HttpServer.goto, close, hu]

end Parked

end Parked

/-- What holds of the server in every state of its runs without a failing pthread call. -/
structure Sound (N_THREADS CAPACITY : Nat) (s : HttpServer) : Prop where
  invariant : Invariant N_THREADS CAPACITY s
  flawless : Flawless s.queue
  parked : s.Parked
  unfailed : s.main ≠ .failed

namespace Sound

variable {N_THREADS CAPACITY : Nat} {serveDir : List Char} {s s' : HttpServer} {e : Event}

theorem unfailed_step (hs : step N_THREADS CAPACITY serveDir s e = some s')
    (flawless : Flawless s.queue) (h : s.main ≠ .failed) : s'.main ≠ .failed := by
  cases he : effect_of_step hs with
  | handleSigint | queue _ _ _ _ | dequeue _ _ _ | dequeued _ _ _ _ _ | served _ _ _ _ _ _
  | close _ _ _ => exact h
  | looped e next pc target => obtain rfl | rfl | rfl := target <;> simp
  | enqueued clientFd c ret _ _ => simp only; split <;> simp
  | accepted _ _ _ _ | enqueue _ _ _ | closeRefused _ _ | joinOne _ _ _ _ | joinAll _ _ _ => simp
  | shutdownReturned next pc target =>
      simp only [HttpServer.step, pc] at hs
      split at hs
      · next retVal _ hreturned =>
          split at hs
          · next hret =>
              rw [hret] at hreturned
              exact absurd hreturned flawless.closing.2
          · cases hs
            simp
      · cases hs

theorem start (N_THREADS : Nat) (hc : 1 ≤ CAPACITY) :
    Sound N_THREADS CAPACITY (start N_THREADS) where
  invariant := .start N_THREADS hc
  flawless := .init
  parked := .start N_THREADS
  unfailed := by simp [HttpServer.start]

theorem step (h : Sound N_THREADS CAPACITY s) (succeeds : e.Succeeds)
    (hs : HttpServer.step N_THREADS CAPACITY serveDir s e = some s') :
    Sound N_THREADS CAPACITY s' := by
  have he := effect_of_step hs
  refine ⟨h.invariant.step he succeeds, ?_, h.parked.step h.invariant.control he,
    unfailed_step hs h.flawless h.unfailed⟩
  obtain hq | ⟨a, ha, hq⟩ := queue_step he succeeds
  · rw [hq]
    exact h.flawless
  · exact h.flawless.step ha hq

theorem of_run (hc : 1 ≤ CAPACITY)
    (h : Run (HttpServer.step N_THREADS CAPACITY serveDir) (fun _ e => e.Succeeds)
      (HttpServer.start N_THREADS) s) : Sound N_THREADS CAPACITY s :=
  h.invariant (fun _ _ _ ok hs hi => hi.step ok hs) (start N_THREADS hc)

end Sound

/-! ### Standstill -/

end HttpServer

/-- A new client, a signal, or the end of a wait that nobody has woken. -/
def Event.FromOutside : Event → Prop
  | .accept _ | .handleSigint | .queue (.wakeup _) => True
  | _ => False

namespace HttpServer

section Standstill

variable {N_THREADS CAPACITY : Nat} {serveDir : List Char} {s : HttpServer}

/-- The server takes no step by itself. -/
def AtStandstill (N_THREADS CAPACITY : Nat) (serveDir : List Char) (s : HttpServer) : Prop :=
  ∀ e s', e.Succeeds → step N_THREADS CAPACITY serveDir s e = some s' → e.FromOutside

namespace AtStandstill

theorem no_step (h : AtStandstill N_THREADS CAPACITY serveDir s) {e : Event} (succeeds : e.Succeeds)
    (own : ¬ e.FromOutside) : step N_THREADS CAPACITY serveDir s e = none := by
  cases hs : step N_THREADS CAPACITY serveDir s e with
  | none => rfl
  | some s' => exact absurd (h e s' succeeds hs) own

theorem no_queue_step (h : AtStandstill N_THREADS CAPACITY serveDir s) {a : Action}
    (succeeds : a.Succeeds) (inside : s.Inside a) (own : ∀ t, a ≠ .wakeup t) :
    Server.step CAPACITY s.queue a = none := by
  have hown : ¬ (Event.queue a).FromOutside := by
    cases a with
    | wakeup t => exact absurd rfl (own t)
    | _ => exact id
  have hs := h.no_step (e := .queue a) succeeds hown
  simp only [step, if_pos inside] at hs
  split at hs
  · cases hs
  · assumption

/-- Whoever holds the mutex could go on. -/
theorem not_inSection (h : AtStandstill N_THREADS CAPACITY serveDir s) (t : ThreadId) :
    ¬ (s.queue.threads t).InSection := by
  intro hin
  cases pc : s.queue.threads t with
  | testing c =>
      have hs := h.no_queue_step (a := .test t) trivial trivial (by simp)
      simp [Server.step, pc] at hs
  | flagTest c =>
      have hs := h.no_queue_step (a := .readFlag t) trivial trivial (by simp)
      simp [Server.step, pc] at hs
  | entering c =>
      have hs := h.no_queue_step (a := .wait t true) rfl trivial (by simp)
      simp [Server.step, pc] at hs
  | updating c =>
      have hs := h.no_queue_step (a := .update t) trivial trivial (by simp)
      simp [Server.step, pc] at hs
  | signalling c ret =>
      have hs := h.no_queue_step (a := .signal t true (s.queue.waitSet c.signals)) rfl trivial
        (by simp)
      simp [Server.step, pc] at hs
  | unlocking c ret =>
      have hs := h.no_queue_step (a := .unlock t true) rfl trivial (by simp)
      simp [Server.step, pc] at hs
  | idle | locking _ | waiting _ | woken _ | returned _ _ =>
      rw [pc] at hin
      exact hin

theorem unlocked (h : AtStandstill N_THREADS CAPACITY serveDir s) (flawless : Flawless s.queue) :
    s.queue.mutex = none := by
  cases hm : s.queue.mutex with
  | none => rfl
  | some t => exact absurd (flawless.locked t hm) (h.not_inSection t)

/-- Every thread is outside the queue's functions or sleeps in one of them. -/
theorem thread_cases (h : AtStandstill N_THREADS CAPACITY serveDir s) (flawless : Flawless s.queue)
    (t : ThreadId) : (s.queue.threads t).Outside ∨ ∃ c, s.queue.threads t = .waiting c := by
  have hmutex := h.unlocked flawless
  have hout := h.not_inSection t
  cases pc : s.queue.threads t with
  | idle => exact .inl (.inl rfl)
  | returned c ret => exact .inl (.inr ⟨c, ret, rfl⟩)
  | waiting c => exact .inr ⟨c, rfl⟩
  | locking c =>
      have hs := h.no_queue_step (a := .lock t true) rfl trivial (by simp)
      simp [Server.step, pc, hmutex] at hs
  | woken c =>
      have hs := h.no_queue_step (a := .relock t) trivial trivial (by simp)
      simp [Server.step, pc, hmutex] at hs
  | testing _ | flagTest _ | entering _ | updating _ | signalling _ _ | unlocking _ _ =>
      rw [pc] at hout
      exact absurd trivial hout

/-- Nobody is about to look for what somebody sleeps over. -/
theorem nothing_on_offer (h : AtStandstill N_THREADS CAPACITY serveDir s)
    (hs : Sound N_THREADS CAPACITY s) {t : ThreadId} {c : Call}
    (asleep : s.queue.threads t = .waiting c) :
    s.queue.ring.onOffer CAPACITY c.waitsOn ≤ 0 := by
  have hwaits : t ∈ s.queue.waitSet c.waitsOn :=
    (hs.invariant.queue.1.waiters t _).mpr ⟨c, asleep, rfl⟩
  obtain ⟨S, hS, hcard⟩ | ⟨⟨u, hu⟩, _⟩ :=
    hs.invariant.queue.2.attended c.waitsOn (List.ne_nil_of_mem hwaits)
  · have hempty : S = ∅ := by
      refine Finset.eq_empty_of_forall_notMem ?_
      intro u hu
      have hpending : (s.queue.threads u).Pending c.waitsOn := hS u hu
      obtain hout | ⟨c', pc⟩ := h.thread_cases hs.flawless u
      · obtain pc | ⟨c', ret, pc⟩ := hout
        all_goals
          rw [pc] at hpending
          exact hpending
      · rw [pc] at hpending
        exact hpending
    simpa [hempty] using hcard
  · exact absurd hu.inSection (h.not_inSection u)

/-- A worker has left, or sleeps until there is a client. -/
theorem worker_cases (h : AtStandstill N_THREADS CAPACITY serveDir s)
    (hs : Sound N_THREADS CAPACITY s) (t : ThreadId) :
    s.workers t = .exited ∨ s.workers t = .dequeuing ∧ s.queue.threads t = .waiting .dequeue := by
  have hmatches := hs.invariant.control.calls t
  have hparked := hs.parked t
  cases hw : s.workers t with
  | exited => exact .inl rfl
  | dequeue =>
      have hcall := hs.invariant.control.inCall_pool (t := t) (by simp [hw])
      have hno := h.no_step (e := .dequeue t) trivial id
      obtain pc | ⟨c, ret, pc⟩ := hparked (by rw [hcall, hw]; rfl)
      all_goals simp [step, hw, Server.step, pc] at hno
  | dequeuing =>
      have hcall := hs.invariant.control.inCall_pool (t := t) (by simp [hw])
      rw [hcall, hw] at hmatches
      have hin : (s.queue.threads t).call = some .dequeue := hmatches
      right
      refine ⟨rfl, ?_⟩
      obtain hout | ⟨c, pc⟩ := h.thread_cases hs.flawless t
      · obtain pc | ⟨c, ret, pc⟩ := hout
        · rw [pc] at hin
          cases hin
        · have hno := h.no_step (e := .dequeued t) trivial id
          simp [step, hw, pc] at hno
      · rw [pc] at hin
        cases hin
        exact pc
  | reading clientFd =>
      have hno := h.no_step (e := .readHttpRequest t none) trivial id
      simp [step, hw] at hno
  | responding clientFd path =>
      have hno := h.no_step (e := .writeHttpResponse t true) trivial id
      simp [step, hw] at hno
  | closing clientFd =>
      have hno := h.no_step (e := .close t) trivial id
      simp [step, hw] at hno

theorem queue_empty (h : AtStandstill N_THREADS CAPACITY serveDir s)
    (hs : Sound N_THREADS CAPACITY s) (hn : 1 ≤ N_THREADS) : s.queue.ring.length ≤ 0 := by
  obtain hw | ⟨_, asleep⟩ := h.worker_cases hs 1
  · exact (hs.invariant.accounts.drained 1 ⟨⟨le_rfl, hn⟩, .inl hw⟩).2.le
  · exact h.nothing_on_offer hs asleep

/-- `main` waits for a client, or has joined the workers, or joins one that sleeps. -/
theorem main_cases (h : AtStandstill N_THREADS CAPACITY serveDir s)
    (hs : Sound N_THREADS CAPACITY s) (hn : 1 ≤ N_THREADS) (hc : 1 ≤ CAPACITY) :
    s.main = .accepting ∨ s.main = .joined ∨
      ∃ i < N_THREADS, s.main = .joining i ∧ s.queue.threads (i + 1) = .waiting .dequeue := by
  have hmatches := hs.invariant.control.calls 0
  have hparked := hs.parked 0
  cases hm : s.main with
  | accepting => exact .inl rfl
  | joined => exact .inr (.inl rfl)
  | failed => exact absurd hm hs.unfailed
  | loop =>
      have hno := h.no_step (e := .testKeepGoing) trivial id
      simp [step, hm] at hno
  | enqueue clientFd =>
      have hno := h.no_step (e := .enqueue) trivial id
      obtain pc | ⟨c, ret, pc⟩ := hparked (by simp [inCall, hm, Main.call])
      all_goals simp [step, hm, Server.step, pc] at hno
  | enqueuing clientFd =>
      have hin : (s.queue.threads 0).call = some (.enqueue clientFd) := by
        simpa [inCall, hm, Main.call, Matches] using hmatches
      obtain hout | ⟨c, pc⟩ := h.thread_cases hs.flawless 0
      · obtain pc | ⟨c, ret, pc⟩ := hout
        · rw [pc] at hin
          cases hin
        · have hno := h.no_step (e := .enqueued) trivial id
          simp [step, hm, pc] at hno
      · rw [pc] at hin
        cases hin
        have hroom := h.nothing_on_offer hs pc
        have hempty := h.queue_empty hs hn
        simp only [Call.waitsOn, Ring.onOffer] at hroom
        omega
  | refused clientFd =>
      have hno := h.no_step (e := .closeRefused) trivial id
      simp [step, hm] at hno
  | shutdown =>
      cases hclosing : s.queue.closing with
      | notCalled =>
          have hno := h.no_queue_step (a := .setFlag) trivial hm (by simp)
          simp [Server.step, hclosing] at hno
      | flagSet =>
          have hno := h.no_queue_step (a := .broadcastEmpty true) rfl hm (by simp)
          simp [Server.step, hclosing] at hno
      | emptyBroadcast retVal =>
          have hno := h.no_queue_step (a := .broadcastFull true) rfl hm (by simp)
          simp [Server.step, hclosing] at hno
      | returned retVal =>
          have hno := h.no_step (e := .shutdownReturned) trivial id
          simp [step, hm, hclosing] at hno
  | joining i =>
      right; right
      have hno := h.no_step (e := .join) trivial id
      by_cases hi : i < N_THREADS
      · refine ⟨i, hi, rfl, ?_⟩
        obtain hw | ⟨_, asleep⟩ := h.worker_cases hs (i + 1)
        · simp [step, hm, hi, hw] at hno
        · exact asleep
      · simp [step, hm, hi] at hno

/-- No client is left in the queue or on its way there. -/
theorem all_taken (h : AtStandstill N_THREADS CAPACITY serveDir s)
    (hs : Sound N_THREADS CAPACITY s) (hn : 1 ≤ N_THREADS) (hc : 1 ≤ CAPACITY) :
    s.queue.dequeued.map Prod.snd = s.accepted := by
  have hpending : s.pending = [] := by
    obtain hm | hm | ⟨i, _, hm, _⟩ := h.main_cases hs hn hc
    all_goals simp [pending, hm]
  obtain ⟨xs, hring, hlog⟩ := hs.invariant.queue.1.fifo
  have hlength := hring.length_eq
  have hempty := h.queue_empty hs hn
  have hxs : xs = [] := List.length_eq_zero_iff.mp (by omega)
  rw [hs.invariant.accounts.accepted, hpending, hlog, hxs]
  simp

/-- No client is in the hands of a worker. -/
theorem hands_free (h : AtStandstill N_THREADS CAPACITY serveDir s)
    (hs : Sound N_THREADS CAPACITY s) (t : ThreadId) : s.ledger.held t = none := by
  obtain hw | ⟨hw, asleep⟩ := h.worker_cases hs t
  · exact inHand_exited hw
  · refine (inHand_dequeuing hw).trans ?_
    simp [asleep, Thread.result]

theorem nothing_open (h : AtStandstill N_THREADS CAPACITY serveDir s)
    (hs : Sound N_THREADS CAPACITY s) (hn : 1 ≤ N_THREADS) (hc : 1 ≤ CAPACITY) (fd : Int) :
    s.descriptors fd = none := by
  refine hs.invariant.ledger.table_empty (h.hands_free hs) ?_ fd
  show s.queue.dequeued.length = s.accepted.length
  rw [← h.all_taken hs hn hc, List.length_map]

end AtStandstill

theorem atStandstill_of_asleep (hm : s.main = .accepting)
    (threads : ∀ t, (s.queue.threads t).Outside ∨ ∃ c, s.queue.threads t = .waiting c)
    (workers : ∀ t, s.workers t = .exited ∨
      s.workers t = .dequeuing ∧ s.queue.threads t = .waiting .dequeue) :
    AtStandstill N_THREADS CAPACITY serveDir s := by
  intro e s' _ hs
  cases e with
  | handleSigint | accept _ => trivial
  | testKeepGoing | enqueue | enqueued | closeRefused | shutdownReturned | join =>
      simp [step, hm] at hs
  | dequeue t | writeHttpResponse t ok | close t =>
      obtain hw | ⟨hw, _⟩ := workers t
      all_goals simp [step, hw] at hs
  | readHttpRequest t request =>
      obtain hw | ⟨hw, _⟩ := workers t
      all_goals cases request <;> simp [step, hw] at hs
  | dequeued t =>
      obtain hw | ⟨hw, asleep⟩ := workers t
      · simp [step, hw] at hs
      · simp [step, hw, asleep] at hs
  | queue a =>
      cases a with
      | wakeup t => trivial
      | call t c => simp [step, Inside] at hs
      | setFlag | broadcastEmpty ok | broadcastFull ok => simp [step, Inside, hm] at hs
      | lock t _ | test t | readFlag t | wait t _ | relock t | update t | signal t _ _
      | unlock t _ =>
          obtain hout | ⟨c, pc⟩ := threads t
          · obtain pc | ⟨c, ret, pc⟩ := hout
            all_goals simp [step, Inside, Server.step, pc] at hs
          · simp [step, Inside, Server.step, pc] at hs

/-- One client is served, and the worker waits for the next. -/
def oneClient : List Event :=
  [.testKeepGoing, .accept (.client 4), .enqueue, .queue (.lock 0 true), .queue (.test 0),
    .queue (.update 0), .queue (.signal 0 true []), .queue (.unlock 0 true), .enqueued,
    .dequeue 1, .queue (.lock 1 true), .queue (.test 1), .queue (.update 1),
    .queue (.signal 1 true []), .queue (.unlock 1 true), .dequeued 1,
    .readHttpRequest 1 (some ['/']), .writeHttpResponse 1 true, .close 1, .testKeepGoing,
    .dequeue 1, .queue (.lock 1 true), .queue (.test 1), .queue (.readFlag 1),
    .queue (.wait 1 true)]

end Standstill

end HttpServer

/-! ### After the join -/

/-- `connection_queue_free`, by which of its three calls succeed; `none` where it would destroy
what is in use. -/
def connectionQueueFree (s : State) (full empty mutex : Bool) : Option Int :=
  if s.waitSet .full = [] ∧ s.waitSet .empty = [] ∧ s.mutex = none then
    some (if full && empty && mutex then 0 else -1)
  else none

namespace HttpServer

section Joined

variable {N_THREADS CAPACITY : Nat} {serveDir : List Char} {s s' : HttpServer} {e : Event}

theorem Sound.outside (h : Sound N_THREADS CAPACITY s) (joined : s.main = .joined)
    (t : ThreadId) : (s.queue.threads t).Outside := by
  refine h.parked t ?_
  by_cases ht0 : t = 0
  · simp [inCall, ht0, joined, Main.call]
  · simp [inCall, ht0, h.invariant.exited joined t, Worker.call]

/-- With nobody left nothing happens but a signal. -/
theorem step_joined (joined : s.main = .joined) (exited : ∀ t, s.workers t = .exited)
    (outside : ∀ t, (s.queue.threads t).Outside)
    (hs : step N_THREADS CAPACITY serveDir s e = some s') :
    s'.main = s.main ∧ s'.workers = s.workers ∧ s'.queue = s.queue := by
  cases e with
  | handleSigint =>
      cases hs
      exact ⟨rfl, rfl, rfl⟩
  | testKeepGoing | enqueue | enqueued | closeRefused | shutdownReturned | join | accept _ =>
      simp [step, joined] at hs
  | dequeue t | writeHttpResponse t _ | close t | readHttpRequest t _ | dequeued t =>
      simp [step, exited t] at hs
  | queue a =>
      cases a with
      | call t c => simp [step, Inside] at hs
      | setFlag | broadcastEmpty ok | broadcastFull ok => simp [step, Inside, joined] at hs
      | wakeup t | lock t _ | test t | readFlag t | wait t _ | relock t | update t | signal t _ _
      | unlock t _ =>
          obtain pc | ⟨c, ret, pc⟩ := outside t
          all_goals simp [step, Inside, Server.step, pc] at hs

/-- When `main` has joined the workers, nobody sleeps in the queue or holds its mutex, so that it
may be freed; it is empty, and nobody touches it again. -/
theorem freed_unused (hn : 1 ≤ N_THREADS) (hc : 1 ≤ CAPACITY)
    (h : Run (step N_THREADS CAPACITY serveDir) (fun _ e => e.Succeeds) (start N_THREADS) s)
    (joined : s.main = .joined) :
    (∀ full empty mutex, connectionQueueFree s.queue full empty mutex ≠ none) ∧
      s.queue.ring.length = 0 ∧
      ∀ s', Reaches (step N_THREADS CAPACITY serveDir) s s' →
        s'.queue = s.queue ∧ s'.workers = s.workers ∧ s'.main = .joined := by
  have hs := Sound.of_run hc h
  have exited := hs.invariant.exited joined
  have outside := hs.outside joined
  have nobody (k : Cond) : s.queue.waitSet k = [] := by
    refine List.eq_nil_iff_forall_not_mem.mpr ?_
    intro t ht
    obtain ⟨c, pc, _⟩ := (hs.invariant.queue.1.waiters t k).mp ht
    have hout := outside t
    simp [pc, Thread.Outside] at hout
  have unlocked : s.queue.mutex = none := by
    cases hm : s.queue.mutex with
    | none => rfl
    | some t => exact absurd (hs.flawless.locked t hm) (outside t).not_inSection
  refine ⟨?_, (hs.invariant.accounts.drained 1 ⟨⟨le_rfl, hn⟩, .inl (exited 1)⟩).2, ?_⟩
  · intro full empty mutex
    simp [connectionQueueFree, nobody, unlocked]
  · intro s' hrun
    refine hrun.invariant (I := fun s' => s'.queue = s.queue ∧ s'.workers = s.workers ∧
      s'.main = .joined) ?_ ⟨rfl, rfl, joined⟩
    intro t e t' _ hstep ht
    obtain ⟨queue, workers, main⟩ := ht
    obtain ⟨main', workers', queue'⟩ := step_joined main (by rwa [workers]) (by rwa [queue]) hstep
    exact ⟨queue'.trans queue, workers'.trans workers, main'.trans main⟩

theorem freed_unused_reusedDescriptor :
    ∃ s, perform (step 1 5 ['.']) (start 1) reusedDescriptor = some s ∧
      connectionQueueFree s.queue true true true = some 0 ∧
      ∀ s', Reaches (step 1 5 ['.']) s s' → s'.queue = s.queue := by
  obtain ⟨s, hs⟩ : ∃ s, perform (step 1 5 ['.']) (start 1) reusedDescriptor = some s := ⟨_, rfl⟩
  have run : Run (step 1 5 ['.']) (fun _ e => e.Succeeds) (start 1) s := by
    apply run_of_perform hs
    simp [reusedDescriptor, Event.Succeeds, Action.Succeeds]
  have joined : s.main = .joined := by
    cases hs
    rfl
  obtain ⟨_, _, untouched⟩ := freed_unused (by decide) (by decide) run joined
  refine ⟨s, hs, ?_, fun s' hrun => (untouched s' hrun).1⟩
  cases hs
  rfl

end Joined

end HttpServer

end UmnProjects.Server
