import UmnProjects.Foundations.Circular
import UmnProjects.Server.ConnectionQueue

/-!
What one step of a thread or of the shutdown can do, and what every run keeps:
mutual exclusion, the wait sets and the ring as a first-in first-out queue.
-/
namespace UmnProjects.Server
open Runs Circular

/-- The thread is between acquiring the mutex and releasing it. -/
def Thread.InSection : Thread → Prop
  | .testing _ | .flagTest _ | .entering _ | .updating _ => True
  | .signalling _ _ | .unlocking _ _ => True
  | _ => False

/-- What the call is about to return, once this is settled. -/
def Thread.result : Thread → Option (Call × Int)
  | .signalling c ret | .unlocking c ret | .returned c ret => some (c, ret)
  | _ => none

@[simp] theorem Thread.inSection_wake (p : Thread) : p.wake.InSection ↔ p.InSection := by
  cases p <;> rfl

@[simp] theorem Thread.result_wake (p : Thread) : p.wake.result = p.result := by
  cases p <;> rfl

@[simp] theorem Thread.wake_eq_updating (p : Thread) (c : Call) :
    p.wake = .updating c ↔ p = .updating c := by
  cases p <;> simp [Thread.wake]

@[simp] theorem Thread.wake_eq_entering (p : Thread) (c : Call) :
    p.wake = .entering c ↔ p = .entering c := by
  cases p <;> simp [Thread.wake]

theorem Thread.wake_ne_waiting (p : Thread) (c : Call) : p.wake ≠ .waiting c := by
  cases p <;> simp [Thread.wake]

section Goto

variable (s : State) (t : ThreadId) (p : Thread)

@[simp] theorem State.goto_threads_self : (s.goto t p).threads t = p := by
  simp [State.goto]

@[simp] theorem State.goto_threads_of_ne {u : ThreadId} (h : u ≠ t) :
    (s.goto t p).threads u = s.threads u := by
  simp [State.goto, h]

@[simp] theorem State.goto_ring : (s.goto t p).ring = s.ring := rfl
@[simp] theorem State.goto_shutdown : (s.goto t p).shutdown = s.shutdown := rfl
@[simp] theorem State.goto_mutex : (s.goto t p).mutex = s.mutex := rfl
@[simp] theorem State.goto_waitSet : (s.goto t p).waitSet = s.waitSet := rfl
@[simp] theorem State.goto_closing : (s.goto t p).closing = s.closing := rfl
@[simp] theorem State.goto_enqueued : (s.goto t p).enqueued = s.enqueued := rfl
@[simp] theorem State.goto_dequeued : (s.goto t p).dequeued = s.dequeued := rfl

end Goto

section Wake

variable (s : State) (k : Cond) (chosen : List ThreadId)

@[simp] theorem State.wake_ring : (s.wake k chosen).ring = s.ring := rfl
@[simp] theorem State.wake_shutdown : (s.wake k chosen).shutdown = s.shutdown := rfl
@[simp] theorem State.wake_mutex : (s.wake k chosen).mutex = s.mutex := rfl
@[simp] theorem State.wake_closing : (s.wake k chosen).closing = s.closing := rfl
@[simp] theorem State.wake_enqueued : (s.wake k chosen).enqueued = s.enqueued := rfl
@[simp] theorem State.wake_dequeued : (s.wake k chosen).dequeued = s.dequeued := rfl

theorem State.wake_threads (u : ThreadId) :
    (s.wake k chosen).threads u = if u ∈ chosen then (s.threads u).wake else s.threads u := rfl

theorem State.mem_wake_waitSet (k' : Cond) (u : ThreadId) :
    u ∈ (s.wake k chosen).waitSet k' ↔ u ∈ s.waitSet k' ∧ (k' = k → u ∉ chosen) := by
  by_cases hk : k' = k
  · subst hk
    simp [State.wake]
  · simp [State.wake, hk]

/-- Waking changes only what a waiting thread shows. -/
theorem State.wake_cases (u : ThreadId) :
    (s.wake k chosen).threads u = s.threads u ∨
      (s.wake k chosen).threads u = (s.threads u).wake := by
  rw [State.wake_threads]
  by_cases h : u ∈ chosen
  · simp [h]
  · simp [h]

end Wake

/-- The steps of the system, one constructor for each way a branch can end. -/
inductive Effect (CAPACITY : Nat) (s : State) : Action → State → Prop where
  | call (t : ThreadId) (c : Call)
      (ready : s.threads t = .idle ∨ ∃ c' ret, s.threads t = .returned c' ret) :
      Effect CAPACITY s (.call t c) (s.goto t (.locking c))
  | lock (t : ThreadId) (c : Call) (pc : s.threads t = .locking c) (free : s.mutex = none) :
      Effect CAPACITY s (.lock t true) { s.goto t (.testing c) with mutex := some t }
  | lockFailed (t : ThreadId) (c : Call) (pc : s.threads t = .locking c) :
      Effect CAPACITY s (.lock t false) (s.goto t (.returned c (-1)))
  | blocked (t : ThreadId) (c : Call) (pc : s.threads t = .testing c)
      (test : c.blocked CAPACITY s.ring = true) :
      Effect CAPACITY s (.test t) (s.goto t (.flagTest c))
  | passed (t : ThreadId) (c : Call) (pc : s.threads t = .testing c)
      (test : c.blocked CAPACITY s.ring = false) :
      Effect CAPACITY s (.test t) (s.goto t (.updating c))
  | turnedAway (t : ThreadId) (c : Call) (pc : s.threads t = .flagTest c)
      (flag : s.shutdown = 1) :
      Effect CAPACITY s (.readFlag t) (s.goto t (.unlocking c (-1)))
  | stayed (t : ThreadId) (c : Call) (pc : s.threads t = .flagTest c)
      (flag : s.shutdown ≠ 1) :
      Effect CAPACITY s (.readFlag t) (s.goto t (.entering c))
  | wait (t : ThreadId) (c : Call) (pc : s.threads t = .entering c) :
      Effect CAPACITY s (.wait t true)
        { s.goto t (.waiting c) with
          mutex := none
          waitSet := fun k =>
            if k = c.waitsOn then s.waitSet k ++ [t] else s.waitSet k }
  | waitFailed (t : ThreadId) (c : Call) (pc : s.threads t = .entering c) :
      Effect CAPACITY s (.wait t false) (s.goto t (.unlocking c (-1)))
  | wakeup (t : ThreadId) (c : Call) (pc : s.threads t = .waiting c) :
      Effect CAPACITY s (.wakeup t) (s.wake c.waitsOn [t])
  | relock (t : ThreadId) (c : Call) (pc : s.threads t = .woken c) (free : s.mutex = none) :
      Effect CAPACITY s (.relock t) { s.goto t (.testing c) with mutex := some t }
  | update (t : ThreadId) (c : Call) (pc : s.threads t = .updating c) :
      Effect CAPACITY s (.update t)
        { (s.record t (c.update CAPACITY s.ring).1 c).goto t
            (.signalling c (c.update CAPACITY s.ring).1) with
          ring := (c.update CAPACITY s.ring).2 }
  | signal (t : ThreadId) (c : Call) (ret : Int) (chosen : List ThreadId)
      (pc : s.threads t = .signalling c ret)
      (waiters : ∀ u ∈ chosen, u ∈ s.waitSet c.signals)
      (some : chosen = [] → s.waitSet c.signals = []) :
      Effect CAPACITY s (.signal t true chosen)
        ((s.wake c.signals chosen).goto t (.unlocking c ret))
  | signalFailed (t : ThreadId) (c : Call) (ret : Int) (chosen : List ThreadId)
      (pc : s.threads t = .signalling c ret) :
      Effect CAPACITY s (.signal t false chosen) (s.goto t (.unlocking c (-1)))
  | unlock (t : ThreadId) (c : Call) (ret : Int) (pc : s.threads t = .unlocking c ret) :
      Effect CAPACITY s (.unlock t true) { s.goto t (.returned c ret) with mutex := none }
  | unlockFailed (t : ThreadId) (c : Call) (ret : Int) (pc : s.threads t = .unlocking c ret) :
      Effect CAPACITY s (.unlock t false) (s.goto t (.returned c (-1)))
  | setFlag (pc : s.closing = .notCalled) :
      Effect CAPACITY s .setFlag { s with shutdown := 1, closing := .flagSet }
  | broadcastEmpty (pc : s.closing = .flagSet) :
      Effect CAPACITY s (.broadcastEmpty true)
        { s.wake .empty (s.waitSet .empty) with closing := .emptyBroadcast 0 }
  | broadcastEmptyFailed (pc : s.closing = .flagSet) :
      Effect CAPACITY s (.broadcastEmpty false) { s with closing := .emptyBroadcast (-1) }
  | broadcastFull (retVal : Int) (pc : s.closing = .emptyBroadcast retVal) :
      Effect CAPACITY s (.broadcastFull true)
        { s.wake .full (s.waitSet .full) with closing := .returned retVal }
  | broadcastFullFailed (retVal : Int) (pc : s.closing = .emptyBroadcast retVal) :
      Effect CAPACITY s (.broadcastFull false) { s with closing := .returned (-1) }

theorem effect_of_step {CAPACITY : Nat} {s s' : State} {a : Action}
    (h : step CAPACITY s a = some s') : Effect CAPACITY s a s' := by
  cases a with
  | call t c =>
      simp only [step] at h
      split at h
      · case h_1 pc => cases h; exact .call t c (.inl pc)
      · case h_2 c' ret pc => cases h; exact .call t c (.inr ⟨c', ret, pc⟩)
      · cases h
  | lock t ok =>
      simp only [step] at h
      split at h
      · case h_1 c pc =>
          cases ok with
          | true =>
              by_cases free : s.mutex = none
              · simp only [if_true, if_pos free, Option.some.injEq] at h
                exact h ▸ .lock t c pc free
              · simp [free] at h
          | false => cases h; exact .lockFailed t c pc
      · cases h
  | test t =>
      simp only [step] at h
      split at h
      · case h_1 c pc =>
          cases test : c.blocked CAPACITY s.ring with
          | true => simp only [test] at h; cases h; exact .blocked t c pc test
          | false => simp only [test] at h; cases h; exact .passed t c pc test
      · cases h
  | readFlag t =>
      simp only [step] at h
      split at h
      · case h_1 c pc =>
          by_cases flag : s.shutdown = 1
          · simp only [if_pos flag, Option.some.injEq] at h
            exact h ▸ .turnedAway t c pc flag
          · simp only [if_neg flag, Option.some.injEq] at h
            exact h ▸ .stayed t c pc flag
      · cases h
  | wait t ok =>
      simp only [step] at h
      split at h
      · case h_1 c pc =>
          cases ok with
          | true => cases h; exact .wait t c pc
          | false => cases h; exact .waitFailed t c pc
      · cases h
  | wakeup t =>
      simp only [step] at h
      split at h
      · case h_1 c pc => cases h; exact .wakeup t c pc
      · cases h
  | relock t =>
      simp only [step] at h
      split at h
      · case h_1 c pc =>
          by_cases free : s.mutex = none
          · simp only [if_pos free, Option.some.injEq] at h
            exact h ▸ .relock t c pc free
          · simp [free] at h
      · cases h
  | update t =>
      simp only [step] at h
      split at h
      · case h_1 c pc => cases h; exact .update t c pc
      · cases h
  | signal t ok chosen =>
      simp only [step] at h
      split at h
      · case h_1 c ret pc =>
          cases ok with
          | true =>
              simp only [if_true] at h
              split at h
              · case isTrue hc => cases h; exact .signal t c ret chosen pc hc.1 hc.2
              · cases h
          | false => cases h; exact .signalFailed t c ret chosen pc
      · cases h
  | unlock t ok =>
      simp only [step] at h
      split at h
      · case h_1 c ret pc =>
          cases ok with
          | true => cases h; exact .unlock t c ret pc
          | false => cases h; exact .unlockFailed t c ret pc
      · cases h
  | setFlag =>
      simp only [step] at h
      split at h
      · case h_1 pc => cases h; exact .setFlag pc
      · cases h
  | broadcastEmpty ok =>
      simp only [step] at h
      split at h
      · case h_1 pc =>
          cases ok with
          | true => cases h; exact .broadcastEmpty pc
          | false => cases h; exact .broadcastEmptyFailed pc
      · cases h
  | broadcastFull ok =>
      simp only [step] at h
      split at h
      · case h_1 retVal pc =>
          cases ok with
          | true => cases h; exact .broadcastFull retVal pc
          | false => cases h; exact .broadcastFullFailed retVal pc
      · cases h

/-- The descriptors in the queue, oldest first. -/
def State.contents (CAPACITY : Nat) (s : State) : List Int :=
  Circular.contents s.ring.clientFds CAPACITY s.ring.readIdx s.ring.length.toNat

def Ring.Holds (CAPACITY : Nat) (r : Ring) (xs : List Int) : Prop :=
  Represents (CAPACITY : Int) r.clientFds r.length r.readIdx r.writeIdx xs

structure Inv (CAPACITY : Nat) (s : State) : Prop where
  holder : ∀ t, (s.threads t).InSection → s.mutex = some t
  waiters : ∀ t k, t ∈ s.waitSet k ↔ ∃ c, s.threads t = .waiting c ∧ c.waitsOn = k
  ready : ∀ t c, s.threads t = .updating c → c.blocked CAPACITY s.ring = false
  fifo : ∃ xs, s.ring.Holds CAPACITY xs ∧
    s.enqueued.map Prod.snd = s.dequeued.map Prod.snd ++ xs

namespace Inv

variable {CAPACITY : Nat} {s : State}

theorem init (h : 1 ≤ CAPACITY) : Inv CAPACITY connectionQueueInit where
  holder := by
    intro t ht
    exact ht.elim
  waiters := by
    intro t k
    simp [connectionQueueInit]
  ready := by
    intro t c ht
    cases ht
  fifo := ⟨[], Represents.empty _ (by omega), rfl⟩

theorem goto (h : Inv CAPACITY s) {t : ThreadId} {p : Thread}
    (before : ∀ c, s.threads t ≠ .waiting c) (after : ∀ c, p ≠ .waiting c)
    (inside : p.InSection → s.mutex = some t)
    (ready : ∀ c, p = .updating c → c.blocked CAPACITY s.ring = false) :
    Inv CAPACITY (s.goto t p) := by
  refine ⟨?_, ?_, ?_, h.fifo⟩
  · intro u hu
    by_cases hut : u = t
    · subst u
      exact inside (by simpa using hu)
    · exact h.holder u (by simpa [hut] using hu)
  · intro u k
    by_cases hut : u = t
    · subst u
      have hnot : t ∉ s.waitSet k := by
        intro hmem
        obtain ⟨c, hc, _⟩ := (h.waiters t k).mp hmem
        exact before c hc
      simp [hnot, after]
    · simpa [hut] using h.waiters u k
  · intro u c hu
    by_cases hut : u = t
    · subst u
      exact ready c (by simpa using hu)
    · exact h.ready u c (by simpa [hut] using hu)

theorem acquire (h : Inv CAPACITY s) (t : ThreadId) (free : s.mutex = none) :
    Inv CAPACITY { s with mutex := some t } := by
  refine ⟨?_, h.waiters, h.ready, h.fifo⟩
  intro u hu
  have hm := h.holder u hu
  rw [free] at hm
  cases hm

theorem release (h : Inv CAPACITY s) (out : ∀ u, ¬ (s.threads u).InSection) :
    Inv CAPACITY { s with mutex := none } := by
  refine ⟨?_, h.waiters, h.ready, h.fifo⟩
  intro u hu
  exact absurd hu (out u)

/-- While one thread is in its critical section no other is. -/
theorem alone (h : Inv CAPACITY s) {t u : ThreadId} (ht : (s.threads t).InSection)
    (hu : (s.threads u).InSection) : u = t := by
  have hm := h.holder t ht
  rw [h.holder u hu] at hm
  exact Option.some.inj hm

theorem out_after (h : Inv CAPACITY s) {t : ThreadId} (ht : (s.threads t).InSection)
    {p : Thread} (hp : ¬ p.InSection) (u : ThreadId) :
    ¬ ((s.goto t p).threads u).InSection := by
  by_cases hut : u = t
  · subst u
    simpa using hp
  · intro hu
    exact hut (h.alone ht (by simpa [hut] using hu))

theorem sleep (h : Inv CAPACITY s) {t : ThreadId} {c : Call}
    (pc : s.threads t = .entering c) :
    Inv CAPACITY { s.goto t (.waiting c) with
      mutex := none
      waitSet := fun k => if k = c.waitsOn then s.waitSet k ++ [t] else s.waitSet k } := by
  have inside : (s.threads t).InSection := by simp [pc, Thread.InSection]
  have out := h.out_after inside (p := .waiting c) (by simp [Thread.InSection])
  refine ⟨?_, ?_, ?_, h.fifo⟩
  · intro u hu
    exact absurd hu (out u)
  · intro u k
    have hw := h.waiters u k
    by_cases hut : u = t
    · subst u
      by_cases hk : k = c.waitsOn
      · simp [hk]
      · simp [pc] at hw
        simp [hk, hw, Ne.symm hk]
    · by_cases hk : k = c.waitsOn
      · simpa [hk, hut] using hk ▸ hw
      · simpa [hk, hut] using hw
  · intro u c' hu
    have hsec : ((s.goto t (.waiting c)).threads u).InSection := by
      rw [show (s.goto t (.waiting c)).threads u = .updating c' from hu]
      trivial
    exact absurd hsec (out u)

theorem wake (h : Inv CAPACITY s) {k : Cond} {chosen : List ThreadId}
    (sub : ∀ u ∈ chosen, u ∈ s.waitSet k) : Inv CAPACITY (s.wake k chosen) := by
  refine ⟨?_, ?_, ?_, h.fifo⟩
  · intro u hu
    obtain hp | hp := s.wake_cases k chosen u
    · exact h.holder u (hp ▸ hu)
    · exact h.holder u (by simpa [hp] using hu)
  · intro u k'
    have hw := h.waiters u k'
    rw [s.mem_wake_waitSet, s.wake_threads]
    by_cases hu : u ∈ chosen
    · obtain ⟨c, hc, hck⟩ := (h.waiters u k).mp (sub u hu)
      simp only [hu, if_true, Thread.wake_ne_waiting, false_and, exists_false, iff_false,
        not_true, imp_false, not_and, not_not]
      intro hk'
      obtain ⟨c', hc', hck'⟩ := hw.mp hk'
      rw [hc] at hc'
      cases hc'
      exact hck'.symm.trans hck
    · simpa [hu] using hw
  · intro u c hu
    obtain hp | hp := s.wake_cases k chosen u
    · exact h.ready u c (hp ▸ hu)
    · exact h.ready u c (by simpa [hp] using hu)

theorem close (h : Inv CAPACITY s) (flag : Int) (p : Shutdown) :
    Inv CAPACITY { s with shutdown := flag, closing := p } :=
  ⟨h.holder, h.waiters, h.ready, h.fifo⟩

theorem nextIndex_eq {index : Int} (h0 : 0 ≤ index) (h1 : index < CAPACITY) :
    nextIndex CAPACITY index = (index + 1) % CAPACITY :=
  (succ_emod h0 h1).symm

/-- The one change of the ring is a step of the abstract queue. -/
theorem update_fifo (h : Inv CAPACITY s) (t : ThreadId) {c : Call}
    (room : c.blocked CAPACITY s.ring = false) :
    ∃ xs, (c.update CAPACITY s.ring).2.Holds CAPACITY xs ∧
      (s.record t (c.update CAPACITY s.ring).1 c).enqueued.map Prod.snd =
        (s.record t (c.update CAPACITY s.ring).1 c).dequeued.map Prod.snd ++ xs := by
  obtain ⟨xs, hring, hlog⟩ := h.fifo
  cases c with
  | enqueue connectionFd =>
      have hne : s.ring.length ≠ CAPACITY := by simpa [Call.blocked] using room
      refine ⟨xs ++ [connectionFd], ?_, ?_⟩
      · have hpush := hring.push connectionFd hne
        rw [← nextIndex_eq hring.write_bounds.1 hring.write_bounds.2] at hpush
        exact hpush
      · simp [State.record, hlog]
  | dequeue =>
      have hne : s.ring.length ≠ 0 := by simpa [Call.blocked] using room
      obtain ⟨rest, hxs, hpop⟩ := hring.pop hne
      refine ⟨rest, ?_, ?_⟩
      · rw [← nextIndex_eq hring.read_nonneg hring.read_lt] at hpop
        exact hpop
      · simp [State.record, Call.update, hlog, hxs]

@[simp] theorem record_threads (s : State) (t : ThreadId) (ret : Int) (c : Call) :
    (s.record t ret c).threads = s.threads := by
  cases c <;> rfl

@[simp] theorem record_mutex (s : State) (t : ThreadId) (ret : Int) (c : Call) :
    (s.record t ret c).mutex = s.mutex := by
  cases c <;> rfl

@[simp] theorem record_waitSet (s : State) (t : ThreadId) (ret : Int) (c : Call) :
    (s.record t ret c).waitSet = s.waitSet := by
  cases c <;> rfl

theorem update (h : Inv CAPACITY s) {t : ThreadId} {c : Call}
    (pc : s.threads t = .updating c) :
    Inv CAPACITY { (s.record t (c.update CAPACITY s.ring).1 c).goto t
        (.signalling c (c.update CAPACITY s.ring).1) with
      ring := (c.update CAPACITY s.ring).2 } := by
  have inside : (s.threads t).InSection := by simp [pc, Thread.InSection]
  have mutex := h.holder t inside
  refine ⟨?_, ?_, ?_, h.update_fifo t (h.ready t c pc)⟩
  · intro u hu
    by_cases hut : u = t
    · subst u
      simpa using mutex
    · simpa using h.holder u (by simpa [hut] using hu)
  · intro u k
    have hw := h.waiters u k
    by_cases hut : u = t
    · subst u
      simpa [pc] using hw
    · simpa [hut] using hw
  · intro u c' hu
    by_cases hut : u = t
    · subst u
      simp at hu
    · have hu' : s.threads u = .updating c' := by simpa [hut] using hu
      exact absurd (h.alone inside (by simp [hu', Thread.InSection])) hut

theorem step {s' : State} {a : Action} (hs : step CAPACITY s a = some s')
    (h : Inv CAPACITY s) : Inv CAPACITY s' := by
  cases effect_of_step hs with
  | call t c ready =>
      apply h.goto
      · intro c' hc
        obtain hi | ⟨c'', ret, hr⟩ := ready
        · simp [hi] at hc
        · simp [hr] at hc
      all_goals simp [Thread.InSection]
  | lock t c pc free | relock t c pc free =>
      exact (h.acquire t free).goto (by simp [pc]) (by simp) (by simp) (by simp)
  | lockFailed t c pc =>
      exact h.goto (by simp [pc]) (by simp) (by simp [Thread.InSection]) (by simp)
  | blocked t c pc _ | stayed t c pc _ | turnedAway t c pc _ | waitFailed t c pc =>
      have mutex := h.holder t (by simp [pc, Thread.InSection])
      exact h.goto (by simp [pc]) (by simp) (fun _ => mutex) (by simp)
  | passed t c pc test =>
      have mutex := h.holder t (by simp [pc, Thread.InSection])
      refine h.goto (by simp [pc]) (by simp) (fun _ => mutex) ?_
      intro c' hc
      cases hc
      exact test
  | wait t c pc => exact h.sleep pc
  | wakeup t c pc =>
      apply h.wake
      intro u hu
      rw [List.mem_singleton.mp hu]
      exact (h.waiters t _).mpr ⟨c, pc, rfl⟩
  | update t c pc => exact h.update pc
  | signal t c ret chosen pc waiters _ =>
      have mutex := h.holder t (by simp [pc, Thread.InSection])
      refine (h.wake waiters).goto ?_ (by simp) (fun _ => mutex) (by simp)
      intro c'
      obtain hp | hp := s.wake_cases c.signals chosen t
      · simp [hp, pc]
      · simp [hp, pc, Thread.wake]
  | signalFailed t c ret chosen pc =>
      have mutex := h.holder t (by simp [pc, Thread.InSection])
      exact h.goto (by simp [pc]) (by simp) (fun _ => mutex) (by simp)
  | unlock t c ret pc =>
      have inside : (s.threads t).InSection := by simp [pc, Thread.InSection]
      refine Inv.release (s := s.goto t (.returned c ret)) ?_ ?_
      · exact h.goto (by simp [pc]) (by simp) (by simp [Thread.InSection]) (by simp)
      · exact h.out_after inside (by simp [Thread.InSection])
  | unlockFailed t c ret pc =>
      exact h.goto (by simp [pc]) (by simp) (by simp [Thread.InSection]) (by simp)
  | setFlag pc => exact h.close 1 .flagSet
  | broadcastEmpty pc => exact (h.wake fun _ hu => hu).close _ _
  | broadcastEmptyFailed pc => exact h.close s.shutdown _
  | broadcastFull retVal pc => exact (h.wake fun _ hu => hu).close _ _
  | broadcastFullFailed retVal pc => exact h.close s.shutdown _

/-- The invariant holds in every state of every run, whatever the pthread calls report. -/
theorem of_run {ok : State → Action → Prop} (hc : 1 ≤ CAPACITY)
    (h : Run (Server.step CAPACITY) ok connectionQueueInit s) : Inv CAPACITY s :=
  h.invariant (fun _ _ _ _ hs hi => hi.step hs) (Inv.init hc)

end Inv

end UmnProjects.Server
