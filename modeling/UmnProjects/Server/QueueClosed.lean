import UmnProjects.Server.QueueOrder

/-!
Calls made after `connection_queue_shutdown` has returned. The flag is looked at only inside
the waiting loops, so the ring decides at the test of the `while` condition whether such a
call is turned away.
-/
namespace UmnProjects.Server
open Runs

/-- The thread that takes the step; the shutdown runs in none of them. -/
def Action.actor : Action → Option ThreadId
  | .call t _ | .lock t _ | .test t | .readFlag t | .wait t _ | .wakeup t => some t
  | .relock t | .update t | .signal t _ _ | .unlock t _ => some t
  | .setFlag | .broadcastEmpty _ | .broadcastFull _ => none

/-- Steps while thread `t` is in one call. -/
def DuringCall (t : ThreadId) (_ : State) (a : Action) : Prop := ∀ c, a ≠ .call t c

/-- Steps while thread `t` is in one call of `c`, which finds its `while` condition true
whenever it tests it. -/
def Refusing (CAPACITY : Nat) (t : ThreadId) (c : Call) (s : State) (a : Action) : Prop :=
  (∀ c', a ≠ .call t c') ∧ (a = .test t → c.blocked CAPACITY s.ring = true)

/-- Once the shutdown has begun the flag is up, whatever the pthread calls report. -/
theorem flag_of_run {CAPACITY : Nat} {s : State}
    (h : Reaches (step CAPACITY) connectionQueueInit s) :
    s.closing ≠ .notCalled → s.shutdown = 1 := by
  refine h.invariant (I := fun s => s.closing ≠ .notCalled → s.shutdown = 1) ?_
    (fun hclosing => absurd rfl hclosing)
  intro s a s' _ hs hflag
  cases effect_of_step hs with
  | setFlag pc => exact fun _ => rfl
  | broadcastEmpty pc | broadcastEmptyFailed pc => exact fun _ => hflag (by simp [pc])
  | broadcastFull ret pc | broadcastFullFailed ret pc => exact fun _ => hflag (by simp [pc])
  | update t c pc =>
      cases c with
      | enqueue _ | dequeue => exact hflag
  | _ => exact hflag

/-- What a step of somebody else leaves of a thread. -/
structure Aside (s s' : State) (t : ThreadId) : Prop where
  point : s'.threads t = s.threads t ∨ s'.threads t = (s.threads t).wake
  enqueuedBy : s'.enqueuedBy t = s.enqueuedBy t
  dequeuedBy : s'.dequeuedBy t = s.dequeuedBy t

theorem aside_goto (s : State) {t u : ThreadId} (p : Thread) (h : t ≠ u) :
    Aside s (s.goto u p) t :=
  ⟨.inl (by simp [h]), rfl, rfl⟩

theorem aside_wake (s : State) (k : Cond) (chosen : List ThreadId) (t : ThreadId) :
    Aside s (s.wake k chosen) t :=
  ⟨s.wake_cases k chosen t, rfl, rfl⟩

theorem aside_of_step {CAPACITY : Nat} {s s' : State} {a : Action} {t : ThreadId}
    (hs : step CAPACITY s a = some s') (other : a.actor ≠ some t) : Aside s s' t := by
  cases effect_of_step hs with
  | call u c _ | lockFailed u c _ | blocked u c _ _ | passed u c _ _ | turnedAway u c _ _
  | stayed u c _ _ | waitFailed u c _ | signalFailed u c ret chosen _ | unlockFailed u c ret _ =>
      exact aside_goto s _ fun h => other (by rw [h]; rfl)
  | lock u c _ _ | relock u c _ _ =>
      have hne : t ≠ u := fun h => other (by rw [h]; rfl)
      exact ⟨(aside_goto s (.testing c) hne).point, rfl, rfl⟩
  | wait u c _ =>
      have hne : t ≠ u := fun h => other (by rw [h]; rfl)
      exact ⟨(aside_goto s (.waiting c) hne).point, rfl, rfl⟩
  | unlock u c ret _ =>
      have hne : t ≠ u := fun h => other (by rw [h]; rfl)
      exact ⟨(aside_goto s (.returned c ret) hne).point, rfl, rfl⟩
  | wakeup u c _ => exact aside_wake s _ _ t
  | update u c _ =>
      have hne : t ≠ u := fun h => other (by rw [h]; rfl)
      have hframe := frame_record s (c.update CAPACITY s.ring).1 c hne
      exact ⟨.inl (by simp [hne]), hframe.enqueuedBy, hframe.dequeuedBy⟩
  | signal u c ret chosen _ _ _ =>
      have hne : t ≠ u := fun h => other (by rw [h]; rfl)
      refine ⟨?_, rfl, rfl⟩
      simpa [hne] using s.wake_cases c.signals chosen t
  | broadcastEmpty _ => exact ⟨s.wake_cases .empty _ t, rfl, rfl⟩
  | broadcastFull _ _ => exact ⟨s.wake_cases .full _ t, rfl, rfl⟩
  | setFlag _ | broadcastEmptyFailed _ | broadcastFullFailed _ _ => exact ⟨.inl rfl, rfl, rfl⟩

/-! ### Calls that are turned away -/

/-- The points of a call that is turned away. -/
def Thread.Turned (c : Call) (p : Thread) : Prop :=
  p = .locking c ∨ p = .testing c ∨ p = .flagTest c ∨ p = .unlocking c (-1) ∨ p = .returned c (-1)

structure Turned (s₀ : State) (t : ThreadId) (c : Call) (s : State) : Prop where
  point : (s.threads t).Turned c
  untouched : Untouched s₀ s t
  flag : s.shutdown = 1

theorem Thread.Turned.wake {c : Call} {p : Thread} (h : p.Turned c) : p.wake = p := by
  obtain rfl | rfl | rfl | rfl | rfl := h <;> rfl

theorem Turned.aside {s₀ s s' : State} {t : ThreadId} {c : Call} (h : Turned s₀ t c s)
    (aside : Aside s s' t) (flag : s'.shutdown = 1) : Turned s₀ t c s' := by
  have point : s'.threads t = s.threads t := by
    obtain hp | hp := aside.point
    · exact hp
    · rw [hp, h.point.wake]
  refine ⟨?_, ?_, flag⟩
  · rw [point]
    exact h.point
  · simpa only [Untouched, aside.enqueuedBy, aside.dequeuedBy] using h.untouched

/-- A thread moves on in its call without touching the queue. -/
theorem Turned.goto {s₀ s s' : State} {t : ThreadId} {c : Call} (h : Turned s₀ t c s) {p : Thread}
    (point : s'.threads t = p) (hp : p.Turned c) (enqueued : s'.enqueued = s.enqueued)
    (dequeued : s'.dequeued = s.dequeued) (flag : s'.shutdown = s.shutdown) :
    Turned s₀ t c s' := by
  refine ⟨?_, ?_, ?_⟩
  · rw [point]
    exact hp
  · have htouched := h.untouched
    simpa only [Untouched, State.enqueuedBy, State.dequeuedBy, enqueued, dequeued] using htouched
  · rw [flag]
    exact h.flag

theorem Turned.step {CAPACITY : Nat} {s₀ s s' : State} {t : ThreadId} {c : Call} {a : Action}
    (h : Turned s₀ t c s) (refusing : Refusing CAPACITY t c s a)
    (hs : Server.step CAPACITY s a = some s') : Turned s₀ t c s' := by
  by_cases own : a.actor = some t
  · have point := h.point
    cases effect_of_step hs with
    | call u c' _ =>
        cases own
        exact absurd rfl (refusing.1 c')
    | lock u c' pc _ | lockFailed u c' pc | unlock u c' ret pc | unlockFailed u c' ret pc =>
        cases own
        simp only [pc, Thread.Turned, Thread.locking.injEq, Thread.unlocking.injEq, reduceCtorEq,
          or_false, false_or] at point
        refine h.goto (State.goto_threads_self s t _) ?_ rfl rfl rfl
        simp [Thread.Turned, point]
    | blocked u c' pc _ | turnedAway u c' pc _ =>
        cases own
        simp only [pc, Thread.Turned, Thread.testing.injEq, Thread.flagTest.injEq, reduceCtorEq,
          or_false, false_or] at point
        refine h.goto (State.goto_threads_self s t _) ?_ rfl rfl rfl
        simp [Thread.Turned, point]
    | passed u c' pc test =>
        cases own
        simp only [pc, Thread.Turned, Thread.testing.injEq, reduceCtorEq, or_false,
          false_or] at point
        rw [point, refusing.2 rfl] at test
        cases test
    | stayed u c' pc flag => exact absurd h.flag flag
    | wait u c' pc | waitFailed u c' pc | wakeup u c' pc | relock u c' pc _ | update u c' pc
    | signal u c' ret chosen pc _ _ | signalFailed u c' ret chosen pc =>
        cases own
        simp [pc, Thread.Turned] at point
    | setFlag _ | broadcastEmpty _ | broadcastEmptyFailed _ | broadcastFull _ _
    | broadcastFullFailed _ _ => cases own
  · exact h.aside (aside_of_step hs own) ((shutdown_of_step hs).1 h.flag)

/-! ### Calls that go through -/

/-- The number of descriptors a thread has put in and taken out. -/
def State.handled (s : State) (t : ThreadId) : Nat :=
  (s.enqueuedBy t).length + (s.dequeuedBy t).length

/-- The points of a call past its update of the ring. -/
def Thread.Updated (c : Call) (p : Thread) : Prop :=
  ∃ ret, p = .signalling c ret ∨ p = .unlocking c ret ∨ p = .returned c ret

/-- A call that has passed its test and is bound to change the queue, or has done so. -/
def Acting (s₀ : State) (t : ThreadId) (c : Call) (s : State) : Prop :=
  s.threads t = .updating c ∧ s.handled t = s₀.handled t ∨
    (s.threads t).Updated c ∧ s.handled t = s₀.handled t + 1

theorem Thread.Updated.wake {c : Call} {p : Thread} (h : p.Updated c) : p.wake = p := by
  obtain ⟨ret, rfl | rfl | rfl⟩ := h <;> rfl

theorem Acting.aside {s₀ s s' : State} {t : ThreadId} {c : Call} (h : Acting s₀ t c s)
    (aside : Aside s s' t) : Acting s₀ t c s' := by
  have point : s'.threads t = s.threads t := by
    obtain hp | hp := aside.point
    · exact hp
    · obtain ⟨hup, _⟩ | ⟨hup, _⟩ := h
      · rw [hp, hup]
        rfl
      · rw [hp, hup.wake]
  simpa only [Acting, State.handled, point, aside.enqueuedBy, aside.dequeuedBy] using h

/-- A call past its update goes on without touching the queue. -/
theorem Acting.goto {s₀ s s' : State} {t : ThreadId} {c c' : Call} (h : Acting s₀ t c s)
    {ret ret' : Int} {q p : Thread} (pc : s.threads t = q)
    (hq : q = .signalling c' ret ∨ q = .unlocking c' ret) (point : s'.threads t = p)
    (hp : p = .unlocking c' ret' ∨ p = .returned c' ret') (enqueued : s'.enqueued = s.enqueued)
    (dequeued : s'.dequeued = s.dequeued) : Acting s₀ t c s' := by
  obtain ⟨hup, _⟩ | ⟨hup, hhandled⟩ := h
  · rw [pc] at hup
    obtain rfl | rfl := hq <;> cases hup
  · refine .inr ⟨⟨ret', ?_⟩, ?_⟩
    · rw [point]
      obtain ⟨_, hup | hup | hup⟩ := hup <;> rw [pc] at hup <;> obtain rfl | rfl := hq <;>
        cases hup <;> exact .inr hp
    · simpa only [State.handled, State.enqueuedBy, State.dequeuedBy, enqueued, dequeued]
        using hhandled

/-- The update handles one descriptor. -/
theorem handled_update (CAPACITY : Nat) (s : State) (t : ThreadId) (c : Call) :
    (s.record t (c.update CAPACITY s.ring).1 c).handled t = s.handled t + 1 := by
  cases c with
  | enqueue connectionFd =>
      simp [State.handled, State.enqueuedBy, State.dequeuedBy, State.record]
      omega
  | dequeue =>
      simp [State.handled, State.enqueuedBy, State.dequeuedBy, State.record]
      omega

theorem Acting.step {CAPACITY : Nat} {s₀ s s' : State} {t : ThreadId} {c : Call} {a : Action}
    (h : Acting s₀ t c s) (during : DuringCall t s a)
    (hs : Server.step CAPACITY s a = some s') : Acting s₀ t c s' := by
  by_cases own : a.actor = some t
  · cases effect_of_step hs with
    | call u c' _ =>
        cases own
        exact absurd rfl (during c')
    | update u c' pc =>
        cases own
        obtain ⟨hup, hhandled⟩ | ⟨⟨_, hup⟩, _⟩ := h
        · rw [pc] at hup
          cases hup
          refine .inr ⟨⟨_, .inl (State.goto_threads_self _ t _)⟩, ?_⟩
          rw [← hhandled, ← handled_update CAPACITY s t c]
          rfl
        · rw [pc] at hup
          simp at hup
    | signal u c' ret chosen pc _ _ =>
        cases own
        exact h.goto pc (.inl rfl) (State.goto_threads_self _ t _) (.inl rfl) rfl rfl
    | signalFailed u c' ret chosen pc =>
        cases own
        exact h.goto pc (.inl rfl) (State.goto_threads_self _ t _) (.inl rfl) rfl rfl
    | unlock u c' ret pc =>
        cases own
        exact h.goto pc (.inr rfl) (State.goto_threads_self s t _) (.inr rfl) rfl rfl
    | unlockFailed u c' ret pc =>
        cases own
        exact h.goto pc (.inr rfl) (State.goto_threads_self s t _) (.inr rfl) rfl rfl
    | lock u c' pc _ | lockFailed u c' pc | blocked u c' pc _ | passed u c' pc _
    | turnedAway u c' pc _ | stayed u c' pc _ | wait u c' pc | waitFailed u c' pc
    | wakeup u c' pc | relock u c' pc _ =>
        cases own
        obtain ⟨hup, _⟩ | ⟨⟨_, hup⟩, _⟩ := h
        · rw [pc] at hup
          cases hup
        · rw [pc] at hup
          simp at hup
    | setFlag _ | broadcastEmpty _ | broadcastEmptyFailed _ | broadcastFull _ _
    | broadcastFullFailed _ _ => cases own
  · exact h.aside (aside_of_step hs own)

/-- A call that finds its `while` condition false is bound to change the queue. -/
theorem Turned.acting {CAPACITY : Nat} {s₀ s s' : State} {t : ThreadId} {c : Call}
    (h : Turned s₀ t c s) (hs : Server.step CAPACITY s (.test t) = some s')
    (room : c.blocked CAPACITY s.ring = false) : Acting s₀ t c s' := by
  have point := h.point
  cases effect_of_step hs with
  | blocked _ c' pc test =>
      simp only [pc, Thread.Turned, Thread.testing.injEq, reduceCtorEq, or_false,
        false_or] at point
      rw [point, room] at test
      cases test
  | passed _ c' pc test =>
      simp only [pc, Thread.Turned, Thread.testing.injEq, reduceCtorEq, or_false,
        false_or] at point
      refine .inl ⟨by rw [point]; exact State.goto_threads_self s t _, ?_⟩
      have henqueued := congrArg List.length h.untouched.1
      have hdequeued := congrArg List.length h.untouched.2
      change s.handled t = s₀.handled t
      simp only [State.handled]
      omega

/-- A later call is turned away or goes through. -/
theorem later_step {CAPACITY : Nat} {s₀ s s' : State} {t : ThreadId} {c : Call} {a : Action}
    (h : Turned s₀ t c s ∨ Acting s₀ t c s) (during : DuringCall t s a)
    (hs : Server.step CAPACITY s a = some s') : Turned s₀ t c s' ∨ Acting s₀ t c s' := by
  obtain h | h := h
  · by_cases passes : a = .test t ∧ c.blocked CAPACITY s.ring = false
    · obtain ⟨rfl, room⟩ := passes
      exact .inr (h.acting hs room)
    · refine .inl (h.step ⟨during, ?_⟩ hs)
      intro test
      cases blocked : c.blocked CAPACITY s.ring with
      | true => rfl
      | false => exact absurd ⟨test, blocked⟩ passes
  · exact .inr (h.step during hs)

/-! ### Calls come to an end -/

/-- Steps of one thread inside its call, the pthread calls succeeding. -/
def Completing (t : ThreadId) (_ : State) (a : Action) : Prop :=
  a.Succeeds ∧ a.actor = some t ∧ ∀ c, a ≠ .call t c

/-- On its own the thread releases the mutex and returns from its call. -/
def Leaves (CAPACITY : Nat) (t : ThreadId) (c : Call) (s : State) : Prop :=
  ∃ s' ret, Run (step CAPACITY) (Completing t) s s' ∧ s'.mutex = none ∧
    s'.threads t = .returned c ret

section Leaving

variable {CAPACITY : Nat} {t : ThreadId} {c : Call} {s : State}

theorem Leaves.of_step {s' : State} {a : Action} (hs : step CAPACITY s a = some s')
    (own : Completing t s a) (h : Leaves CAPACITY t c s') : Leaves CAPACITY t c s := by
  obtain ⟨s'', ret, run, hmutex, hreturned⟩ := h
  exact ⟨s'', ret, (Run.refl.tail own hs).trans run, hmutex, hreturned⟩

theorem leaves_unlocking {ret : Int} (pc : s.threads t = .unlocking c ret) :
    Leaves CAPACITY t c s := by
  have hs : step CAPACITY s (.unlock t true) =
      some { s.goto t (.returned c ret) with mutex := none } := by simp [step, pc]
  have own : Completing t s (.unlock t true) := ⟨rfl, rfl, by simp⟩
  exact ⟨_, ret, Run.refl.tail own hs, rfl, State.goto_threads_self s t _⟩

theorem leaves_signalling {ret : Int} (pc : s.threads t = .signalling c ret) :
    Leaves CAPACITY t c s := by
  have hs : step CAPACITY s (.signal t true (s.waitSet c.signals)) =
      some ((s.wake c.signals (s.waitSet c.signals)).goto t (.unlocking c ret)) := by
    simp [step, pc]
  exact .of_step hs ⟨rfl, rfl, by simp⟩ (leaves_unlocking (State.goto_threads_self _ t _))

theorem leaves_updating (pc : s.threads t = .updating c) : Leaves CAPACITY t c s := by
  have hs : step CAPACITY s (.update t) =
      some { (s.record t (c.update CAPACITY s.ring).1 c).goto t
          (.signalling c (c.update CAPACITY s.ring).1) with
        ring := (c.update CAPACITY s.ring).2 } := by simp [step, pc]
  exact .of_step hs ⟨trivial, rfl, by simp⟩ (leaves_signalling (State.goto_threads_self _ t _))

theorem leaves_flagTest (pc : s.threads t = .flagTest c) (flag : s.shutdown = 1) :
    Leaves CAPACITY t c s := by
  have hs : step CAPACITY s (.readFlag t) = some (s.goto t (.unlocking c (-1))) := by
    simp [step, pc, flag]
  exact .of_step hs ⟨trivial, rfl, by simp⟩ (leaves_unlocking (State.goto_threads_self s t _))

theorem leaves_testing (pc : s.threads t = .testing c) (flag : s.shutdown = 1) :
    Leaves CAPACITY t c s := by
  cases test : c.blocked CAPACITY s.ring with
  | true =>
      have hs : step CAPACITY s (.test t) = some (s.goto t (.flagTest c)) := by
        simp [step, pc, test]
      exact .of_step hs ⟨trivial, rfl, by simp⟩
        (leaves_flagTest (State.goto_threads_self s t _) flag)
  | false =>
      have hs : step CAPACITY s (.test t) = some (s.goto t (.updating c)) := by
        simp [step, pc, test]
      exact .of_step hs ⟨trivial, rfl, by simp⟩ (leaves_updating (State.goto_threads_self s t _))

/-- Whoever holds the mutex can give it back on its own. -/
theorem released_of_inSection (inside : (s.threads t).InSection) (flag : s.shutdown = 1) :
    ∃ s', Run (step CAPACITY) (Completing t) s s' ∧ s'.mutex = none := by
  have leaves {c : Call} (h : Leaves CAPACITY t c s) :
      ∃ s', Run (step CAPACITY) (Completing t) s s' ∧ s'.mutex = none := by
    obtain ⟨s', _, run, hmutex, _⟩ := h
    exact ⟨s', run, hmutex⟩
  cases pc : s.threads t with
  | testing c => exact leaves (leaves_testing pc flag)
  | flagTest c => exact leaves (leaves_flagTest pc flag)
  | updating c => exact leaves (leaves_updating pc)
  | signalling c ret => exact leaves (leaves_signalling pc)
  | unlocking c ret => exact leaves (leaves_unlocking pc)
  | entering c =>
      have own : Completing t s (.wait t true) := ⟨rfl, rfl, by simp⟩
      have hs : step CAPACITY s (.wait t true) = some
          { s.goto t (.waiting c) with
            mutex := none
            waitSet := fun k => if k = c.waitsOn then s.waitSet k ++ [t] else s.waitSet k } := by
        simp [step, pc]
      exact ⟨_, Run.refl.tail own hs, rfl⟩
  | idle | locking c | waiting c | woken c | returned c ret =>
      rw [pc] at inside
      exact inside.elim

/-- Steps of another thread leave a call before its lock and the flag as they are. -/
theorem locking_of_run {u : ThreadId} {s' : State} (run : Run (step CAPACITY) (Completing u) s s')
    (hne : t ≠ u) (pc : s.threads t = .locking c) (flag : s.shutdown = 1) :
    s'.threads t = .locking c ∧ s'.shutdown = 1 := by
  refine run.invariant (I := fun s => s.threads t = .locking c ∧ s.shutdown = 1) ?_ ⟨pc, flag⟩
  intro r a r' own hs h
  have other : a.actor ≠ some t := by
    rw [own.2.1]
    exact fun heq => hne (Option.some.inj heq).symm
  refine ⟨?_, (shutdown_of_step hs).1 h.2⟩
  obtain hp | hp := (aside_of_step hs other).point
  · rw [hp, h.1]
  · rw [hp, h.1]
    rfl

/-- A call made after the shutdown can always be brought to its return, unless the mutex is lost
to an unlock that failed. -/
theorem later_returns {s₀ : State} (h : Turned s₀ t c s ∨ Acting s₀ t c s) (flag : s.shutdown = 1)
    (held : ∀ u, s.mutex = some u → (s.threads u).InSection) :
    ∃ s' ret, Run (step CAPACITY) (fun s a => a.Succeeds ∧ DuringCall t s a) s s' ∧
      s'.threads t = .returned c ret := by
  have during {u : ThreadId} {r : State} {a : Action} (own : Completing u r a) :
      a.Succeeds ∧ DuringCall t r a := by
    refine ⟨own.1, ?_⟩
    intro c' heq
    rw [heq] at own
    cases own.2.1
    exact own.2.2 c' rfl
  have leaves {r : State} (run : Run (step CAPACITY) (fun s a => a.Succeeds ∧ DuringCall t s a) s r)
      (h : Leaves CAPACITY t c r) :
      ∃ s' ret, Run (step CAPACITY) (fun s a => a.Succeeds ∧ DuringCall t s a) s s' ∧
        s'.threads t = .returned c ret := by
    obtain ⟨s', ret, run', _, hreturned⟩ := h
    exact ⟨s', ret, run.trans (run'.mono fun _ _ own => during own), hreturned⟩
  obtain ⟨hlocking | htesting | hflag | hunlocking | hreturned, _⟩ | hacting := h
  · suffices free : ∃ r, Run (step CAPACITY) (fun s a => a.Succeeds ∧ DuringCall t s a) s r ∧
        r.mutex = none ∧ r.threads t = .locking c ∧ r.shutdown = 1 by
      obtain ⟨r, run, hmutex, hpc, hflag⟩ := free
      have hs : step CAPACITY r (.lock t true) =
          some { r.goto t (.testing c) with mutex := some t } := by simp [step, hpc, hmutex]
      exact leaves run (.of_step hs ⟨rfl, rfl, by simp⟩
        (leaves_testing (State.goto_threads_self r t _) hflag))
    cases hmutex : s.mutex with
    | none => exact ⟨s, .refl, hmutex, hlocking, flag⟩
    | some u =>
        have hne : t ≠ u := by
          intro heq
          have inside := held u hmutex
          rw [← heq, hlocking] at inside
          exact inside
        have released : ∃ r, Run (step CAPACITY) (Completing u) s r ∧ r.mutex = none :=
          released_of_inSection (held u hmutex) flag
        obtain ⟨r, run, hfree⟩ := released
        exact ⟨r, run.mono fun _ _ own => during own, hfree, locking_of_run run hne hlocking flag⟩
  · exact leaves .refl (leaves_testing htesting flag)
  · exact leaves .refl (leaves_flagTest hflag flag)
  · exact leaves .refl (leaves_unlocking hunlocking)
  · exact ⟨s, -1, .refl, hreturned⟩
  · obtain ⟨hupdating, _⟩ | ⟨⟨ret, hup | hup | hup⟩, _⟩ := hacting
    · exact leaves .refl (leaves_updating hupdating)
    · exact leaves .refl (leaves_signalling hup)
    · exact leaves .refl (leaves_unlocking hup)
    · exact ⟨s, ret, .refl, hup⟩

end Leaving

/-! ### The claim of the header about later calls -/

/-- A call made after the shutdown has returned changes nothing and returns -1 in every run in
which it finds its `while` condition true; when it finds it false it changes the queue. Either
way it can be brought to its return. -/
theorem later_call_refused {CAPACITY : Nat} {s₀ s₁ s₂ : State} {ret : Int} {t : ThreadId} {c : Call}
    (reach : Reaches (step CAPACITY) connectionQueueInit s₀) (closed : s₀.closing = .returned ret)
    (later : Reaches (step CAPACITY) s₀ s₁) (call : step CAPACITY s₁ (.call t c) = some s₂) :
    (∀ s, Run (step CAPACITY) (Refusing CAPACITY t c) s₂ s →
      Untouched s₂ s t ∧ ∀ r, (s.threads t).result = some (c, r) → r = -1) ∧
    (∀ s s' s'' r, Run (step CAPACITY) (DuringCall t) s₂ s → step CAPACITY s (.test t) = some s' →
      c.blocked CAPACITY s.ring = false → Run (step CAPACITY) (DuringCall t) s' s'' →
      s''.threads t = .returned c r → ¬ Untouched s₂ s'' t) ∧
    ∀ s, Run (step CAPACITY) (DuringCall t) s₂ s →
      (∀ u, s.mutex = some u → (s.threads u).InSection) →
      ∃ s' r, Run (step CAPACITY) (fun s a => a.Succeeds ∧ DuringCall t s a) s s' ∧
        s'.threads t = .returned c r := by
  have keepFlag {ok : State → Action → Prop} {s s' : State} (run : Run (step CAPACITY) ok s s')
      (flag : s.shutdown = 1) : s'.shutdown = 1 :=
    run.invariant (I := fun s => s.shutdown = 1)
      (fun _ _ _ _ hs h => (shutdown_of_step hs).1 h) flag
  have flag₁ : s₁.shutdown = 1 := keepFlag later (flag_of_run reach (by simp [closed]))
  have flag₂ : s₂.shutdown = 1 := (shutdown_of_step call).1 flag₁
  have start : Turned s₂ t c s₂ := by
    refine ⟨.inl ?_, ⟨rfl, rfl⟩, flag₂⟩
    cases effect_of_step call with
    | call _ _ _ => exact State.goto_threads_self s₁ t _
  have during {s : State} (run : Run (step CAPACITY) (DuringCall t) s₂ s) :
      Turned s₂ t c s ∨ Acting s₂ t c s :=
    run.invariant (I := fun s => Turned s₂ t c s ∨ Acting s₂ t c s)
      (fun _ _ _ own hs h => later_step h own hs) (.inl start)
  refine ⟨?_, ?_, ?_⟩
  · intro s run
    have turned := run.invariant (I := Turned s₂ t c) (fun _ _ _ own hs h => h.step own hs) start
    refine ⟨turned.untouched, ?_⟩
    intro r result
    obtain point | point | point | point | point := turned.point <;> rw [point] at result <;>
      cases result <;> rfl
  · intro s s' s'' r run test room run' returned untouched
    have acting : Acting s₂ t c s' := by
      obtain turned | acting := during run
      · exact turned.acting test room
      · exact acting.step (by simp [DuringCall]) test
    have acted := run'.invariant (I := Acting s₂ t c) (fun _ _ _ own hs h => h.step own hs) acting
    obtain ⟨updating, _⟩ | ⟨_, handled⟩ := acted
    · rw [returned] at updating
      cases updating
    · simp only [State.handled, untouched.1, untouched.2] at handled
      omega
  · intro s run held
    exact later_returns (during run) (keepFlag run flag₂) held

/-- The whole shutdown of a queue with nothing in it. -/
def quietShutdown : List Action := [.setFlag, .broadcastEmpty true, .broadcastFull true]

/-- A producer that comes after the shutdown puts its descriptor in and returns 0. -/
theorem enqueue_after_quietShutdown :
    ∃ s s', perform (step 5) connectionQueueInit quietShutdown = some s ∧
      s.closing = .returned 0 ∧
      perform (step 5) s [.call 0 (.enqueue 7), .lock 0 true, .test 0, .update 0,
        .signal 0 true [], .unlock 0 true] = some s' ∧
      s'.threads 0 = .returned (.enqueue 7) 0 ∧ s'.enqueued = [(0, 7)] ∧ s'.ring.length = 1 :=
  ⟨_, _, rfl, rfl, rfl, rfl, rfl, rfl⟩

/-- A consumer that comes after the shutdown to the empty queue takes nothing out. -/
theorem dequeue_after_quietShutdown :
    ∃ s₂ s, Run (step 5) (Refusing 5 0 .dequeue) s₂ s ∧ Untouched s₂ s 0 ∧
      s.threads 0 = .returned .dequeue (-1) := by
  obtain ⟨s₀, hs₀, closed⟩ : ∃ s₀, perform (step 5) connectionQueueInit quietShutdown = some s₀ ∧
      s₀.closing = .returned 0 := ⟨_, rfl, rfl⟩
  have reach : Reaches (step 5) connectionQueueInit s₀ := run_of_perform hs₀ fun _ _ _ => trivial
  obtain ⟨s₂, call⟩ : ∃ s₂, step 5 s₀ (.call 0 .dequeue) = some s₂ := by
    cases hs₀
    exact ⟨_, rfl⟩
  have refusing {s : State} {a : Action} (quiet : ∀ c, a ≠ .call 0 c)
      (empty : s.ring.length = 0) : Refusing 5 0 .dequeue s a :=
    ⟨quiet, fun _ => by simp [Call.blocked, empty]⟩
  obtain ⟨s, run, returned⟩ : ∃ s, Run (step 5) (Refusing 5 0 .dequeue) s₂ s ∧
      s.threads 0 = .returned .dequeue (-1) := by
    cases hs₀
    cases call
    exact ⟨_, (((Run.refl.tail (a := .lock 0 true) (refusing (by simp) rfl) rfl).tail
      (a := .test 0) (refusing (by simp) rfl) rfl).tail
      (a := .readFlag 0) (refusing (by simp) rfl) rfl).tail
      (a := .unlock 0 true) (refusing (by simp) rfl) rfl, rfl⟩
  exact ⟨s₂, s, run, ((later_call_refused reach closed .refl call).1 s run).1, returned⟩

end UmnProjects.Server
