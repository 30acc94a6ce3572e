import UmnProjects.Server.QueueInvariant

/-!
What one call adds to the logs, and the order of the descriptors over all calls.
-/
namespace UmnProjects.Server
open Runs Circular

def Thread.call : Thread → Option Call
  | .idle => none
  | .locking c | .testing c | .flagTest c | .entering c => some c
  | .waiting c | .woken c | .updating c => some c
  | .signalling c _ | .unlocking c _ | .returned c _ => some c

@[simp] theorem Thread.call_wake (p : Thread) : p.wake.call = p.call := by
  cases p <;> rfl

def State.enqueuedBy (s : State) (t : ThreadId) : List (ThreadId × Int) :=
  s.enqueued.filter (fun e => e.1 = t)

def State.dequeuedBy (s : State) (t : ThreadId) : List (ThreadId × Int) :=
  s.dequeued.filter (fun e => e.1 = t)

/-- Between `s₀` and `s` thread `t` put nothing in and took nothing out. -/
def Untouched (s₀ s : State) (t : ThreadId) : Prop :=
  s.enqueuedBy t = s₀.enqueuedBy t ∧ s.dequeuedBy t = s₀.dequeuedBy t

/-- Between `s₀` and `s` thread `t` did what one successful call with this result does. -/
def Performed (s₀ s : State) (t : ThreadId) (ret : Int) : Call → Prop
  | .enqueue connectionFd =>
      ret = 0 ∧ s.enqueuedBy t = s₀.enqueuedBy t ++ [(t, connectionFd)] ∧
        s.dequeuedBy t = s₀.dequeuedBy t
  | .dequeue =>
      s.dequeuedBy t = s₀.dequeuedBy t ++ [(t, ret)] ∧ s.enqueuedBy t = s₀.enqueuedBy t

/-- A settled result is that of a performed call, or the refusal of a shut-down queue. -/
def Settled (s₀ s : State) (t : ThreadId) (c : Call) (ret : Int) : Prop :=
  Performed s₀ s t ret c ∨ Untouched s₀ s t ∧ ret = -1 ∧ s.shutdown = 1

structure InProgress (s₀ : State) (t : ThreadId) (c : Call) (s : State) : Prop where
  call : (s.threads t).call = some c
  unsettled : (s.threads t).result = none → Untouched s₀ s t
  settled : ∀ c' ret, (s.threads t).result = some (c', ret) → Settled s₀ s t c ret

/-- A step that leaves the call of `t` where it was, as far as its result goes. -/
structure Frame (s s' : State) (t : ThreadId) : Prop where
  call : (s'.threads t).call = (s.threads t).call
  result : (s'.threads t).result = (s.threads t).result
  enqueuedBy : s'.enqueuedBy t = s.enqueuedBy t
  dequeuedBy : s'.dequeuedBy t = s.dequeuedBy t
  shutdown : s.shutdown = 1 → s'.shutdown = 1

theorem Settled.mono {s₀ s s' : State} {t : ThreadId} {c : Call} {ret : Int}
    (h : Settled s₀ s t c ret) (f : Frame s s' t) : Settled s₀ s' t c ret := by
  have henq := f.enqueuedBy
  have hdeq := f.dequeuedBy
  obtain h | ⟨h, hret, hflag⟩ := h
  · left
    cases c with
    | enqueue _ | dequeue => simpa only [Performed, henq, hdeq] using h
  · right
    exact ⟨by simpa only [Untouched, henq, hdeq] using h, hret, f.shutdown hflag⟩

theorem InProgress.frame {s₀ s s' : State} {t : ThreadId} {c : Call}
    (h : InProgress s₀ t c s) (f : Frame s s' t) : InProgress s₀ t c s' := by
  refine ⟨f.call.trans h.call, ?_, ?_⟩
  · intro hnone
    have hold := h.unsettled (f.result.symm.trans hnone)
    simpa only [Untouched, f.enqueuedBy, f.dequeuedBy] using hold
  · intro c' ret hsome
    exact (h.settled c' ret (f.result.symm.trans hsome)).mono f

/-- Moving thread `u` between points of one call with one result frames every thread. -/
theorem frame_goto {s : State} {u : ThreadId} {q : Thread} (pc : s.threads u = q)
    (p : Thread) (t : ThreadId) (call : p.call = q.call) (result : p.result = q.result) :
    Frame s (s.goto u p) t := by
  refine ⟨?_, ?_, rfl, rfl, id⟩
  · by_cases hut : t = u
    · subst t
      simp [pc, call]
    · simp [hut]
  · by_cases hut : t = u
    · subst t
      simp [pc, result]
    · simp [hut]

theorem frame_goto_of_ne (s : State) {u t : ThreadId} (p : Thread) (h : t ≠ u) :
    Frame s (s.goto u p) t :=
  ⟨by simp [h], by simp [h], rfl, rfl, id⟩

theorem frame_wake (s : State) (k : Cond) (chosen : List ThreadId) (t : ThreadId) :
    Frame s (s.wake k chosen) t := by
  refine ⟨?_, ?_, rfl, rfl, id⟩
  · obtain hp | hp := s.wake_cases k chosen t <;> simp [hp]
  · obtain hp | hp := s.wake_cases k chosen t <;> simp [hp]

theorem Frame.trans {s s' s'' : State} {t : ThreadId} (h : Frame s s' t)
    (h' : Frame s' s'' t) : Frame s s'' t :=
  ⟨h'.call.trans h.call, h'.result.trans h.result, h'.enqueuedBy.trans h.enqueuedBy,
    h'.dequeuedBy.trans h.dequeuedBy, fun hs => h'.shutdown (h.shutdown hs)⟩

/-- The fields a frame does not read. -/
theorem Frame.withFields {s s' : State} {t : ThreadId} (h : Frame s s' t) (r : Ring)
    (m : Option ThreadId) (w : Cond → List ThreadId) (p : Shutdown) :
    Frame s { s' with ring := r, mutex := m, waitSet := w, closing := p } t :=
  ⟨h.call, h.result, h.enqueuedBy, h.dequeuedBy, h.shutdown⟩

theorem filter_append_ne {log : List (ThreadId × Int)} {t u : ThreadId} {x : Int}
    (h : t ≠ u) :
    (log ++ [(u, x)]).filter (fun e => e.1 = t) = log.filter (fun e => e.1 = t) := by
  simp [Ne.symm h]

theorem frame_record (s : State) {t u : ThreadId} (ret : Int) (c : Call) (h : t ≠ u) :
    Frame s (s.record u ret c) t := by
  cases c with
  | enqueue connectionFd => exact ⟨rfl, rfl, filter_append_ne h, rfl, id⟩
  | dequeue => exact ⟨rfl, rfl, rfl, filter_append_ne h, id⟩

/-- The update is where the call takes effect. -/
theorem performed_update (CAPACITY : Nat) {s₀ s : State} {t : ThreadId} (c : Call)
    (h : Untouched s₀ s t) :
    Performed s₀ (s.record t (c.update CAPACITY s.ring).1 c) t
      (c.update CAPACITY s.ring).1 c := by
  obtain ⟨henq, hdeq⟩ := h
  cases c with
  | enqueue connectionFd =>
      refine ⟨rfl, ?_, hdeq⟩
      rw [← henq]
      simp [State.enqueuedBy, State.record]
  | dequeue =>
      refine ⟨?_, henq⟩
      rw [← hdeq]
      simp [State.dequeuedBy, State.record]

/-- What a step inside the calls can add: nothing, a refusal, or the effect of one call. -/
inductive Progress (CAPACITY : Nat) (s s' : State) : Prop where
  | quiet (ring : s'.ring = s.ring) (enqueued : s'.enqueued = s.enqueued)
      (dequeued : s'.dequeued = s.dequeued) (frame : ∀ t, Frame s s' t)
  | turnedAway (t : ThreadId) (c : Call) (pc : s.threads t = .flagTest c)
      (flag : s.shutdown = 1) (eq : s' = s.goto t (.unlocking c (-1)))
  | updated (t : ThreadId) (c : Call) (pc : s.threads t = .updating c)
      (eq : s' = { (s.record t (c.update CAPACITY s.ring).1 c).goto t
          (.signalling c (c.update CAPACITY s.ring).1) with
        ring := (c.update CAPACITY s.ring).2 })

theorem progress_of_step {CAPACITY : Nat} {s s' : State} {a : Action}
    (succeeds : a.Succeeds) (inside : ∀ t c, a ≠ .call t c)
    (hs : step CAPACITY s a = some s') : Progress CAPACITY s s' := by
  cases effect_of_step hs with
  | call t c _ => exact absurd rfl (inside t c)
  | lock u c pc _ | relock u c pc _ =>
      refine .quiet rfl rfl rfl ?_
      intro t
      exact (frame_goto pc (.testing c) t rfl rfl).withFields _ _ _ _
  | wait u c pc =>
      refine .quiet rfl rfl rfl ?_
      intro t
      exact (frame_goto pc (.waiting c) t rfl rfl).withFields _ _ _ _
  | unlock u c ret pc =>
      refine .quiet rfl rfl rfl ?_
      intro t
      exact (frame_goto pc (.returned c ret) t rfl rfl).withFields _ _ _ _
  | lockFailed u c _ | waitFailed u c _ | signalFailed u c ret chosen _
  | unlockFailed u c ret _ | broadcastEmptyFailed _ | broadcastFullFailed retVal _ =>
      cases succeeds
  | blocked u c pc _ | passed u c pc _ | stayed u c pc _ =>
      exact .quiet rfl rfl rfl fun t => frame_goto pc _ t rfl rfl
  | turnedAway u c pc flag => exact .turnedAway u c pc flag rfl
  | wakeup u c pc => exact .quiet rfl rfl rfl fun t => frame_wake s _ _ t
  | update u c pc => exact .updated u c pc rfl
  | signal u c ret chosen pc _ _ =>
      have awake : (s.wake c.signals chosen).threads u = .signalling c ret := by
        obtain hp | hp := s.wake_cases c.signals chosen u
        · rw [hp, pc]
        · rw [hp, pc]
          rfl
      refine .quiet rfl rfl rfl ?_
      intro t
      exact (frame_wake s c.signals chosen t).trans
        (frame_goto awake (.unlocking c ret) t rfl rfl)
  | setFlag pc => exact .quiet rfl rfl rfl fun t => ⟨rfl, rfl, rfl, rfl, fun _ => rfl⟩
  | broadcastEmpty pc | broadcastFull _ pc =>
      exact .quiet rfl rfl rfl fun t => (frame_wake s _ _ t).withFields _ _ _ _

/-- Only the shutdown sets the flag, and nobody clears it. -/
theorem shutdown_of_step {CAPACITY : Nat} {s s' : State} {a : Action}
    (hs : step CAPACITY s a = some s') :
    (s.shutdown = 1 → s'.shutdown = 1) ∧ (a ≠ .setFlag → s'.shutdown = s.shutdown) := by
  cases effect_of_step hs with
  | setFlag pc => exact ⟨fun _ => rfl, fun h => absurd rfl h⟩
  | update t c pc =>
      cases c with
      | enqueue _ | dequeue => exact ⟨id, fun _ => rfl⟩
  | _ => exact ⟨id, fun _ => rfl⟩

/-- No step inside the calls begins or ends one. -/
theorem Progress.call {CAPACITY : Nat} {s s' : State} (p : Progress CAPACITY s s')
    (t : ThreadId) : (s'.threads t).call = (s.threads t).call := by
  cases p with
  | quiet _ _ _ frame => exact (frame t).call
  | turnedAway u c pc _ eq | updated u c pc eq =>
      subst eq
      by_cases htu : t = u
      · subst t
        simp [pc, Thread.call]
      · simp [htu]

/-- What is settled stays so. -/
theorem Progress.result_of_settled {CAPACITY : Nat} {s s' : State} (p : Progress CAPACITY s s')
    {t : ThreadId} (h : (s.threads t).result ≠ none) :
    (s'.threads t).result = (s.threads t).result := by
  cases p with
  | quiet _ _ _ frame => exact (frame t).result
  | turnedAway u c pc _ eq | updated u c pc eq =>
      subst eq
      by_cases htu : t = u
      · subst t
        simp [pc, Thread.result] at h
      · simp [htu]

/-- A settled call of a thread that had nothing settled before. -/
theorem InProgress.settle {s₀ s' : State} {t : ThreadId} {c : Call} (ret : Int)
    (call : (s'.threads t).call = some c) (result : (s'.threads t).result = some (c, ret))
    (h : Settled s₀ s' t c ret) : InProgress s₀ t c s' := by
  refine ⟨call, ?_, ?_⟩
  · simp [result]
  · intro c' ret' hret
    rw [result] at hret
    cases hret
    exact h

theorem InProgress.progress {CAPACITY : Nat} {s₀ s s' : State} {t : ThreadId} {c : Call}
    (h : InProgress s₀ t c s) (p : Progress CAPACITY s s') : InProgress s₀ t c s' := by
  cases p with
  | quiet _ _ _ frame => exact h.frame (frame t)
  | turnedAway u c' pc flag eq =>
      subst eq
      by_cases hut : t = u
      · subst u
        have untouched := h.unsettled (by simp [pc, Thread.result])
        have hcall : c' = c := by simpa [pc, Thread.call] using h.call
        subst c'
        exact .settle (-1) (by simp [Thread.call]) (by simp [Thread.result])
          (.inr ⟨untouched, rfl, flag⟩)
      · exact h.frame (frame_goto_of_ne s _ hut)
  | updated u c' pc eq =>
      subst eq
      by_cases hut : t = u
      · subst u
        have untouched := h.unsettled (by simp [pc, Thread.result])
        have hcall : c' = c := by simpa [pc, Thread.call] using h.call
        subst c'
        have performed := performed_update CAPACITY c untouched
        refine .settle (c.update CAPACITY s.ring).1 (by simp [Thread.call])
          (by simp [Thread.result]) (.inl ?_)
        cases c with
        | enqueue _ | dequeue => exact performed
      · have f := (frame_record s (c'.update CAPACITY s.ring).1 c' hut).trans
          (frame_goto_of_ne _ (.signalling c' (c'.update CAPACITY s.ring).1) hut)
        exact h.frame (f.withFields _ _ _ _)

/-- Steps other than a new call of `t` keep its call in progress. -/
theorem InProgress.step {CAPACITY : Nat} {s₀ s s' : State} {t : ThreadId} {c : Call}
    {a : Action} (h : InProgress s₀ t c s) (succeeds : a.Succeeds)
    (same : ∀ c', a ≠ .call t c') (hs : step CAPACITY s a = some s') :
    InProgress s₀ t c s' := by
  by_cases calls : ∃ u c', a = .call u c'
  · obtain ⟨u, c', rfl⟩ := calls
    have hut : t ≠ u := by
      rintro rfl
      exact same c' rfl
    cases effect_of_step hs with
    | call _ _ _ => exact h.frame (frame_goto_of_ne s _ hut)
  · refine h.progress (progress_of_step succeeds ?_ hs)
    intro u c' hu
    exact calls ⟨u, c', hu⟩

/-- From the moment of a call to its return, whatever the other threads do. -/
theorem call_settled {CAPACITY : Nat} {s₀ s : State} {t : ThreadId} {c : Call} {ret : Int}
    (called : s₀.threads t = .locking c)
    (h : Run (step CAPACITY) (fun _ a => a.Succeeds ∧ ∀ c', a ≠ .call t c') s₀ s)
    (returned : s.threads t = .returned c ret) : Settled s₀ s t c ret := by
  have start : InProgress s₀ t c s₀ := by
    refine ⟨by simp [called, Thread.call], fun _ => ⟨rfl, rfl⟩, ?_⟩
    simp [called, Thread.result]
  have done := h.invariant (fun _ _ _ ok hs hi => hi.step ok.1 ok.2 hs) start
  exact done.settled c ret (by simp [returned, Thread.result])

theorem Inv.contents_eq {CAPACITY : Nat} {s : State} (h : Inv CAPACITY s) :
    s.enqueued.map Prod.snd = s.dequeued.map Prod.snd ++ s.contents CAPACITY := by
  obtain ⟨xs, hring, hlog⟩ := h.fifo
  have hxs : s.contents CAPACITY = xs := by
    unfold State.contents
    rw [hring.length_eq, Int.toNat_natCast]
    exact hring.contents_eq
  rw [hxs]
  exact hlog

/-- The queue is a bounded first-in first-out buffer: its contents are what was put in
and not yet taken out, and each call returns exactly what it did to them. -/
theorem connectionQueue_fifo {CAPACITY : Nat} (hc : 1 ≤ CAPACITY) {s : State}
    (h : Run (step CAPACITY) (fun _ a => a.Succeeds) connectionQueueInit s) :
    (0 ≤ s.ring.length ∧ s.ring.length ≤ CAPACITY) ∧
    (0 ≤ s.ring.readIdx ∧ s.ring.readIdx < CAPACITY) ∧
    (0 ≤ s.ring.writeIdx ∧ s.ring.writeIdx < CAPACITY) ∧
    s.ring.writeIdx = (s.ring.readIdx + s.ring.length) % CAPACITY ∧
    s.enqueued.map Prod.snd = s.dequeued.map Prod.snd ++ s.contents CAPACITY ∧
    s.dequeued.map Prod.snd <+: s.enqueued.map Prod.snd ∧
    ∀ t c s' ret, s.threads t = .locking c →
      Run (step CAPACITY) (fun _ a => a.Succeeds ∧ ∀ c', a ≠ .call t c') s s' →
      s'.threads t = .returned c ret → Settled s s' t c ret := by
  have inv := Inv.of_run hc h
  obtain ⟨xs, hring, _⟩ := inv.fifo
  have hlen := hring.length_eq
  refine ⟨⟨by omega, hring.length_le⟩, ⟨hring.read_nonneg, hring.read_lt⟩,
    hring.write_bounds, hring.write_eq, inv.contents_eq, ?_, ?_⟩
  · rw [inv.contents_eq]
    exact List.prefix_append _ _
  · intro t c s' ret called run returned
    exact call_settled called run returned

/-- A consumer that sleeps through two enqueues and wakes to the older descriptor. -/
def sleepingConsumer : List Action :=
  [.call 1 .dequeue, .lock 1 true, .test 1, .readFlag 1, .wait 1 true,
    .call 0 (.enqueue 7), .lock 0 true, .test 0, .update 0, .signal 0 true [1], .unlock 0 true,
    .call 0 (.enqueue 8), .lock 0 true, .test 0, .update 0, .signal 0 true [], .unlock 0 true,
    .relock 1, .test 1, .update 1, .signal 1 true [], .unlock 1 true]

theorem connectionQueue_fifo_sleepingConsumer :
    ∃ s, perform (step 2) connectionQueueInit sleepingConsumer = some s ∧
      s.contents 2 = [8] ∧ s.dequeued = [(1, 7)] ∧
      s.enqueued.map Prod.snd = s.dequeued.map Prod.snd ++ s.contents 2 := by
  obtain ⟨s, hs⟩ : ∃ s, perform (step 2) connectionQueueInit sleepingConsumer = some s :=
    ⟨_, rfl⟩
  have run : Run (step 2) (fun _ a => a.Succeeds) connectionQueueInit s := by
    apply run_of_perform hs
    intro a ha _
    have all : ∀ a ∈ sleepingConsumer, a.Succeeds := by decide
    exact all a ha
  refine ⟨s, hs, ?_, ?_, (connectionQueue_fifo (by decide) run).2.2.2.2.1⟩
  · cases hs
    decide
  · cases hs
    decide

end UmnProjects.Server
