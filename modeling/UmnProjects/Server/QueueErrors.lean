import UmnProjects.Server.QueueClosed

/-!
What a call that returns -1 has done to the queue. The steps of a call come in one order: it
waits for the ring, changes it, signals and unlocks. The results of the signal and of the
unlock are looked at when the ring has been changed already.
-/
namespace UmnProjects.Server
open Runs

/-- The call of a thread that is still to be let through to the ring or turned away. -/
def Thread.pending : Thread → Option Call
  | .locking c | .testing c | .flagTest c | .entering c | .waiting c | .woken c => some c
  | .updating c => some c
  | _ => none

/-- A step of a call before its update of the ring and its last unlock. -/
def Action.Prepares : Action → Prop
  | .update _ | .signal _ _ _ | .unlock _ _ => False
  | _ => True

/-- The last steps of a call that leaves the ring alone, and the point it is at. -/
inductive Declines (t : ThreadId) (c : Call) : List Action → Thread → Prop where
  | pending (p : Thread) (point : p.pending = some c) : Declines t c [] p
  | refused : Declines t c [] (.unlocking c (-1))
  | lockFailed : Declines t c [] (.returned c (-1))
  | unlock (ok : Bool) : Declines t c [.unlock t ok] (.returned c (-1))

/-- The last steps of a call from its update of the ring on, and the point it is at. -/
inductive Completes (t : ThreadId) (c : Call) (Gives : Int → Prop) :
    List Action → Thread → Prop where
  | update (ret : Int) (gives : Gives ret) :
      Completes t c Gives [.update t] (.signalling c ret)
  | signal (ret : Int) (chosen : List ThreadId) (gives : Gives ret) :
      Completes t c Gives [.update t, .signal t true chosen] (.unlocking c ret)
  | signalFailed (chosen : List ThreadId) :
      Completes t c Gives [.update t, .signal t false chosen] (.unlocking c (-1))
  | unlock (ret : Int) (chosen : List ThreadId) (gives : Gives ret) :
      Completes t c Gives [.update t, .signal t true chosen, .unlock t true] (.returned c ret)
  | unlockFailed (chosen : List ThreadId) :
      Completes t c Gives [.update t, .signal t true chosen, .unlock t false]
        (.returned c (-1))
  | unlockAfter (chosen : List ThreadId) (ok : Bool) :
      Completes t c Gives [.update t, .signal t false chosen, .unlock t ok] (.returned c (-1))

/-- What a call that went through returns: 0, or a descriptor its thread took out. -/
def State.Gives (s : State) (t : ThreadId) (ret : Int) : Prop :=
  ret = 0 ∨ (t, ret) ∈ s.dequeuedBy t

/-- How far the call of `c` that thread `t` made in `s₀` has come with the steps `mine`. -/
def Course (s₀ : State) (t : ThreadId) (c : Call) (mine : List Action) (s : State) : Prop :=
  ∃ opening closing, mine = opening ++ closing ∧ (∀ a ∈ opening, a.Prepares) ∧
    (Declines t c closing (s.threads t) ∧ Untouched s₀ s t ∨
      Completes t c (s.Gives t) closing (s.threads t) ∧ s.handled t = s₀.handled t + 1)

@[simp] theorem Thread.pending_wake (p : Thread) : p.wake.pending = p.pending := by
  cases p <;> rfl

theorem Declines.wake {t : ThreadId} {c : Call} {closing : List Action} {p : Thread}
    (h : Declines t c closing p) : Declines t c closing p.wake := by
  cases h with
  | pending _ point => exact .pending _ (by simpa using point)
  | refused => exact .refused
  | lockFailed => exact .lockFailed
  | unlock ok => exact .unlock ok

theorem Completes.wake {t : ThreadId} {c : Call} {Gives : Int → Prop} {closing : List Action}
    {p : Thread} (h : Completes t c Gives closing p) : p.wake = p := by
  cases h <;> rfl

section Steps

variable {CAPACITY : Nat} {s₀ s s' : State} {t : ThreadId} {c : Call} {mine : List Action}

theorem Course.aside (h : Course s₀ t c mine s) (aside : Aside s s' t) :
    Course s₀ t c mine s' := by
  obtain ⟨opening, closing, hmine, prepared, ⟨point, untouched⟩ | ⟨point, handled⟩⟩ := h
  · refine ⟨opening, closing, hmine, prepared, .inl ⟨?_, ?_⟩⟩
    · obtain hp | hp := aside.point
      · rw [hp]
        exact point
      · rw [hp]
        exact point.wake
    · simpa only [Untouched, aside.enqueuedBy, aside.dequeuedBy] using untouched
  · refine ⟨opening, closing, hmine, prepared, .inr ⟨?_, ?_⟩⟩
    · have hp : s'.threads t = s.threads t := by
        obtain hp | hp := aside.point
        · exact hp
        · rw [hp, point.wake]
      have hgives : s'.Gives t = s.Gives t := by
        funext ret
        simp only [State.Gives, aside.dequeuedBy]
      rw [hp, hgives]
      exact point
    · simpa only [State.handled, aside.enqueuedBy, aside.dequeuedBy] using handled

/-- A step before the update goes on to another such step or turns the call away. -/
theorem Course.prepare {a : Action} {q : Call} {p : Thread} (h : Course s₀ t c mine s)
    (pc : (s.threads t).pending = some q) (point : s'.threads t = p)
    (hp : p.pending = some q ∨ p = .unlocking q (-1) ∨ p = .returned q (-1))
    (prepares : a.Prepares) (enqueued : s'.enqueued = s.enqueued)
    (dequeued : s'.dequeued = s.dequeued) : Course s₀ t c (mine ++ [a]) s' := by
  obtain ⟨opening, closing, rfl, prepared, ⟨before, untouched⟩ | ⟨before, handled⟩⟩ := h
  · generalize s.threads t = r at pc before
    cases before with
    | pending r before =>
        cases before.symm.trans pc
        refine ⟨opening ++ [a], [], by simp, ?_, .inl ⟨?_, ?_⟩⟩
        · intro b hb
          obtain hb | hb := List.mem_append.mp hb
          · exact prepared b hb
          · rw [List.mem_singleton.mp hb]
            exact prepares
        · rw [point]
          obtain hp | rfl | rfl := hp
          · exact .pending p hp
          · exact .refused
          · exact .lockFailed
        · simpa only [Untouched, State.enqueuedBy, State.dequeuedBy, enqueued, dequeued]
            using untouched
    | refused | lockFailed | unlock ok => cases pc
  · generalize s.threads t = r at pc before
    cases before <;> cases pc

/-- A step that touches no descriptor goes on from the last steps of the call. -/
theorem Course.advance {a : Action} {q p : Thread} (h : Course s₀ t c mine s)
    (pc : s.threads t = q) (point : s'.threads t = p) (enqueued : s'.enqueued = s.enqueued)
    (dequeued : s'.dequeued = s.dequeued)
    (declines : ∀ closing, Declines t c closing q → Declines t c (closing ++ [a]) p)
    (completes : ∀ Gives closing, Completes t c Gives closing q →
      Completes t c Gives (closing ++ [a]) p) : Course s₀ t c (mine ++ [a]) s' := by
  obtain ⟨opening, closing, rfl, prepared, ⟨before, untouched⟩ | ⟨before, handled⟩⟩ := h
  · refine ⟨opening, closing ++ [a], by simp, prepared, .inl ⟨?_, ?_⟩⟩
    · rw [point]
      exact declines closing (pc ▸ before)
    · simpa only [Untouched, State.enqueuedBy, State.dequeuedBy, enqueued, dequeued]
        using untouched
  · refine ⟨opening, closing ++ [a], by simp, prepared, .inr ⟨?_, ?_⟩⟩
    · have hgives : s'.Gives t = s.Gives t := by
        funext r
        simp only [State.Gives, State.dequeuedBy, dequeued]
      rw [point, hgives]
      exact completes _ closing (pc ▸ before)
    · simpa only [State.handled, State.enqueuedBy, State.dequeuedBy, enqueued, dequeued]
        using handled

/-- A step of the call itself takes it on in its order. -/
theorem Course.own {a : Action} (h : Course s₀ t c mine s) (own : a.actor = some t)
    (during : ∀ c', a ≠ .call t c') (hs : step CAPACITY s a = some s') :
    Course s₀ t c (mine ++ [a]) s' := by
  cases effect_of_step hs with
  | call u c' _ =>
      cases own
      exact absurd rfl (during c')
  | lock u c' pc _ | lockFailed u c' pc | relock u c' pc _ | wait u c' pc =>
      cases own
      refine h.prepare (q := c') (by rw [pc]; rfl) (State.goto_threads_self s t _) ?_
        trivial rfl rfl
      simp [Thread.pending]
  | blocked u c' pc _ | passed u c' pc _ | turnedAway u c' pc _ | stayed u c' pc _
  | waitFailed u c' pc =>
      cases own
      refine h.prepare (q := c') (by rw [pc]; rfl) (State.goto_threads_self s t _) ?_
        trivial rfl rfl
      simp [Thread.pending]
  | wakeup u c' pc =>
      cases own
      refine h.prepare (q := c') (p := .woken c') (by rw [pc]; rfl) ?_ (.inl rfl) trivial rfl rfl
      rw [State.wake_threads, pc]
      simp [Thread.wake]
  | update u c' pc =>
      cases own
      obtain ⟨opening, closing, rfl, prepared, ⟨before, untouched⟩ | ⟨before, _⟩⟩ := h
      · rw [pc] at before
        cases before with
        | pending _ before =>
            cases before
            refine ⟨opening, [.update t], by simp, prepared, .inr ⟨?_, ?_⟩⟩
            · rw [State.goto_threads_self]
              apply Completes.update
              cases c with
              | enqueue _ => exact .inl rfl
              | dequeue => exact .inr (by simp [State.dequeuedBy, State.record])
            · have handled : s.handled t = s₀.handled t := by
                simp only [State.handled, untouched.1, untouched.2]
              rw [← handled, ← handled_update CAPACITY s t c]
              rfl
      · rw [pc] at before
        cases before
  | signal u c' ret chosen pc _ _ =>
      cases own
      refine h.advance pc (State.goto_threads_self _ t _) rfl rfl ?_ ?_
      · intro closing before
        cases before with
        | pending _ before => cases before
      · intro Gives closing before
        cases before with
        | update _ gives => exact .signal ret chosen gives
  | signalFailed u c' ret chosen pc =>
      cases own
      refine h.advance pc (State.goto_threads_self _ t _) rfl rfl ?_ ?_
      · intro closing before
        cases before with
        | pending _ before => cases before
      · intro Gives closing before
        cases before with
        | update _ _ => exact .signalFailed chosen
  | unlock u c' ret pc =>
      cases own
      refine h.advance pc (State.goto_threads_self s t _) rfl rfl ?_ ?_
      · intro closing before
        cases before with
        | pending _ before => cases before
        | refused => exact .unlock true
      · intro Gives closing before
        cases before with
        | signal _ chosen gives => exact .unlock ret chosen gives
        | signalFailed chosen => exact .unlockAfter chosen true
  | unlockFailed u c' ret pc =>
      cases own
      refine h.advance pc (State.goto_threads_self s t _) rfl rfl ?_ ?_
      · intro closing before
        cases before with
        | pending _ before => cases before
        | refused => exact .unlock false
      · intro Gives closing before
        cases before with
        | signal _ chosen _ => exact .unlockFailed chosen
        | signalFailed chosen => exact .unlockAfter chosen false
  | setFlag _ | broadcastEmpty _ | broadcastEmptyFailed _ | broadcastFull _ _
  | broadcastFullFailed _ _ => cases own

/-- The steps of thread `t` in a run. -/
def stepsOf (t : ThreadId) (as : List Action) : List Action :=
  as.filter (fun a => a.actor = some t)

theorem course_of_perform {as : List Action} (start : s₀.threads t = .locking c)
    (run : perform (step CAPACITY) s₀ as = some s) (during : ∀ c', .call t c' ∉ as) :
    Course s₀ t c (stepsOf t as) s := by
  refine perform_induction
    (I := fun done s => (∀ c', .call t c' ∉ done) → Course s₀ t c (stepsOf t done) s) ?_ ?_
    run during
  · intro _
    exact ⟨[], [], rfl, by simp, .inl ⟨.pending _ (by rw [start]; rfl), rfl, rfl⟩⟩
  · intro done u a u' hs ih during
    have course : Course s₀ t c (stepsOf t done) u :=
      ih fun c' hc => during c' (List.mem_append_left _ hc)
    by_cases own : a.actor = some t
    · have hmine : stepsOf t (done ++ [a]) = stepsOf t done ++ [a] := by simp [stepsOf, own]
      rw [hmine]
      refine course.own own ?_ hs
      intro c' heq
      exact during c' (by simp [heq])
    · have hmine : stepsOf t (done ++ [a]) = stepsOf t done := by simp [stepsOf, own]
      rw [hmine]
      exact course.aside (aside_of_step hs own)

end Steps

/-! ### The two errors that come too late -/

/-- The signal of the call fails, or the unlock that follows a signal. -/
def Failed (t : ThreadId) (as : List Action) : Prop :=
  (∃ chosen, .signal t false chosen ∈ as) ∨
    (∃ chosen, .signal t true chosen ∈ as) ∧ .unlock t false ∈ as

/-- In the run `as` from `s₁` to `s₂` no step of thread `t` changes the ring, and the thread has
put nothing in and taken nothing out. -/
structure Unchanged (CAPACITY : Nat) (t : ThreadId) (s₁ : State) (as : List Action)
    (s₂ : State) : Prop where
  ring : ∀ before a after u u', as = before ++ a :: after →
    perform (step CAPACITY) s₁ before = some u → step CAPACITY u a = some u' →
    a.actor = some t → u'.ring = u.ring
  untouched : Untouched s₁ s₂ t

theorem failed_stepsOf (t : ThreadId) (as : List Action) :
    Failed t (stepsOf t as) ↔ Failed t as := by
  simp [Failed, stepsOf, Action.actor]

theorem failed_append {t : ThreadId} {opening closing : List Action}
    (prepared : ∀ a ∈ opening, a.Prepares) :
    Failed t (opening ++ closing) ↔ Failed t closing := by
  have hsignal (ok : Bool) (chosen : List ThreadId) : Action.signal t ok chosen ∉ opening :=
    fun h => prepared _ h
  have hunlock : Action.unlock t false ∉ opening := fun h => prepared _ h
  simp [Failed, hsignal, hunlock]

theorem Declines.not_failed {t : ThreadId} {c : Call} {closing : List Action} {p : Thread}
    (h : Declines t c closing p) : ¬ Failed t closing := by
  cases h <;> simp [Failed]

theorem Declines.not_update {t : ThreadId} {c : Call} {closing : List Action} {p : Thread}
    (h : Declines t c closing p) : .update t ∉ closing := by
  cases h <;> simp

theorem Completes.result {t : ThreadId} {c c' : Call} {Gives : Int → Prop} {ret : Int}
    {closing : List Action} (h : Completes t c Gives closing (.returned c' ret)) :
    Failed t closing ∧ ret = -1 ∨ ¬ Failed t closing ∧ Gives ret := by
  cases h with
  | unlock _ chosen gives => exact .inr ⟨by simp [Failed], gives⟩
  | unlockFailed chosen => exact .inl ⟨by simp [Failed], rfl⟩
  | unlockAfter chosen ok => exact .inl ⟨by simp [Failed], rfl⟩

theorem ring_of_step {CAPACITY : Nat} {s s' : State} {a : Action} {t : ThreadId}
    (hs : step CAPACITY s a = some s') (own : a.actor = some t) (h : a ≠ .update t) :
    s'.ring = s.ring := by
  cases effect_of_step hs with
  | update u c pc =>
      cases own
      exact absurd rfl h
  | _ => rfl

/-- No call that went through returns -1 as long as no -1 was put in. -/
theorem gives_ne {CAPACITY : Nat} {s : State} {t : ThreadId} {ret : Int} (inv : Inv CAPACITY s)
    (fds : ∀ e ∈ s.enqueued, e.2 ≠ -1) (gives : s.Gives t ret) : ret ≠ -1 := by
  obtain rfl | hmem := gives
  · decide
  · obtain ⟨xs, _, fifo⟩ := inv.fifo
    have hdequeued : ret ∈ s.dequeued.map Prod.snd :=
      List.mem_map.mpr ⟨(t, ret), (List.mem_filter.mp hmem).1, rfl⟩
    have henqueued : ret ∈ s.enqueued.map Prod.snd := by
      rw [fifo]
      exact List.mem_append_left _ hdequeued
    obtain ⟨e, he, rfl⟩ := List.mem_map.mp henqueued
    exact fds e he

/-- A call made in any reachable state, whatever the pthread calls report and the other threads
do, has left the queue alone when it returns -1 just when neither its signal nor the unlock
after its signal failed. -/
theorem unchanged_iff {CAPACITY : Nat} {s s₁ s₂ : State} {t : ThreadId} {c : Call} {ret : Int}
    {as : List Action} (capacity : 1 ≤ CAPACITY)
    (reach : Reaches (step CAPACITY) connectionQueueInit s)
    (call : step CAPACITY s (.call t c) = some s₁)
    (run : perform (step CAPACITY) s₁ as = some s₂) (during : ∀ c', .call t c' ∉ as)
    (returned : s₂.threads t = .returned c ret) (fds : ∀ e ∈ s₂.enqueued, e.2 ≠ -1) :
    (ret = -1 → Unchanged CAPACITY t s₁ as s₂) ↔ ¬ Failed t as := by
  have start : s₁.threads t = .locking c := by
    cases effect_of_step call with
    | call _ _ _ => exact State.goto_threads_self s t _
  have inv : Inv CAPACITY s₂ :=
    Inv.of_run capacity ((reach.tail trivial call).trans (run_of_perform run fun _ _ _ => trivial))
  obtain ⟨opening, closing, hmine, prepared, ⟨declines, untouched⟩ | ⟨completes, handled⟩⟩ :=
    course_of_perform start run during
  · have notFailed : ¬ Failed t as := by
      rw [← failed_stepsOf, hmine, failed_append prepared]
      exact declines.not_failed
    refine ⟨fun _ => notFailed, fun _ _ => ⟨?_, untouched⟩⟩
    intro before a after u u' has _ hs own
    refine ring_of_step hs own ?_
    intro heq
    have hmem : .update t ∈ opening ++ closing := by
      rw [← hmine, has, heq]
      simp [stepsOf, Action.actor]
    obtain hmem | hmem := List.mem_append.mp hmem
    · exact prepared _ hmem
    · exact declines.not_update hmem
  · rw [returned] at completes
    have hfailed : Failed t as ↔ Failed t closing := by
      rw [← failed_stepsOf, hmine, failed_append prepared]
    rw [hfailed]
    obtain ⟨failed, hret⟩ | ⟨notFailed, gives⟩ := completes.result
    · refine ⟨fun unchanged _ => ?_, fun h => absurd failed h⟩
      have untouched := (unchanged hret).untouched
      simp only [State.handled, untouched.1, untouched.2] at handled
      omega
    · exact ⟨fun _ => notFailed, fun _ hret => absurd hret (gives_ne inv fds gives)⟩

/-- A consumer that finds the queue empty during the shutdown. -/
theorem unchanged_turnedAway :
    ∃ s₁ s₂, step 5 connectionQueueInit (.call 0 .dequeue) = some s₁ ∧
      perform (step 5) s₁ [.lock 0 true, .setFlag, .test 0, .readFlag 0, .unlock 0 true] =
        some s₂ ∧
      s₂.threads 0 = .returned .dequeue (-1) ∧
      Unchanged 5 0 s₁ [.lock 0 true, .setFlag, .test 0, .readFlag 0, .unlock 0 true] s₂ := by
  refine ⟨_, _, rfl, rfl, rfl, ?_⟩
  exact (unchanged_iff (by decide) .refl rfl rfl (by simp) rfl (by simp [connectionQueueInit])).mpr
    (by simp [Failed]) rfl

/-- The signal of a producer fails: it returns -1 with its descriptor in the queue. -/
theorem enqueue_signalFailed :
    ∃ s₁ s₂, step 5 connectionQueueInit (.call 0 (.enqueue 7)) = some s₁ ∧
      perform (step 5) s₁ [.lock 0 true, .test 0, .update 0, .signal 0 false [],
        .unlock 0 true] = some s₂ ∧
      s₂.threads 0 = .returned (.enqueue 7) (-1) ∧ s₁.contents 5 = [] ∧ s₂.contents 5 = [7] :=
  ⟨_, _, rfl, rfl, rfl, rfl, rfl⟩

end UmnProjects.Server
