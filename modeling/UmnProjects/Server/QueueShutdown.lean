import UmnProjects.Server.QueueInvariant

/-!
Whom `connection_queue_shutdown` wakes. It takes no mutex, so a thread can have read
the flag as clear and not yet be in a wait set when the broadcast passes.
-/
namespace UmnProjects.Server
open Runs

/-- Shutdown is past its broadcast of the condition. -/
def Shutdown.Passed : Shutdown → Cond → Prop
  | .notCalled, _ | .flagSet, _ => False
  | .emptyBroadcast _, k => k = .empty
  | .returned _, _ => True

/-- Some thread has read the flag as clear and is about to wait on the condition. -/
def State.WindowOpen (s : State) (k : Cond) : Prop :=
  ∃ t c, s.threads t = .entering c ∧ c.waitsOn = k

/-- No broadcast falls between a thread's test of the flag and its wait on that condition. -/
def Action.OutsideWindow (s : State) : Action → Prop
  | .broadcastEmpty _ => ¬ s.WindowOpen .empty
  | .broadcastFull _ => ¬ s.WindowOpen .full
  | _ => True

/-- Three facts about the shutdown: once it has begun the flag is up, and past a broadcast
nobody waits on that condition and nobody is about to. -/
structure Woken (s : State) : Prop where
  flag : s.closing ≠ .notCalled → s.shutdown = 1
  asleep : ∀ k, s.closing.Passed k → s.waitSet k = []
  window : ∀ k, s.closing.Passed k → ¬ s.WindowOpen k

namespace Woken

variable {CAPACITY : Nat} {s : State}

theorem init : Woken connectionQueueInit where
  flag := by
    intro h
    exact absurd rfl h
  asleep := by
    intro k h
    exact h.elim
  window := by
    intro k h
    exact h.elim

theorem passed_begun {p : Shutdown} {k : Cond} (h : p.Passed k) : p ≠ .notCalled := by
  intro hp
  subst hp
  exact h

/-- A step that wakes at most, opens no window and leaves shutdown where it is. -/
theorem keep (h : Woken s) {s' : State} (closing : s'.closing = s.closing)
    (flag : s'.shutdown = s.shutdown) (waitSet : ∀ k u, u ∈ s'.waitSet k → u ∈ s.waitSet k)
    (window : ∀ t c, s'.threads t = .entering c → s.threads t = .entering c) : Woken s' := by
  refine ⟨?_, ?_, ?_⟩
  · rw [closing, flag]
    exact h.flag
  · intro k hk
    rw [closing] at hk
    have hnil := h.asleep k hk
    apply List.eq_nil_iff_forall_not_mem.mpr
    intro u hu
    simpa [hnil] using waitSet k u hu
  · intro k hk hopen
    rw [closing] at hk
    obtain ⟨t, c, ht, hc⟩ := hopen
    exact h.window k hk ⟨t, c, window t c ht, hc⟩

theorem goto_entering {t u : ThreadId} {p : Thread} {c : Call} (hp : p ≠ .entering c)
    (h : (s.goto t p).threads u = .entering c) : s.threads u = .entering c := by
  by_cases hut : u = t
  · subst u
    exact absurd (by simpa using h) hp
  · simpa [hut] using h

theorem wake_entering (k : Cond) {chosen : List ThreadId} {u : ThreadId} {c : Call}
    (h : (s.wake k chosen).threads u = .entering c) : s.threads u = .entering c := by
  obtain hp | hp := s.wake_cases k chosen u
  · exact hp ▸ h
  · simpa [hp] using h

theorem wake_mem {k k' : Cond} {chosen : List ThreadId} {u : ThreadId}
    (h : u ∈ (s.wake k chosen).waitSet k') : u ∈ s.waitSet k' :=
  ((s.mem_wake_waitSet k chosen k' u).mp h).1

theorem wake_all (s : State) (k : Cond) : (s.wake k (s.waitSet k)).waitSet k = [] := by
  apply List.eq_nil_iff_forall_not_mem.mpr
  intro u hu
  have hmem := (s.mem_wake_waitSet k (s.waitSet k) k u).mp hu
  exact hmem.2 rfl hmem.1

theorem goto (h : Woken s) (t : ThreadId) {p : Thread} (hp : ∀ c, p ≠ .entering c) :
    Woken (s.goto t p) :=
  h.keep rfl rfl (fun _ _ hu => hu) fun _ c hu => goto_entering (hp c) hu

theorem wake (h : Woken s) (k : Cond) (chosen : List ThreadId) : Woken (s.wake k chosen) :=
  h.keep rfl rfl (fun _ _ hu => wake_mem hu) fun _ _ hu => wake_entering _ hu

theorem step {s' : State} {a : Action} (hs : step CAPACITY s a = some s')
    (succeeds : a.Succeeds) (outside : a.OutsideWindow s) (h : Woken s) : Woken s' := by
  cases effect_of_step hs with
  | call t c _ | blocked t c _ _ | passed t c _ _ | turnedAway t c _ _ =>
      exact h.goto t (by simp)
  | lock t c pc _ | relock t c pc _ | unlock t c ret pc =>
      exact h.keep rfl rfl (fun _ _ hu => hu) fun _ _ hu => goto_entering (by simp) hu
  | lockFailed _ _ _ | waitFailed _ _ _ | signalFailed _ _ _ _ _ | unlockFailed _ _ _ _
  | broadcastEmptyFailed _ | broadcastFullFailed _ _ => cases succeeds
  | stayed t c pc flag =>
      -- the flag was read as clear, so no broadcast has passed yet
      have notBegun : ∀ k, ¬ s.closing.Passed k := by
        intro k hk
        exact flag (h.flag (passed_begun hk))
      exact ⟨h.flag, h.asleep, fun k hk => absurd hk (notBegun k)⟩
  | wait t c pc =>
      refine ⟨h.flag, ?_, ?_⟩
      · intro k hk
        have hne : k ≠ c.waitsOn := by
          intro hkc
          exact h.window k hk ⟨t, c, pc, hkc.symm⟩
        simpa [hne] using h.asleep k hk
      · intro k hk hopen
        obtain ⟨u, c', hu, hc'⟩ := hopen
        exact h.window k hk ⟨u, c', goto_entering (by simp) hu, hc'⟩
  | wakeup t c pc => exact h.wake _ _
  | update t c pc =>
      cases c with
      | enqueue _ | dequeue =>
          exact h.keep rfl rfl (fun _ _ hu => hu) fun _ _ hu =>
            goto_entering (by simp) hu
  | signal t c ret chosen pc _ _ => exact (h.wake _ _).goto t (by simp)
  | setFlag pc =>
      exact ⟨fun _ => rfl, fun k hk => hk.elim, fun k hk => hk.elim⟩
  | broadcastEmpty pc =>
      refine ⟨fun _ => h.flag (by simp [pc]), ?_, ?_⟩
      · intro k hk
        cases hk
        exact wake_all s .empty
      · intro k hk hopen
        cases hk
        obtain ⟨t, c, ht, hc⟩ := hopen
        exact outside ⟨t, c, wake_entering .empty ht, hc⟩
  | broadcastFull retVal pc =>
      have hempty := h.asleep .empty (by simp [pc, Shutdown.Passed])
      have hclosed := h.window .empty (by simp [pc, Shutdown.Passed])
      refine ⟨fun _ => h.flag (by simp [pc]), ?_, ?_⟩
      · intro k _
        cases k with
        | empty => simpa [State.wake] using hempty
        | full => exact wake_all s .full
      · intro k _ hopen
        obtain ⟨t, c, ht, hc⟩ := hopen
        cases k with
        | empty => exact hclosed ⟨t, c, wake_entering .full ht, hc⟩
        | full => exact outside ⟨t, c, wake_entering .full ht, hc⟩

end Woken

/-- When no broadcast falls into the window, shutdown leaves nobody asleep. -/
theorem shutdown_wakes_everyone {CAPACITY : Nat} (hc : 1 ≤ CAPACITY) {s : State} {ret : Int}
    (h : Run (step CAPACITY) (fun s a => a.Succeeds ∧ a.OutsideWindow s) connectionQueueInit s)
    (returned : s.closing = .returned ret) :
    (∀ k, s.waitSet k = []) ∧ ∀ t c, s.threads t ≠ .waiting c := by
  have woken := h.invariant (fun _ _ _ ok hs hw => hw.step hs ok.1 ok.2) Woken.init
  have empty : ∀ k, s.waitSet k = [] := by
    intro k
    exact woken.asleep k (by simp [returned, Shutdown.Passed])
  refine ⟨empty, ?_⟩
  intro t c ht
  have hmem := ((Inv.of_run hc h).waiters t c.waitsOn).mpr ⟨c, ht, rfl⟩
  rw [empty] at hmem
  cases hmem

/-- A worker that sleeps on an empty queue before the shutdown begins. -/
def promptWorker : List Action :=
  [.call 0 .dequeue, .lock 0 true, .test 0, .readFlag 0, .wait 0 true, .setFlag]

theorem shutdown_wakes_everyone_promptWorker :
    ∃ s, perform (step 5) connectionQueueInit
        (promptWorker ++ [.broadcastEmpty true] ++ [.broadcastFull true]) = some s ∧
      s.closing = .returned 0 ∧ (∀ k, s.waitSet k = []) ∧ ∀ t c, s.threads t ≠ .waiting c := by
  obtain ⟨s, hs⟩ : ∃ s, perform (step 5) connectionQueueInit promptWorker = some s := ⟨_, rfl⟩
  have run : Run (step 5) (fun s a => a.Succeeds ∧ a.OutsideWindow s) connectionQueueInit s := by
    apply run_of_perform hs
    simp [promptWorker, Action.Succeeds, Action.OutsideWindow]
  have nobody : ∀ k, ¬ s.WindowOpen k := by
    intro k hopen
    obtain ⟨t, c, ht, _⟩ := hopen
    cases hs
    by_cases h0 : t = 0
    · subst t
      simp [State.goto] at ht
    · simp [State.goto, connectionQueueInit, h0] at ht
  obtain ⟨s', hs'⟩ : ∃ s', step 5 s (.broadcastEmpty true) = some s' := by
    cases hs
    exact ⟨_, rfl⟩
  have nobody' : ¬ s'.WindowOpen .full := by
    intro hopen
    obtain ⟨t, c, ht, hc⟩ := hopen
    cases effect_of_step hs' with
    | broadcastEmpty pc => exact nobody .full ⟨t, c, Woken.wake_entering .empty ht, hc⟩
  obtain ⟨s'', hs'', returned⟩ : ∃ s'', step 5 s' (.broadcastFull true) = some s'' ∧
      s''.closing = .returned 0 := by
    cases hs
    cases hs'
    exact ⟨_, rfl, rfl⟩
  have ok : (Action.broadcastEmpty true).Succeeds := rfl
  have ok' : (Action.broadcastFull true).Succeeds := rfl
  have run'' := (run.tail ⟨ok, nobody .empty⟩ hs').tail ⟨ok', nobody'⟩ hs''
  exact ⟨s'', perform_concat (perform_concat hs hs') hs'', returned,
    shutdown_wakes_everyone (by decide) run'' returned⟩

theorem entering_wake {s : State} {t : ThreadId} {c : Call} (k : Cond)
    (chosen : List ThreadId) (pc : s.threads t = .entering c) :
    (s.wake k chosen).threads t = .entering c := by
  obtain hp | hp := s.wake_cases k chosen t
  · rw [hp, pc]
  · rw [hp, pc]
    rfl

/-- Whoever has read the flag as clear when the broadcasts begin can be left asleep by them. -/
theorem stranded_of_entering {CAPACITY : Nat} {s : State} {t : ThreadId} {c : Call}
    (pc : s.threads t = .entering c) (begun : s.closing = .flagSet) :
    ∃ s' ret, Run (step CAPACITY) (fun _ a => a.Succeeds) s s' ∧
      s'.closing = .returned ret ∧ s'.threads t = .waiting c ∧ t ∈ s'.waitSet c.waitsOn := by
  let s₁ : State := { s.wake .empty (s.waitSet .empty) with closing := .emptyBroadcast 0 }
  let s₂ : State := { s₁.wake .full (s₁.waitSet .full) with closing := .returned 0 }
  have h₁ : step CAPACITY s (.broadcastEmpty true) = some s₁ := by simp [step, begun, s₁]
  have h₂ : step CAPACITY s₁ (.broadcastFull true) = some s₂ := by simp [step, s₁, s₂]
  have pc₁ : s₁.threads t = .entering c := entering_wake .empty _ pc
  have pc₂ : s₂.threads t = .entering c := entering_wake .full _ pc₁
  have h₃ : step CAPACITY s₂ (.wait t true) = some
      { s₂.goto t (.waiting c) with
        mutex := none
        waitSet := fun k => if k = c.waitsOn then s₂.waitSet k ++ [t] else s₂.waitSet k } := by
    simp [step, pc₂]
  refine ⟨_, 0, Run.tail (Run.tail (Run.tail .refl ?_ h₁) ?_ h₂) ?_ h₃, rfl, ?_, ?_⟩
  · exact rfl
  · exact rfl
  · exact rfl
  · simp
  · simp

/-- A worker that has read the flag as clear when the whole shutdown passes. -/
def lateWorker : List Action :=
  [.call 0 .dequeue, .lock 0 true, .test 0, .readFlag 0, .setFlag, .broadcastEmpty true,
    .broadcastFull true, .wait 0 true]

theorem shutdown_strands_lateWorker :
    ∃ s, Run (step 5) (fun _ a => a.Succeeds) connectionQueueInit s ∧
      s.closing = .returned 0 ∧ s.threads 0 = .waiting .dequeue ∧ s.waitSet .empty = [0] := by
  obtain ⟨s, hs⟩ : ∃ s, perform (step 5) connectionQueueInit lateWorker = some s := ⟨_, rfl⟩
  refine ⟨s, ?_, ?_⟩
  · apply run_of_perform hs
    intro a ha _
    have all : ∀ a ∈ lateWorker, a.Succeeds := by decide
    exact all a ha
  · cases hs
    decide

end UmnProjects.Server
