import UmnProjects.Foundations.Runs
import Mathlib.Logic.Function.Basic

/-!
`barrier` of `concurrent_open.c`, step by step. The posts for one cohort are taken outside the
lock, so a thread of the next cohort that arrives before they are all taken can take one.
-/
namespace UmnProjects.Server.Barrier
open Runs

def CONCURRENCY_DEGREE : Nat := 5

/-- Where a thread stands, by what it does next. -/
inductive Place where
  | outside
  | test
  | post (i : Nat)
  | unlockFailed
  | unlock (last : Bool)
  | wait
  | left (result : Int)
deriving DecidableEq

/-- Threads are numbered; `arrival` is the number of the arrival of each thread that is or was
inside, at its last call. -/
structure State where
  lock : Option Nat
  nWaiters : Nat
  semaphore : Nat
  place : Nat → Place
  arrivals : Nat
  arrival : Nat → Nat

def State.start : State where
  lock := none
  nWaiters := 0
  semaphore := 0
  place := fun _ => .outside
  arrivals := 0
  arrival := fun _ => 0

/-- A thread does its next step; the library call it makes, if any, succeeds or fails. -/
structure Action where
  thread : Nat
  ok : Bool

def State.goTo (s : State) (thread : Nat) (place : Place) : State :=
  { s with place := Function.update s.place thread place }

/-- `pthread_mutex_lock`, which waits for the lock. -/
def enter (s : State) (a : Action) : Option State :=
  if a.ok then
    if s.lock = none then
      some { s.goTo a.thread .test with
        lock := some a.thread
        arrivals := s.arrivals + 1
        arrival := Function.update s.arrival a.thread s.arrivals }
    else none
  else some (s.goTo a.thread (.left (-1)))

/-- One step of a thread; none where it has to wait. -/
def step (s : State) (a : Action) : Option State :=
  match s.place a.thread with
  | .outside => enter s a
  | .left _ => enter s a
  | .test =>
      if s.nWaiters = CONCURRENCY_DEGREE - 1 then some (s.goTo a.thread (.post 0))
      else some { s.goTo a.thread (.unlock false) with nWaiters := s.nWaiters + 1 }
  | .post i =>
      if i < CONCURRENCY_DEGREE - 1 then
        if a.ok then
          some { s.goTo a.thread (.post (i + 1)) with semaphore := s.semaphore + 1 }
        else some (s.goTo a.thread .unlockFailed)
      else some { s.goTo a.thread (.unlock true) with nWaiters := 0 }
  -- What this unlock reports is not looked at.
  | .unlockFailed =>
      some { s.goTo a.thread (.left (-1)) with lock := if a.ok then none else s.lock }
  | .unlock last =>
      if a.ok then
        some { s.goTo a.thread (if last then .left 0 else .wait) with lock := none }
      else some (s.goTo a.thread (.left (-1)))
  | .wait =>
      if a.ok then
        if s.semaphore > 0 then
          some { s.goTo a.thread (.left 0) with semaphore := s.semaphore - 1 }
        else none
      else some (s.goTo a.thread (.left (-1)))

/-- The thread calls `barrier` next. -/
def Arrives (s : State) (thread : Nat) : Prop :=
  s.place thread = .outside ∨ ∃ result, s.place thread = .left result

/-- All threads of the cohort of this arrival have entered. -/
def Complete (s : State) (arrival : Nat) : Prop :=
  (arrival / CONCURRENCY_DEGREE + 1) * CONCURRENCY_DEGREE ≤ s.arrivals

/-- Every thread that has left was in a complete cohort. -/
def Safe (s : State) : Prop :=
  ∀ thread result, s.place thread = .left result → Complete s (s.arrival thread)

/-- The library calls succeed, and who arrives finds every post taken. -/
structure Orderly (s : State) (a : Action) : Prop where
  ok : a.ok = true
  taken : Arrives s a.thread → s.semaphore = 0

/-! ### The invariant -/

/-- What is known of the thread that holds the lock. -/
def Holding (s : State) : Place → Prop
  | .test => 0 < s.arrivals ∧ s.nWaiters = (s.arrivals - 1) % CONCURRENCY_DEGREE
  | .post _ => s.arrivals % CONCURRENCY_DEGREE = 0
  | .unlock last => s.nWaiters = s.arrivals % CONCURRENCY_DEGREE ∧
      (last = true → s.arrivals % CONCURRENCY_DEGREE = 0)
  | _ => False

/-- The thread is in the critical section. -/
def Place.Critical : Place → Prop
  | .test => True
  | .post _ => True
  | .unlockFailed => True
  | .unlock _ => True
  | _ => False

structure Inv (s : State) : Prop where
  free : s.lock = none → s.nWaiters = s.arrivals % CONCURRENCY_DEGREE
  held : ∀ thread, s.lock = some thread → Holding s (s.place thread)
  critical : ∀ thread, (s.place thread).Critical → s.lock = some thread
  posted : 0 < s.semaphore → s.arrivals % CONCURRENCY_DEGREE = 0
  numbered : ∀ thread, s.place thread ≠ .outside → s.arrival thread < s.arrivals
  safe : Safe s

variable {s t : State} {a : Action} {thread other : Nat} {place : Place}

theorem goTo_self (s : State) (thread : Nat) (place : Place) :
    (s.goTo thread place).place thread = place :=
  Function.update_self ..

theorem goTo_ne (h : other ≠ thread) : (s.goTo thread place).place other = s.place other :=
  Function.update_of_ne h ..

/-- When the last cohort is full, every arrival so far is in a complete one. -/
theorem complete_of_full (h : s.arrivals % CONCURRENCY_DEGREE = 0) {n : Nat}
    (hn : n < s.arrivals) : Complete s n := by
  simp only [Complete, CONCURRENCY_DEGREE] at h ⊢
  omega

/-- The place of a thread inside is changed, within the critical section or out of it. -/
structure Moves (s t : State) (thread : Nat) (place : Place) : Prop where
  self : t.place thread = place
  others : ∀ other, other ≠ thread → t.place other = s.place other
  arrivals : t.arrivals = s.arrivals
  arrival : t.arrival = s.arrival

theorem moves_goTo (s : State) (thread : Nat) (place : Place) (lock : Option Nat)
    (nWaiters semaphore : Nat) :
    Moves s { s.goTo thread place with
      lock := lock, nWaiters := nWaiters, semaphore := semaphore } thread place :=
  ⟨goTo_self s thread place, fun _ h => goTo_ne h, rfl, rfl⟩

theorem Complete.of_arrivals (h : t.arrivals = s.arrivals) {n : Nat} (hn : Complete s n) :
    Complete t n := by
  rw [Complete, h]
  exact hn

theorem Holding.congr {s t : State} (h : Holding s place) (harrivals : t.arrivals = s.arrivals)
    (hwaiters : t.nWaiters = s.nWaiters) : Holding t place := by
  unfold Holding at h ⊢
  rw [harrivals, hwaiters]
  exact h

section Moves

variable (h : Inv s) (hm : Moves s t thread place) (hinside : s.place thread ≠ .outside)
include h hm hinside

theorem Inv.numbered_move (other : Nat) (hother : t.place other ≠ .outside) :
    t.arrival other < t.arrivals := by
  rw [hm.arrivals, hm.arrival]
  by_cases heq : other = thread
  · rw [heq]
    exact h.numbered thread hinside
  · rw [hm.others other heq] at hother
    exact h.numbered other hother

theorem Inv.safe_move
    (hleft : ∀ result, place = .left result → s.arrivals % CONCURRENCY_DEGREE = 0) : Safe t := by
  intro other result hother
  refine Complete.of_arrivals hm.arrivals ?_
  rw [hm.arrival]
  by_cases heq : other = thread
  · rw [heq, hm.self] at hother
    rw [heq]
    exact complete_of_full (hleft result hother) (h.numbered thread hinside)
  · rw [hm.others other heq] at hother
    exact h.safe other result hother

/-- The thread that holds the lock goes on within the critical section. -/
theorem Inv.keep (hlock : s.lock = some thread) (hlock' : t.lock = s.lock)
    (hheld : Holding t place) (hposted : 0 < t.semaphore → s.arrivals % CONCURRENCY_DEGREE = 0)
    (hnot : ∀ result, place ≠ .left result) : Inv t := by
  refine ⟨?_, ?_, ?_, ?_, h.numbered_move hm hinside,
    h.safe_move hm hinside fun result heq => absurd heq (hnot result)⟩
  · intro hfree
    rw [hlock', hlock] at hfree
    cases hfree
  · intro other hother
    rw [hlock', hlock] at hother
    rw [← Option.some.inj hother, hm.self]
    exact hheld
  · intro other hother
    rw [hlock']
    by_cases heq : other = thread
    · rw [heq]
      exact hlock
    · rw [hm.others other heq] at hother
      exact h.critical other hother
  · intro hpos
    rw [hm.arrivals]
    exact hposted hpos

/-- The thread that holds the lock gives it back. -/
theorem Inv.release (hlock : s.lock = some thread) (hlock' : t.lock = none)
    (hplace : ¬ place.Critical) (hwaiters : t.nWaiters = s.arrivals % CONCURRENCY_DEGREE)
    (hsemaphore : t.semaphore = s.semaphore)
    (hleft : ∀ result, place = .left result → s.arrivals % CONCURRENCY_DEGREE = 0) : Inv t := by
  refine ⟨?_, ?_, ?_, ?_, h.numbered_move hm hinside, h.safe_move hm hinside hleft⟩
  · intro _
    rw [hm.arrivals]
    exact hwaiters
  · intro other hother
    rw [hlock'] at hother
    cases hother
  · intro other hother
    by_cases heq : other = thread
    · rw [heq, hm.self] at hother
      exact absurd hother hplace
    · rw [hm.others other heq] at hother
      have hsame := h.critical other hother
      rw [hlock] at hsame
      exact absurd (Option.some.inj hsame).symm heq
  · intro hpos
    rw [hsemaphore] at hpos
    rw [hm.arrivals]
    exact h.posted hpos

/-- A thread that waits takes a post, which the last thread of a cohort has made. -/
theorem Inv.take (hwait : s.place thread = .wait) (hlock : t.lock = s.lock)
    (hplace : ¬ place.Critical) (hwaiters : t.nWaiters = s.nWaiters) (hpos : 0 < s.semaphore) :
    Inv t := by
  have hfull := h.posted hpos
  have hholder : ∀ other, s.lock = some other → other ≠ thread := by
    intro other hother heq
    have hheld := h.held other hother
    rw [heq, hwait] at hheld
    exact hheld
  refine ⟨?_, ?_, ?_, ?_, h.numbered_move hm hinside, h.safe_move hm hinside fun _ _ => hfull⟩
  · intro hfree
    rw [hwaiters, hm.arrivals]
    exact h.free (hlock ▸ hfree)
  · intro other hother
    rw [hlock] at hother
    rw [hm.others other (hholder other hother)]
    exact (h.held other hother).congr hm.arrivals hwaiters
  · intro other hother
    rw [hlock]
    by_cases heq : other = thread
    · rw [heq, hm.self] at hother
      exact absurd hother hplace
    · rw [hm.others other heq] at hother
      exact h.critical other hother
  · intro _
    rw [hm.arrivals]
    exact hfull

end Moves

/-- An arrival, with no post left over. -/
theorem Inv.enter (h : Inv s) (hlock : s.lock = none) (htaken : s.semaphore = 0)
    (hself : t.place thread = .test)
    (hothers : ∀ other, other ≠ thread → t.place other = s.place other)
    (hlock' : t.lock = some thread) (hwaiters : t.nWaiters = s.nWaiters)
    (hsemaphore : t.semaphore = s.semaphore) (harrivals : t.arrivals = s.arrivals + 1)
    (harrival : t.arrival = Function.update s.arrival thread s.arrivals) : Inv t := by
  have hnone : ∀ other, ¬ (s.place other).Critical := by
    intro other hcritical
    have hheld := h.critical other hcritical
    rw [hlock] at hheld
    cases hheld
  refine ⟨?_, ?_, ?_, ?_, ?_, ?_⟩
  · intro hfree
    rw [hlock'] at hfree
    cases hfree
  · intro other hother
    rw [hlock'] at hother
    rw [← Option.some.inj hother, hself, Holding, harrivals, hwaiters]
    exact ⟨Nat.succ_pos _, h.free hlock⟩
  · intro other hother
    by_cases heq : other = thread
    · rw [heq]
      exact hlock'
    · rw [hothers other heq] at hother
      exact absurd hother (hnone other)
  · intro hpos
    omega
  · intro other hother
    rw [harrivals, harrival]
    by_cases heq : other = thread
    · rw [heq, Function.update_self]
      exact Nat.lt_succ_self _
    · rw [Function.update_of_ne heq]
      rw [hothers other heq] at hother
      exact Nat.lt_succ_of_lt (h.numbered other hother)
  · intro other result hother
    by_cases heq : other = thread
    · rw [heq, hself] at hother
      cases hother
    · rw [hothers other heq] at hother
      have hcomplete := h.safe other result hother
      rw [Complete] at hcomplete ⊢
      rw [harrivals, harrival, Function.update_of_ne heq]
      omega

theorem step_arrives (harrives : Arrives s a.thread) : step s a = enter s a := by
  rw [step]
  cases harrives with
  | inl houtside => rw [houtside]
  | inr hleft =>
      obtain ⟨result, hleft⟩ := hleft
      rw [hleft]

theorem inv_enter (h : Inv s) (hok : Orderly s a) (harrives : Arrives s a.thread)
    (hstep : enter s a = some t) : Inv t := by
  rw [Barrier.enter, if_pos hok.ok] at hstep
  split at hstep
  · next hlock =>
      cases hstep
      exact h.enter hlock (hok.taken harrives) (goTo_self s _ _) (fun _ hne => goTo_ne hne) rfl rfl
        rfl rfl rfl
  · cases hstep

/-- Who is in the critical section holds the lock. -/
theorem Inv.holding (h : Inv s) (hplace : s.place thread = place) (hcritical : place.Critical) :
    s.lock = some thread ∧ Holding s place := by
  subst hplace
  have hlock := h.critical thread hcritical
  exact ⟨hlock, h.held thread hlock⟩

theorem inside_of_place (hplace : s.place thread = place) (hne : place ≠ .outside) :
    s.place thread ≠ .outside :=
  hplace ▸ hne

theorem inv_test (h : Inv s) (hplace : s.place a.thread = .test) (hstep : step s a = some t) :
    Inv t := by
  obtain ⟨hlock, hpos, hwaiters⟩ := h.holding hplace trivial
  have hinside := inside_of_place hplace nofun
  simp only [step, hplace] at hstep
  split at hstep
  · next hlast =>
      cases hstep
      refine h.keep (moves_goTo s _ _ _ _ _) hinside hlock rfl ?_ h.posted fun _ => nofun
      change s.arrivals % CONCURRENCY_DEGREE = 0
      simp only [CONCURRENCY_DEGREE] at hlast hwaiters ⊢
      omega
  · next hlast =>
      cases hstep
      refine h.keep (moves_goTo s _ _ _ _ _) hinside hlock rfl ⟨?_, nofun⟩ h.posted fun _ => nofun
      change s.nWaiters + 1 = s.arrivals % CONCURRENCY_DEGREE
      simp only [CONCURRENCY_DEGREE] at hlast hwaiters ⊢
      omega

theorem inv_post (h : Inv s) (hok : Orderly s a) {i : Nat} (hplace : s.place a.thread = .post i)
    (hstep : step s a = some t) : Inv t := by
  obtain ⟨hlock, hheld⟩ := h.holding hplace trivial
  have hfull : s.arrivals % CONCURRENCY_DEGREE = 0 := hheld
  have hinside := inside_of_place hplace nofun
  simp only [step, hplace, hok.ok, if_true] at hstep
  split at hstep
  · cases hstep
    exact h.keep (moves_goTo s _ _ _ _ _) hinside hlock rfl hfull (fun _ => hfull) fun _ => nofun
  · cases hstep
    exact h.keep (moves_goTo s _ _ _ _ _) hinside hlock rfl ⟨hfull.symm, fun _ => hfull⟩ h.posted
      fun _ => nofun

theorem inv_unlock (h : Inv s) (hok : Orderly s a) {last : Bool}
    (hplace : s.place a.thread = .unlock last) (hstep : step s a = some t) : Inv t := by
  obtain ⟨hlock, hwaiters, hfull⟩ := h.holding hplace trivial
  have hinside := inside_of_place hplace nofun
  simp only [step, hplace, hok.ok, if_true] at hstep
  cases hstep
  refine h.release (moves_goTo s _ _ _ _ _) hinside hlock rfl ?_ hwaiters rfl ?_
  · cases last <;> exact id
  · intro result hleft
    cases last with
    | true => exact hfull rfl
    | false => cases hleft

theorem inv_wait (h : Inv s) (hok : Orderly s a) (hplace : s.place a.thread = .wait)
    (hstep : step s a = some t) : Inv t := by
  have hinside := inside_of_place hplace nofun
  simp only [step, hplace, hok.ok, if_true] at hstep
  split at hstep
  · next hpos =>
      cases hstep
      exact h.take (moves_goTo s _ _ _ _ _) hinside hplace rfl id rfl hpos
  · cases hstep

/-- What one step keeps, by the place of its thread. -/
theorem inv_step (h : Inv s) (hok : Orderly s a) (hstep : step s a = some t) : Inv t := by
  cases hplace : s.place a.thread with
  | outside =>
      have harrives : Arrives s a.thread := .inl hplace
      exact inv_enter h hok harrives (step_arrives harrives ▸ hstep)
  | left result =>
      have harrives : Arrives s a.thread := .inr ⟨result, hplace⟩
      exact inv_enter h hok harrives (step_arrives harrives ▸ hstep)
  | test => exact inv_test h hplace hstep
  | post i => exact inv_post h hok hplace hstep
  | unlockFailed => exact (h.holding hplace trivial).2.elim
  | unlock last => exact inv_unlock h hok hplace hstep
  | wait => exact inv_wait h hok hplace hstep

theorem inv_start : Inv .start where
  free := fun _ => rfl
  held := nofun
  critical := fun _ h => h.elim
  posted := fun h => absurd h (Nat.lt_irrefl 0)
  numbered := fun _ h => absurd rfl h
  safe := nofun

theorem inv_of_run {s : State} (h : Run step Orderly .start s) : Inv s :=
  h.invariant (fun _ _ _ hok hstep h => inv_step h hok hstep) inv_start

/-! ### Who arrives at a post that is left over -/

/-- The steps of a thread that is not the last of its cohort, from the arrival on. -/
def passing (thread : Nat) : List Action :=
  List.replicate 4 ⟨thread, true⟩

/-- The first of a cohort takes the post and leaves. -/
theorem Inv.leaves_early (h : Inv s) (hfree : s.lock = none) (hpost : 0 < s.semaphore)
    (harrives : Arrives s thread) : ∃ t, perform step s (passing thread) = some t ∧ ¬ Safe t := by
  have hfull := h.posted hpost
  have hwaiters : s.nWaiters = 0 := (h.free hfree).trans hfull
  let entered : State := { s.goTo thread .test with
    lock := some thread
    arrivals := s.arrivals + 1
    arrival := Function.update s.arrival thread s.arrivals }
  let counted : State := { entered.goTo thread (.unlock false) with nWaiters := s.nWaiters + 1 }
  let waiting : State := { counted.goTo thread .wait with lock := none }
  let gone : State := { waiting.goTo thread (.left 0) with semaphore := s.semaphore - 1 }
  have henter : step s ⟨thread, true⟩ = some entered := by
    rw [step_arrives harrives, Barrier.enter, if_pos rfl, if_pos hfree]
  have hcount : step entered ⟨thread, true⟩ = some counted := by
    have hplace : entered.place thread = .test := goTo_self s thread .test
    have hnot : entered.nWaiters ≠ CONCURRENCY_DEGREE - 1 := by
      rw [show entered.nWaiters = 0 from hwaiters]
      decide
    simp only [step, hplace]
    rw [if_neg hnot]
    rfl
  have hunlock : step counted ⟨thread, true⟩ = some waiting := by
    have hplace : counted.place thread = .unlock false := goTo_self entered thread (.unlock false)
    simp only [step, hplace]
    rfl
  have htake : step waiting ⟨thread, true⟩ = some gone := by
    have hplace : waiting.place thread = .wait := goTo_self counted thread .wait
    simp only [step, hplace]
    exact if_pos hpost
  refine ⟨gone, ?_, ?_⟩
  · simp only [passing, List.replicate, perform, henter, hcount, hunlock, htake]
  · intro hsafe
    have hcomplete := hsafe thread 0 (goTo_self waiting thread (.left 0))
    have hnumber : gone.arrival thread = s.arrivals := Function.update_self ..
    rw [hnumber, Complete] at hcomplete
    change (s.arrivals / CONCURRENCY_DEGREE + 1) * CONCURRENCY_DEGREE ≤ s.arrivals + 1 at hcomplete
    simp only [CONCURRENCY_DEGREE] at hcomplete hfull
    omega

/-- As long as the calls succeed and nobody arrives while a post is left over, no thread leaves
before all five of its cohort have entered; and who arrives at a post that is left over can leave
at once. -/
theorem barrier_safe {s : State} (h : Run step Orderly .start s) :
    Safe s ∧ ∀ thread, s.lock = none → Arrives s thread → 0 < s.semaphore →
      ∃ t, perform step s (passing thread) = some t ∧ ¬ Safe t := by
  have hinv := inv_of_run h
  refine ⟨hinv.safe, ?_⟩
  intro thread hfree harrives hpost
  exact hinv.leaves_early hfree hpost harrives

/-- Threads 0 to 3 wait, thread 4 makes the posts and leaves. -/
def cohort : List Action :=
  (List.range 4).flatMap (fun thread => List.replicate 3 ⟨thread, true⟩) ++
    List.replicate 8 ⟨4, true⟩

/-- A check that is enough for an orderly step. -/
def checked (s : State) (a : Action) : Bool :=
  match s.place a.thread with
  | .outside => a.ok && s.semaphore == 0
  | .left _ => a.ok && s.semaphore == 0
  | _ => a.ok

theorem orderly_of_checked (s : State) (a : Action) (h : checked s a = true) : Orderly s a := by
  unfold checked at h
  constructor
  · split at h
    · exact (Bool.and_eq_true_iff.mp h).1
    · exact (Bool.and_eq_true_iff.mp h).1
    · exact h
  · intro harrives
    cases harrives with
    | inl houtside =>
        rw [houtside] at h
        exact beq_iff_eq.mp (Bool.and_eq_true_iff.mp h).2
    | inr hleft =>
        obtain ⟨result, hleft⟩ := hleft
        rw [hleft] at h
        exact beq_iff_eq.mp (Bool.and_eq_true_iff.mp h).2

theorem barrier_safe_cohort : ∃ s, perform step .start cohort = some s ∧ s.place 4 = .left 0 ∧
    Safe s ∧ ∃ t, perform step s (passing 5) = some t ∧ ¬ Safe t := by
  refine ⟨_, rfl, rfl, ?_⟩
  have hsafe := barrier_safe (run_of_checked orderly_of_checked cohort rfl)
  exact ⟨hsafe.1, hsafe.2 5 rfl (.inl rfl) (by decide)⟩

/-- Thread 5, the first of the second cohort, leaves when no other of it has entered. -/
theorem barrier_unsafe : ∃ s, perform step .start (cohort ++ passing 5) = some s ∧ ¬ Safe s := by
  refine ⟨_, rfl, ?_⟩
  intro hsafe
  exact absurd (hsafe 5 0 rfl) (by unfold Complete; decide)

end UmnProjects.Server.Barrier
