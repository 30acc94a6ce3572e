import Mathlib.Algebra.Order.Floor.Semiring
import Mathlib.Data.Rat.Floor
import Mathlib.Tactic.Linarith
import Mathlib.Tactic.Ring
import UmnProjects.Foundations.Runs
import UmnProjects.Transit.Simulation

/-!
The web server of the simulation: a session for every connected page, each with a clock of
its own, and the one model they all update. Numbers are exact here.
-/
namespace UmnProjects.Transit

open Runs

/-- What the simulation computes with besides the operations of a field. -/
structure Functions (K : Type) where
  sqrt : K → K
  sin : K → K
  cos : K → K

@[reducible]
def exactScalar {K : Type} [Field K] [LinearOrder K] (functions : Functions K) : Scalar K where
  ofInt n := n
  sqrt := functions.sqrt
  sin := functions.sin
  cos := functions.cos
  less a b := decide (a < b)
  isZero a := decide (a = 0)

/-- A session: the reading of the clock at its start, and the time it has passed on since. -/
structure TransitService (K : Type) where
  start : K
  time : K
  deriving Repr, DecidableEq

inductive Request (K : Type) where
  | createEntity (m : EntityMessage K)
  | toCSV
  | scheduleTrip (m : TripMessage K)
  | ping
  | update (now simSpeed : K)

/-- The times passed to `Update` of the model so far are kept, with the readings of the
clock when the first session started and at the last `Update` command. -/
structure TransitWebServer (K : Type) where
  model : SimulationModel K
  sessions : List (TransitService K)
  passed : List K
  first : K
  last : K

inductive Action (K : Type) where
  | createSession (now : K)
  | receiveCommand (i : Nat) (cmd : Request K)

/-- The loop `for (float f = 0.0; f < delta; f+=0.01)` from `f` on. -/
def subSteps {K : Type} [Field K] [LinearOrder K] [IsStrictOrderedRing K] [FloorSemiring K]
    (delta f : K) : List K :=
  if f < delta then 1 / 100 :: subSteps delta (f + 1 / 100) else []
termination_by ⌈(delta - f) * 100⌉₊
decreasing_by
  have hpos : 0 < ⌈(delta - f) * 100⌉₊ := Nat.ceil_pos.mpr (by linarith)
  have hless : (delta - (f + 1 / 100)) * 100 = (delta - f) * 100 - 1 := by ring
  rw [hless, Nat.ceil_sub_one]
  omega

section Exact

variable {K : Type} [Field K] [LinearOrder K] [IsStrictOrderedRing K] [FloorSemiring K]

/-- The times an `Update` command passes to the model for its delta. -/
def modelUpdates (delta : K) : List K :=
  if delta > 1 / 10 then subSteps delta 0 else [delta]

theorem sum_subSteps (delta f : K) :
    (subSteps delta f).sum = ⌈(delta - f) * 100⌉₊ / 100 := by
  induction f using subSteps.induct delta with
  | case1 f hlt ih =>
      have hpos : 0 < ⌈(delta - f) * 100⌉₊ := Nat.ceil_pos.mpr (by linarith)
      have hless : (delta - (f + 1 / 100)) * 100 = (delta - f) * 100 - 1 := by ring
      rw [hless, Nat.ceil_sub_one, Nat.cast_sub hpos] at ih
      rw [subSteps, if_pos hlt, List.sum_cons, ih]
      push_cast
      ring
  | case2 f hge =>
      have hzero : ⌈(delta - f) * 100⌉₊ = 0 := Nat.ceil_eq_zero.mpr (by linarith)
      rw [subSteps, if_neg hge, hzero]
      simp

/-- A long delta is passed on exactly when it is made up of whole steps. -/
theorem sum_modelUpdates_iff (delta : K) :
    (modelUpdates delta).sum = delta ↔ delta ≤ 1 / 10 ∨ ∃ n : ℕ, delta = n / 100 := by
  rw [modelUpdates]
  split
  · next hlong =>
      rw [sum_subSteps, sub_zero]
      constructor
      · exact fun h => .inr ⟨_, h.symm⟩
      · intro h
        obtain hshort | ⟨n, rfl⟩ := h
        · exact absurd hlong (not_lt.mpr hshort)
        · have hceil : ((n : K) / 100) * 100 = n := by ring
          rw [hceil, Nat.ceil_natCast]
  · next hshort => simpa using Or.inl (not_lt.mp hshort)

/-! ### The server -/

variable (functions : Functions K) (world : World K)

/-- What a session has passed time on to. -/
def TransitService.clock (service : TransitService K) : K := service.start + service.time

/-- The calls of the model's `Update`. -/
def updateModel (dts : List K) (model : SimulationModel K) : SimulationModel K :=
  letI := exactScalar functions
  dts.foldl (fun model dt => model.update world dt) model

/-- `none` where there is no such session, or the model has no defined behaviour. -/
def receiveCommand (server : TransitWebServer K) (i : Nat) (cmd : Request K) :
    Option (TransitWebServer K) :=
  letI := exactScalar functions
  match server.sessions[i]?, cmd with
  | none, _ => none
  | some _, .createEntity m =>
      (step world server.model (.createEntity m)).map fun model => { server with model }
  | some _, .scheduleTrip m =>
      (step world server.model (.scheduleTrip m)).map fun model => { server with model }
  | some _, .toCSV => some server
  | some _, .ping => some server
  | some service, .update now simSpeed =>
      let diff := now - service.start
      let delta := diff - service.time
      let time := service.time + delta
      let dts := modelUpdates (delta * simSpeed)
      some { server with
        model := updateModel functions world dts server.model
        sessions := server.sessions.set i { service with time }
        passed := server.passed ++ dts
        last := now }

def serverStep (server : TransitWebServer K) : Action K → Option (TransitWebServer K)
  | .createSession now => some { server with sessions := server.sessions ++ [⟨now, 0⟩] }
  | .receiveCommand i cmd => receiveCommand functions world server i cmd

/-- The server when its first session starts. -/
def serverStart (now : K) : TransitWebServer K :=
  { model := .init K, sessions := [⟨now, 0⟩], passed := [], first := now, last := now }

/-- The model has been updated by as much as the clock has advanced. -/
def OnTime (server : TransitWebServer K) : Prop :=
  server.passed.sum = server.last - server.first

/-- All `Update` commands ask for the simulation speed 1. -/
def UnitSpeed (_ : TransitWebServer K) : Action K → Prop
  | .receiveCommand _ (.update _ simSpeed) => simSpeed = 1
  | _ => True

/-- The session that sends an `Update` has passed time on up to the last `Update` of any
session, and since then no more than 0.1 or a multiple of 0.01 has gone by. -/
def InStep (server : TransitWebServer K) : Action K → Prop
  | .receiveCommand i (.update now _) =>
      (∀ service, server.sessions[i]? = some service → service.clock = server.last) ∧
        (now - server.last ≤ 1 / 10 ∨ ∃ n : ℕ, now - server.last = n / 100)
  | _ => True

theorem onTime_step {server server' : TransitWebServer K} {a : Action K}
    (hspeed : UnitSpeed server a) (hok : InStep server a)
    (h : serverStep functions world server a = some server') (hs : OnTime server) :
    OnTime server' := by
  cases a with
  | createSession now =>
      cases h
      exact hs
  | receiveCommand i cmd =>
      simp only [serverStep, receiveCommand] at h
      cases hi : server.sessions[i]? with
      | none => simp [hi] at h
      | some service =>
          rw [hi] at h
          cases cmd with
          | createEntity m | scheduleTrip m =>
              obtain ⟨model, _, heq⟩ := Option.map_eq_some_iff.mp h
              cases heq
              exact hs
          | toCSV | ping =>
              cases h
              exact hs
          | update now simSpeed =>
              cases h
              have hunit : simSpeed = 1 := hspeed
              obtain ⟨hclock, hdelta⟩ := hok
              have hdiff : now - service.start - service.time = now - server.last := by
                rw [← hclock service hi, TransitService.clock]
                ring
              have hsum := (sum_modelUpdates_iff (now - server.last)).mpr hdelta
              simp only [OnTime, hunit, mul_one, hdiff, List.sum_append, hsum]
              rw [hs]
              ring

/-- As long as every `Update` is in step the model has gone exactly as far as the clock. -/
theorem onTime_of_inStep (now : K) {server : TransitWebServer K}
    (h : Run (serverStep functions world) (fun s a => UnitSpeed s a ∧ InStep s a)
      (serverStart now) server) : OnTime server := by
  refine h.invariant (fun s a t hok hstep hs => ?_) ?_
  · exact onTime_step functions world hok.1 hok.2 hstep hs
  · simp [OnTime, serverStart]

end Exact

/-! ### Out of step -/

def plainFunctions : Functions ℚ := ⟨id, id, id⟩

def plainWorld : World ℚ where
  getPath _ _ _ := []
  random _ low _ := low
  uninitialized := false
  noName := ""

/-- One session updates in fifteen sub-steps, and a second one that starts then goes on from
there. -/
def sessionsInTurn : List (Action ℚ) :=
  [.receiveCommand 0 (.update (3 / 20) 1), .createSession (3 / 20),
    .receiveCommand 1 (.update (1 / 5) 1)]

theorem sessionsInTurn_onTime :
    ∃ server, perform (serverStep plainFunctions plainWorld) (serverStart 0) sessionsInTurn =
      some server ∧ server.sessions.length = 2 ∧ server.last = 1 / 5 ∧ OnTime server := by
  have hstart : Run (serverStep plainFunctions plainWorld) (fun s a => UnitSpeed s a ∧ InStep s a)
      (serverStart 0) (serverStart 0) := .refl
  have hfirst := hstart.tail (a := .receiveCommand 0 (.update (3 / 20) 1)) (by
    refine ⟨rfl, fun service hservice => ?_, .inr ⟨15, by norm_num [serverStart]⟩⟩
    cases hservice
    norm_num [TransitService.clock, serverStart]) rfl
  have hcreated := hfirst.tail (a := .createSession (3 / 20)) (by exact ⟨trivial, trivial⟩) rfl
  have hsecond := hcreated.tail (a := .receiveCommand 1 (.update (1 / 5) 1)) (by
    refine ⟨rfl, fun service hservice => ?_, .inl (by norm_num)⟩
    cases hservice
    norm_num [TransitService.clock]) rfl
  exact ⟨_, rfl, rfl, rfl, onTime_of_inStep plainFunctions plainWorld 0 hsecond⟩

/-- Two sessions update for the same tenth of a second. -/
def twoSessions : List (Action ℚ) :=
  [.createSession 0, .receiveCommand 0 (.update (1 / 10) 1),
    .receiveCommand 1 (.update (1 / 10) 1)]

/-- One session updates for a time that is no multiple of 0.01. -/
def longDelta : List (Action ℚ) := [.receiveCommand 0 (.update (21 / 200) 1)]

theorem longDelta_overshoots : (modelUpdates (21 / 200 : ℚ)).sum ≠ 21 / 200 := by
  intro hsum
  obtain hshort | ⟨n, hn⟩ := (sum_modelUpdates_iff (21 / 200 : ℚ)).mp hsum
  · norm_num at hshort
  · have hdouble : ((2 * n : ℕ) : ℚ) = (21 : ℕ) := by
      push_cast
      linarith
    have hparity : 2 * n = 21 := Nat.cast_injective hdouble
    omega

/-- Either of the two puts the model ahead of the clock. -/
theorem sessions_notOnTime :
    (∀ a ∈ twoSessions ++ longDelta, ∀ s, UnitSpeed s a) ∧
      (∃ server, perform (serverStep plainFunctions plainWorld) (serverStart 0) twoSessions =
        some server ∧ ¬ OnTime server) ∧
      ∃ server, perform (serverStep plainFunctions plainWorld) (serverStart 0) longDelta =
        some server ∧ ¬ OnTime server := by
  refine ⟨?_, ⟨_, rfl, ?_⟩, _, rfl, ?_⟩
  · simp [twoSessions, longDelta, UnitSpeed]
  · norm_num [OnTime, serverStart, modelUpdates]
  · simpa [OnTime, serverStart] using longDelta_overshoots

end UmnProjects.Transit
