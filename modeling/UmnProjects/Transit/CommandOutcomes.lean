import UmnProjects.Transit.Riders

/-!
What becomes of a message that creates an entity or schedules a trip: it is carried out as a
whole, or ought to leave everything as it was.
-/
namespace UmnProjects.Transit
open Runs

variable {K : Type}

/-- The types the factories know. -/
def entityTypes : List String := ["drone", "robot", "human", "helicopter", "ufo"]

/-- The travel types a trip can ask for. -/
def travelTypes : List String := ["standard", "fancy", "extravagant"]

namespace SimulationModel

/-- The entity is an available robot of the name. -/
structure IsFreeRobot (s : SimulationModel K) (name : String) (e : TypeDecorator) (r : Robot K) :
    Prop where
  listed : e ∈ s.entities
  robot : s.objects e.getId = some (.robot r)
  name : r.details.name = name
  available : r.available = true

/-- One new decorated entity, with the details of the message. -/
structure Created (s : SimulationModel K) (m : EntityMessage K) (e : TypeDecorator)
    (o : Object K) (s' : SimulationModel K) : Prop where
  new : s.objects e.getId = none
  details : o.getDetails = ⟨m.type, m.name, m.position, m.direction, m.speed⟩
  wraps : e.entity = .object e.getId
  objects : s'.objects = Function.update s.objects e.getId (some o)
  entities : s'.entities = s.entities ++ [e]
  scheduler : s'.scheduler = s.scheduler
  events : s'.events = s.events ++ [.addEntity e.getId]

/-- One new scheduler entry around the robot, which is told of its trip, and its report. -/
structure Scheduled (s : SimulationModel K) (m : TripMessage K) (entry e : TypeDecorator)
    (r : Robot K) (s' : SimulationModel K) : Prop where
  free : s.IsFreeRobot m.name e r
  wraps : entry.entity = e.toEntity
  travelType : entry.travelType.name = m.droneReq
  objects : s'.objects = Function.update s.objects e.getId
    (some (.robot { r with destination := m.finish, strategyName := m.search }))
  entities : s'.entities = s.entities
  scheduler : s'.scheduler = s.scheduler ++ [entry]
  events : s'.events = s.events ++ [.tripScheduled]

/-- Nothing has happened to the entities and the scheduler, and no trip is reported. -/
structure Untouched (s s' : SimulationModel K) : Prop where
  objects : s'.objects = s.objects
  entities : s'.entities = s.entities
  scheduler : s'.scheduler = s.scheduler
  events : s'.events.count .tripScheduled = s.events.count .tripScheduled

/-- The type is known; the request is known and an available robot has the name. -/
def Accepts (s : SimulationModel K) : Command K → Prop
  | .createEntity m => m.type ∈ entityTypes
  | .scheduleTrip m => m.droneReq ∈ travelTypes ∧ ∃ e r, s.IsFreeRobot m.name e r
  | .update _ => True

/-- What carrying out a message means. -/
def CarriedOut (s : SimulationModel K) : Command K → SimulationModel K → Prop
  | .createEntity m, s' => ∃ e o, Created s m e o s'
  | .scheduleTrip m, s' => ∃ entry e r, Scheduled s m entry e r s'
  | .update _, _ => True

section Outcome

variable {s s' : SimulationModel K}

theorem requested_eq_none_iff {droneReq : String} :
    requested droneReq = none ↔ droneReq ∉ travelTypes := by
  unfold requested
  simp only [travelTypes, List.mem_cons, List.not_mem_nil, or_false]
  split
  · simp [*]
  split
  · simp [*]
  split
  · simp [*]
  · simp [*]

/-- The search for a robot fails only where there is none. -/
theorem findRobot_eq_none (h : WellFormed s) {name : String} (hnone : s.findRobot name = none)
    (e : TypeDecorator) (r : Robot K) : ¬ s.IsFreeRobot name e r := by
  intro hfree
  have hsearch := List.find?_eq_none.mp hnone e hfree.listed
  have htype : r.details.type = "robot" :=
    h.typed e.getId ("robot", r.details) (by rw [profile, hfree.robot]; rfl)
  simp [getType, hfree.robot, Object.getDetails, Object.getAvailability, hfree.name, htype,
    hfree.available] at hsearch

theorem findRobot_free (h : WellFormed s) {name : String} {e : TypeDecorator}
    (hfound : s.findRobot name = some e) : ∃ r, s.IsFreeRobot name e r := by
  obtain ⟨hmem, htype, havailable⟩ := WellFormed.findRobot_spec hfound
  obtain ⟨r, hr⟩ := Paired.robot_of_type h htype
  have hsearch := List.find?_some hfound
  rw [hr] at havailable hsearch
  simp only [Option.map_some, Bool.and_eq_true, beq_iff_eq] at hsearch
  exact ⟨r, hmem, hr, Option.some.inj hsearch.1, Option.some.inj havailable⟩

variable [Scalar K] (world : World K)

/-- The message is carried out, or nothing happens and rightly so. -/
def AllOrNothing (s : SimulationModel K) (c : Command K) : Prop :=
  ∃ s', Transit.step world s c = some s' ∧
    (s.CarriedOut c s' ∨ ¬ s.Accepts c ∧ Untouched s s')

theorem newObject_details {m : EntityMessage K} {o : Object K} {s₁ : SimulationModel K}
    (h : s.newObject world m = some (o, s₁)) :
    o.getDetails = ⟨m.type, m.name, m.position, m.direction, m.speed⟩ ∧
      s₁.events = s.events := by
  obtain ⟨_, rfl, rfl⟩ | ⟨_, rfl, rfl⟩ | ⟨_, rfl, rfl⟩ | ⟨_, rfl, rfl⟩ | ⟨_, rfl, rfl⟩ :=
    WellFormed.newObject_cases world h
  all_goals exact ⟨rfl, rfl⟩

theorem newObject_eq_none_iff {m : EntityMessage K} :
    s.newObject world m = none ↔ m.type ∉ entityTypes := by
  unfold newObject
  simp only [entityTypes, List.mem_cons, List.not_mem_nil, or_false]
  split
  · simp [*]
  split
  · simp [*]
  split
  · simp [*]
  split
  · simp [*]
  split
  · simp [*]
  · simp [*]

theorem created_of_known (h : WellFormed s) {m : EntityMessage K} (hm : m.type ∈ entityTypes) :
    ∃ s', s.createEntity world m = some s' ∧ s.CarriedOut (.createEntity m) s' := by
  cases hnew : s.newObject world m with
  | none => exact absurd hm ((newObject_eq_none_iff world).mp hnew)
  | some made =>
      obtain ⟨o, s₁⟩ := made
      obtain ⟨details, events⟩ := newObject_details world hnew
      obtain ⟨steady, _, _, _, objects, _⟩ := WellFormed.newObject_spec world hnew
      cases hcreate : s.createEntity world m with
      | none => simp [createEntity, hnew] at hcreate
      | some s' =>
          simp only [createEntity, hnew, Option.some.injEq] at hcreate
          subst hcreate
          refine ⟨_, rfl, ⟨s.currentId + 1, wrapType s.currentId, .object s.currentId⟩, o, ?_,
            details, rfl, ?_, ?_, steady.scheduler, ?_⟩
          · exact Option.map_eq_none_iff.mp (h.fresh s.currentId le_rfl)
          · rw [← objects, ← steady.currentId]
            rfl
          · rw [← steady.entities, ← steady.currentId]
            rfl
          · rw [← events, ← steady.currentId]
            rfl

theorem createEntity_allOrNothing_iff (h : WellFormed s) (m : EntityMessage K) :
    AllOrNothing world s (.createEntity m) ↔ s.Accepts (.createEntity m) := by
  constructor
  · rintro ⟨s', hstep, _⟩
    by_contra hunknown
    simp [Transit.step, createEntity, (newObject_eq_none_iff world).mpr hunknown] at hstep
  · intro hknown
    obtain ⟨s', hcreate, hdone⟩ := created_of_known world h hknown
    exact ⟨s', hcreate, .inl hdone⟩

/-! ### Trips -/

/-- A known trip for a robot that is there. -/
theorem scheduled_of_free (h : WellFormed s) {m : TripMessage K} {e : TypeDecorator}
    {travelType : TravelType} (hfound : s.findRobot m.name = some e)
    (hrequest : requested m.droneReq = some travelType) :
    ∃ s', s.scheduleTrip world m = some s' ∧ s.CarriedOut (.scheduleTrip m) s' := by
  obtain ⟨r, hfree⟩ := findRobot_free h hfound
  cases hschedule : s.scheduleTrip world m with
  | none => simp [scheduleTrip, hfound, hrequest] at hschedule
  | some s' =>
      have hdestination : s.setDestination world e.getId m.finish =
          s.modify e.getId fun _ => .robot { r with destination := m.finish } := by
        simp [setDestination, hfree.robot]
      simp only [scheduleTrip, hfound, hrequest, hdestination, Option.some.injEq] at hschedule
      subst hschedule
      refine ⟨_, rfl, ⟨s.currentId, travelType, e.toEntity⟩, e, r, hfree, rfl,
        (Paired.requested_name hrequest).symm, ?_, rfl, rfl, rfl⟩
      funext id
      by_cases hid : id = e.getId
      · subst hid
        simp [modify, note, send, hfree.robot, Object.setStrategyName]
      · simp [modify, note, send, hid]

theorem scheduleTrip_allOrNothing_iff (h : WellFormed s) (m : TripMessage K) :
    AllOrNothing world s (.scheduleTrip m) ↔ s.Accepts (.scheduleTrip m) := by
  constructor
  · rintro ⟨s', hstep, hdone⟩
    change s.scheduleTrip world m = some s' at hstep
    cases hfound : s.findRobot m.name with
    | none =>
        -- The trip is reported although nobody takes it.
        simp only [scheduleTrip, hfound, Option.some.injEq] at hstep
        subst hstep
        obtain ⟨entry, _, _, hdone⟩ | ⟨_, huntouched⟩ := hdone
        · have hscheduler : s.scheduler = s.scheduler ++ [entry] := hdone.scheduler
          simp at hscheduler
        · have hevents : (s.events ++ [Event.tripScheduled]).count .tripScheduled =
            s.events.count .tripScheduled := huntouched.events
          simp at hevents
    | some e =>
        obtain ⟨r, hfree⟩ := findRobot_free h hfound
        refine ⟨?_, e, r, hfree⟩
        by_contra hunknown
        simp [scheduleTrip, hfound, requested_eq_none_iff.mpr hunknown] at hstep
  · rintro ⟨hknown, e, r, hfree⟩
    cases hfound : s.findRobot m.name with
    | none => exact absurd hfree (findRobot_eq_none h hfound e r)
    | some e' =>
        cases hrequest : requested m.droneReq with
        | none => exact absurd hknown (requested_eq_none_iff.mp hrequest)
        | some travelType =>
            obtain ⟨s', hschedule, hdone⟩ := scheduled_of_free world h hfound hrequest
            exact ⟨s', hschedule, .inl hdone⟩

end Outcome

/-- One robot in the simulation. -/
def oneRobot : List (Command Int) := [.createEntity (atOrigin "robot" "Robot")]

end SimulationModel

end UmnProjects.Transit
