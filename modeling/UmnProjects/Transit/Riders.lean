import UmnProjects.Foundations.History
import UmnProjects.Transit.Stages
import UmnProjects.Transit.UpdateCount

/-!
Drones and their riders. A rider is a scheduler entry around a robot; the robot is made
unavailable when the rider is assigned and nothing the simulation does makes it
available again.
-/
namespace UmnProjects.Transit
open Runs History

variable {K : Type}

/-- A rider that wraps the robot is assigned to a drone. -/
def Note.Assigns (id : Nat) (n : Note K) : Prop :=
  ∃ e r strat finalDest, n = .assigned e r strat finalDest ∧ r.getId = id

def Note.Frees (id : Nat) (n : Note K) : Prop :=
  n = .availability id true

namespace SimulationModel

def riderOf (s : SimulationModel K) (id : Nat) : Option TypeDecorator :=
  (s.objects id).bind Object.rider

def robotFree (s : SimulationModel K) (id : Nat) : Option Bool :=
  (s.objects id).bind Object.robotFree

structure Paired (s : SimulationModel K) : Prop where
  wellFormed : WellFormed s
  /-- Each scheduler entry was put there by a trip that asked for its travel type. -/
  requested : ∀ r ∈ s.scheduler, ∃ trip, .scheduled r trip ∈ s.journal ∧
    trip.droneReq = r.travelType.name
  listed : ∀ id r, s.riderOf id = some r → r ∈ s.scheduler
  taken : ∀ id r, s.riderOf id = some r → s.robotFree r.getId = some false
  sameType : ∀ e ∈ s.entities, ∀ r, s.riderOf e.getId = some r → r.travelType = e.travelType
  exclusive : ∀ id id' r r', s.riderOf id = some r → s.riderOf id' = some r' →
    r.getId = r'.getId → id = id'
  separated : ∀ id, Separated (Note.Assigns id) (Note.Frees id) s.journal
  ready : ∀ id, s.robotFree id ≠ some false → Ready (Note.Assigns id) (Note.Frees id) s.journal

namespace Paired

variable {s s' : SimulationModel K}

theorem init : Paired (SimulationModel.init K) where
  wellFormed := WellFormed.init
  requested := by
    intro r hr
    cases hr
  listed := by
    intro id r hr
    cases hr
  taken := by
    intro id r hr
    cases hr
  sameType := by
    intro e he
    cases he
  exclusive := by
    intro id id' r r' hr
    cases hr
  separated := fun _ => separated_nil
  ready := fun _ _ => ready_nil

theorem riderOf_calm (hc : Calm s s') (id : Nat) :
    s'.riderOf id = s.riderOf id ∨ s'.riderOf id = none := by
  unfold riderOf
  cases ho : s.objects id with
  | none => simp [hc.absent id ho]
  | some o =>
      obtain ⟨o', ho', hm⟩ := hc.moved id o ho
      simpa [ho'] using hm.rider

theorem riderOf_of_calm (hc : Calm s s') {id : Nat} {r : TypeDecorator}
    (h : s'.riderOf id = some r) : s.riderOf id = some r := by
  obtain heq | hnone := riderOf_calm hc id
  · rw [← heq]
    exact h
  · rw [hnone] at h
    cases h

theorem robotFree_calm (hc : Calm s s') (id : Nat) : s'.robotFree id = s.robotFree id := by
  unfold robotFree
  cases ho : s.objects id with
  | none => simp [hc.absent id ho]
  | some o =>
      obtain ⟨o', ho', hm⟩ := hc.moved id o ho
      simp [ho', hm.robotFree]

/-- A step that assigns nobody: riders only go, no robot changes its state, and the
journal records no assignment. -/
structure Unpaired (s s' : SimulationModel K) : Prop where
  wellFormed : WellFormed s'
  rider : ∀ id r, s'.riderOf id = some r → s.riderOf id = some r
  free : ∀ id, s'.robotFree id = s.robotFree id ∨ s.robotFree id = none
  scheduled : ∀ r ∈ s.scheduler, r ∈ s'.scheduler
  requested : ∀ r ∈ s'.scheduler, r ∈ s.scheduler ∨
    ∃ trip, .scheduled r trip ∈ s'.journal ∧ trip.droneReq = r.travelType.name
  entities : ∀ e ∈ s'.entities, e ∈ s.entities ∨ s'.riderOf e.getId = none
  journal : ∃ ns, s'.journal = s.journal ++ ns ∧ ∀ id, ∀ n ∈ ns, ¬ Note.Assigns id n

theorem unpaired (h : Paired s) (hu : Unpaired s s') : Paired s' := by
  obtain ⟨ns, hns, quiet⟩ := hu.journal
  refine ⟨hu.wellFormed, ?_, ?_, ?_, ?_, ?_, ?_, ?_⟩
  · intro r hr
    obtain hold | hnew := hu.requested r hr
    · obtain ⟨trip, hmem, hreq⟩ := h.requested r hold
      exact ⟨trip, by rw [hns]; exact List.mem_append_left _ hmem, hreq⟩
    · exact hnew
  · intro id r hr
    exact hu.scheduled r (h.listed id r (hu.rider id r hr))
  · intro id r hr
    have htaken := h.taken id r (hu.rider id r hr)
    obtain hsame | hnew := hu.free r.getId
    · rw [hsame]
      exact htaken
    · rw [hnew] at htaken
      cases htaken
  · intro e he r hr
    obtain hold | hnone := hu.entities e he
    · exact h.sameType e hold r (hu.rider _ r hr)
    · rw [hnone] at hr
      cases hr
  · intro id id' r r' hr hr' heq
    exact h.exclusive id id' r r' (hu.rider id r hr) (hu.rider id' r' hr') heq
  · intro id
    rw [hns]
    exact (h.separated id).append_list (quiet id)
  · intro id hfree
    rw [hns]
    refine (h.ready id ?_).append_list (quiet id)
    obtain hsame | hnew := hu.free id
    · rw [← hsame]
      exact hfree
    · rw [hnew]
      nofun

theorem calm (h : Paired s) (hc : Calm s s') : Paired s' := by
  obtain ⟨ns, hns, hup⟩ := hc.journal
  refine h.unpaired ⟨h.wellFormed.steady hc.steady, ?_, ?_, ?_, ?_, ?_, ns, hns, ?_⟩
  · exact fun id r hr => riderOf_of_calm hc hr
  · exact fun id => .inl (robotFree_calm hc id)
  · rw [hc.scheduler]
    exact fun r hr => hr
  · rw [hc.scheduler]
    exact fun r hr => .inl hr
  · rw [hc.entities]
    exact fun e he => .inl he
  · intro id n hn hassigns
    obtain ⟨e, r, strat, finalDest, heq, _⟩ := hassigns
    obtain ⟨e', dt, hn'⟩ := hup n hn
    rw [hn'] at heq
    cases heq

theorem modify_self (s : SimulationModel K) {id : Nat} {o : Object K} (f : Object K → Object K)
    (h : s.objects id = some o) : (s.modify id f).objects id = some (f o) := by
  simp [modify, h]

theorem modify_of_ne (s : SimulationModel K) {id a : Nat} (f : Object K → Object K)
    (h : a ≠ id) : (s.modify id f).objects a = s.objects a := by
  simp [modify, h]

/-- The drone has its rider, the robot is taken, all else is as before. -/
structure Assigned (s s' : SimulationModel K) (e rider : TypeDecorator) (robot : Robot K) :
    Prop where
  drone : ∃ d, s'.objects e.getId = some (.drone d) ∧ d.nearestEntity = some rider
  robot : s'.objects rider.getId = some (.robot { robot with available := false })
  others : ∀ id, id ≠ e.getId → id ≠ rider.getId → s'.objects id = s.objects id

namespace Assigned

variable {e rider : TypeDecorator} {robot : Robot K} {d : Drone K}

/-- The first two steps: the rider is noted in the drone and taken. -/
theorem start (he : s.objects e.getId = some (.drone d))
    (hr : s.objects rider.getId = some (.robot robot)) (hne : rider.getId ≠ e.getId) :
    Assigned s ((s.modify e.getId (Object.setNearestEntity rider)).setAvailability
      rider.getId false) e rider robot := by
  have hrider := modify_of_ne s (Object.setNearestEntity rider) hne
  refine ⟨⟨{ d with nearestEntity := some rider }, ?_, rfl⟩, ?_, ?_⟩
  · exact (modify_of_ne _ (Object.setAvailability false) hne.symm).trans
      (modify_self s (Object.setNearestEntity rider) he)
  · exact modify_self _ (Object.setAvailability false) (hrider.trans hr)
  · intro id hid hid'
    exact (modify_of_ne _ (Object.setAvailability false) hid').trans
      (modify_of_ne s (Object.setNearestEntity rider) hid)

theorem note (h : Assigned s s' e rider robot) (n : Note K) :
    Assigned s (s'.note n) e rider robot :=
  ⟨h.drone, h.robot, h.others⟩

/-- Changing the drone in a way that keeps its rider. -/
theorem onDrone (h : Assigned s s' e rider robot) (hne : rider.getId ≠ e.getId)
    {f : Object K → Object K}
    (hf : ∀ d, ∃ d', f (.drone d) = .drone d' ∧ d'.nearestEntity = d.nearestEntity) :
    Assigned s (s'.modify e.getId f) e rider robot := by
  obtain ⟨d, hd, hrider⟩ := h.drone
  obtain ⟨d', hd', hsame⟩ := hf d
  refine ⟨⟨d', ?_, hsame.trans hrider⟩, ?_, ?_⟩
  · rw [modify_self s' f hd, hd']
  · rw [modify_of_ne s' f hne]
    exact h.robot
  · intro id he hr
    rw [modify_of_ne s' f he]
    exact h.others id he hr

end Assigned

theorem nearestEntity_setToRobot (world : World K) (strategyName : String)
    (start finish : Vector3 K) (d : Drone K) :
    (d.setToRobot world strategyName start finish).nearestEntity = d.nearestEntity := by
  unfold Drone.setToRobot
  repeat' split
  all_goals rfl

theorem findRider_spec {h : HandlerClass} {scheduler : List TypeDecorator}
    {rider : TypeDecorator} (hf : s.findRider h scheduler = some rider) :
    rider ∈ scheduler ∧ (s.objects rider.getId).bind Object.getAvailability = some true ∧
      rider.travelType = h.travelType := by
  have hmem := List.mem_of_find?_eq_some hf
  have hsat := List.find?_some hf
  simp only [Bool.and_eq_true, beq_iff_eq] at hsat
  exact ⟨hmem, hsat.1, hsat.2⟩

theorem objects_of_profile {id : Nat} {kind : String} {details : Details K}
    (h : s.profile id = some (kind, details)) : ∃ o, s.objects id = some o ∧ o.kind = kind := by
  obtain ⟨o, ho, hp⟩ := Option.map_eq_some_iff.mp h
  exact ⟨o, ho, congrArg Prod.fst hp⟩

theorem drone_of_type (h : WellFormed s) {e : TypeDecorator}
    (ht : s.getType e = some "drone") : ∃ d, s.objects e.getId = some (.drone d) := by
  obtain ⟨details, hp⟩ := h.profile_of_getType ht
  obtain ⟨o, ho, hkind⟩ := objects_of_profile hp
  cases o with
  | drone d => exact ⟨d, ho⟩
  | robot _ | human _ | helicopter _ | ufo _ => exact absurd hkind (by simp [Object.kind])

theorem robot_of_profile {id : Nat} {details : Details K}
    (h : s.profile id = some ("robot", details)) : ∃ r, s.objects id = some (.robot r) := by
  obtain ⟨o, ho, hkind⟩ := objects_of_profile h
  cases o with
  | robot r => exact ⟨r, ho⟩
  | drone _ | human _ | helicopter _ | ufo _ => exact absurd hkind (by simp [Object.kind])

theorem robot_of_type (h : WellFormed s) {e : TypeDecorator}
    (ht : s.getType e = some "robot") : ∃ r, s.objects e.getId = some (.robot r) := by
  obtain ⟨details, hp⟩ := h.profile_of_getType ht
  exact robot_of_profile hp

theorem robot_of_scheduler (h : WellFormed s) {r : TypeDecorator} (hr : r ∈ s.scheduler) :
    ∃ robot, s.objects r.getId = some (.robot robot) := by
  obtain ⟨details, hp⟩ := h.rider r hr
  exact robot_of_profile hp

/-- What a handler that has found a rider deals with: its drone and an available robot. -/
theorem found_spec (h : WellFormed s) {c : HandlerClass} {e rider : TypeDecorator}
    (handled : s.handles c e = true) (found : s.findRider c s.scheduler = some rider) :
    ∃ d robot, s.objects e.getId = some (.drone d) ∧
      s.objects rider.getId = some (.robot robot) ∧ robot.available = true ∧
      rider.getId ≠ e.getId ∧ rider ∈ s.scheduler ∧ rider.travelType = e.travelType := by
  simp only [handles, Bool.and_eq_true, beq_iff_eq] at handled
  obtain ⟨type, travelType⟩ := handled
  obtain ⟨hmem, available, riderType⟩ := findRider_spec found
  obtain ⟨d, hd⟩ := drone_of_type h type
  obtain ⟨robot, hrobot⟩ := robot_of_scheduler h hmem
  have free : robot.available = true := by
    rw [hrobot] at available
    exact Option.some.inj available
  have hne : rider.getId ≠ e.getId := by
    intro heq
    rw [heq, hd] at hrobot
    cases hrobot
  exact ⟨d, robot, hd, hrobot, free, hne, hmem, riderType.trans travelType.symm⟩

theorem Assigned.riderOf_self {e rider : TypeDecorator} {robot : Robot K}
    (h : Assigned s s' e rider robot) : s'.riderOf e.getId = some rider := by
  obtain ⟨d, hd, hrider⟩ := h.drone
  simp [riderOf, hd, Object.rider, hrider]

theorem Assigned.riderOf_of_ne {e rider : TypeDecorator} {robot : Robot K}
    (h : Assigned s s' e rider robot) (hr : s.objects rider.getId = some (.robot robot))
    {id : Nat} (hid : id ≠ e.getId) : s'.riderOf id = s.riderOf id := by
  unfold riderOf
  by_cases hrid : id = rider.getId
  · rw [hrid, h.robot, hr]
    rfl
  · rw [h.others id hid hrid]

theorem Assigned.robotFree_self {e rider : TypeDecorator} {robot : Robot K}
    (h : Assigned s s' e rider robot) : s'.robotFree rider.getId = some false := by
  simp [robotFree, h.robot, Object.robotFree]

theorem Assigned.robotFree_of_ne {e rider : TypeDecorator} {robot : Robot K} {d : Drone K}
    (h : Assigned s s' e rider robot) (he : s.objects e.getId = some (.drone d))
    {id : Nat} (hid : id ≠ rider.getId) : s'.robotFree id = s.robotFree id := by
  unfold robotFree
  by_cases heid : id = e.getId
  · obtain ⟨d', hd', _⟩ := h.drone
    rw [heid, hd', he]
    rfl
  · rw [h.others id heid hid]

/-- What assigning an available robot to its drone changes. -/
structure Pairs (s s' : SimulationModel K) (e rider : TypeDecorator) : Prop where
  steady : Steady s s'
  member : e ∈ s.entities
  listed : rider ∈ s.scheduler
  sameType : rider.travelType = e.travelType
  riderSelf : s'.riderOf e.getId = some rider
  riderOther : ∀ id, id ≠ e.getId → s'.riderOf id = s.riderOf id
  wasFree : s.robotFree rider.getId = some true
  isTaken : s'.robotFree rider.getId = some false
  freeOther : ∀ id, id ≠ rider.getId → s'.robotFree id = s.robotFree id
  journal : ∃ strat finalDest, s'.journal =
    s.journal ++ [.availability rider.getId false, .availability e.getId false] ++
      [.assigned e rider strat finalDest]

section Pairs

variable {e rider : TypeDecorator}

/-- Whoever rode before was taken, so it was another robot. -/
theorem Pairs.otherRobot (hp : Pairs s s' e rider) (h : Paired s) {id : Nat} {r : TypeDecorator}
    (hr : s.riderOf id = some r) : r.getId ≠ rider.getId := by
  intro heq
  have htaken := h.taken id r hr
  rw [heq, hp.wasFree] at htaken
  cases htaken

/-- A rider afterwards is the new one, or was a rider before and wraps another robot. -/
theorem Pairs.rider_cases (hp : Pairs s s' e rider) (h : Paired s) {id : Nat} {r : TypeDecorator}
    (hr : s'.riderOf id = some r) :
    id = e.getId ∧ r = rider ∨
      id ≠ e.getId ∧ s.riderOf id = some r ∧ r.getId ≠ rider.getId := by
  by_cases hid : id = e.getId
  · rw [hid, hp.riderSelf] at hr
    exact .inl ⟨hid, (Option.some.inj hr).symm⟩
  · rw [hp.riderOther id hid] at hr
    exact .inr ⟨hid, hr, hp.otherRobot h hr⟩

theorem Pairs.exclusive (hp : Pairs s s' e rider) (h : Paired s) {id id' : Nat}
    {r r' : TypeDecorator} (hr : s'.riderOf id = some r) (hr' : s'.riderOf id' = some r')
    (heq : r.getId = r'.getId) : id = id' := by
  obtain ⟨hid, rfl⟩ | ⟨_, hold, hother⟩ := hp.rider_cases h hr
  · obtain ⟨hid', _⟩ | ⟨_, _, hother'⟩ := hp.rider_cases h hr'
    · rw [hid, hid']
    · exact absurd heq.symm hother'
  · obtain ⟨_, rfl⟩ | ⟨_, hold', _⟩ := hp.rider_cases h hr'
    · exact absurd heq hother
    · exact h.exclusive id id' r r' hold hold' heq

theorem quiet_availability (id a b : Nat) :
    ∀ n ∈ [Note.availability a false, .availability b false], ¬ Note.Assigns (K := K) id n := by
  intro n hn hassigns
  obtain ⟨e', r', strat', finalDest', heq, _⟩ := hassigns
  subst heq
  simp at hn

theorem assigns_iff {id : Nat} {strat : String} {finalDest : Vector3 K} :
    Note.Assigns id (.assigned e rider strat finalDest) ↔ rider.getId = id := by
  constructor
  · intro hassigns
    obtain ⟨_, _, _, _, heq, hr⟩ := hassigns
    cases heq
    exact hr
  · exact fun hr => ⟨e, rider, strat, finalDest, rfl, hr⟩

/-- The robot was free, so the history is ready for its assignment. -/
theorem Pairs.separated (hp : Pairs s s' e rider) (h : Paired s) (id : Nat) :
    Separated (Note.Assigns id) (Note.Frees id) s'.journal := by
  obtain ⟨strat, finalDest, hjournal⟩ := hp.journal
  have quiet := quiet_availability (K := K) id rider.getId e.getId
  rw [hjournal]
  have before := (h.separated id).append_list quiet
  by_cases hid : rider.getId = id
  · have free : s.robotFree id ≠ some false := by
      rw [← hid, hp.wasFree]
      nofun
    exact before.append ((h.ready id free).append_list quiet) _
  · exact before.append_other (fun hassigns => hid (assigns_iff.mp hassigns))

theorem Pairs.ready (hp : Pairs s s' e rider) (h : Paired s) {id : Nat}
    (hfree : s'.robotFree id ≠ some false) :
    Ready (Note.Assigns id) (Note.Frees id) s'.journal := by
  obtain ⟨strat, finalDest, hjournal⟩ := hp.journal
  have hid : id ≠ rider.getId := by
    intro heq
    rw [heq, hp.isTaken] at hfree
    exact hfree rfl
  rw [hp.freeOther id hid] at hfree
  rw [hjournal]
  exact ((h.ready id hfree).append_list (quiet_availability id _ _)).append
    (fun hassigns => hid (assigns_iff.mp hassigns).symm)

theorem pairs (h : Paired s) (hp : Pairs s s' e rider) : Paired s' := by
  refine ⟨h.wellFormed.steady hp.steady, ?_, ?_, ?_, ?_, ?_, hp.separated h,
    fun _ hfree => hp.ready h hfree⟩
  · intro r hr
    rw [hp.steady.scheduler] at hr
    obtain ⟨trip, htrip, hreq⟩ := h.requested r hr
    obtain ⟨strat, finalDest, hjournal⟩ := hp.journal
    refine ⟨trip, ?_, hreq⟩
    rw [hjournal, List.append_assoc]
    exact List.mem_append_left _ htrip
  · intro id r hr
    rw [hp.steady.scheduler]
    obtain ⟨_, rfl⟩ | ⟨_, hold, _⟩ := hp.rider_cases h hr
    · exact hp.listed
    · exact h.listed id r hold
  · intro id r hr
    obtain ⟨_, rfl⟩ | ⟨_, hold, hother⟩ := hp.rider_cases h hr
    · exact hp.isTaken
    · rw [hp.freeOther _ hother]
      exact h.taken id r hold
  · intro a ha r hr
    rw [hp.steady.entities] at ha
    obtain ⟨hid, rfl⟩ | ⟨_, hold, _⟩ := hp.rider_cases h hr
    · rw [List.inj_on_of_nodup_map h.wellFormed.nodup ha hp.member hid]
      exact hp.sameType
    · exact h.sameType a ha r hold
  · exact fun _ _ _ _ hr hr' heq => hp.exclusive h hr hr' heq

end Pairs

variable [Scalar K] (world : World K)

theorem nearestEntity_setToDestination (strategyName : String) (start finish : Vector3 K)
    (d : Drone K) :
    (d.setToDestination world strategyName start finish).nearestEntity = d.nearestEntity := by
  unfold Drone.setToDestination
  repeat' split
  all_goals rfl

theorem Assigned.setDestination {e rider : TypeDecorator} {robot : Robot K}
    (h : Assigned s s' e rider robot) (hne : rider.getId ≠ e.getId) (des : Vector3 K) :
    Assigned s (s'.setDestination world e.getId des) e rider robot := by
  obtain ⟨d, hd, hrider⟩ := h.drone
  have heq : s'.setDestination world e.getId des =
      s'.modify e.getId fun _ => .drone { d with destination := des } := by
    simp [SimulationModel.setDestination, hd]
  rw [heq]
  refine ⟨⟨{ d with destination := des }, modify_self s' _ hd, hrider⟩, ?_, ?_⟩
  · rw [modify_of_ne s' _ hne]
    exact h.robot
  · intro id he hr
    rw [modify_of_ne s' _ he]
    exact h.others id he hr

theorem assign_spec (h : HandlerClass) {e rider : TypeDecorator} {d : Drone K} {robot : Robot K}
    (he : s.objects e.getId = some (.drone d)) (hr : s.objects rider.getId = some (.robot robot))
    (hne : rider.getId ≠ e.getId) : Assigned s (s.assign world h e rider) e rider robot := by
  have claimed : Assigned s (s.claim world e rider) e rider robot :=
    ((((Assigned.start he hr hne).onDrone hne
      fun d => ⟨{ d with available := false }, rfl, rfl⟩).note _).onDrone hne
      fun d => ⟨{ d with pickedUp := false }, rfl, rfl⟩).setDestination world hne _
  exact ((claimed.onDrone hne fun d => ⟨_, rfl, nearestEntity_setToRobot world _ _ _ d⟩).onDrone
    hne fun d => ⟨_, rfl, nearestEntity_setToDestination world _ _ _ d⟩).note _

/-- A handler pairs an available robot of the scheduler with its drone. -/
theorem assign_pairs (h : Paired s) {c : HandlerClass} {e rider : TypeDecorator}
    (he : e ∈ s.entities) (handled : s.handles c e = true)
    (found : s.findRider c s.scheduler = some rider) :
    Pairs s (s.assign world c e rider) e rider := by
  obtain ⟨d, robot, hd, hrobot, free, hne, hmem, sameType⟩ :=
    found_spec h.wellFormed handled found
  have spec := assign_spec world c hd hrobot hne
  obtain ⟨strat, finalDest, hassign⟩ := s.journal_assign world c e rider
  refine ⟨Steady.assign world s c e rider, he, hmem, sameType,
    spec.riderOf_self, fun id hid => spec.riderOf_of_ne hrobot hid, ?_, spec.robotFree_self,
    fun id hid => spec.robotFree_of_ne hd hid, strat, finalDest, ?_⟩
  · simp [robotFree, hrobot, Object.robotFree, free]
  · rw [hassign, s.journal_claim world e rider]

/-- A new object has no rider and, if it is a robot, is available. -/
theorem createEntity (h : Paired s) {m : EntityMessage K}
    (hc : s.createEntity world m = some s') : Paired s' := by
  have wellFormed := h.wellFormed.createEntity world hc
  obtain ⟨o, _, rider, free, objects, _, scheduler, journal, entities⟩ :=
    WellFormed.createEntity_spec world hc
  have absent : s.objects s.currentId = none := by
    simpa [SimulationModel.profile] using h.wellFormed.fresh s.currentId (Nat.le_refl _)
  have riderSame : ∀ id, s'.riderOf id = s.riderOf id := by
    intro id
    by_cases hid : id = s.currentId
    · simp [riderOf, hid, objects, absent, rider]
    · simp [riderOf, objects, hid]
  refine h.unpaired ⟨wellFormed, ?_, ?_, ?_, ?_, ?_, [], by rw [journal, List.append_nil], ?_⟩
  · intro id r hr
    exact riderSame id ▸ hr
  · intro id
    by_cases hid : id = s.currentId
    · exact .inr (by simp [robotFree, hid, absent])
    · exact .inl (by simp [robotFree, objects, hid])
  · rw [scheduler]
    exact fun r hr => hr
  · rw [scheduler]
    exact fun r hr => .inl hr
  · intro e he
    rw [entities] at he
    obtain he | he := List.mem_append.mp he
    · exact .inl he
    · rw [List.mem_singleton.mp he, riderSame]
      exact .inr (by simp [riderOf, TypeDecorator.getId, IEntity.getId, absent])
  · intro id n hn
    cases hn

theorem requested_name {droneReq : String} {travelType : TravelType}
    (h : SimulationModel.requested droneReq = some travelType) :
    droneReq = travelType.name := by
  unfold SimulationModel.requested at h
  split at h
  · cases h
    assumption
  split at h
  · cases h
    assumption
  split at h
  · cases h
    assumption
  · cases h

theorem scheduleTrip (h : Paired s) {m : TripMessage K}
    (hc : s.scheduleTrip world m = some s') : Paired s' := by
  have wellFormed := h.wellFormed.scheduleTrip world hc
  obtain hs | ⟨e, travelType, s₁, _, request, hs₁, objects, entities, _, scheduler, journal⟩ :=
    WellFormed.scheduleTrip_spec world hc
  · rw [hs]
    exact h.calm (Calm.of_eq rfl rfl rfl rfl rfl)
  · have h₁ : Paired s₁ := hs₁ ▸ h.calm (WellFormed.calm_request world s e m)
    refine h₁.unpaired ⟨wellFormed, ?_, ?_, ?_, ?_, ?_, _, journal, ?_⟩
    · intro id r hr
      simpa [riderOf, objects] using hr
    · intro id
      exact .inl (by simp [robotFree, objects])
    · rw [scheduler]
      exact fun r hr => List.mem_append_left _ hr
    · intro r hr
      rw [scheduler] at hr
      obtain hr | hr := List.mem_append.mp hr
      · exact .inl hr
      · rw [List.mem_singleton.mp hr, journal]
        exact .inr ⟨m, by simp, requested_name request⟩
    · rw [entities]
      exact fun a ha => .inl ha
    · intro id n hn hassigns
      obtain ⟨_, _, _, _, heq, _⟩ := hassigns
      rw [List.mem_singleton.mp hn] at heq
      cases heq

theorem stage (hs : Stage world s s') (h : Paired s) : Paired s' := by
  cases hs with
  | created m _ hc => exact h.createEntity world hc
  | scheduled m _ hc => exact h.scheduleTrip world hc
  | updated e dt => exact h.calm (Calm.updateEntity world s e dt)
  | assigned c e rider _ member handled _ found =>
      exact h.pairs (h.assign_pairs world member handled found)
  | shown _ objects entities scheduler currentId journal =>
      exact h.calm (.of_eq entities scheduler currentId journal objects)

theorem step {c : Command K} (hc : step world s c = some s') (h : Paired s) : Paired s' :=
  invariant_of_stages (fun _ _ hs hp => hp.stage world hs) (stages_of_step hc) h

theorem of_run {ok : SimulationModel K → Command K → Prop}
    (h : Run (Transit.step world) ok (SimulationModel.init K) s) : Paired s :=
  h.invariant (fun _ _ _ _ hc hp => hp.step world hc) init

end Paired

/-- In every reachable state riders are robots, no robot rides in two drones, a robot is
assigned again only after it has been made available, and a rider's trip asked for the
travel type of its drone. -/
theorem riders_of_reachable [Scalar K] (world : World K) {s : SimulationModel K}
    (h : Run (Transit.step world) (fun _ _ => True) (init K) s) :
    (∀ id id' d d' r r', s.objects id = some (.drone d) → s.objects id' = some (.drone d') →
      d.nearestEntity = some r → d'.nearestEntity = some r' → r.getId = r'.getId → id = id') ∧
    (∀ l₁ e r strat finalDest l₂ e' r' strat' finalDest' l₃,
      s.journal = l₁ ++ .assigned e r strat finalDest :: l₂ ++
        .assigned e' r' strat' finalDest' :: l₃ →
      r.getId = r'.getId → .availability r.getId true ∈ l₂) ∧
    (∀ id d r, s.objects id = some (.drone d) → d.nearestEntity = some r →
      ∃ robot, s.objects r.getId = some (.robot robot)) ∧
    (∀ e ∈ s.entities, ∀ d r, s.objects e.getId = some (.drone d) → d.nearestEntity = some r →
      r.travelType = e.travelType ∧
        ∃ trip, .scheduled r trip ∈ s.journal ∧ trip.droneReq = e.travelType.name) := by
  have paired := Paired.of_run world h
  have riderOf : ∀ id d r, s.objects id = some (.drone d) → d.nearestEntity = some r →
      s.riderOf id = some r := by
    intro id d r hd hr
    simp [SimulationModel.riderOf, hd, Object.rider, hr]
  refine ⟨?_, ?_, ?_, ?_⟩
  · intro id id' d d' r r' hd hd' hr hr' heq
    exact paired.exclusive id id' r r' (riderOf id d r hd hr) (riderOf id' d' r' hd' hr') heq
  · intro l₁ e r strat finalDest l₂ e' r' strat' finalDest' l₃ heq hid
    obtain ⟨n, hn, hfrees⟩ := paired.separated r.getId l₁ _ l₂ _ l₃ heq
      ⟨e, r, strat, finalDest, rfl, rfl⟩ ⟨e', r', strat', finalDest', rfl, hid.symm⟩
    exact hfrees ▸ hn
  · intro id d r hd hr
    exact Paired.robot_of_scheduler paired.wellFormed
      (paired.listed id r (riderOf id d r hd hr))
  · intro e he d r hd hr
    have rides := riderOf e.getId d r hd hr
    have type := paired.sameType e he r rides
    obtain ⟨trip, htrip, hreq⟩ := paired.requested r (paired.listed e.getId r rides)
    exact ⟨type, trip, htrip, by rw [hreq, type]⟩

/-- A drone and a robot at the origin, a trip for the robot, and one update. -/
def firstRide : List (Command Int) :=
  [.createEntity (atOrigin "drone" "Drone"), .createEntity (atOrigin "robot" "Robot"),
    .scheduleTrip ⟨"Robot", "standard", ⟨100, 0, 0⟩, "beeline"⟩, .update 0]

theorem riders_of_reachable_firstRide :
    ∃ s, perform (Transit.step quietWorld) (init Int) firstRide = some s ∧
      ∃ d r, s.objects 0 = some (.drone d) ∧ d.nearestEntity = some r ∧
        ∃ robot, s.objects r.getId = some (.robot robot) := by
  obtain ⟨s, hs⟩ : ∃ s, perform (Transit.step quietWorld) (init Int) firstRide = some s :=
    ⟨_, rfl⟩
  have run : Run (Transit.step quietWorld) (fun _ _ => True) (init Int) s :=
    run_of_perform hs (fun _ _ _ => trivial)
  obtain ⟨d, r, hd, hr⟩ : ∃ d r, s.objects 0 = some (.drone d) ∧ d.nearestEntity = some r := by
    cases hs
    exact ⟨_, _, rfl, rfl⟩
  exact ⟨s, hs, d, r, hd, hr, (riders_of_reachable quietWorld run).2.2.1 0 d r hd hr⟩

end SimulationModel

end UmnProjects.Transit
