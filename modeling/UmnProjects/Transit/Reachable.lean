import UmnProjects.Foundations.Runs
import UmnProjects.Transit.Frames

/-!
What never changes about an object once it is made, and the invariant of the two lists
of decorated entities in every reachable state.
-/
namespace UmnProjects.Transit
open Runs

variable {K : Type}

/-- The class of an object and its details. -/
def Object.profile (o : Object K) : String × Details K := (o.kind, o.getDetails)

namespace SimulationModel

def profile (s : SimulationModel K) (id : Nat) : Option (String × Details K) :=
  (s.objects id).map Object.profile

theorem getType_eq (s : SimulationModel K) (e : TypeDecorator) :
    s.getType e = (s.profile e.getId).map fun p => p.2.type := by
  simp only [getType, profile, Option.map_map]
  rfl

/-- No object is made or becomes another, and the lists of entities stay as they are. -/
structure Steady (s s' : SimulationModel K) : Prop where
  entities : s'.entities = s.entities
  scheduler : s'.scheduler = s.scheduler
  currentId : s'.currentId = s.currentId
  profile : ∀ id, s'.profile id = s.profile id

theorem Calm.steady {s s' : SimulationModel K} (h : Calm s s') : Steady s s' := by
  refine ⟨h.entities, h.scheduler, h.currentId, ?_⟩
  intro id
  cases ho : s.objects id with
  | none => simp [SimulationModel.profile, ho, h.absent id ho]
  | some o =>
      obtain ⟨o', ho', hm⟩ := h.moved id o ho
      simp [SimulationModel.profile, ho, ho', Object.profile, hm.kind, hm.details]

namespace Steady

variable {s s' s'' : SimulationModel K}

theorem refl (s : SimulationModel K) : Steady s s := ⟨rfl, rfl, rfl, fun _ => rfl⟩

theorem trans (h : Steady s s') (h' : Steady s' s'') : Steady s s'' :=
  ⟨h'.entities.trans h.entities, h'.scheduler.trans h.scheduler,
    h'.currentId.trans h.currentId, fun id => (h'.profile id).trans (h.profile id)⟩

theorem modify (s : SimulationModel K) (id : Nat) {f : Object K → Object K}
    (hf : ∀ o, s.objects id = some o → (f o).profile = o.profile) : Steady s (s.modify id f) := by
  refine ⟨rfl, rfl, rfl, ?_⟩
  intro a
  by_cases h : a = id
  · subst a
    cases ho : s.objects id with
    | none => simp [SimulationModel.profile, SimulationModel.modify, ho]
    | some o => simp [SimulationModel.profile, SimulationModel.modify, ho, hf o ho]
  · simp [SimulationModel.profile, SimulationModel.modify, h]

theorem note (s : SimulationModel K) (n : Note K) : Steady s (s.note n) :=
  ⟨rfl, rfl, rfl, fun _ => rfl⟩

theorem send (s : SimulationModel K) (e : Event) : Steady s (s.send e) :=
  ⟨rfl, rfl, rfl, fun _ => rfl⟩

theorem setAvailability (s : SimulationModel K) (id : Nat) (choice : Bool) :
    Steady s (s.setAvailability id choice) := by
  refine (modify s id ?_).trans (note _ _)
  intro o _
  cases o <;> rfl

theorem profile_setToRobot (world : World K) (strategyName : String) (start finish : Vector3 K)
    (o : Object K) :
    (o.onDrone (Drone.setToRobot world strategyName start finish)).profile = o.profile := by
  cases o with
  | drone d =>
      simp only [Object.onDrone, Drone.setToRobot]
      repeat' split
      all_goals rfl
  | robot _ | human _ | helicopter _ | ufo _ => rfl

variable [Scalar K] (world : World K)

theorem claim (s : SimulationModel K) (e rider : TypeDecorator) :
    Steady s (s.claim world e rider) := by
  refine (modify s e.getId ?_).trans ((setAvailability _ _ _).trans ((setAvailability _ _ _).trans
    ((modify _ e.getId ?_).trans (Calm.setDestination world _ _ _).steady)))
  · intro o _
    cases o <;> rfl
  · intro o _
    cases o <;> rfl

theorem profile_setToDestination (strategyName : String) (start finish : Vector3 K)
    (o : Object K) :
    (o.onDrone (Drone.setToDestination world strategyName start finish)).profile =
      o.profile := by
  cases o with
  | drone d =>
      simp only [Object.onDrone, Drone.setToDestination]
      repeat' split
      all_goals rfl
  | robot _ | human _ | helicopter _ | ufo _ => rfl

theorem assign (s : SimulationModel K) (h : HandlerClass) (e rider : TypeDecorator) :
    Steady s (s.assign world h e rider) :=
  (claim world s e rider).trans ((modify _ _ fun o _ => profile_setToRobot world _ _ _ o).trans
    ((modify _ _ fun o _ => profile_setToDestination world _ _ _ o).trans (note _ _)))

theorem handle (dt : K) (e : TypeDecorator) (scheduler : List TypeDecorator)
    (handlers : List HandlerClass) (s : SimulationModel K) :
    Steady s (handle world dt e scheduler handlers s) := by
  induction handlers with
  | nil => exact refl s
  | cons h next ih =>
      simp only [SimulationModel.handle]
      split
      · refine trans ?_ (Calm.updateEntity world _ e dt).steady
        split
        · split
          · exact refl s
          · exact assign world s h e _
        · exact refl s
      · exact ih.trans (Calm.updateEntity world _ e dt).steady

theorem updateOne (dt : K) (s : SimulationModel K) (e : TypeDecorator) :
    Steady s (s.updateOne world dt e) := by
  refine (handle world dt e s.scheduler chain s).trans ((send _ (.updateEntity e.getId)).trans ?_)
  unfold SimulationModel.updateOne
  simp only
  split
  · exact refl _
  · exact ⟨rfl, rfl, rfl, fun _ => rfl⟩

theorem foldl_updateOne (dt : K) (es : List TypeDecorator) (s : SimulationModel K) :
    Steady s (es.foldl (SimulationModel.updateOne world dt) s) := by
  induction es generalizing s with
  | nil => exact refl s
  | cons e es ih => exact (updateOne world dt s e).trans (ih _)

end Steady

/-- Fresh ids, objects of the class their details name, and lists that hold decorators of
objects made and of entities listed. -/
structure WellFormed (s : SimulationModel K) : Prop where
  fresh : ∀ id, s.currentId ≤ id → s.profile id = none
  typed : ∀ id p, s.profile id = some p → p.2.type = p.1
  entity : ∀ e ∈ s.entities, e.entity = .object e.getId ∧ s.profile e.getId ≠ none
  nodup : (s.entities.map TypeDecorator.getId).Nodup
  rider : ∀ r ∈ s.scheduler, ∃ details, s.profile r.getId = some ("robot", details)

namespace WellFormed

variable {s s' : SimulationModel K}

theorem init : WellFormed (SimulationModel.init K) where
  fresh := fun _ _ => rfl
  typed := by
    intro id p h
    cases h
  entity := by
    intro e he
    cases he
  nodup := List.nodup_nil
  rider := by
    intro r hr
    cases hr

theorem steady (h : WellFormed s) (hs : Steady s s') : WellFormed s' := by
  refine ⟨?_, ?_, ?_, ?_, ?_⟩
  · intro id hid
    rw [hs.profile]
    exact h.fresh id (hs.currentId ▸ hid)
  · intro id p hp
    rw [hs.profile] at hp
    exact h.typed id p hp
  · intro e he
    rw [hs.entities] at he
    rw [hs.profile]
    exact h.entity e he
  · rw [hs.entities]
    exact h.nodup
  · intro r hr
    rw [hs.scheduler] at hr
    rw [hs.profile]
    exact h.rider r hr

theorem lt_currentId (h : WellFormed s) {id : Nat} (hid : s.profile id ≠ none) :
    id < s.currentId := by
  by_contra hlt
  exact hid (h.fresh id (Nat.le_of_not_lt hlt))

theorem findRobot_spec {name : String} {e : TypeDecorator} (h : s.findRobot name = some e) :
    e ∈ s.entities ∧ s.getType e = some "robot" ∧
      (s.objects e.getId).bind Object.getAvailability = some true := by
  have hmem := List.mem_of_find?_eq_some h
  have hsat := List.find?_some h
  simp only [Bool.and_eq_true, beq_iff_eq] at hsat
  exact ⟨hmem, hsat.2.1, hsat.2.2⟩

theorem profile_of_getType (h : WellFormed s) {e : TypeDecorator} {type : String}
    (ht : s.getType e = some type) : ∃ details, s.profile e.getId = some (type, details) := by
  rw [getType_eq] at ht
  obtain ⟨p, hp, htype⟩ := Option.map_eq_some_iff.mp ht
  refine ⟨p.2, ?_⟩
  rw [hp, ← htype, h.typed _ p hp]

variable [Scalar K] (world : World K)

/-- The object of a message, by its type; only a UFO draws its destination. -/
theorem newObject_cases {m : EntityMessage K} {o : Object K}
    (h : s.newObject world m = some (o, s')) :
    let details : Details K := ⟨m.type, m.name, m.position, m.direction, m.speed⟩
    (m.type = "drone" ∧ s' = s ∧ o = .drone
      { details := details, position := m.position, direction := m.direction
        jumpHeight := Scalar.ofInt 0, goUp := true, destination := .zero, speed := m.speed
        available := true, pickedUp := world.uninitialized, nearestEntity := none
        toRobot := none, toFinalDestination := none }) ∨
    (m.type = "robot" ∧ s' = s ∧
      o = .robot ⟨details, m.position, m.direction, .zero, m.speed, true, ""⟩) ∨
    (m.type = "human" ∧ s' = s ∧
      o = .human ⟨details, m.position, m.direction, .zero, m.speed, none⟩) ∨
    (m.type = "helicopter" ∧ s' = s ∧
      o = .helicopter ⟨details, m.position, m.direction, .zero, m.speed, none⟩) ∨
    (m.type = "ufo" ∧ s' = (s.drawSky world).2 ∧
      o = .ufo ⟨details, m.position, m.direction, (s.drawSky world).1, m.speed⟩) := by
  unfold newObject at h
  split at h
  · next htype =>
      cases h
      exact .inl ⟨htype, rfl, rfl⟩
  split at h
  · next htype =>
      cases h
      exact .inr (.inl ⟨htype, rfl, rfl⟩)
  split at h
  · next htype =>
      cases h
      exact .inr (.inr (.inl ⟨htype, rfl, rfl⟩))
  split at h
  · next htype =>
      cases h
      exact .inr (.inr (.inr (.inl ⟨htype, rfl, rfl⟩)))
  split at h
  · next htype =>
      cases h
      exact .inr (.inr (.inr (.inr ⟨htype, rfl, rfl⟩)))
  · cases h

theorem newObject_spec {m : EntityMessage K} {o : Object K}
    (h : s.newObject world m = some (o, s')) :
    Steady s s' ∧ o.getDetails.type = o.kind ∧ o.rider = none ∧
      (o.robotFree = none ∨ o.robotFree = some true) ∧
      s'.objects = s.objects ∧ s'.journal = s.journal := by
  obtain ⟨htype, rfl, rfl⟩ | ⟨htype, rfl, rfl⟩ | ⟨htype, rfl, rfl⟩ | ⟨htype, rfl, rfl⟩ |
    ⟨htype, rfl, rfl⟩ := newObject_cases world h
  · exact ⟨.refl _, htype, rfl, .inl rfl, rfl, rfl⟩
  · exact ⟨.refl _, htype, rfl, .inr rfl, rfl, rfl⟩
  · exact ⟨.refl _, htype, rfl, .inl rfl, rfl, rfl⟩
  · exact ⟨.refl _, htype, rfl, .inl rfl, rfl, rfl⟩
  · exact ⟨(Calm.drawSky world s).steady, htype, rfl, .inl rfl, rfl, rfl⟩

/-- What `CreateEntity` adds: an object nobody points to yet and its decorator. -/
theorem createEntity_spec {m : EntityMessage K} (h : s.createEntity world m = some s') :
    ∃ o, o.getDetails.type = o.kind ∧ o.rider = none ∧
      (o.robotFree = none ∨ o.robotFree = some true) ∧
      s'.objects = Function.update s.objects s.currentId (some o) ∧
      s'.currentId = s.currentId + 2 ∧ s'.scheduler = s.scheduler ∧
      s'.journal = s.journal ∧
      s'.entities = s.entities ++
        [⟨s.currentId + 1, wrapType s.currentId, .object s.currentId⟩] := by
  unfold createEntity at h
  split at h
  · cases h
  · case h_2 o s₁ hnew =>
      obtain ⟨hs, type, rider, free, objects, journal⟩ := newObject_spec world hnew
      cases h
      refine ⟨o, type, rider, free, ?_, ?_, hs.scheduler, journal, ?_⟩
      · rw [← objects, ← hs.currentId]
        rfl
      · rw [← hs.currentId]
        rfl
      · rw [← hs.entities, ← hs.currentId]
        rfl

theorem profile_createEntity {m : EntityMessage K} (h : s.createEntity world m = some s')
    {id : Nat} (hid : id ≠ s.currentId) : s'.profile id = s.profile id := by
  obtain ⟨o, _, _, _, objects, _⟩ := createEntity_spec world h
  simp [SimulationModel.profile, objects, Function.update_of_ne hid]

theorem createEntity (h : WellFormed s) {m : EntityMessage K}
    (hc : s.createEntity world m = some s') : WellFormed s' := by
  have same : ∀ {id : Nat}, id ≠ s.currentId → s'.profile id = s.profile id :=
    fun hid => profile_createEntity world hc hid
  obtain ⟨o, type, _, _, objects, currentId, scheduler, _, entities⟩ :=
    createEntity_spec world hc
  have new : s'.profile s.currentId = some o.profile := by
    simp [SimulationModel.profile, objects]
  have listed : ∀ e ∈ s.entities, e.getId ≠ s.currentId := by
    intro e he
    have hlt := h.lt_currentId (h.entity e he).2
    omega
  refine ⟨?_, ?_, ?_, ?_, ?_⟩
  · intro id hid
    rw [same (by omega)]
    exact h.fresh id (by omega)
  · intro id p hp
    by_cases hid : id = s.currentId
    · subst id
      rw [new] at hp
      cases hp
      exact type
    · rw [same hid] at hp
      exact h.typed id p hp
  · intro e he
    rw [entities] at he
    obtain he | he := List.mem_append.mp he
    · rw [same (listed e he)]
      exact h.entity e he
    · rw [List.mem_singleton.mp he]
      exact ⟨rfl, by simp [TypeDecorator.getId, IEntity.getId, new]⟩
  · rw [entities, List.map_append]
    apply List.nodup_append.mpr
    refine ⟨h.nodup, by simp, ?_⟩
    intro a ha b hb
    obtain ⟨e, he, hea⟩ := List.mem_map.mp ha
    have hb' : b = s.currentId := by simpa [TypeDecorator.getId, IEntity.getId] using hb
    rw [← hea, hb']
    exact listed e he
  · intro r hr
    rw [scheduler] at hr
    obtain ⟨details, hp⟩ := h.rider r hr
    have hlt := h.lt_currentId (by rw [hp]; simp)
    exact ⟨details, by rw [same (by omega), hp]⟩

/-- What `ScheduleTrip` adds when it finds a robot. -/
theorem scheduleTrip_spec {m : TripMessage K} (h : s.scheduleTrip world m = some s') :
    s' = s.send .tripScheduled ∨
    ∃ e travelType s₁, s.findRobot m.name = some e ∧ requested m.droneReq = some travelType ∧
      s₁ = (s.setDestination world e.getId m.finish).modify e.getId
        (Object.setStrategyName m.search) ∧
      s'.objects = s₁.objects ∧ s'.entities = s₁.entities ∧
      s'.currentId = s₁.currentId + 1 ∧
      s'.scheduler = s₁.scheduler ++ [⟨s₁.currentId, travelType, e.toEntity⟩] ∧
      s'.journal = s₁.journal ++ [.scheduled ⟨s₁.currentId, travelType, e.toEntity⟩ m] := by
  unfold SimulationModel.scheduleTrip at h
  split at h
  · cases h
    exact .inl rfl
  · case h_2 e he =>
      simp only at h
      split at h
      · cases h
      · case h_2 travelType ht =>
          cases h
          exact .inr ⟨e, travelType, _, he, ht, rfl, rfl, rfl, rfl, rfl, rfl⟩

/-- Noting the destination and the strategy of a trip moves nothing. -/
theorem calm_request (s : SimulationModel K) (e : TypeDecorator) (m : TripMessage K) :
    Calm s ((s.setDestination world e.getId m.finish).modify e.getId
      (Object.setStrategyName m.search)) := by
  refine (Calm.setDestination world s e.getId m.finish).trans (Calm.modify _ _ ?_)
  intro o _
  cases o <;> exact ⟨rfl, rfl, rfl, .inl rfl⟩

theorem scheduleTrip (h : WellFormed s) {m : TripMessage K}
    (hc : s.scheduleTrip world m = some s') : WellFormed s' := by
  obtain hs | ⟨e, travelType, s₁, he, _, hs₁, objects, entities, currentId, scheduler, _⟩ :=
    scheduleTrip_spec world hc
  · rw [hs]
    exact h.steady (Steady.send s _)
  · have h₁ : WellFormed s₁ := hs₁ ▸ h.steady (calm_request world s e m).steady
    have same : ∀ id, s'.profile id = s₁.profile id := by
      intro id
      simp [SimulationModel.profile, objects]
    refine ⟨?_, ?_, ?_, ?_, ?_⟩
    · intro id hid
      rw [same]
      exact h₁.fresh id (by omega)
    · intro id p hp
      rw [same] at hp
      exact h₁.typed id p hp
    · intro a ha
      rw [entities] at ha
      rw [same]
      exact h₁.entity a ha
    · rw [entities]
      exact h₁.nodup
    · intro r hr
      rw [scheduler] at hr
      rw [same]
      obtain hr | hr := List.mem_append.mp hr
      · exact h₁.rider r hr
      · obtain ⟨_, htype, _⟩ := findRobot_spec he
        obtain ⟨details, hp⟩ := h.profile_of_getType htype
        have hsteady := (calm_request world s e m).steady.profile e.getId
        rw [← hs₁, hp] at hsteady
        refine ⟨details, ?_⟩
        rw [List.mem_singleton.mp hr]
        exact hsteady

theorem step {c : Command K} (hc : step world s c = some s') (h : WellFormed s) :
    WellFormed s' := by
  cases c with
  | createEntity m => exact h.createEntity world hc
  | scheduleTrip m => exact h.scheduleTrip world hc
  | update dt =>
      cases hc
      exact h.steady (Steady.foldl_updateOne world dt s.entities s)

theorem of_run {ok : SimulationModel K → Command K → Prop}
    (h : Run (Transit.step world) ok (SimulationModel.init K) s) : WellFormed s :=
  h.invariant (fun _ _ _ _ hc hw => hw.step world hc) init

end WellFormed

end SimulationModel

end UmnProjects.Transit
