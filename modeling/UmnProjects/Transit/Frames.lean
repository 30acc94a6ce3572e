import UmnProjects.Transit.Simulation

/-!
What the updates of entities leave alone: details, the availability of robots and,
but for the end of a trip, who rides in which drone.
-/
namespace UmnProjects.Transit

variable {K : Type}

namespace Object

def kind : Object K → String
  | .drone _ => "drone"
  | .robot _ => "robot"
  | .human _ => "human"
  | .helicopter _ => "helicopter"
  | .ufo _ => "ufo"

/-- The availability of a robot. -/
def robotFree : Object K → Option Bool
  | .robot r => some r.available
  | _ => none

def rider : Object K → Option TypeDecorator
  | .drone d => d.nearestEntity
  | _ => none

/-- What one object may become when it or its drone moves. -/
structure Moved (o o' : Object K) : Prop where
  kind : o'.kind = o.kind
  details : o'.getDetails = o.getDetails
  robotFree : o'.robotFree = o.robotFree
  rider : o'.rider = o.rider ∨ o'.rider = none

theorem Moved.refl (o : Object K) : Moved o o := ⟨rfl, rfl, rfl, .inl rfl⟩

theorem Moved.trans {o o' o'' : Object K} (h : Moved o o') (h' : Moved o' o'') :
    Moved o o'' := by
  refine ⟨h'.kind.trans h.kind, h'.details.trans h.details, h'.robotFree.trans h.robotFree, ?_⟩
  obtain hr | hr := h'.rider
  · rw [hr]
    exact h.rider
  · exact .inr hr

theorem moved_setPosition (pos : Vector3 K) (o : Object K) : Moved o (o.setPosition pos) := by
  cases o <;> exact ⟨rfl, rfl, rfl, .inl rfl⟩

theorem moved_setDirection (dir : Vector3 K) (o : Object K) : Moved o (o.setDirection dir) := by
  cases o <;> exact ⟨rfl, rfl, rfl, .inl rfl⟩

theorem moved_drone {d d' : Drone K} (details : d'.details = d.details)
    (rider : d'.nearestEntity = d.nearestEntity ∨ d'.nearestEntity = none) :
    Moved (.drone d) (.drone d') :=
  ⟨rfl, details, rfl, rider⟩

theorem moved_finish [Scalar K] (o : Object K) : Moved o (o.onDrone Drone.finish) := by
  cases o with
  | drone d => exact moved_drone rfl (.inr rfl)
  | robot _ | human _ | helicopter _ | ufo _ => exact Moved.refl _

end Object

/-- The drone without what a strategy changes. -/
def Drone.atRest [Scalar K] (d : Drone K) : Drone K :=
  { d with position := .zero, direction := .zero, jumpHeight := Scalar.ofInt 0, goUp := true }

theorem Drone.atRest_jump [Scalar K] (height : K) (d : Drone K) :
    (d.jump height).atRest = d.atRest := by
  unfold Drone.jump
  split <;> rfl

/-- A strategy changes the place, the direction and the height of a drone and nothing else. -/
theorem Drone.move_frame [Scalar K] {β : Type} (f : Drone K → β) (hf : ∀ d, f d.atRest = f d)
    (dt : K) (strategy : IStrategy K) (d : Drone K) : f (strategy.move dt d).2 = f d := by
  have rest : (strategy.move dt d).2.atRest = d.atRest :=
    IStrategy.move_frame Drone.atRest (fun _ _ => rfl) (fun _ _ => rfl) Drone.atRest_jump
      (fun _ _ => rfl) dt strategy d
  rw [← hf, rest, hf]

namespace SimulationModel

/-- Every object is one that the old object may have become, and no list has changed. -/
structure Calm (s s' : SimulationModel K) : Prop where
  entities : s'.entities = s.entities
  scheduler : s'.scheduler = s.scheduler
  currentId : s'.currentId = s.currentId
  journal : ∃ ns, s'.journal = s.journal ++ ns ∧ ∀ n ∈ ns, ∃ e dt, n = .updated e dt
  absent : ∀ id, s.objects id = none → s'.objects id = none
  moved : ∀ id o, s.objects id = some o → ∃ o', s'.objects id = some o' ∧ o.Moved o'

namespace Calm

variable {s s' s'' : SimulationModel K}

theorem refl (s : SimulationModel K) : Calm s s where
  entities := rfl
  scheduler := rfl
  currentId := rfl
  journal := ⟨[], by simp⟩
  absent := fun _ h => h
  moved := fun _ o h => ⟨o, h, .refl o⟩

theorem trans (h : Calm s s') (h' : Calm s' s'') : Calm s s'' := by
  obtain ⟨ns, hns, hup⟩ := h.journal
  obtain ⟨ns', hns', hup'⟩ := h'.journal
  refine ⟨h'.entities.trans h.entities, h'.scheduler.trans h.scheduler,
    h'.currentId.trans h.currentId, ⟨ns ++ ns', ?_, ?_⟩, ?_, ?_⟩
  · rw [hns', hns, List.append_assoc]
  · intro n hn
    obtain hn | hn := List.mem_append.mp hn
    · exact hup n hn
    · exact hup' n hn
  · intro id hid
    exact h'.absent id (h.absent id hid)
  · intro id o ho
    obtain ⟨o', ho', hm⟩ := h.moved id o ho
    obtain ⟨o'', ho'', hm'⟩ := h'.moved id o' ho'
    exact ⟨o'', ho'', hm.trans hm'⟩

/-- Only the objects and the journal are looked at. -/
theorem of_eq (entities : s'.entities = s.entities) (scheduler : s'.scheduler = s.scheduler)
    (currentId : s'.currentId = s.currentId) (journal : s'.journal = s.journal)
    (objects : s'.objects = s.objects) : Calm s s' := by
  refine ⟨entities, scheduler, currentId, ⟨[], by simp [journal]⟩, ?_, ?_⟩
  · intro id h
    rwa [objects]
  · intro id o h
    exact ⟨o, by rwa [objects], .refl o⟩

theorem modify (s : SimulationModel K) (id : Nat) {f : Object K → Object K}
    (hf : ∀ o, s.objects id = some o → o.Moved (f o)) : Calm s (s.modify id f) := by
  refine ⟨rfl, rfl, rfl, ⟨[], by simp [SimulationModel.modify]⟩, ?_, ?_⟩
  · intro a ha
    by_cases h : a = id
    · subst a
      simp [SimulationModel.modify, ha]
    · simpa [SimulationModel.modify, h] using ha
  · intro a o ho
    by_cases h : a = id
    · subst a
      exact ⟨f o, by simp [SimulationModel.modify, ho], hf o ho⟩
    · exact ⟨o, by simpa [SimulationModel.modify, h] using ho, .refl o⟩

theorem replace {id : Nat} {o o' : Object K} (ho : s.objects id = some o) (h : o.Moved o') :
    Calm s (s.modify id fun _ => o') := by
  apply modify
  intro p hp
  rw [ho] at hp
  cases hp
  exact h

theorem note_updated (s : SimulationModel K) (e : TypeDecorator) (dt : K) :
    Calm s (s.note (.updated e dt)) := by
  refine ⟨rfl, rfl, rfl, ⟨[.updated e dt], rfl, ?_⟩, fun _ h => h, fun _ o h => ⟨o, h, .refl o⟩⟩
  intro n hn
  exact ⟨e, dt, List.mem_singleton.mp hn⟩

variable [Scalar K] (world : World K)

theorem drawGround (s : SimulationModel K) (y : K) : Calm s (s.drawGround world y).2 :=
  of_eq rfl rfl rfl rfl rfl

theorem drawSky (s : SimulationModel K) : Calm s (s.drawSky world).2 :=
  of_eq rfl rfl rfl rfl rfl

theorem setDestination (s : SimulationModel K) (id : Nat) (des : Vector3 K) :
    Calm s (s.setDestination world id des) := by
  unfold SimulationModel.setDestination
  split
  · case h_1 u hu =>
      exact (drawSky world s).trans
        (replace (s := (s.drawSky world).2) hu ⟨rfl, rfl, rfl, .inl rfl⟩)
  · case h_2 d hd => exact replace hd (Object.moved_drone rfl (.inl rfl))
  · case h_3 r hr => exact replace hr ⟨rfl, rfl, rfl, .inl rfl⟩
  · case h_4 h hh => exact replace hh ⟨rfl, rfl, rfl, .inl rfl⟩
  · case h_5 h hh => exact replace hh ⟨rfl, rfl, rfl, .inl rfl⟩
  · exact refl s

theorem updateDrone {id : Nat} {d : Drone K} (hd : s.objects id = some (.drone d)) (dt : K) :
    Calm s (s.updateDrone id d dt) := by
  have details := fun strategy => Drone.move_frame Drone.details (fun _ => rfl) dt strategy d
  have rider := fun strategy =>
    Drone.move_frame Drone.nearestEntity (fun _ => rfl) dt strategy d
  unfold SimulationModel.updateDrone
  cases d.toRobot with
  | some strategy =>
      apply replace hd
      split
      · exact Object.moved_drone (details strategy) (.inl (rider strategy))
      · exact Object.moved_drone (details strategy) (.inl (rider strategy))
  | none =>
      cases d.toFinalDestination with
      | none => exact refl s
      | some strategy =>
          have flown : Calm s (s.modify id fun _ => .drone
              { (strategy.move dt d).2 with
                toFinalDestination := some (strategy.move dt d).1 }) :=
            replace hd (Object.moved_drone (details strategy) (.inl (rider strategy)))
          have carried (rider : TypeDecorator) (t : SimulationModel K) : Calm t
              ((t.modify rider.getId (Object.setPosition (strategy.move dt d).2.position)).modify
                rider.getId (Object.setDirection (strategy.move dt d).2.direction)) :=
            (modify t _ fun o _ => o.moved_setPosition _).trans
              (modify _ _ fun o _ => o.moved_setDirection _)
          simp only
          split
          · refine trans ?_ (modify _ _ fun o _ => o.moved_finish)
            split
            · exact flown.trans (carried _ _)
            · exact flown
          · split
            · exact flown.trans (carried _ _)
            · exact flown

theorem updateHuman {id : Nat} {h : Human K} (hh : s.objects id = some (.human h)) (dt : K) :
    Calm s (s.updateHuman world id h dt) := by
  have details := fun strategy : IStrategy K => IStrategy.move_frame Human.details
    (fun _ _ => rfl) (fun _ _ => rfl) (fun _ _ => rfl) (fun _ _ => rfl) dt strategy h
  have redirect (destination : Vector3 K) (toDestination : Option (IStrategy K)) :=
    (drawGround world s h.position.y).trans (replace hh
      (⟨rfl, rfl, rfl, .inl rfl⟩ : Object.Moved (.human h) (.human { h with
        destination := destination, toDestination := toDestination })))
  have wander := redirect (s.drawGround world h.position.y).1
    (some (.path (world.getPath .astar h.position (s.drawGround world h.position.y).1) 0))
  unfold SimulationModel.updateHuman
  split
  · exact wander
  · split
    · exact wander
    · exact replace hh ⟨rfl, details _, rfl, .inl rfl⟩

theorem updateHelicopter {id : Nat} {h : Helicopter K}
    (hh : s.objects id = some (.helicopter h)) (dt : K) :
    Calm s (s.updateHelicopter world id h dt) := by
  have details := fun strategy : IStrategy K => IStrategy.move_frame Helicopter.details
    (fun _ _ => rfl) (fun _ _ => rfl) (fun _ _ => rfl) (fun _ _ => rfl) dt strategy h
  have redirect (destination : Vector3 K) (toDestination : Option (IStrategy K)) :=
    (drawGround world s h.position.y).trans (replace hh
      (⟨rfl, rfl, rfl, .inl rfl⟩ : Object.Moved (.helicopter h) (.helicopter { h with
        destination := destination, toDestination := toDestination })))
  have wander := redirect (s.drawGround world h.position.y).1
    (some (.beeline h.position (s.drawGround world h.position.y).1))
  unfold SimulationModel.updateHelicopter
  split
  · exact wander
  · split
    · exact wander
    · exact replace hh ⟨rfl, details _, rfl, .inl rfl⟩

theorem updateUfo {id : Nat} {u : Ufo K} (hu : s.objects id = some (.ufo u)) (dt : K) :
    Calm s (s.updateUfo world id u dt) := by
  unfold SimulationModel.updateUfo
  split
  · exact (drawSky world s).trans
      (replace (s := (s.drawSky world).2) hu ⟨rfl, rfl, rfl, .inl rfl⟩)
  · exact replace hu ⟨rfl, rfl, rfl, .inl rfl⟩

theorem updateEntity (s : SimulationModel K) (e : TypeDecorator) (dt : K) :
    Calm s (s.updateEntity world e dt) := by
  apply (note_updated s e dt).trans
  unfold SimulationModel.updateEntity
  simp only
  split
  · case h_1 d hd => exact updateDrone hd dt
  · case h_2 h hh => exact updateHuman world hh dt
  · case h_3 h hh => exact updateHelicopter world hh dt
  · case h_4 u hu => exact updateUfo world hu dt
  · exact refl _
  · exact refl _

end Calm

end SimulationModel

end UmnProjects.Transit
