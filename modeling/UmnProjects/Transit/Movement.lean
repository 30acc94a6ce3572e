import UmnProjects.Transit.Frames

/-!
Relations between an object and what its movement may turn it into. A relation that the
single movements respect holds between every object before and after an update.
-/
namespace UmnProjects.Transit

variable {K : Type}

namespace SimulationModel

/-- Objects are kept, and each stands in the relation to what it has become. -/
structure Each (R : Object K → Object K → Prop) (s s' : SimulationModel K) : Prop where
  absent : ∀ id, s.objects id = none → s'.objects id = none
  related : ∀ id o, s.objects id = some o → ∃ o', s'.objects id = some o' ∧ R o o'

end SimulationModel

/-- The relation holds across the single movements of every kind of object. -/
structure Movement [Scalar K] (R : Object K → Object K → Prop) : Prop where
  refl : ∀ o, R o o
  trans : ∀ o o' o'', R o o' → R o' o'' → R o o''
  setPosition : ∀ pos o, R o (o.setPosition pos)
  setDirection : ∀ dir o, R o (o.setDirection dir)
  toRobot : ∀ (d : Drone K) strategy strategy' dt, d.toRobot = some strategy →
    R (.drone d) (.drone { (IStrategy.move dt strategy d).2 with toRobot := some strategy' })
  atRobot : ∀ (d : Drone K) strategy dt, d.toRobot = some strategy →
    R (.drone d) (.drone { (IStrategy.move dt strategy d).2 with
      toRobot := none, pickedUp := true })
  toDestination : ∀ (d : Drone K) strategy strategy' dt, d.toRobot = none →
    d.toFinalDestination = some strategy →
    R (.drone d) (.drone { (IStrategy.move dt strategy d).2 with
      toFinalDestination := some strategy' })
  finish : ∀ d : Drone K, d.toRobot = none → d.toFinalDestination ≠ none →
    R (.drone d) (.drone d.finish)
  human : ∀ h h', R (.human h) (.human h')
  helicopter : ∀ h h', R (.helicopter h) (.helicopter h')
  ufo : ∀ u u', R (.ufo u) (.ufo u')

namespace SimulationModel

/-- The drone has left its first leg behind and is on its second. -/
def OnTrip (s : SimulationModel K) (id : Nat) : Prop :=
  ∃ d, s.objects id = some (.drone d) ∧ d.toRobot = none ∧ d.toFinalDestination ≠ none

theorem OnTrip.modify {s : SimulationModel K} {id : Nat} (h : s.OnTrip id) (a : Nat)
    {f : Object K → Object K}
    (hf : ∀ d : Drone K, ∃ d', f (.drone d) = .drone d' ∧ d'.toRobot = d.toRobot ∧
      d'.toFinalDestination = d.toFinalDestination) : (s.modify a f).OnTrip id := by
  obtain ⟨d, hd, hrobot, hfinal⟩ := h
  by_cases ha : id = a
  · subst a
    obtain ⟨d', hd', hrobot', hfinal'⟩ := hf d
    exact ⟨d', by simp [SimulationModel.modify, hd, hd'], hrobot'.trans hrobot, hfinal' ▸ hfinal⟩
  · exact ⟨d, by simpa [SimulationModel.modify, ha] using hd, hrobot, hfinal⟩

end SimulationModel

namespace SimulationModel.Each

variable [Scalar K] {R : Object K → Object K → Prop} {s s' s'' : SimulationModel K}

theorem refl (hR : Movement R) (s : SimulationModel K) : Each R s s :=
  ⟨fun _ h => h, fun _ o h => ⟨o, h, hR.refl o⟩⟩

theorem trans (hR : Movement R) (h : Each R s s') (h' : Each R s' s'') : Each R s s'' := by
  refine ⟨fun id hid => h'.absent id (h.absent id hid), ?_⟩
  intro id o ho
  obtain ⟨o', ho', hr⟩ := h.related id o ho
  obtain ⟨o'', ho'', hr'⟩ := h'.related id o' ho'
  exact ⟨o'', ho'', hR.trans _ _ _ hr hr'⟩

theorem of_objects (hR : Movement R) (objects : s'.objects = s.objects) : Each R s s' := by
  refine ⟨?_, ?_⟩
  · intro id h
    rwa [objects]
  · intro id o h
    exact ⟨o, by rwa [objects], hR.refl o⟩

theorem modify (hR : Movement R) (s : SimulationModel K) (id : Nat) {f : Object K → Object K}
    (hf : ∀ o, s.objects id = some o → R o (f o)) : Each R s (s.modify id f) := by
  refine ⟨?_, ?_⟩
  · intro a ha
    by_cases h : a = id
    · subst a
      simp [SimulationModel.modify, ha]
    · simpa [SimulationModel.modify, h] using ha
  · intro a o ho
    by_cases h : a = id
    · subst a
      exact ⟨f o, by simp [SimulationModel.modify, ho], hf o ho⟩
    · exact ⟨o, by simpa [SimulationModel.modify, h] using ho, hR.refl o⟩

theorem replace (hR : Movement R) {id : Nat} {o o' : Object K} (ho : s.objects id = some o)
    (h : R o o') : Each R s (s.modify id fun _ => o') := by
  apply modify hR
  intro p hp
  rw [ho] at hp
  cases hp
  exact h

/-- A rider is taken along; should it be the drone itself, its strategies stay. -/
theorem carry (hR : Movement R) {id : Nat} (h : s.OnTrip id) (a : Nat) (pos dir : Vector3 K) :
    Each R s ((s.modify a (Object.setPosition pos)).modify a (Object.setDirection dir)) ∧
      ((s.modify a (Object.setPosition pos)).modify a (Object.setDirection dir)).OnTrip id := by
  refine ⟨?_, ?_⟩
  · exact (modify hR s a fun o _ => hR.setPosition pos o).trans hR
      (modify hR _ a fun o _ => hR.setDirection dir o)
  · exact (h.modify a fun d => ⟨{ d with position := pos }, rfl, rfl, rfl⟩).modify a
      fun d => ⟨{ d with direction := dir }, rfl, rfl, rfl⟩

theorem finish (hR : Movement R) {id : Nat} (h : s.OnTrip id) :
    Each R s (s.modify id (Object.onDrone Drone.finish)) := by
  obtain ⟨d, hd, hrobot, hfinal⟩ := h
  apply modify hR
  intro o ho
  rw [hd] at ho
  cases ho
  exact hR.finish d hrobot hfinal

theorem updateDrone (hR : Movement R) {id : Nat} {d : Drone K}
    (hd : s.objects id = some (.drone d)) (dt : K) : Each R s (s.updateDrone id d dt) := by
  unfold SimulationModel.updateDrone
  cases hrobot : d.toRobot with
  | some strategy =>
      apply replace hR hd
      split
      · exact hR.atRobot d strategy dt hrobot
      · exact hR.toRobot d strategy _ dt hrobot
  | none =>
      cases hfinal : d.toFinalDestination with
      | none => exact refl hR s
      | some strategy =>
          have flown := replace hR hd
            (hR.toDestination d strategy (strategy.move dt d).1 dt hrobot hfinal)
          have onTrip : (s.modify id fun _ => .drone { (strategy.move dt d).2 with
              toFinalDestination := some (strategy.move dt d).1 }).OnTrip id := by
            refine ⟨_, by simp [SimulationModel.modify, hd]; rfl, ?_, by simp⟩
            exact (Drone.move_frame Drone.toRobot (fun _ => rfl) dt strategy d).trans hrobot
          simp only
          split
          · split
            · case h_1 rider _ _ =>
                obtain ⟨carried, still⟩ := carry hR onTrip rider.getId
                  (strategy.move dt d).2.position (strategy.move dt d).2.direction
                exact (flown.trans hR carried).trans hR (finish hR still)
            · exact flown.trans hR (finish hR onTrip)
          · split
            · exact flown.trans hR (carry hR onTrip _ _ _).1
            · exact flown

variable (world : World K)

theorem updateHuman (hR : Movement R) {id : Nat} {h : Human K}
    (hh : s.objects id = some (.human h)) (dt : K) : Each R s (s.updateHuman world id h dt) := by
  have turned : Each R s (s.drawGround world h.position.y).2 := of_objects hR rfl
  unfold SimulationModel.updateHuman
  split
  · exact turned.trans hR (replace hR (by exact hh) (hR.human h _))
  · split
    · exact turned.trans hR (replace hR (by exact hh) (hR.human h _))
    · exact replace hR hh (hR.human h _)

theorem updateHelicopter (hR : Movement R) {id : Nat} {h : Helicopter K}
    (hh : s.objects id = some (.helicopter h)) (dt : K) :
    Each R s (s.updateHelicopter world id h dt) := by
  have turned : Each R s (s.drawGround world h.position.y).2 := of_objects hR rfl
  unfold SimulationModel.updateHelicopter
  split
  · exact turned.trans hR (replace hR (by exact hh) (hR.helicopter h _))
  · split
    · exact turned.trans hR (replace hR (by exact hh) (hR.helicopter h _))
    · exact replace hR hh (hR.helicopter h _)

theorem updateUfo (hR : Movement R) {id : Nat} {u : Ufo K}
    (hu : s.objects id = some (.ufo u)) (dt : K) : Each R s (s.updateUfo world id u dt) := by
  have turned : Each R s (s.drawSky world).2 := of_objects hR rfl
  unfold SimulationModel.updateUfo
  split
  · exact turned.trans hR (replace hR (by exact hu) (hR.ufo u _))
  · exact replace hR hu (hR.ufo u _)

theorem updateEntity (hR : Movement R) (s : SimulationModel K) (e : TypeDecorator) (dt : K) :
    Each R s (s.updateEntity world e dt) := by
  have noted : Each R s (s.note (.updated e dt)) := of_objects hR rfl
  apply noted.trans hR
  unfold SimulationModel.updateEntity
  simp only
  split
  · case h_1 d hd => exact updateDrone hR hd dt
  · case h_2 h hh => exact updateHuman world hR hh dt
  · case h_3 h hh => exact updateHelicopter world hR hh dt
  · case h_4 u hu => exact updateUfo world hR hu dt
  · exact refl hR _
  · exact refl hR _

end SimulationModel.Each

end UmnProjects.Transit
