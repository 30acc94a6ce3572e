import UmnProjects.Transit.Riders

/-!
Where the robots are. Nothing moves a robot but the drone it rides in, on its second leg,
and after each call that moves it the robot is where the drone is.
-/
namespace UmnProjects.Transit
open Runs

variable {K : Type}

def Object.robotPosition : Object K → Option (Vector3 K)
  | .robot r => some r.position
  | _ => none

namespace SimulationModel

variable {s t : SimulationModel K}

def robotAt (s : SimulationModel K) (id : Nat) : Option (Vector3 K) :=
  (s.objects id).bind Object.robotPosition

/-- The drone is on its second leg and has its rider on board. -/
structure Carries (s : SimulationModel K) (id : Nat) (rider : TypeDecorator) (d : Drone K) :
    Prop where
  drone : s.objects id = some (.drone d)
  fetched : d.toRobot = none
  underWay : d.toFinalDestination ≠ none
  rider : d.nearestEntity = some rider
  pickedUp : d.pickedUp = true

theorem robotAt_modify {a : Nat} {f : Object K → Object K}
    (hf : ∀ o, s.objects a = some o → (f o).robotPosition = o.robotPosition) (id : Nat) :
    (s.modify a f).robotAt id = s.robotAt id := by
  unfold robotAt
  by_cases hid : id = a
  · subst hid
    cases ho : s.objects id with
    | none => simp [modify, ho]
    | some o => simp [Paired.modify_self s f ho, hf o ho]
  · rw [Paired.modify_of_ne s f hid]

theorem robotAt_replace {a : Nat} {o o' : Object K} (ho : s.objects a = some o)
    (h : o'.robotPosition = o.robotPosition) (id : Nat) :
    (s.modify a fun _ => o').robotAt id = s.robotAt id := by
  refine robotAt_modify (fun p hp => ?_) id
  rw [ho] at hp
  cases hp
  exact h

theorem robotAt_carry {a id : Nat} (hid : id ≠ a) (pos dir : Vector3 K) :
    ((s.modify a (Object.setPosition pos)).modify a (Object.setDirection dir)).robotAt id =
      s.robotAt id := by
  unfold robotAt
  rw [Paired.modify_of_ne _ _ hid, Paired.modify_of_ne _ _ hid]

theorem robotPosition_finish (o : Object K) :
    (o.onDrone Drone.finish).robotPosition = o.robotPosition := by
  cases o <;> rfl

theorem robotAt_finish (a : Nat) (completed : Bool) (id : Nat) :
    (if completed then s.modify a (Object.onDrone Drone.finish) else s).robotAt id =
      s.robotAt id := by
  split
  · exact robotAt_modify (fun o _ => robotPosition_finish o) id
  · rfl

theorem robotAt_of_drone {id : Nat} {d : Drone K} (h : s.objects id = some (.drone d)) :
    s.robotAt id = none := by
  rw [robotAt, h]
  rfl

theorem robotAt_of_robot {id : Nat} {r : Robot K} (h : s.objects id = some (.robot r)) :
    s.robotAt id = some r.position := by
  rw [robotAt, h]
  rfl

theorem Carries.robot (h : Paired s) {id : Nat} {rider : TypeDecorator} {d : Drone K}
    (hc : s.Carries id rider d) :
    s.riderOf id = some rider ∧ ∃ r, s.objects rider.getId = some (.robot r) := by
  have hrider : s.riderOf id = some rider := by
    rw [riderOf, hc.drone]
    exact hc.rider
  exact ⟨hrider, Paired.robot_of_scheduler h.wellFormed (h.listed id rider hrider)⟩

variable [Scalar K] (world : World K)

/-- A call of `Update` moves no robot but the one the drone carries. -/
theorem robotAt_updateDrone {a id : Nat} {d : Drone K} (hd : s.objects a = some (.drone d))
    (hnot : ∀ rider, s.Carries a rider d → rider.getId ≠ id) (dt : K) :
    (s.updateDrone a d dt).robotAt id = s.robotAt id := by
  unfold updateDrone
  cases hrobot : d.toRobot with
  | some strategy => exact robotAt_replace hd (by rfl) id
  | none =>
      cases hfinal : d.toFinalDestination with
      | none => rfl
      | some strategy =>
          have hrider := Drone.move_frame Drone.nearestEntity (fun _ => rfl) dt strategy d
          have hpicked := Drone.move_frame Drone.pickedUp (fun _ => rfl) dt strategy d
          have hflown : (s.modify a fun _ => .drone { (strategy.move dt d).2 with
              toFinalDestination := some (strategy.move dt d).1 }).robotAt id = s.robotAt id :=
            robotAt_replace hd (by rfl) id
          simp only [robotAt_finish]
          split
          · next rider hrider' hpicked' =>
              have hcarries : s.Carries a rider d :=
                ⟨hd, hrobot, by simp [hfinal], hrider ▸ hrider', hpicked ▸ hpicked'⟩
              rw [robotAt_carry (hnot rider hcarries).symm]
              exact hflown
          · exact hflown

theorem robotAt_updateEntity {e : TypeDecorator} {id : Nat}
    (hnot : ∀ rider d, s.Carries e.getId rider d → rider.getId ≠ id) (dt : K) :
    (s.updateEntity world e dt).robotAt id = s.robotAt id := by
  unfold updateEntity
  simp only
  split
  · next d hd =>
      exact robotAt_updateDrone (s := s.note (.updated e dt)) hd
        (fun rider h => hnot rider d ⟨hd, h.fetched, h.underWay, h.rider, h.pickedUp⟩) dt
  · next h hh =>
      unfold updateHuman
      split
      · exact robotAt_replace hh (by rfl) id
      · split
        · exact robotAt_replace hh (by rfl) id
        · exact robotAt_replace hh (by rfl) id
  · next h hh =>
      unfold updateHelicopter
      split
      · exact robotAt_replace hh (by rfl) id
      · split
        · exact robotAt_replace hh (by rfl) id
        · exact robotAt_replace hh (by rfl) id
  · next u hu =>
      unfold updateUfo
      split
      · exact robotAt_replace hu (by rfl) id
      · exact robotAt_replace hu (by rfl) id
  · rfl
  · rfl

theorem robotAt_setDestination (a : Nat) (des : Vector3 K) (id : Nat) :
    (s.setDestination world a des).robotAt id = s.robotAt id := by
  unfold setDestination
  split
  · next u hu => exact robotAt_replace (s := (s.drawSky world).2) hu (by rfl) id
  · next d hd => exact robotAt_replace hd (by rfl) id
  · next r hr => exact robotAt_replace hr (by rfl) id
  · next h hh => exact robotAt_replace hh (by rfl) id
  · next h hh => exact robotAt_replace hh (by rfl) id
  · rfl

theorem robotAt_createEntity (h : WellFormed s) {m : EntityMessage K}
    (hc : s.createEntity world m = some t) {id : Nat} {pos : Vector3 K}
    (hpos : s.robotAt id = some pos) : t.robotAt id = some pos := by
  obtain ⟨o, _, _, _, objects, _⟩ := WellFormed.createEntity_spec world hc
  have hid : id ≠ s.currentId := by
    intro heq
    have hfresh := h.fresh id (Nat.le_of_eq heq.symm)
    rw [profile, Option.map_eq_none_iff] at hfresh
    rw [robotAt, hfresh] at hpos
    cases hpos
  rwa [robotAt, objects, Function.update_of_ne hid]

theorem robotAt_scheduleTrip {m : TripMessage K} (hc : s.scheduleTrip world m = some t)
    (id : Nat) : t.robotAt id = s.robotAt id := by
  obtain rfl | ⟨e, _, s₁, _, _, rfl, objects, _⟩ := WellFormed.scheduleTrip_spec world hc
  · rfl
  · rw [robotAt, objects]
    refine (robotAt_modify (fun o _ => ?_) id).trans (robotAt_setDestination world _ _ id)
    cases o <;> rfl

theorem robotAt_assign (h : WellFormed s) {c : HandlerClass} {e rider : TypeDecorator}
    (handled : s.handles c e = true) (found : s.findRider c s.scheduler = some rider) (id : Nat) :
    (s.assign world c e rider).robotAt id = s.robotAt id := by
  obtain ⟨d, robot, hd, hrobot, _, hne, _⟩ := Paired.found_spec h handled found
  have assigned := Paired.assign_spec world c hd hrobot hne
  by_cases hid : id = rider.getId
  · rw [hid, robotAt_of_robot assigned.robot, robotAt_of_robot hrobot]
  · by_cases hdrone : id = e.getId
    · obtain ⟨d', hd', _⟩ := assigned.drone
      rw [hdrone, robotAt_of_drone hd', robotAt_of_drone hd]
    · rw [robotAt, assigned.others id hdrone hid]
      rfl

/-! ### The drone and its robot -/

/-- After a call on its second leg the drone has its rider beside it. -/
theorem Carries.together {e rider : TypeDecorator} {d : Drone K} (hc : s.Carries e.getId rider d)
    {r : Robot K} (hr : s.objects rider.getId = some (.robot r)) (dt : K) :
    ∃ d' r', (s.updateEntity world e dt).objects e.getId = some (.drone d') ∧
      (s.updateEntity world e dt).objects rider.getId = some (.robot r') ∧
      r'.position = d'.position ∧ r'.direction = d'.direction := by
  have hne : rider.getId ≠ e.getId := by
    intro heq
    rw [heq, hc.drone] at hr
    cases hr
  obtain ⟨strategy, hfinal⟩ := Option.ne_none_iff_exists'.mp hc.underWay
  let flown := strategy.move dt d
  -- The call leaves rider and flag alone, so the drone still has them after its own move.
  have hrider : flown.2.nearestEntity = some rider :=
    (Drone.move_frame Drone.nearestEntity (fun _ => rfl) dt strategy d).trans hc.rider
  have hpicked : flown.2.pickedUp = true :=
    (Drone.move_frame Drone.pickedUp (fun _ => rfl) dt strategy d).trans hc.pickedUp
  let d₁ : Drone K := { flown.2 with
    nearestEntity := some rider, pickedUp := true, toFinalDestination := some flown.1 }
  let s₁ := (s.note (.updated e dt)).modify e.getId fun _ => .drone d₁
  let s₂ := (s₁.modify rider.getId (Object.setPosition flown.2.position)).modify rider.getId
    (Object.setDirection flown.2.direction)
  have hupdate : s.updateEntity world e dt =
      if flown.1.isCompleted then s₂.modify e.getId (Object.onDrone Drone.finish) else s₂ := by
    have hobject : (s.note (.updated e dt)).objects e.getId = some (.drone d) := hc.drone
    simp only [updateEntity, hobject, updateDrone, hc.fetched, hfinal]
    rw [hrider, hpicked]
  have hdrone₁ : s₁.objects e.getId = some (.drone d₁) :=
    Paired.modify_self (s.note (.updated e dt)) _ hc.drone
  have hdrone : s₂.objects e.getId = some (.drone d₁) := by
    rw [Paired.modify_of_ne _ _ hne.symm, Paired.modify_of_ne _ _ hne.symm, hdrone₁]
  have hrobot₁ : s₁.objects rider.getId = some (.robot r) :=
    (Paired.modify_of_ne (s.note (.updated e dt)) _ hne).trans hr
  have hrobot : s₂.objects rider.getId = some (.robot
      { r with position := flown.2.position, direction := flown.2.direction }) :=
    Paired.modify_self _ (Object.setDirection flown.2.direction)
      (Paired.modify_self s₁ (Object.setPosition flown.2.position) hrobot₁)
  rw [hupdate]
  split
  · -- The end of the trip leaves the drone where it is.
    have hlanded := Paired.modify_self s₂ (Object.onDrone Drone.finish) hdrone
    refine ⟨d₁.finish, { r with position := flown.2.position, direction := flown.2.direction },
      hlanded, ?_, rfl, rfl⟩
    rw [Paired.modify_of_ne s₂ _ hne]
    exact hrobot
  · exact ⟨d₁, _, hdrone, hrobot, rfl, rfl⟩

/-- A robot is moved by a call of `Update` on the one drone that carries it and by nothing
else, and such a call leaves the two in the same place and direction. -/
structure MovesRobots (s t : SimulationModel K) : Prop where
  moved : ∀ id pos, s.robotAt id = some pos → ∃ pos', t.robotAt id = some pos' ∧
    (pos' ≠ pos → ∃ e dt rider d, t = s.updateEntity world e dt ∧
      s.Carries e.getId rider d ∧ rider.getId = id ∧
      ∀ id' d' r, s.objects id' = some (.drone d') → d'.nearestEntity = some r →
        r.getId = id → id' = e.getId)
  together : ∀ e dt rider d, t = s.updateEntity world e dt → s.Carries e.getId rider d →
    ∃ d' r', t.objects e.getId = some (.drone d') ∧ t.objects rider.getId = some (.robot r') ∧
      r'.position = d'.position ∧ r'.direction = d'.direction

/-- The case of a call of `Update`: it moves the robot of its drone, if it has one. -/
theorem moved_updateEntity (h : Paired s) (e : TypeDecorator) (dt : K) {id : Nat}
    {pos : Vector3 K} (hpos : s.robotAt id = some pos) :
    ∃ pos', (s.updateEntity world e dt).robotAt id = some pos' ∧
      (pos' ≠ pos → ∃ rider d, s.Carries e.getId rider d ∧ rider.getId = id ∧
        ∀ id' d' r, s.objects id' = some (.drone d') → d'.nearestEntity = some r →
          r.getId = id → id' = e.getId) := by
  by_cases hcarried : ∃ rider d, s.Carries e.getId rider d ∧ rider.getId = id
  · obtain ⟨rider, d, hc, hid⟩ := hcarried
    obtain ⟨hrider, r, hr⟩ := hc.robot h
    obtain ⟨d', r', _, hr', _⟩ := hc.together world hr dt
    refine ⟨r'.position, ?_, fun _ => ⟨rider, d, hc, hid, ?_⟩⟩
    · rw [← hid]
      exact robotAt_of_robot hr'
    · intro id' d'' r'' hd'' hr'' hid''
      have hother : s.riderOf id' = some r'' := by
        rw [riderOf, hd'']
        exact hr''
      exact h.exclusive id' e.getId r'' rider hother hrider (hid''.trans hid.symm)
  · refine ⟨pos, ?_, fun hne => absurd rfl hne⟩
    rw [robotAt_updateEntity world (fun rider d hc hid => hcarried ⟨rider, d, hc, hid⟩)]
    exact hpos

theorem movesRobots_stage (h : Paired s) (hs : Stage world s t) : MovesRobots world s t := by
  have same (hsame : ∀ id pos, s.robotAt id = some pos → t.robotAt id = some pos) (id pos)
      (hpos : s.robotAt id = some pos) : ∃ pos', t.robotAt id = some pos' ∧
        (pos' ≠ pos → ∃ e dt rider d, t = s.updateEntity world e dt ∧
          s.Carries e.getId rider d ∧ rider.getId = id ∧
          ∀ id' d' r, s.objects id' = some (.drone d') → d'.nearestEntity = some r →
            r.getId = id → id' = e.getId) :=
    ⟨pos, hsame id pos hpos, fun hne => absurd rfl hne⟩
  refine ⟨?_, ?_⟩
  · cases hs with
    | created m _ hc =>
        exact same fun id pos hpos => robotAt_createEntity world h.wellFormed hc hpos
    | scheduled m _ hc =>
        exact same fun id pos hpos => (robotAt_scheduleTrip world hc id).trans hpos
    | updated e dt =>
        intro id pos hpos
        obtain ⟨pos', hpos', hmoved⟩ := moved_updateEntity world h e dt hpos
        refine ⟨pos', hpos', fun hne => ?_⟩
        obtain ⟨rider, d, hc, hid, honly⟩ := hmoved hne
        exact ⟨e, dt, rider, d, rfl, hc, hid, honly⟩
    | assigned c e rider _ _ handled _ found =>
        exact same fun id pos hpos =>
          (robotAt_assign world h.wellFormed handled found id).trans hpos
    | shown _ objects =>
        refine same fun id pos hpos => ?_
        rwa [robotAt, objects]
  · rintro e dt rider d rfl hc
    obtain ⟨_, r, hr⟩ := hc.robot h
    exact hc.together world hr dt

/-- Every command is carried out in stages, and every stage that can be reached moves robots
only as their drones do. -/
theorem robots_moved_by_drones :
    (∀ s c t, Reaches (Transit.step world) (init K) s → Transit.step world s c = some t →
      Stages world (init K) s ∧ Stages world s t) ∧
    ∀ s t, Stages world (init K) s → Stage world s t → MovesRobots world s t := by
  refine ⟨?_, ?_⟩
  · intro s c t hr hstep
    have hstages : Stages world (init K) s :=
      hr.invariant (fun _ _ _ _ hc hs => hs.trans (stages_of_step hc)) .refl
    exact ⟨hstages, stages_of_step hstep⟩
  · intro s t hs hstage
    have paired := invariant_of_stages (fun _ _ hstage hp => hp.stage world hstage) hs Paired.init
    exact movesRobots_stage world paired hstage

/-- The way from a place to another is straight. -/
def straightWorld : World Int :=
  { quietWorld with getPath := fun _ start finish => [start, finish] }

/-- A drone fetches a robot from another place and is about to bring it away. -/
def sharedRide : List (Command Int) :=
  [.createEntity (atOrigin "drone" "Drone"),
    .createEntity ⟨"robot", "Robot", ⟨30, 0, 0⟩, ⟨1, 0, 0⟩, 30⟩,
    .scheduleTrip ⟨"Robot", "standard", ⟨90, 0, 0⟩, "astar"⟩, .update 1, .update 1, .update 1]

/-- A drone that has the rider on board. -/
def carrying (rider : TypeDecorator) : Object Int → Bool
  | .drone d => d.toRobot.isNone && d.toFinalDestination.isSome && d.nearestEntity == some rider &&
      d.pickedUp
  | _ => false

theorem carries_of_carrying {s : SimulationModel Int} {id : Nat} {rider : TypeDecorator}
    (h : (s.objects id).any (carrying rider) = true) : ∃ d, s.Carries id rider d := by
  obtain ⟨o, ho, hcarrying⟩ := (Option.any_eq_true _ _).mp h
  cases o with
  | drone d =>
      simp only [carrying, Bool.and_eq_true, Option.isNone_iff_eq_none, beq_iff_eq] at hcarrying
      obtain ⟨⟨⟨hfetched, hunderWay⟩, hrider⟩, hpickedUp⟩ := hcarrying
      exact ⟨d, ho, hfetched, Option.isSome_iff_ne_none.mp hunderWay, hrider, hpickedUp⟩
  | _ => cases hcarrying

theorem sharedRide_together :
    ∃ s, perform (Transit.step straightWorld) (init Int) sharedRide = some s ∧
      s.robotAt 2 = some ⟨30, 0, 0⟩ ∧
      ∃ d r, (s.updateEntity straightWorld ⟨1, .standard, .object 0⟩ 1).objects 0 =
          some (.drone d) ∧
        (s.updateEntity straightWorld ⟨1, .standard, .object 0⟩ 1).objects 2 = some (.robot r) ∧
        d.position = ⟨60, 0, 0⟩ ∧ r.position = d.position ∧ r.direction = d.direction := by
  have hcarrying : (perform (Transit.step straightWorld) (init Int) sharedRide).any
      (fun s => (s.objects 0).any
        (carrying ⟨4, .standard, .decorated 3 (wrapType 2) (.object 2)⟩)) = true := by
    decide +kernel
  have hplaces : (perform (Transit.step straightWorld) (init Int) sharedRide).map
      (fun s => (s.robotAt 2, ((s.updateEntity straightWorld ⟨1, .standard, .object 0⟩ 1).objects
        0).map Object.getPosition)) = some (some ⟨30, 0, 0⟩, some ⟨60, 0, 0⟩) := by
    decide +kernel
  obtain ⟨s, hs, hcarrying⟩ := (Option.any_eq_true _ _).mp hcarrying
  obtain ⟨d, hd⟩ := carries_of_carrying hcarrying
  have run : Reaches (Transit.step straightWorld) (init Int) s :=
    run_of_perform hs (fun _ _ _ => trivial)
  obtain ⟨hstages, hmoves⟩ := robots_moved_by_drones straightWorld (K := Int)
  have hmoved := hmoves s _ (hstages s (.update 0) _ run rfl).1
    (.updated ⟨1, .standard, .object 0⟩ 1)
  obtain ⟨d', r, hd', hr, htogether⟩ := hmoved.together _ 1 _ d rfl hd
  rw [hs] at hplaces
  obtain ⟨hrobot, hdrone⟩ := Prod.mk.inj (Option.some.inj hplaces)
  have hplace : some d'.position = some ⟨60, 0, 0⟩ :=
    (congrArg (Option.map Object.getPosition) hd').symm.trans hdrone
  exact ⟨s, hs, hrobot, d', r, hd', hr, Option.some.inj hplace, htogether⟩

end SimulationModel

end UmnProjects.Transit
