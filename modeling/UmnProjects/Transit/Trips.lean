import UmnProjects.Transit.Celebrations
import UmnProjects.Transit.DroneFlights

/-!
The trips of the drones come to an end where their strategies do: a drone flies to its robot, then
to the final destination, and is idle again.
-/
namespace UmnProjects.Transit

open Runs Progress

variable {K : Type}

/-! ### Moves -/

namespace IStrategy

section Moves

variable {E : Type} [Scalar K] [Movable K E]

/-- A strategy and its entity after a call of `Move`. -/
def moveOn (dt : K) (p : IStrategy K × E) : IStrategy K × E := p.1.move dt p.2

/-- Calls of `Move` with the same time step complete the strategy. -/
def Ends (dt : K) (s : IStrategy K) (e : E) : Prop :=
  Eventually (moveOn dt) (fun p => p.1.isCompleted = true) (s, e)

/-- What no movement of the entity looks at and none changes can be changed before or after. -/
theorem move_commutes (f : E → E)
    (getPosition : ∀ e : E, Movable.getPosition (f e) = Movable.getPosition e)
    (getSpeed : ∀ e : E, Movable.getSpeed (f e) = Movable.getSpeed e)
    (setPosition : ∀ pos (e : E), Movable.setPosition pos (f e) = f (Movable.setPosition pos e))
    (setDirection : ∀ dir (e : E),
      Movable.setDirection dir (f e) = f (Movable.setDirection dir e))
    (jump : ∀ height (e : E), Movable.jump height (f e) = f (Movable.jump height e))
    (rotate : ∀ angle (e : E), Movable.rotate angle (f e) = f (Movable.rotate angle e))
    (dt : K) (s : IStrategy K) (e : E) :
    s.move dt (f e) = ((s.move dt e).1, f (s.move dt e).2) := by
  induction s with
  | beeline position destination =>
      simp only [move]
      split
      · rfl
      · simp only [getSpeed, setPosition, setDirection]
  | path points index =>
      simp only [move]
      split
      · rfl
      · simp only [getPosition, getSpeed, setPosition, setDirection]
  | jump strategy time ih =>
      simp only [move]
      split
      · rw [jump]
      · rw [ih]
  | spin strategy time ih =>
      simp only [move]
      split
      · rw [rotate]
      · rw [ih]

/-- Time that passes in these steps does not stop before the end of a celebration. -/
def TimePasses (dt : K) : Prop :=
  ∀ time : K, ∃ n, Scalar.less ((· + dt)^[n] time) (Scalar.ofInt 4) = false

/-- A celebration ends after what is inside it. By induction on the calls that this takes, and then
on the steps that are left of the time. -/
theorem Ends.celebration {dt : K} (hpasses : TimePasses dt) (layer : IStrategy K → K → IStrategy K)
    (turn : E → E) (hdone : ∀ s time,
      (layer s time).isCompleted = !Scalar.less time (Scalar.ofInt 4))
    (hmove : ∀ s time (e : E), (layer s time).move dt e =
      if s.isCompleted && !(layer s time).isCompleted then (layer s (time + dt), turn e)
      else (layer (s.move dt e).1 time, (s.move dt e).2))
    {s : IStrategy K} {e : E} (h : s.Ends dt e) (time : K) : (layer s time).Ends dt e := by
  have hcelebrates (s : IStrategy K) (hs : s.isCompleted = true) (time : K) (e : E) :
      (layer s time).Ends dt e := by
    obtain ⟨n, hn⟩ := hpasses time
    induction n generalizing time e with
    | zero => exact .now (by rw [hdone]; exact congrArg (! ·) hn)
    | succ n ih =>
        by_cases hlayer : (layer s time).isCompleted = true
        · exact .now hlayer
        · refine .later ?_
          rw [moveOn, hmove, if_pos (by simp [hs, hlayer])]
          exact ih (time + dt) (turn e) hn
  obtain ⟨n, hn⟩ := h
  induction n generalizing s e with
  | zero => exact hcelebrates s hn time e
  | succ n ih =>
      by_cases hs : s.isCompleted = true
      · exact hcelebrates s hs time e
      · refine .later ?_
        rw [moveOn, hmove, if_neg (by simp [hs])]
        exact ih hn

theorem Ends.jump {dt : K} (hpasses : TimePasses dt) {s : IStrategy K} {e : E}
    (h : s.Ends dt e) (time : K) : (IStrategy.jump s time).Ends dt e :=
  h.celebration hpasses .jump (Movable.jump (dt * Scalar.ofInt 10)) (fun _ _ => rfl)
    (fun _ _ _ => by rw [move]) time

theorem Ends.spin {dt : K} (hpasses : TimePasses dt) {s : IStrategy K} {e : E}
    (h : s.Ends dt e) (time : K) : (IStrategy.spin s time).Ends dt e :=
  h.celebration hpasses .spin (Movable.rotate (dt * Scalar.ofInt 10)) (fun _ _ => rfl)
    (fun _ _ _ => by rw [move]) time

end Moves

end IStrategy

namespace Drone

/-- The drone with other strategies. -/
def withLegs (toRobot toFinalDestination : Option (IStrategy K)) (d : Drone K) : Drone K :=
  { d with toRobot, toFinalDestination }

variable [Scalar K]

theorem move_withLegs (a b : Option (IStrategy K)) (dt : K) (s : IStrategy K) (d : Drone K) :
    s.move dt (d.withLegs a b) = ((s.move dt d).1, (s.move dt d).2.withLegs a b) := by
  apply IStrategy.move_commutes
  · exact fun _ => rfl
  · exact fun _ => rfl
  · exact fun _ _ => rfl
  · exact fun _ _ => rfl
  · intro height d
    change (d.withLegs a b).jump height = (d.jump height).withLegs a b
    cases hgoUp : d.goUp <;> simp [jump, withLegs, hgoUp]
  · exact fun _ _ => rfl

theorem moves_withLegs (a b : Option (IStrategy K)) (dt : K) (s : IStrategy K) (d : Drone K)
    (n : Nat) : (IStrategy.moveOn dt)^[n] (s, d.withLegs a b) =
      (((IStrategy.moveOn dt)^[n] (s, d)).1,
        ((IStrategy.moveOn dt)^[n] (s, d)).2.withLegs a b) := by
  induction n with
  | zero => rfl
  | succ n ih =>
      rw [Function.iterate_succ_apply', ih, IStrategy.moveOn, move_withLegs,
        Function.iterate_succ_apply']
      rfl

/-! ### Legs of a trip -/

theorem flown_fly (dt : K) (d : Drone K) : Object.Flown (.drone d) (.drone (d.fly dt)) := by
  have hR := Object.flown_movement (K := K)
  rw [fly]
  split
  · next strategy hrobot =>
      rw [fetch]
      split
      · exact hR.atRobot d strategy dt hrobot
      · exact hR.toRobot d strategy _ dt hrobot
  · next strategy hrobot hfinal =>
      have hflown := hR.toDestination d strategy (strategy.move dt d).1 dt hrobot hfinal
      simp only [deliver]
      split
      · refine hR.trans _ _ _ hflown (hR.finish _ ?_ (Option.some_ne_none _))
        exact (move_frame Drone.toRobot (fun _ => rfl) dt strategy d).trans hrobot
      · exact hflown
  · exact hR.refl _

/-- The strategies a drone has have been moved as their layers ask for. -/
def Equipped (d : Drone K) : Prop :=
  ∀ strategy, d.toRobot = some strategy ∨ d.toFinalDestination = some strategy → strategy.Phased

theorem Equipped.fly (hlast : IStrategy.CelebrationsLast K) {d : Drone K} (h : d.Equipped)
    (dt : K) : (d.fly dt).Equipped := by
  rw [Drone.fly]
  split
  · next strategy hrobot =>
      have hfinal := move_frame Drone.toFinalDestination (fun _ => rfl) dt strategy d
      rw [fetch]
      split
      · intro s hs
        obtain hs | hs := hs
        · cases hs
        · exact h s (.inr (hfinal.symm.trans hs))
      · intro s hs
        obtain hs | hs := hs
        · cases hs
          exact (h strategy (.inl hrobot)).move hlast dt d
        · exact h s (.inr (hfinal.symm.trans hs))
  · next strategy hnone hfinal =>
      have hrobot := (move_frame Drone.toRobot (fun _ => rfl) dt strategy d).trans hnone
      simp only [deliver]
      split
      · intro s hs
        obtain hs | hs := hs
        · cases hrobot.symm.trans hs
        · cases hs
      · intro s hs
        obtain hs | hs := hs
        · cases hrobot.symm.trans hs
        · cases hs
          exact (h strategy (.inr hfinal)).move hlast dt d
  · exact h

/-- The drone reaches its robot when the strategy ends. -/
theorem fetch_ends (hlast : IStrategy.CelebrationsLast K) {dt : K} {d : Drone K}
    {strategy : IStrategy K} (hphased : strategy.Phased) (hrobot : d.toRobot = some strategy)
    (h : strategy.Ends dt d) : Eventually (fly dt) (fun d => d.toRobot = none) d := by
  obtain ⟨n, hn⟩ := h
  induction n generalizing d strategy with
  | zero =>
      have hdone : strategy.isCompleted = true := hn
      refine .later (.now ?_)
      rw [fly, hrobot]
      simp only [fetch, IStrategy.move_of_completed hlast hphased hdone, hdone, if_true]
  | succ n ih =>
      rw [Function.iterate_succ_apply] at hn
      have hfly : d.fly dt = d.fetch dt strategy := by rw [fly, hrobot]
      refine .later ?_
      rw [hfly, fetch]
      split
      · exact .now rfl
      · refine ih (hphased.move hlast dt d) rfl ?_
        have hmoves := moves_withLegs (some (strategy.move dt d).1)
          (strategy.move dt d).2.toFinalDestination dt (strategy.move dt d).1
          (strategy.move dt d).2 n
        exact (congrArg (fun p => p.1.isCompleted) hmoves).trans hn

/-- The drone reaches the final destination when the strategy ends. -/
theorem deliver_ends (hlast : IStrategy.CelebrationsLast K) {dt : K} {d : Drone K}
    {strategy : IStrategy K} (hphased : strategy.Phased) (hrobot : d.toRobot = none)
    (hfinal : d.toFinalDestination = some strategy) (h : strategy.Ends dt d) :
    Eventually (fly dt) (fun d => d.toFinalDestination = none) d := by
  obtain ⟨n, hn⟩ := h
  induction n generalizing d strategy with
  | zero =>
      have hdone : strategy.isCompleted = true := hn
      refine .later (.now ?_)
      rw [fly, hrobot, hfinal]
      simp only [deliver, IStrategy.move_of_completed hlast hphased hdone, hdone, if_true]
      rfl
  | succ n ih =>
      rw [Function.iterate_succ_apply] at hn
      have hfly : d.fly dt = d.deliver dt strategy := by rw [fly, hrobot, hfinal]
      refine .later ?_
      rw [hfly, deliver]
      simp only
      split
      · exact .now rfl
      · refine ih (hphased.move hlast dt d) ?_ rfl ?_
        · exact (move_frame Drone.toRobot (fun _ => rfl) dt strategy d).trans hrobot
        · have hmoves := moves_withLegs (strategy.move dt d).2.toRobot
            (some (strategy.move dt d).1) dt (strategy.move dt d).1 (strategy.move dt d).2 n
          exact (congrArg (fun p => p.1.isCompleted) hmoves).trans hn

/-- The drone is idle or on a trip, with strategies that may be flown at its speed. -/
structure Sound (good : K → Prop) (d : Drone K) : Prop where
  consistent : d.Consistent
  equipped : d.Equipped
  speed : good d.speed

theorem Sound.fly (hlast : IStrategy.CelebrationsLast K) {good : K → Prop} (dt : K) :
    Kept (Drone.fly dt) (Sound good) := by
  intro d h
  refine ⟨(flown_fly dt d).consistent h.consistent, h.equipped.fly hlast dt, ?_⟩
  rw [speed_fly]
  exact h.speed

/-- Whatever trip it is on, the drone is idle in the end. -/
theorem Sound.lands (hlast : IStrategy.CelebrationsLast K) {good : K → Prop} {dt : K}
    (hends : ∀ (strategy : IStrategy K) (d : Drone K), strategy.Phased → good d.speed →
      strategy.Ends dt d) {d : Drone K} (h : d.Sound good) : Eventually (Drone.fly dt) Idle d := by
  have hkept : Kept (Drone.fly dt) (Sound good) := Sound.fly hlast dt
  have hfetched : Eventually (Drone.fly dt) (fun d => d.toRobot = none) d := by
    cases hrobot : d.toRobot with
    | none => exact .now hrobot
    | some strategy =>
        have hphased := h.equipped strategy (.inl hrobot)
        exact fetch_ends hlast hphased hrobot (hends strategy d hphased h.speed)
  refine (hfetched.keep hkept h).trans ?_
  intro d' hd'
  obtain ⟨hsound, hrobot⟩ := hd'
  have hdelivered : Eventually (Drone.fly dt) (fun d => d.toFinalDestination = none) d' := by
    cases hfinal : d'.toFinalDestination with
    | none => exact .now hfinal
    | some strategy =>
        have hphased := hsound.equipped strategy (.inr hfinal)
        exact deliver_ends hlast hphased hrobot hfinal (hends strategy d' hphased hsound.speed)
  refine (hdelivered.keep hkept hsound).mono ?_
  intro d'' hd''
  obtain ⟨hsound', hnone⟩ := hd''
  obtain hidle | hfetching | hdelivering := hsound'.consistent
  · exact hidle
  · exact absurd hnone hfetching.toFinalDestination
  · exact absurd hnone hdelivering.toFinalDestination

end Drone

/-! ### Trips in the simulation -/

section Sent

variable (world : World K) (strategyName : String) (start finish : Vector3 K)

theorem Drone.speed_setToRobot (d : Drone K) :
    (d.setToRobot world strategyName start finish).speed = d.speed := by
  unfold Drone.setToRobot
  repeat' split
  all_goals rfl

variable [Scalar K]

theorem Drone.speed_setToDestination (d : Drone K) :
    (d.setToDestination world strategyName start finish).speed = d.speed := by
  unfold Drone.setToDestination
  repeat' split
  all_goals rfl

theorem Drone.Equipped.setToRobot {d : Drone K} (h : d.Equipped) :
    (d.setToRobot world strategyName start finish).Equipped := by
  have hset (s : IStrategy K) (hs : s.Phased) : { d with toRobot := some s }.Equipped := by
    intro s' hs'
    obtain hs' | hs' := hs'
    · cases hs'
      exact hs
    · exact h s' (.inr hs')
  unfold Drone.setToRobot
  repeat' split
  all_goals first | exact hset _ trivial | exact h

theorem Drone.Equipped.setToDestination {d : Drone K} (h : d.Equipped) :
    (d.setToDestination world strategyName start finish).Equipped := by
  have hset (s : IStrategy K) (hs : s.Built) :
      { d with toFinalDestination := some s }.Equipped := by
    intro s' hs'
    obtain hs' | hs' := hs'
    · exact h s' (.inl hs')
    · cases hs'
      exact hs.phased
  unfold Drone.setToDestination
  repeat' split
  · exact hset _ (.beeline _ _)
  · exact hset _ (.jump (.path _))
  · exact hset _ (.spin (.jump (.path _)))
  · exact hset _ (.jump (.spin (.path _)))
  · exact h

end Sent

namespace SimulationModel

variable [Scalar K] (world : World K) {s s' : SimulationModel K} {id : Nat} {d : Drone K}

/-- The drone that a handler sends out. -/
theorem equipped_assign (c : HandlerClass) {e rider : TypeDecorator} {robot : Robot K}
    (he : s.objects e.getId = some (.drone d)) (hr : s.objects rider.getId = some (.robot robot))
    (hne : rider.getId ≠ e.getId) :
    ∃ d', (s.assign world c e rider).objects e.getId = some (.drone d') ∧ d'.speed = d.speed ∧
      (d.Equipped → d'.Equipped) := by
  obtain ⟨⟨des, hclaimed⟩, _⟩ := claim_spec world he hr hne
  refine ⟨_, Paired.modify_self _ _ (Paired.modify_self _ _ hclaimed), ?_, ?_⟩
  · rw [Drone.speed_setToDestination, Drone.speed_setToRobot]
    rfl
  · intro h
    have hclaim : (claimed d rider des).Equipped := h
    exact (hclaim.setToRobot world _ _ _).setToDestination world _ _ _

/-- A trip changes a robot and no drone. -/
theorem drone_scheduleTrip (h : Paired s) {m : TripMessage K}
    (hc : s.scheduleTrip world m = some s') (hd : s.objects id = some (.drone d)) :
    s'.objects id = some (.drone d) := by
  obtain rfl | ⟨e, travelType, s₁, hfound, _, hs₁, objects, _⟩ :=
    WellFormed.scheduleTrip_spec world hc
  · exact hd
  · obtain ⟨_, htype, _⟩ := WellFormed.findRobot_spec hfound
    obtain ⟨r, hr⟩ := Paired.robot_of_type h.wellFormed htype
    have hne : id ≠ e.getId := by
      intro heq
      rw [← heq, hd] at hr
      cases hr
    have hdestination : s.setDestination world e.getId m.finish =
        s.modify e.getId fun _ => .robot { r with destination := m.finish } := by
      simp [SimulationModel.setDestination, hr]
    rw [objects, hs₁, hdestination, Paired.modify_of_ne _ _ hne, Paired.modify_of_ne _ _ hne, hd]

/-- No stage loses a drone, changes its speed or gives it a strategy it could not have. -/
theorem drone_stage (hlast : IStrategy.CelebrationsLast K) (hs : Stage world s s') (h : Paired s)
    (hd : s.objects id = some (.drone d)) :
    ∃ d', s'.objects id = some (.drone d') ∧ d'.speed = d.speed ∧ (d.Equipped → d'.Equipped) := by
  cases hs with
  | created m _ hc =>
      obtain ⟨o, _, _, _, objects, _⟩ := WellFormed.createEntity_spec world hc
      have hne : id ≠ s.currentId := by
        rintro rfl
        have hfresh := h.wellFormed.fresh s.currentId le_rfl
        simp [profile, hd] at hfresh
      exact ⟨d, by rw [objects, Function.update_of_ne hne, hd], rfl, fun h => h⟩
  | scheduled m _ hc => exact ⟨d, drone_scheduleTrip world h hc hd, rfl, fun h => h⟩
  | updated e dt =>
      refine ⟨_, drone_updateEntity world h hd e dt, ?_, ?_⟩
      · split
        · exact Drone.speed_fly dt d
        · rfl
      · intro hequipped
        split
        · exact hequipped.fly hlast dt
        · exact hequipped
  | assigned c e rider _ _ handled _ found =>
      by_cases hne : e.getId = id
      · subst hne
        obtain ⟨d', robot, hd', hrobot, _, hother, _, _⟩ :=
          Paired.found_spec h.wellFormed handled found
        exact equipped_assign world c hd hrobot hother
      · exact ⟨d, drone_assign_of_ne world h hd hne handled found, rfl, fun h => h⟩
  | shown _ objects _ _ _ _ => exact ⟨d, by rw [objects, hd], rfl, fun h => h⟩

omit [Scalar K] in
theorem drone_of_profile (hp : s'.profile id = s.profile id)
    (hd : s'.objects id = some (.drone d)) : ∃ d', s.objects id = some (.drone d') := by
  have hprofile : s.profile id = some ("drone", d.details) := by
    rw [← hp, profile, hd]
    rfl
  obtain ⟨o, ho, hkind⟩ := Paired.objects_of_profile hprofile
  cases o with
  | drone d' => exact ⟨d', ho⟩
  | robot _ | human _ | helicopter _ | ufo _ => exact absurd hkind (by simp [Object.kind])

/-- A drone that was no drone before is new and has no strategy. -/
theorem drone_stage_new (hs : Stage world s s')
    (hd : s'.objects id = some (.drone d)) :
    (∃ d', s.objects id = some (.drone d')) ∨ d.Equipped := by
  cases hs with
  | created m _ hc =>
      by_cases hid : id = s.currentId
      · subst hid
        obtain ⟨o, s₁, hnew, ho⟩ := Tracked.createEntity_object world hc
        rw [hd] at ho
        cases ho
        right
        obtain ⟨_, _, ho⟩ | ⟨_, _, ho⟩ | ⟨_, _, ho⟩ | ⟨_, _, ho⟩ | ⟨_, _, ho⟩ :=
          WellFormed.newObject_cases world hnew
        · cases ho
          intro strategy hstrategy
          obtain hstrategy | hstrategy := hstrategy
          all_goals cases hstrategy
        all_goals cases ho
      · exact .inl (drone_of_profile (WellFormed.profile_createEntity world hc hid) hd)
  | scheduled m _ hc =>
      left
      obtain rfl | ⟨e, travelType, s₁, _, _, hs₁, objects, _⟩ :=
        WellFormed.scheduleTrip_spec world hc
      · exact ⟨d, hd⟩
      · rw [objects, hs₁] at hd
        exact drone_of_profile ((WellFormed.calm_request world s e m).steady.profile id) hd
  | updated e dt =>
      exact .inl (drone_of_profile ((Calm.updateEntity world s e dt).steady.profile id) hd)
  | assigned c e rider _ _ _ _ _ =>
      exact .inl (drone_of_profile ((Steady.assign world s c e rider).profile id) hd)
  | shown _ objects _ _ _ _ => exact .inl ⟨d, by rw [← objects, hd]⟩

theorem equipped_stage (hlast : IStrategy.CelebrationsLast K) (hs : Stage world s s') (h : Paired s)
    (hequipped : ∀ id d, s.objects id = some (.drone d) → d.Equipped) {d' : Drone K}
    (hd' : s'.objects id = some (.drone d')) : d'.Equipped := by
  obtain ⟨d, hd⟩ | hnew := drone_stage_new world hs hd'
  · obtain ⟨d'', hd'', _, hkept⟩ := drone_stage world hlast hs h hd
    rw [hd'] at hd''
    cases hd''
    exact hkept (hequipped id d hd)
  · exact hnew

theorem equipped_of_run (hlast : IStrategy.CelebrationsLast K)
    {ok : SimulationModel K → Command K → Prop}
    (h : Run (Transit.step world) ok (SimulationModel.init K) s)
    (hd : s.objects id = some (.drone d)) : d.Equipped := by
  have hinv : Paired s ∧ ∀ id d, s.objects id = some (.drone d) → d.Equipped := by
    refine h.invariant (I := fun s => Paired s ∧
      ∀ id d, s.objects id = some (.drone d) → d.Equipped) ?_ ⟨.init, fun _ _ hd => by cases hd⟩
    intro t c t' _ hc ht
    refine invariant_of_stages (I := fun s => Paired s ∧
      ∀ id d, s.objects id = some (.drone d) → d.Equipped) ?_ (stages_of_step hc) ht
    intro u u' hs hu
    exact ⟨hu.1.stage world hs, fun _ _ hd => equipped_stage world hlast hs hu.1 hu.2 hd⟩
  exact hinv.2 id d hd

/-- Updates change no drone's speed. -/
theorem speed_update (hlast : IStrategy.CelebrationsLast K) (h : Paired s) (dt : K)
    (hd : (s.update world dt).objects id = some (.drone d)) :
    ∃ d', s.objects id = some (.drone d') ∧ d'.speed = d.speed := by
  have hsteady := Steady.foldl_updateOne world dt s.entities s
  obtain ⟨d', hd'⟩ := drone_of_profile (hsteady.profile id) hd
  refine ⟨d', hd', ?_⟩
  have hkept : Paired (s.update world dt) ∧
      ∃ d'', (s.update world dt).objects id = some (.drone d'') ∧ d''.speed = d'.speed := by
    refine invariant_of_stages (I := fun t => Paired t ∧
      ∃ d'', t.objects id = some (.drone d'') ∧ d''.speed = d'.speed) ?_
      (stages_foldl world dt s.entities s fun _ he => he) ⟨h, d', hd', rfl⟩
    intro t t' hs ht
    obtain ⟨hpaired, d'', hd'', hspeed⟩ := ht
    obtain ⟨d₃, hd₃, hspeed', _⟩ := drone_stage world hlast hs hpaired hd''
    exact ⟨hpaired.stage world hs, d₃, hd₃, hspeed'.trans hspeed⟩
  obtain ⟨_, d'', hd'', hspeed⟩ := hkept
  rw [hd] at hd''
  cases hd''
  exact hspeed.symm

end SimulationModel

end UmnProjects.Transit
