import UmnProjects.Transit.Fleet
import UmnProjects.Transit.RobotPositions

/-!
Where the trips end. A robot that a drone has brought away stands where the search of its trip
leads: near the last point of a route to its destination, or near the destination itself.
-/
namespace UmnProjects.Transit

open Runs

variable {K : Type} [Scalar K]

/-- Nearer than 4 at some height; celebrations change the height. -/
def Vector3.Above (goal pos : Vector3 K) : Prop :=
  ∃ y, Scalar.less (Vector3.distance { pos with y } goal) (Scalar.ofInt 4) = true

theorem Vector3.Above.level {goal pos : Vector3 K} (h : goal.Above pos) (y : K) :
    goal.Above { pos with y } :=
  h

/-! ### Where strategies lead -/

namespace IStrategy

/-- Wherever the movement inside the celebrations stops is a goal. -/
def Heads (goal : Vector3 K → Prop) : IStrategy K → Prop
  | .beeline _ destination => ∀ pos, destination.Above pos → goal pos
  | .path points _ => ∀ last, points.getLast? = some last → ∀ pos, last.Above pos → goal pos
  | .jump strategy _ | .spin strategy _ => strategy.Heads goal

/-- The movement inside the celebrations has ended. -/
def Stopped : IStrategy K → Prop
  | .jump strategy _ | .spin strategy _ => strategy.Stopped
  | strategy => strategy.isCompleted = true

/-- The strategy heads for a goal, and has reached one if it has stopped. -/
structure LeadsTo (goal : Vector3 K → Prop) (s : IStrategy K) (pos : Vector3 K) : Prop where
  heads : s.Heads goal
  stopped : s.Stopped → goal pos

theorem Phased.stopped (hlast : CelebrationsLast K) {s : IStrategy K} (h : s.Phased)
    (hdone : s.isCompleted = true) : s.Stopped := by
  induction s with
  | beeline _ _ | path _ _ => exact hdone
  | jump strategy time ih | spin strategy time ih =>
      exact ih h.1 (Phased.wrapped_completed hlast h.2 hdone)

variable {goal : Vector3 K → Prop}

theorem LeadsTo.move (level : ∀ pos y, goal pos → goal { pos with y }) (dt : K) {s : IStrategy K}
    {d : Drone K} (h : s.LeadsTo goal d.position) :
    (s.move dt d).1.LeadsTo goal (s.move dt d).2.position := by
  induction s with
  | beeline position destination =>
      rw [IStrategy.move]
      split
      · exact h
      · exact ⟨h.heads, fun hdone => h.heads _ ⟨_, hdone⟩⟩
  | path points index =>
      rw [IStrategy.move]
      split
      · exact h
      · next vi hvi =>
          refine ⟨h.heads, ?_⟩
          have hindex := (List.getElem?_eq_some_iff.mp hvi).1
          intro hdone
          simp only [Stopped, isCompleted, decide_eq_true_eq] at hdone
          split at hdone
          · next hnear =>
              have hlast : points.getLast? = some vi := by
                rw [List.getLast?_eq_getElem?, ← hvi]
                congr 1
                omega
              exact h.heads vi hlast _ ⟨_, hnear⟩
          · omega
  | jump strategy time ih =>
      rw [IStrategy.move]
      split
      · refine ⟨h.heads, fun hdone => ?_⟩
        have hhere := h.stopped hdone
        change goal (d.jump _).position
        cases hup : d.goUp
        all_goals
          simp only [Drone.jump, hup]
          exact level _ _ hhere
      · have hinner := ih ⟨h.heads, h.stopped⟩
        exact ⟨hinner.heads, hinner.stopped⟩
  | spin strategy time ih =>
      rw [IStrategy.move]
      split
      · exact ⟨h.heads, h.stopped⟩
      · have hinner := ih ⟨h.heads, h.stopped⟩
        exact ⟨hinner.heads, hinner.stopped⟩

end IStrategy

/-! ### Where a trip may end -/

namespace World

variable (world : World K)

/-- At the end of a route to the point. -/
def Reached (point pos : Vector3 K) : Prop :=
  ∃ strategy start last, (world.getPath strategy start point).getLast? = some last ∧
    last.Above pos

/-- Where a trip with this search may end. A beeline that begins near its destination is over
before the drone has moved, which then is where its way to the robot ended. -/
def Near (search : String) (start finish pos : Vector3 K) : Prop :=
  search = "beeline" ∧ finish.Above pos ∨
    ∃ point, (point = finish ∨ search = "beeline" ∧ point = start ∧
        Scalar.less (start.distance finish) (Scalar.ofInt 4) = true) ∧
      world.Reached point pos

variable {world}

theorem Reached.level {point pos : Vector3 K} (h : world.Reached point pos) (y : K) :
    world.Reached point { pos with y } :=
  h

theorem Near.level {search : String} {start finish pos : Vector3 K}
    (h : world.Near search start finish pos) (y : K) :
    world.Near search start finish { pos with y } :=
  h

end World

/-! ### The course of a drone -/

namespace Drone

variable {world : World K} {search : String} {start des : Vector3 K} {d : Drone K}

/-- The way to the robot leads to where it stands, from where the way to the final destination
leads to the end of the trip. -/
def OnCourse (world : World K) (search : String) (start des : Vector3 K) (d : Drone K) : Prop :=
  match d.toRobot, d.toFinalDestination with
  | some toRobot, some strategy =>
      toRobot.LeadsTo (world.Reached start) d.position ∧
        ∀ pos, world.Reached start pos → strategy.LeadsTo (world.Near search start des) pos
  | none, some strategy =>
      d.pickedUp = true ∧ strategy.LeadsTo (world.Near search start des) d.position
  | _, none => True

theorem OnCourse.fly (hlast : IStrategy.CelebrationsLast K) (hequipped : d.Equipped)
    (h : d.OnCourse world search start des) (dt : K) :
    (d.fly dt).OnCourse world search start des := by
  have kept {β : Type} (f : Drone K → β) (hf : ∀ d, f d.atRest = f d) (s : IStrategy K) :
      f (s.move dt d).2 = f d := move_frame f hf dt s d
  unfold OnCourse at h
  unfold Drone.fly
  split at h
  · next toRobot strategy hrobot hfinal =>
      obtain ⟨hthere, hthen⟩ := h
      have hmoved := hthere.move (fun _ y hpos => hpos.level y) dt
      have hstrategy := (kept Drone.toFinalDestination (fun _ => rfl) toRobot).trans hfinal
      simp only [hrobot, fetch]
      split
      · next hdone =>
          have hphased := (hequipped toRobot (.inl hrobot)).move hlast dt d
          have hreached := hmoved.stopped (hphased.stopped hlast hdone)
          simp only [OnCourse, hstrategy]
          exact ⟨trivial, hthen _ hreached⟩
      · simp only [OnCourse, hstrategy]
        exact ⟨hmoved, hthen⟩
  · next strategy hrobot hfinal =>
      obtain ⟨hpicked, hthere⟩ := h
      have hnone := (kept Drone.toRobot (fun _ => rfl) strategy).trans hrobot
      simp only [hrobot, hfinal, deliver]
      split
      · simp only [OnCourse, Drone.finish, hnone]
      · simp only [OnCourse, hnone]
        exact ⟨(kept Drone.pickedUp (fun _ => rfl) strategy).trans hpicked,
          hthere.move (fun _ y hpos => hpos.level y) dt⟩
  · next _ _ hnone =>
      cases hrobot : d.toRobot with
      | some toRobot =>
          have hstrategy := (kept Drone.toFinalDestination (fun _ => rfl) toRobot).trans hnone
          simp only [fetch]
          split
          all_goals simp only [OnCourse, hstrategy]
      | none => simp only [OnCourse, hnone, hrobot]

/-- A drone that lets go of its rider is where the trip ends. -/
theorem OnCourse.lands (hlast : IStrategy.CelebrationsLast K) (hequipped : d.Equipped)
    (h : d.OnCourse world search start des) {dt : K} {r : TypeDecorator}
    (hrider : d.nearestEntity = some r) (hfree : (d.fly dt).nearestEntity = none) :
    d.toRobot = none ∧ d.toFinalDestination ≠ none ∧ d.pickedUp = true ∧
      world.Near search start des (d.fly dt).position := by
  have kept (s : IStrategy K) : (s.move dt d).2.nearestEntity = some r :=
    (move_frame Drone.nearestEntity (fun _ => rfl) dt s d).trans hrider
  unfold Drone.fly at hfree ⊢
  split at hfree
  · next toRobot hrobot =>
      unfold fetch at hfree
      split at hfree
      all_goals cases (kept toRobot).symm.trans hfree
  · next strategy hrobot hfinal =>
      simp only [OnCourse, hrobot, hfinal] at h
      obtain ⟨hpicked, hthere⟩ := h
      refine ⟨hrobot, by simp [hfinal], hpicked, ?_⟩
      have hmoved := hthere.move (fun _ y hpos => hpos.level y) dt
      simp only [deliver] at hfree ⊢
      split at hfree
      · next hdone =>
          rw [if_pos hdone]
          have hphased := (hequipped strategy (.inr hfinal)).move hlast dt d
          exact hmoved.stopped (hphased.stopped hlast hdone)
      · cases (kept strategy).symm.trans hfree
  · cases hrider.symm.trans hfree

/-- The two ways of a drone that a handler sends out. -/
theorem onCourse_sent (hroutes : ∀ strategy start point, world.getPath strategy start point ≠ [])
    {name : String} (hname : name = "astar" ∨ name = "dfs" ∨ name = "dijkstra")
    (pos : Vector3 K) (hfree : d.toFinalDestination = none) :
    ((d.setToRobot world name pos start).setToDestination world search start des).OnCourse world
      search start des := by
  have hfirst : ∃ strategy, d.setToRobot world name pos start =
      { d with toRobot := some (.path (world.getPath strategy pos start) 0) } := by
    obtain rfl | rfl | rfl := hname
    all_goals exact ⟨_, rfl⟩
  obtain ⟨strategy, hfirst⟩ := hfirst
  rw [hfirst]
  have hnotYet (strategy : RoutingStrategy) (start point : Vector3 K) :
      ¬ (IStrategy.path (world.getPath strategy start point) 0).Stopped := by
    intro hdone
    simp only [IStrategy.Stopped, IStrategy.isCompleted, decide_eq_true_eq, Nat.le_zero,
      List.length_eq_zero_iff] at hdone
    exact hroutes strategy start point hdone
  have hthere : (IStrategy.path (world.getPath strategy pos start) 0).LeadsTo
      (world.Reached start) d.position := by
    refine ⟨fun last hlast pos' hpos => ⟨strategy, pos, last, hlast, hpos⟩, fun hdone => ?_⟩
    exact absurd hdone (hnotYet _ _ _)
  have hroute (strategy : RoutingStrategy) (pos : Vector3 K) :
      (IStrategy.path (world.getPath strategy start des) 0).LeadsTo
        (world.Near search start des) pos := by
    refine ⟨fun last hlast pos hpos => .inr ⟨des, .inl rfl, ?_⟩, fun hdone => ?_⟩
    · exact ⟨strategy, start, last, hlast, hpos⟩
    · exact absurd hdone (hnotYet _ _ _)
  unfold setToDestination
  simp only
  split
  · next hsearch =>
      refine ⟨hthere, fun pos hreached => ⟨fun pos hpos => .inl ⟨hsearch, hpos⟩, fun hdone => ?_⟩⟩
      exact .inr ⟨start, .inr ⟨hsearch, rfl, hdone⟩, hreached⟩
  split
  · exact ⟨hthere, fun pos _ => ⟨(hroute .astar pos).heads, (hroute .astar pos).stopped⟩⟩
  split
  · exact ⟨hthere, fun pos _ => ⟨(hroute .dfs pos).heads, (hroute .dfs pos).stopped⟩⟩
  split
  · exact ⟨hthere, fun pos _ => ⟨(hroute .dijkstra pos).heads, (hroute .dijkstra pos).stopped⟩⟩
  · simp only [OnCourse, hfree]

end Drone

/-! ### Runs -/

namespace SimulationModel

/-- Where the object was made. -/
def madeAt (s : SimulationModel K) (id : Nat) : Option (Vector3 K) :=
  (s.profile id).map fun p => p.2.position

/-- A robot waits where it was made, each drone is on course for what its rider asks for, and each
robot that was brought away is where its trip may end. -/
structure Deliveries (world : World K) (s : SimulationModel K) : Prop where
  paired : Paired s
  tracked : Tracked s
  equipped : ∀ id d, s.objects id = some (.drone d) → d.Equipped
  waits : ∀ id pos, s.robotFree id = some true → s.robotAt id = some pos → s.madeAt id = some pos
  onCourse : ∀ id d r start des search, s.objects id = some (.drone d) →
    d.nearestEntity = some r → s.madeAt r.getId = some start →
    s.order r.getId = some (des, search) → d.OnCourse world search start des
  delivered : ∀ id start des search pos, s.robotFree id = some false →
    (∀ a r, s.riderOf a = some r → r.getId ≠ id) → s.madeAt id = some start →
    s.order id = some (des, search) → s.robotAt id = some pos → world.Near search start des pos

omit [Scalar K] in
theorem Steady.madeAt {s s' : SimulationModel K} (h : Steady s s') (id : Nat) :
    s'.madeAt id = s.madeAt id := by
  rw [SimulationModel.madeAt, h.profile]
  rfl

/-- A robot is made where it is told to be. -/
theorem madeAt_createEntity {world : World K} {s s' : SimulationModel K} {m : EntityMessage K}
    (hc : s.createEntity world m = some s') {pos : Vector3 K}
    (hpos : s'.robotAt s.currentId = some pos) : s'.madeAt s.currentId = some pos := by
  unfold createEntity at hc
  split at hc
  · cases hc
  · next o s₁ hnew =>
      have hid := (WellFormed.newObject_spec world hnew).1.currentId
      cases hc
      have hobject : (Function.update s₁.objects s₁.currentId (some o)) s.currentId = some o := by
        rw [hid, Function.update_self]
      have hat (t : SimulationModel K) (ht : t.objects s.currentId = some o)
          (hpos : t.robotAt s.currentId = some pos) : t.madeAt s.currentId = some pos := by
        rw [robotAt, ht] at hpos
        rw [madeAt, profile, ht]
        obtain ⟨_, _, rfl⟩ | ⟨_, _, rfl⟩ | ⟨_, _, rfl⟩ | ⟨_, _, rfl⟩ | ⟨_, _, rfl⟩ :=
          WellFormed.newObject_cases world hnew
        all_goals cases hpos
        rfl
      exact hat _ hobject hpos

omit [Scalar K] in
theorem drone_of_riderOf {s : SimulationModel K} {a : Nat} {r : TypeDecorator}
    (h : s.riderOf a = some r) : ∃ d, s.objects a = some (.drone d) ∧ d.nearestEntity = some r := by
  obtain ⟨o, ho, hr⟩ := Option.bind_eq_some_iff.mp h
  cases o with
  | drone d => exact ⟨d, ho, hr⟩
  | robot _ | human _ | helicopter _ | ufo _ => cases hr

namespace Deliveries

variable {world : World K} {s s' : SimulationModel K}

theorem init : Deliveries world (SimulationModel.init K) where
  paired := .init
  tracked := .init
  equipped := by
    intro id d hd
    cases hd
  waits := by
    intro id pos hfree
    cases hfree
  onCourse := by
    intro id d r start des search hd
    cases hd
  delivered := by
    intro id start des search pos hfree
    cases hfree

/-- A drone that has let go of its rider has left it where the trip may end. -/
theorem near_of_landed (hlast : IStrategy.CelebrationsLast K) (h : Deliveries world s)
    {e : TypeDecorator} {dt : K} {a : Nat} {r : TypeDecorator} (hr : s.riderOf a = some r)
    (hgone : (s.updateEntity world e dt).riderOf a ≠ some r) {start des pos : Vector3 K}
    {search : String} (hstart : s.madeAt r.getId = some start)
    (horder : s.order r.getId = some (des, search))
    (hpos : (s.updateEntity world e dt).robotAt r.getId = some pos) :
    world.Near search start des pos := by
  obtain ⟨robot, hrobot⟩ := Paired.robot_of_scheduler h.paired.wellFormed (h.paired.listed a r hr)
  obtain ⟨d, hd, hrider⟩ := drone_of_riderOf hr
  have hflown := drone_updateEntity world h.paired hd e dt
  by_cases hea : e.getId = a
  · subst hea
    rw [if_pos rfl] at hflown
    have hfree : (d.fly dt).nearestEntity = none := by
      rw [← riderOf_of_drone hflown]
      obtain hsame | hnone := Paired.riderOf_calm (Calm.updateEntity world s e dt) e.getId
      · exact absurd (hsame.trans hr) hgone
      · exact hnone
    obtain ⟨hfetched, hway, hpicked, hnear⟩ :=
      (h.onCourse _ d r start des search hd hrider hstart horder).lands hlast (h.equipped _ d hd)
        hrider hfree
    have hcarries : s.Carries e.getId r d := ⟨hd, hfetched, hway, hrider, hpicked⟩
    obtain ⟨d', r', hd', hr', hposition, _⟩ := hcarries.together world hrobot dt
    rw [hflown] at hd'
    cases hd'
    rw [robotAt_of_robot hr', hposition] at hpos
    cases hpos
    exact hnear
  · rw [if_neg hea] at hflown
    exact absurd (by rw [riderOf_of_drone hflown, hrider]) hgone

theorem updated (hlast : IStrategy.CelebrationsLast K) (h : Deliveries world s)
    (e : TypeDecorator) (dt : K) : Deliveries world (s.updateEntity world e dt) := by
  have hs : Stage world s (s.updateEntity world e dt) := .updated e dt
  have calm := Calm.updateEntity world s e dt
  have order := (Each.updateEntity world Object.sameOrder_movement s e dt).order
  have before {id : Nat} {d : Drone K} (hd : (s.updateEntity world e dt).objects id =
      some (.drone d)) : ∃ d', s.objects id = some (.drone d') ∧
      d = if e.getId = id then d'.fly dt else d' := by
    obtain ⟨d', hd'⟩ := drone_of_profile (calm.steady.profile id) hd
    rw [drone_updateEntity world h.paired hd'] at hd
    cases hd
    exact ⟨d', hd', rfl⟩
  refine ⟨h.paired.stage world hs, h.tracked.stage world hs h.paired.wellFormed,
    fun _ _ hd => equipped_stage world hlast hs h.paired h.equipped hd, ?_, ?_, ?_⟩
  · intro id pos hfree hpos
    rw [Paired.robotFree_calm calm] at hfree
    have hwaits : ∀ rider d, s.Carries e.getId rider d → rider.getId ≠ id := by
      rintro rider d hc rfl
      cases (h.paired.taken _ rider (hc.robot h.paired).1).symm.trans hfree
    rw [robotAt_updateEntity world hwaits dt] at hpos
    rw [calm.steady.madeAt]
    exact h.waits id pos hfree hpos
  · intro id d r start des search hd hr hstart horder
    obtain ⟨d', hd', heq⟩ := before hd
    rw [order] at horder
    rw [calm.steady.madeAt] at hstart
    have hrider : s.riderOf id = some r :=
      Paired.riderOf_of_calm calm (by rw [riderOf_of_drone hd, hr])
    rw [riderOf_of_drone hd'] at hrider
    have hcourse := h.onCourse id d' r start des search hd' hrider hstart horder
    rw [heq]
    split
    · exact hcourse.fly hlast (h.equipped id d' hd') dt
    · exact hcourse
  · intro id start des search pos hfree hnobody hstart horder hpos
    rw [order] at horder
    rw [calm.steady.madeAt] at hstart
    rw [Paired.robotFree_calm calm] at hfree
    by_cases hridden : ∃ a r, s.riderOf a = some r ∧ r.getId = id
    · obtain ⟨a, r, hr, rfl⟩ := hridden
      exact h.near_of_landed hlast hr (fun hr' => hnobody a r hr' rfl) hstart horder hpos
    · have hunridden (a : Nat) (r : TypeDecorator) (hr : s.riderOf a = some r) : r.getId ≠ id :=
        fun hid => hridden ⟨a, r, hr, hid⟩
      refine h.delivered id start des search pos hfree hunridden hstart horder (hpos ▸ ?_)
      -- Nothing moves a robot but the drone it rides in.
      exact (robotAt_updateEntity world
        (fun rider d hc => hunridden e.getId rider (hc.robot h.paired).1) dt).symm

theorem created (hlast : IStrategy.CelebrationsLast K) (h : Deliveries world s)
    {m : EntityMessage K} (hc : s.createEntity world m = some s') : Deliveries world s' := by
  have hs : Stage world s s' := .created m s' hc
  obtain ⟨o, _, hrider, hfree, objects, _⟩ := WellFormed.createEntity_spec world hc
  have hold {id : Nat} (hid : id ≠ s.currentId) : s'.objects id = s.objects id := by
    rw [objects, Function.update_of_ne hid]
  have made {id : Nat} (hid : id ≠ s.currentId) : s'.madeAt id = s.madeAt id := by
    rw [madeAt, profile, hold hid]
    rfl
  have hnew : s'.objects s.currentId = some o := by rw [objects, Function.update_self]
  have listed (a : Nat) (r : TypeDecorator) (hr : s.riderOf a = some r) :
      a ≠ s.currentId ∧ r.getId ≠ s.currentId := by
    have hfresh := h.paired.wellFormed.fresh s.currentId le_rfl
    refine ⟨?_, ?_⟩
    · rintro rfl
      rw [profile, Option.map_eq_none_iff] at hfresh
      rw [riderOf, hfresh] at hr
      cases hr
    · obtain ⟨details, hp⟩ := h.paired.wellFormed.rider r (h.paired.listed a r hr)
      intro hid
      rw [hid, hfresh] at hp
      cases hp
  refine ⟨h.paired.stage world hs, h.tracked.stage world hs h.paired.wellFormed,
    fun _ _ hd => equipped_stage world hlast hs h.paired h.equipped hd, ?_, ?_, ?_⟩
  · intro id pos hfree hpos
    by_cases hid : id = s.currentId
    · subst hid
      exact madeAt_createEntity hc hpos
    · rw [robotFree, hold hid] at hfree
      rw [robotAt, hold hid] at hpos
      rw [made hid]
      exact h.waits id pos hfree hpos
  · intro id d r start des search hd hr hstart horder
    by_cases hid : id = s.currentId
    · subst hid
      rw [hnew] at hd
      cases hd
      cases hrider.symm.trans hr
    · rw [hold hid] at hd
      have hne := (listed id r (by rw [riderOf_of_drone hd, hr])).2
      rw [order, hold hne] at horder
      exact h.onCourse id d r start des search hd hr (made hne ▸ hstart) horder
  · intro id start des search pos htaken hnobody hstart horder hpos
    have hid : id ≠ s.currentId := by
      rintro rfl
      rw [robotFree, hnew] at htaken
      obtain hfree | hfree := hfree
      all_goals cases hfree.symm.trans htaken
    rw [robotFree, hold hid] at htaken
    rw [order, hold hid] at horder
    rw [robotAt, hold hid] at hpos
    refine h.delivered id start des search pos htaken (fun a r hr => ?_) (made hid ▸ hstart)
      horder hpos
    exact hnobody a r (by rw [riderOf, hold (listed a r hr).1]; exact hr)

theorem calm_scheduleTrip {m : TripMessage K} (hc : s.scheduleTrip world m = some s') :
    ∃ t, Calm s t ∧ s'.objects = t.objects := by
  obtain rfl | ⟨e, _, s₁, _, _, hs₁, objects, _⟩ := WellFormed.scheduleTrip_spec world hc
  · exact ⟨s, .refl s, rfl⟩
  · exact ⟨s₁, hs₁ ▸ WellFormed.calm_request world s e m, objects⟩

/-- A trip is accepted for a robot that is free, so that none of those under way or brought away
asks for anything else afterwards. -/
theorem order_scheduleTrip (h : Paired s) {m : TripMessage K}
    (hc : s.scheduleTrip world m = some s') {id : Nat} (htaken : s.robotFree id = some false) :
    s'.order id = s.order id := by
  obtain rfl | ⟨e, _, s₁, hfound, _, hs₁, objects, _⟩ := WellFormed.scheduleTrip_spec world hc
  · rfl
  · obtain ⟨_, htype, hfree⟩ := WellFormed.findRobot_spec hfound
    obtain ⟨robot, hrobot⟩ := Paired.robot_of_type h.wellFormed htype
    have hne : id ≠ e.getId := by
      rintro rfl
      rw [robotFree, hrobot] at htaken
      rw [hrobot] at hfree
      cases htaken.symm.trans hfree
    have hsame := (Logged.order_request world h.wellFormed hfound).2 id hne
    rw [← hs₁] at hsame
    rw [order, objects]
    exact hsame

theorem scheduled (hlast : IStrategy.CelebrationsLast K) (h : Deliveries world s)
    {m : TripMessage K} (hc : s.scheduleTrip world m = some s') : Deliveries world s' := by
  have hs : Stage world s s' := .scheduled m s' hc
  obtain ⟨t, calm, objects⟩ := calm_scheduleTrip hc
  have made (id : Nat) : s'.madeAt id = s.madeAt id := by
    rw [← calm.steady.madeAt, madeAt, profile, objects]
    rfl
  have hsame {id : Nat} {d : Drone K} (hd : s'.objects id = some (.drone d)) :
      s.objects id = some (.drone d) := by
    obtain ⟨d', hd'⟩ := drone_of_profile (calm.steady.profile id) (objects ▸ hd)
    rw [drone_scheduleTrip world h.paired hc hd'] at hd
    cases hd
    exact hd'
  refine ⟨h.paired.stage world hs, h.tracked.stage world hs h.paired.wellFormed,
    fun _ _ hd => equipped_stage world hlast hs h.paired h.equipped hd, ?_, ?_, ?_⟩
  · intro id pos hfree hpos
    rw [robotFree, objects] at hfree
    change t.robotFree id = some true at hfree
    rw [Paired.robotFree_calm calm] at hfree
    rw [robotAt_scheduleTrip world hc] at hpos
    rw [made]
    exact h.waits id pos hfree hpos
  · intro id d r start des search hd hr hstart horder
    have hd' := hsame hd
    have htaken := h.paired.taken id r (by rw [riderOf_of_drone hd', hr])
    rw [order_scheduleTrip h.paired hc htaken] at horder
    exact h.onCourse id d r start des search hd' hr (made _ ▸ hstart) horder
  · intro id start des search pos htaken hnobody hstart horder hpos
    rw [robotFree, objects] at htaken
    change t.robotFree id = some false at htaken
    rw [Paired.robotFree_calm calm] at htaken
    rw [order_scheduleTrip h.paired hc htaken] at horder
    rw [robotAt_scheduleTrip world hc] at hpos
    refine h.delivered id start des search pos htaken (fun a r hr => ?_) (made id ▸ hstart)
      horder hpos
    obtain ⟨d, hd, hrider⟩ := drone_of_riderOf hr
    exact hnobody a r (by rw [riderOf_of_drone (drone_scheduleTrip world h.paired hc hd), hrider])

/-- The drone that a handler sends out knows where its rider stands. -/
theorem objects_claim (world : World K) {e rider : TypeDecorator} {d : Drone K} {robot : Robot K}
    (he : s.objects e.getId = some (.drone d)) (hr : s.objects rider.getId = some (.robot robot))
    (hne : rider.getId ≠ e.getId) :
    (s.claim world e rider).objects e.getId =
      some (.drone (claimed d rider robot.position)) := by
  simp [claim, SimulationModel.setDestination, setAvailability, note, modify, getPosition, claimed,
    Object.setNearestEntity, Object.setAvailability, Object.setPickedUp, Object.getPosition, he, hr,
    hne, hne.symm]

theorem objects_assign (world : World K) {c : HandlerClass} (link : c ∈ chain)
    {e rider : TypeDecorator} {d : Drone K} {robot : Robot K}
    (he : s.objects e.getId = some (.drone d))
    (hr : s.objects rider.getId = some (.robot robot)) (hne : rider.getId ≠ e.getId) :
    (s.assign world c e rider).objects e.getId =
      some (.drone (((claimed d rider robot.position).setToRobot world c.toRobot d.position
        robot.position).setToDestination world robot.strategyName robot.position
          robot.destination)) := by
  have hdrone := objects_claim world he hr hne
  have hrobot := (claim_spec world he hr hne).2
  have hposition : (s.claim world e rider).getPosition e = d.position := by
    simp [getPosition, hdrone, claimed, Object.getPosition]
  have hstands : (s.claim world e rider).getPosition rider = robot.position := by
    simp [getPosition, hrobot, Object.getPosition]
  have hasks : (s.claim world e rider).getDestination rider = robot.destination := by
    simp [getDestination, hrobot, Object.getDestination]
  obtain ⟨strategy, hfetch⟩ := Drone.setToRobot_known world d.position robot.position
    (claimed d rider robot.position) (Logged.chain_known link)
  let t := (s.claim world e rider).modify e.getId
    (Object.onDrone (Drone.setToRobot world c.toRobot d.position robot.position))
  have hdrone' : t.objects e.getId = some (.drone ((claimed d rider robot.position).setToRobot world
      c.toRobot d.position robot.position)) := Paired.modify_self _ _ hdrone
  have hrobot' : t.objects rider.getId = some (.robot { robot with available := false }) :=
    (Paired.modify_of_ne _ _ hne).trans hrobot
  have hsearch : t.getStrategyName world rider = robot.strategyName := by
    simp [getStrategyName, hrobot', Object.getStrategyName]
  have hgoes : t.getDestination e = robot.position := by
    simp only [getDestination, hdrone', hfetch, Option.map_some, Object.getDestination,
      Option.getD_some]
    rfl
  have heq : s.assign world c e rider = (t.modify e.getId (Object.onDrone
      (Drone.setToDestination world robot.strategyName robot.position robot.destination))).note
        (.assigned e rider robot.strategyName robot.destination) := by
    simp only [SimulationModel.assign, hposition, hstands, hasks]
    rw [show _ = robot.strategyName from hsearch, show _ = robot.position from hgoes]
  rw [heq]
  exact Paired.modify_self t _ hdrone'

theorem chain_searches {c : HandlerClass} (link : c ∈ chain) :
    c.toRobot = "astar" ∨ c.toRobot = "dfs" ∨ c.toRobot = "dijkstra" := by
  simp only [chain, List.mem_cons, List.not_mem_nil, or_false] at link
  obtain rfl | rfl | rfl := link
  · exact .inl rfl
  · exact .inr (.inl rfl)
  · exact .inr (.inr rfl)

theorem assigned (hlast : IStrategy.CelebrationsLast K)
    (hroutes : ∀ strategy start point, world.getPath strategy start point ≠ [])
    (h : Deliveries world s) {c : HandlerClass} {e rider : TypeDecorator} (link : c ∈ chain)
    (member : e ∈ s.entities) (handled : s.handles c e = true)
    (available : (s.objects e.getId).bind Object.getAvailability = some true)
    (found : s.findRider c s.scheduler = some rider) :
    Deliveries world (s.assign world c e rider) := by
  have hs : Stage world s (s.assign world c e rider) :=
    .assigned c e rider link member handled available found
  obtain ⟨d, robot, hd, hrobot, _, hne, _, _⟩ :=
    Paired.found_spec h.paired.wellFormed handled found
  have pairs := h.paired.assign_pairs world member handled found
  have order := Logged.order_assigned (Paired.assign_spec world c hd hrobot hne) hd hrobot
  have hsent := objects_assign world link hd hrobot hne
  have hidle : d.Idle := by
    have hfree : d.available = true := by
      rw [hd] at available
      exact Option.some.inj available
    obtain hconsistent | hstranded := h.tracked.states _ _ hd
    · exact Drone.Consistent.idle hconsistent hfree
    · cases hfree.symm.trans (Drone.Stranded.available hstranded)
  refine ⟨h.paired.stage world hs, h.tracked.stage world hs h.paired.wellFormed,
    fun _ _ hd => equipped_stage world hlast hs h.paired h.equipped hd, ?_, ?_, ?_⟩
  · intro id pos hfree hpos
    have hother : id ≠ rider.getId := by
      rintro rfl
      cases (h.paired.stage world hs).taken _ _ pairs.riderSelf ▸ hfree
    rw [pairs.freeOther id hother] at hfree
    rw [robotAt_assign world h.paired.wellFormed handled found] at hpos
    rw [pairs.steady.madeAt]
    exact h.waits id pos hfree hpos
  · intro id d' r start des search hd' hr hstart horder
    rw [order] at horder
    rw [pairs.steady.madeAt] at hstart
    by_cases hid : id = e.getId
    · subst hid
      have hself := pairs.riderSelf
      rw [riderOf_of_drone hd', hr] at hself
      cases hself
      have hkeeps : s.order rider.getId = some (robot.destination, robot.strategyName) := by
        rw [SimulationModel.order, hrobot]
        rfl
      cases hkeeps.symm.trans horder
      cases hsent.symm.trans hd'
      have hwaits := h.waits rider.getId robot.position pairs.wasFree (robotAt_of_robot hrobot)
      cases hwaits.symm.trans hstart
      exact Drone.onCourse_sent (d := claimed d rider robot.position) hroutes (chain_searches link)
        d.position hidle.toFinalDestination
    · obtain ⟨d'', hd''⟩ := drone_of_profile (pairs.steady.profile id) hd'
      have hsame := drone_assign_of_ne world h.paired hd'' (Ne.symm hid) handled found
      cases hsame.symm.trans hd'
      exact h.onCourse id _ r start des search hd'' hr hstart horder
  · intro id start des search pos htaken hnobody hstart horder hpos
    rw [pairs.steady.madeAt] at hstart
    have hother : id ≠ rider.getId := (hnobody e.getId rider pairs.riderSelf).symm
    rw [pairs.freeOther id hother] at htaken
    rw [order] at horder
    rw [robotAt_assign world h.paired.wellFormed handled found] at hpos
    refine h.delivered id start des search pos htaken (fun a r hr => ?_) hstart horder hpos
    by_cases ha : a = e.getId
    · rw [ha, riderOf_of_drone hd, hidle.nearestEntity] at hr
      cases hr
    · exact hnobody a r ((pairs.riderOther a ha).trans hr)

theorem stage (hlast : IStrategy.CelebrationsLast K)
    (hroutes : ∀ strategy start point, world.getPath strategy start point ≠ [])
    (hs : Stage world s s') (h : Deliveries world s) : Deliveries world s' := by
  cases hs with
  | created m _ hc => exact h.created hlast hc
  | scheduled m _ hc => exact h.scheduled hlast hc
  | updated e dt => exact h.updated hlast e dt
  | assigned c e rider link member handled available found =>
      exact h.assigned hlast hroutes link member handled available found
  | shown _ objects entities scheduler currentId journal =>
      have hs : Stage world s s' := .shown s' objects entities scheduler currentId journal
      refine ⟨h.paired.stage world hs, h.tracked.stage world hs h.paired.wellFormed, ?_, ?_, ?_,
        ?_⟩
      · rw [objects]
        exact h.equipped
      · simp only [robotFree, robotAt, madeAt, profile, objects]
        exact h.waits
      · simp only [order, madeAt, profile, objects]
        exact h.onCourse
      · simp only [order, robotFree, riderOf, robotAt, madeAt, profile, objects]
        exact h.delivered

theorem of_run (hlast : IStrategy.CelebrationsLast K)
    (hroutes : ∀ strategy start point, world.getPath strategy start point ≠ [])
    {ok : SimulationModel K → Command K → Prop}
    (h : Run (Transit.step world) ok (SimulationModel.init K) s) : Deliveries world s :=
  h.invariant (fun _ _ _ _ hc hi =>
    invariant_of_stages (fun _ _ hs => stage hlast hroutes hs) (stages_of_step hc) hi) init

/-! ### At rest -/

omit [Scalar K] in
/-- In a fleet at rest nobody waits whom a drone could have fetched. -/
theorem robotFree_of_atRest (hrest : AtRest s) {e r : TypeDecorator} {d : Drone K}
    {robot : Robot K} (he : e ∈ s.entities) (hd : s.objects e.getId = some (.drone d))
    (htype : e.travelType = r.travelType) (hlisted : r ∈ s.scheduler)
    (hrobot : s.objects r.getId = some (.robot robot)) : s.robotFree r.getId = some false := by
  have hfree : s.robotFree r.getId = some robot.available := by
    rw [robotFree, hrobot]
    rfl
  cases hwaits : robot.available with
  | false => rw [hfree, hwaits]
  | true =>
      have hwaiting : r ∈ s.waiting := mem_waiting.mpr ⟨hlisted, by rw [hfree, hwaits]⟩
      exact absurd htype.symm (hrest.served e he d hd r hwaiting)

omit [Scalar K] in
theorem riderOf_of_atRest (hrest : AtRest s) (a : Nat) : s.riderOf a = none := by
  cases hrider : s.riderOf a with
  | none => rfl
  | some r =>
      obtain ⟨d, hd, hr⟩ := drone_of_riderOf hrider
      cases (hrest.idle a d hd).nearestEntity.symm.trans hr

theorem near_of_atRest (h : Deliveries world s) (hrest : AtRest s) {e r : TypeDecorator}
    {d : Drone K} {robot : Robot K} (he : e ∈ s.entities)
    (hd : s.objects e.getId = some (.drone d)) (htype : e.travelType = r.travelType)
    (hlisted : r ∈ s.scheduler) (hrobot : s.objects r.getId = some (.robot robot))
    {des : Vector3 K} {search : String} (horder : s.order r.getId = some (des, search)) :
    world.Near search robot.details.position des robot.position := by
  have hstart : s.madeAt r.getId = some robot.details.position := by
    rw [madeAt, profile, hrobot]
    rfl
  refine h.delivered r.getId _ des search robot.position
    (robotFree_of_atRest hrest he hd htype hlisted hrobot) ?_ hstart horder
    (robotAt_of_robot hrobot)
  intro a r' hr'
  rw [riderOf_of_atRest hrest a] at hr'
  cases hr'

end Deliveries

end SimulationModel

end UmnProjects.Transit
