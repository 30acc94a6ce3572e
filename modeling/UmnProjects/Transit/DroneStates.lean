import UmnProjects.Transit.RobotTrips

/-!
The states of a drone between commands. A drone is idle, fetches its rider or delivers it,
unless its rider's strategy name is none that `SetToDestination` knows: it then has no way
to the final destination and stays unavailable for ever.
-/
namespace UmnProjects.Transit
open Runs History

variable {K : Type}

structure Drone.Idle (d : Drone K) : Prop where
  available : d.available = true
  toRobot : d.toRobot = none
  toFinalDestination : d.toFinalDestination = none
  nearestEntity : d.nearestEntity = none

structure Drone.Fetching (d : Drone K) : Prop where
  available : d.available = false
  toRobot : d.toRobot ≠ none
  toFinalDestination : d.toFinalDestination ≠ none
  nearestEntity : d.nearestEntity ≠ none
  pickedUp : d.pickedUp = false

structure Drone.Delivering (d : Drone K) : Prop where
  available : d.available = false
  toRobot : d.toRobot = none
  toFinalDestination : d.toFinalDestination ≠ none
  nearestEntity : d.nearestEntity ≠ none
  pickedUp : d.pickedUp = true

def Drone.Consistent (d : Drone K) : Prop := d.Idle ∨ d.Fetching ∨ d.Delivering

/-- On a trip with no second leg. -/
structure Drone.Stranded (d : Drone K) : Prop where
  available : d.available = false
  toFinalDestination : d.toFinalDestination = none

theorem Drone.Consistent.not_stranded {d : Drone K} (h : d.Consistent) : ¬ d.Stranded := by
  intro hs
  obtain h | h | h := h
  · exact absurd (hs.available.symm.trans h.available) (by simp)
  · exact h.toFinalDestination hs.toFinalDestination
  · exact h.toFinalDestination hs.toFinalDestination

theorem Drone.Consistent.idle {d : Drone K} (h : d.Consistent) (available : d.available = true) :
    d.Idle := by
  obtain h | h | h := h
  · exact h
  · simp [h.available] at available
  · simp [h.available] at available

def Object.Consistent : Object K → Prop
  | .drone d => d.Consistent
  | _ => True

def Object.Stranded : Object K → Prop
  | .drone d => d.Stranded
  | _ => False

/-- Movement takes a drone from one of the three states to another and frees no stranded one. -/
structure Object.Flown (o o' : Object K) : Prop where
  consistent : o.Consistent → o'.Consistent
  stranded : o.Stranded → o'.Stranded

/-- A change that none of the three states looks at. -/
theorem Object.flown_of_fields {d d' : Drone K} (available : d'.available = d.available)
    (pickedUp : d'.pickedUp = d.pickedUp) (nearestEntity : d'.nearestEntity = d.nearestEntity)
    (toRobot : d'.toRobot = none ↔ d.toRobot = none)
    (toFinalDestination : d'.toFinalDestination = none ↔ d.toFinalDestination = none) :
    Object.Flown (.drone d) (.drone d') := by
  refine ⟨?_, ?_⟩
  · intro h
    obtain h | h | h := h
    · exact .inl ⟨available.trans h.available, toRobot.mpr h.toRobot,
        toFinalDestination.mpr h.toFinalDestination, nearestEntity.trans h.nearestEntity⟩
    · exact .inr (.inl ⟨available.trans h.available, mt toRobot.mp h.toRobot,
        mt toFinalDestination.mp h.toFinalDestination, nearestEntity ▸ h.nearestEntity,
        pickedUp.trans h.pickedUp⟩)
    · exact .inr (.inr ⟨available.trans h.available, toRobot.mpr h.toRobot,
        mt toFinalDestination.mp h.toFinalDestination, nearestEntity ▸ h.nearestEntity,
        pickedUp.trans h.pickedUp⟩)
  · intro h
    exact ⟨available.trans h.available, toFinalDestination.mpr h.toFinalDestination⟩

theorem Object.flown_finish (d : Drone K) (hrobot : d.toRobot = none)
    (hfinal : d.toFinalDestination ≠ none) : Object.Flown (.drone d) (.drone d.finish) := by
  refine ⟨?_, ?_⟩
  · intro _
    exact .inl ⟨rfl, hrobot, rfl, rfl⟩
  · intro h
    exact absurd h.toFinalDestination hfinal

theorem Object.Consistent.not_stranded {o : Object K} (h : o.Consistent) : ¬ o.Stranded := by
  cases o with
  | drone d => exact Drone.Consistent.not_stranded h
  | robot _ | human _ | helicopter _ | ufo _ => exact id

section Movement

variable [Scalar K]

theorem move_fields (dt : K) (strategy : IStrategy K) (d : Drone K) :
    (strategy.move dt d).2.available = d.available ∧
    (strategy.move dt d).2.pickedUp = d.pickedUp ∧
    (strategy.move dt d).2.nearestEntity = d.nearestEntity ∧
    (strategy.move dt d).2.toRobot = d.toRobot ∧
    (strategy.move dt d).2.toFinalDestination = d.toFinalDestination :=
  ⟨Drone.move_frame Drone.available (fun _ => rfl) dt strategy d,
    Drone.move_frame Drone.pickedUp (fun _ => rfl) dt strategy d,
    Drone.move_frame Drone.nearestEntity (fun _ => rfl) dt strategy d,
    Drone.move_frame Drone.toRobot (fun _ => rfl) dt strategy d,
    Drone.move_frame Drone.toFinalDestination (fun _ => rfl) dt strategy d⟩

theorem Object.flown_atRobot (d : Drone K) (strategy : IStrategy K) (dt : K)
    (hd : d.toRobot = some strategy) :
    Object.Flown (.drone d) (.drone { (strategy.move dt d).2 with
      toRobot := none, pickedUp := true }) := by
  obtain ⟨available, _, nearestEntity, _, final⟩ := move_fields dt strategy d
  refine ⟨?_, ?_⟩
  · intro h
    obtain h | h | h := h
    · simp [h.toRobot] at hd
    · exact .inr (.inr ⟨available.trans h.available, rfl, final ▸ h.toFinalDestination,
        nearestEntity ▸ h.nearestEntity, rfl⟩)
    · simp [h.toRobot] at hd
  · intro h
    exact ⟨available.trans h.available, final.trans h.toFinalDestination⟩

theorem Object.flown_movement : Movement (Object.Flown (K := K)) where
  refl o := ⟨id, id⟩
  trans _ _ _ h h' := ⟨fun hc => h'.consistent (h.consistent hc),
    fun hs => h'.stranded (h.stranded hs)⟩
  setPosition pos o := by
    cases o with
    | drone d => exact flown_of_fields rfl rfl rfl .rfl .rfl
    | robot _ | human _ | helicopter _ | ufo _ => exact ⟨id, id⟩
  setDirection dir o := by
    cases o with
    | drone d => exact flown_of_fields rfl rfl rfl .rfl .rfl
    | robot _ | human _ | helicopter _ | ufo _ => exact ⟨id, id⟩
  toRobot d strategy strategy' dt hd := by
    obtain ⟨available, pickedUp, nearestEntity, _, final⟩ := move_fields dt strategy d
    refine flown_of_fields available pickedUp nearestEntity ?_ ?_
    · simp [hd]
    · rw [← final]
  atRobot d strategy dt hd := Object.flown_atRobot d strategy dt hd
  toDestination d strategy strategy' dt hd hfinal := by
    obtain ⟨available, pickedUp, nearestEntity, toRobot, _⟩ := move_fields dt strategy d
    refine flown_of_fields available pickedUp nearestEntity ?_ ?_
    · rw [← toRobot]
    · simp [hfinal]
  finish d hrobot hfinal := Object.flown_finish d hrobot hfinal
  human _ _ := ⟨id, id⟩
  helicopter _ _ := ⟨id, id⟩
  ufo _ _ := ⟨id, id⟩

end Movement

/-- A drone is assigned a rider with a strategy name that is not known. -/
def Note.Unknown (n : Note K) : Prop :=
  ∃ e r strat finalDest, n = .assigned e r strat finalDest ∧ strat ∉ strategyNames

namespace SimulationModel

structure Tracked (s : SimulationModel K) : Prop where
  states : ∀ id o, s.objects id = some o → o.Consistent ∨ o.Stranded
  stranded : (∃ id o, s.objects id = some o ∧ o.Stranded) ↔ ∃ n ∈ s.journal, n.Unknown

namespace Tracked

variable {s s' : SimulationModel K}

theorem init : Tracked (SimulationModel.init K) where
  states := by
    intro id o h
    cases h
  stranded := by
    refine ⟨?_, ?_⟩
    · intro h
      obtain ⟨_, _, h, _⟩ := h
      cases h
    · intro h
      obtain ⟨_, h, _⟩ := h
      cases h

/-- Stages that assign nobody. -/
theorem each (h : Tracked s) (hs : Each Object.Flown s s')
    (journal : ∃ ns, s'.journal = s.journal ++ ns ∧ ∀ n ∈ ns, ¬ n.Unknown) : Tracked s' := by
  obtain ⟨ns, hns, quiet⟩ := journal
  have earlier : ∀ id o', s'.objects id = some o' →
      ∃ o, s.objects id = some o ∧ Object.Flown o o' := by
    intro id o' ho'
    cases ho : s.objects id with
    | none => simp [hs.absent id ho] at ho'
    | some o =>
        obtain ⟨o'', ho'', hf⟩ := hs.related id o ho
        rw [ho'] at ho''
        cases ho''
        exact ⟨o, rfl, hf⟩
  refine ⟨?_, ?_, ?_⟩
  · intro id o' ho'
    obtain ⟨o, ho, hf⟩ := earlier id o' ho'
    exact (h.states id o ho).imp hf.consistent hf.stranded
  · intro hstr
    obtain ⟨id, o', ho', hstr⟩ := hstr
    obtain ⟨o, ho, hf⟩ := earlier id o' ho'
    have hold : o.Stranded := by
      obtain hc | hold := h.states id o ho
      · exact absurd hstr (hf.consistent hc).not_stranded
      · exact hold
    obtain ⟨n, hn, hu⟩ := h.stranded.mp ⟨id, o, ho, hold⟩
    exact ⟨n, by rw [hns]; exact List.mem_append_left _ hn, hu⟩
  · intro hex
    obtain ⟨n, hn, hu⟩ := hex
    rw [hns] at hn
    obtain hn | hn := List.mem_append.mp hn
    · obtain ⟨id, o, ho, hstr⟩ := h.stranded.mpr ⟨n, hn, hu⟩
      obtain ⟨o', ho', hf⟩ := hs.related id o ho
      exact ⟨id, o', ho', hf.stranded hstr⟩
    · exact absurd hu (quiet n hn)

theorem updated_known {ns : List (Note K)} (h : ∀ n ∈ ns, ∃ e dt, n = .updated e dt) :
    ∀ n ∈ ns, ¬ n.Unknown := by
  intro n hn hu
  obtain ⟨e, dt, rfl⟩ := h n hn
  obtain ⟨_, _, _, _, heq, _⟩ := hu
  cases heq

/-- An idle drone is sent out: it fetches, or is stranded if the name is not known. -/
theorem sent_states {e rider : TypeDecorator} {d : Drone K} {robot : Robot K}
    (sent : Sent s s' e rider d robot) (idle : d.Idle) :
    ∃ d', s'.objects e.getId = some (.drone d') ∧
      (robot.strategyName ∈ strategyNames → d'.Fetching) ∧
      (robot.strategyName ∉ strategyNames → d'.Stranded) := by
  obtain ⟨d', hd', available, pickedUp, nearest, toRobot, known, unknown⟩ := sent.drone
  refine ⟨d', hd', ?_, ?_⟩
  · intro hk
    exact ⟨available, toRobot, known hk, by simp [nearest], pickedUp⟩
  · intro hk
    exact ⟨available, (unknown hk).trans idle.toFinalDestination⟩

variable [Scalar K] (world : World K)

theorem flown_setDestination (s : SimulationModel K) (id : Nat) (des : Vector3 K) :
    Each Object.Flown s (s.setDestination world id des) := by
  have hR := Object.flown_movement (K := K)
  unfold SimulationModel.setDestination
  split
  · case h_1 u hu =>
      have drawn : Each Object.Flown s (s.drawSky world).2 := .of_objects hR rfl
      exact drawn.trans hR (.replace hR (by exact hu) (hR.ufo u _))
  · case h_2 d hd => exact .replace hR hd (Object.flown_of_fields rfl rfl rfl .rfl .rfl)
  · case h_3 r hr => exact .replace hR hr ⟨fun h => h, fun h => h⟩
  · case h_4 h hh => exact .replace hR hh (hR.human h _)
  · case h_5 h hh => exact .replace hR hh (hR.helicopter h _)
  · exact .refl hR s

theorem newObject_consistent {m : EntityMessage K} {o : Object K}
    (h : s.newObject world m = some (o, s')) : o.Consistent := by
  obtain ⟨_, _, rfl⟩ | ⟨_, _, rfl⟩ | ⟨_, _, rfl⟩ | ⟨_, _, rfl⟩ | ⟨_, _, rfl⟩ :=
    WellFormed.newObject_cases world h
  · exact .inl ⟨rfl, rfl, rfl, rfl⟩
  all_goals trivial

theorem createEntity_object {m : EntityMessage K} (h : s.createEntity world m = some s') :
    ∃ o s₁, s.newObject world m = some (o, s₁) ∧ s'.objects s.currentId = some o := by
  unfold SimulationModel.createEntity at h
  split at h
  · cases h
  · case h_2 o s₁ hnew =>
      have same := (WellFormed.newObject_spec world hnew).1.currentId
      cases h
      refine ⟨o, s₁, hnew, ?_⟩
      rw [← same]
      exact Function.update_self _ _ _

theorem createEntity (h : Tracked s) (wf : WellFormed s) {m : EntityMessage K}
    (hc : s.createEntity world m = some s') : Tracked s' := by
  obtain ⟨o, _, _, _, objects, _, _, journal, _⟩ := WellFormed.createEntity_spec world hc
  have new : s'.objects s.currentId = some o := by simp [objects]
  have consistent : o.Consistent := by
    obtain ⟨o', s₁, hnew, ho'⟩ := createEntity_object world hc
    rw [new] at ho'
    cases ho'
    exact newObject_consistent world hnew
  have absent : s.objects s.currentId = none := by
    simpa [SimulationModel.profile] using wf.fresh s.currentId (Nat.le_refl _)
  have old : ∀ id, id ≠ s.currentId → s'.objects id = s.objects id := by
    intro id hid
    simp [objects, hid]
  refine ⟨?_, ?_⟩
  · intro id o' ho'
    by_cases hid : id = s.currentId
    · subst hid
      rw [new] at ho'
      cases ho'
      exact .inl consistent
    · rw [old id hid] at ho'
      exact h.states id o' ho'
  · rw [journal, ← h.stranded]
    constructor
    · intro hstr
      obtain ⟨id, o', ho', hstr⟩ := hstr
      by_cases hid : id = s.currentId
      · subst hid
        rw [new] at ho'
        cases ho'
        exact absurd hstr consistent.not_stranded
      · rw [old id hid] at ho'
        exact ⟨id, o', ho', hstr⟩
    · intro hstr
      obtain ⟨id, o', ho', hstr⟩ := hstr
      have hid : id ≠ s.currentId := by
        rintro rfl
        simp [absent] at ho'
      exact ⟨id, o', (old id hid).trans ho', hstr⟩

theorem scheduleTrip (h : Tracked s) {m : TripMessage K}
    (hc : s.scheduleTrip world m = some s') : Tracked s' := by
  have hR := Object.flown_movement (K := K)
  obtain hs | ⟨e, travelType, s₁, _, _, hs₁, objects, _, _, _, journal⟩ :=
    WellFormed.scheduleTrip_spec world hc
  · rw [hs]
    exact h.each (.of_objects hR rfl) ⟨[], by simp, by simp⟩
  · have asked : Each Object.Flown s s₁ := by
      rw [hs₁]
      refine (flown_setDestination world s e.getId m.finish).trans hR (.modify hR _ _ ?_)
      intro o _
      cases o <;> exact ⟨id, id⟩
    have log : s₁.journal = s.journal := by simp [hs₁]
    rw [log] at journal
    refine h.each (asked.trans hR (.of_objects hR objects)) ⟨_, journal, ?_⟩
    intro n hn hu
    obtain ⟨_, _, _, _, heq, _⟩ := hu
    rw [List.mem_singleton.mp hn] at heq
    cases heq

theorem assign (h : Tracked s) (wf : WellFormed s) {c : HandlerClass} {e rider : TypeDecorator}
    (link : c ∈ chain) (handled : s.handles c e = true)
    (available : (s.objects e.getId).bind Object.getAvailability = some true)
    (found : s.findRider c s.scheduler = some rider) : Tracked (s.assign world c e rider) := by
  obtain ⟨d, robot, hd, hrobot, _, hne, _, _⟩ := Paired.found_spec wf handled found
  have free : d.available = true := by simpa [hd, Object.getAvailability] using available
  have idle : d.Idle := by
    obtain hc | hs := h.states e.getId _ hd
    · exact Drone.Consistent.idle hc free
    · exact absurd (free.symm.trans hs.available) (by simp)
  have sent := assign_sent world (Logged.chain_known link) hd hrobot hne
  have spec := Paired.assign_spec world c hd hrobot hne
  obtain ⟨d', hd', known, unknown⟩ := sent_states sent idle
  refine ⟨?_, ?_, ?_⟩
  · intro id o ho
    by_cases he : id = e.getId
    · rw [he, hd'] at ho
      cases ho
      by_cases hk : robot.strategyName ∈ strategyNames
      · exact .inl (.inr (.inl (known hk)))
      · exact .inr (unknown hk)
    · by_cases hr : id = rider.getId
      · rw [hr, spec.robot] at ho
        cases ho
        exact .inl trivial
      · exact h.states id o ((spec.others id he hr).symm.trans ho)
  · intro hstr
    obtain ⟨id, o, ho, hstr⟩ := hstr
    rw [sent.journal]
    by_cases he : id = e.getId
    · rw [he, hd'] at ho
      cases ho
      have hk : robot.strategyName ∉ strategyNames := by
        intro hk
        exact Drone.Consistent.not_stranded (.inr (.inl (known hk))) hstr
      exact ⟨_, List.mem_append_right _ List.mem_cons_self, _, _, _, _, rfl, hk⟩
    · by_cases hr : id = rider.getId
      · rw [hr, spec.robot] at ho
        cases ho
        exact hstr.elim
      · obtain ⟨n, hn, hu⟩ := h.stranded.mp ⟨id, o, (spec.others id he hr).symm.trans ho, hstr⟩
        exact ⟨n, by simp [hn], hu⟩
  · intro hex
    obtain ⟨n, hn, hu⟩ := hex
    rw [sent.journal, List.append_assoc] at hn
    obtain hn | hn := List.mem_append.mp hn
    · obtain ⟨id, o, ho, hstr⟩ := h.stranded.mpr ⟨n, hn, hu⟩
      have he : id ≠ e.getId := by
        rintro rfl
        rw [hd] at ho
        cases ho
        exact Drone.Consistent.not_stranded (.inl idle) hstr
      have hr : id ≠ rider.getId := by
        rintro rfl
        rw [hrobot] at ho
        cases ho
        exact hstr
      exact ⟨id, o, (spec.others id he hr).trans ho, hstr⟩
    · obtain ⟨_, _, strat, _, rfl, hk⟩ := hu
      have hstrat : strat = robot.strategyName := by
        simp only [List.cons_append, List.nil_append, List.mem_cons, List.not_mem_nil, or_false,
          reduceCtorEq, false_or, Note.assigned.injEq] at hn
        exact hn.2.2.1
      exact ⟨e.getId, _, hd', unknown (hstrat ▸ hk)⟩

theorem stage (hs : Stage world s s') (h : WellFormed s) (ht : Tracked s) : Tracked s' := by
  cases hs with
  | created m _ hc => exact ht.createEntity world h hc
  | scheduled m _ hc => exact ht.scheduleTrip world hc
  | updated e dt =>
      obtain ⟨ns, hns, hup⟩ := (Calm.updateEntity world s e dt).journal
      exact ht.each (Each.updateEntity world Object.flown_movement s e dt)
        ⟨ns, hns, updated_known hup⟩
  | assigned c e rider link _ handled available found =>
      exact ht.assign world h link handled available found
  | shown _ objects _ _ _ journal =>
      exact ht.each (.of_objects Object.flown_movement objects) ⟨[], by simp [journal], by simp⟩

theorem of_run {ok : SimulationModel K → Command K → Prop}
    (h : Run (Transit.step world) ok (SimulationModel.init K) s) : Tracked s := by
  have both : Paired s ∧ Tracked s := by
    apply h.invariant (I := fun s => Paired s ∧ Tracked s)
    · intro _ _ _ _ hc hi
      apply invariant_of_stages (I := fun s => Paired s ∧ Tracked s) _ (stages_of_step hc) hi
      intro t t' hs ht
      exact ⟨ht.1.stage world hs, ht.2.stage world hs ht.1.wellFormed⟩
    · exact ⟨.init, .init⟩
  exact both.2

end Tracked

/-- In every reachable state the drones are idle, fetching or delivering if and only if no
drone was assigned a robot whose last accepted trip asked for an unknown search. -/
theorem droneStates_iff [Scalar K] (world : World K) {s : SimulationModel K}
    (h : Run (Transit.step world) (fun _ _ => True) (init K) s) :
    (∀ id d, s.objects id = some (.drone d) → d.Idle ∨ d.Fetching ∨ d.Delivering) ↔
    ∀ l₁ e r strat finalDest l₂, s.journal = l₁ ++ .assigned e r strat finalDest :: l₂ →
      ∃ m, lastTrip r.getId l₁ = some m ∧ m.search ∈ strategyNames := by
  have tracked := Tracked.of_run world h
  have informed := (Logged.of_run world h).2.informed
  constructor
  · intro states l₁ e r strat finalDest l₂ hj
    obtain ⟨m, hm, hstrat, _⟩ := informed l₁ _ l₂ hj e r strat finalDest rfl
    refine ⟨m, hm, ?_⟩
    by_contra hk
    obtain ⟨id, o, ho, hstr⟩ := tracked.stranded.mpr
      ⟨_, by rw [hj]; exact List.mem_append_right _ List.mem_cons_self,
        e, r, strat, finalDest, rfl, hstrat ▸ hk⟩
    cases o with
    | drone d => exact Drone.Consistent.not_stranded (states id d ho) hstr
    | robot _ | human _ | helicopter _ | ufo _ => exact hstr
  · intro known id d hd
    obtain hc | hstr := tracked.states id _ hd
    · exact hc
    · obtain ⟨n, hn, e, r, strat, finalDest, rfl, hk⟩ := tracked.stranded.mp ⟨id, _, hd, hstr⟩
      obtain ⟨l₁, l₂, hj⟩ := List.append_of_mem hn
      obtain ⟨m, hm, hms⟩ := known l₁ e r strat finalDest l₂ hj
      obtain ⟨m', hm', hstrat, _⟩ := informed l₁ _ l₂ hj e r strat finalDest rfl
      rw [hm] at hm'
      cases hm'
      exact absurd (hstrat ▸ hms) hk

/-- A drone and a robot at the origin, and a trip with a search that no strategy is for. -/
def unknownSearch : List (Command Int) :=
  [.createEntity (atOrigin "drone" "Drone"), .createEntity (atOrigin "robot" "Robot"),
    .scheduleTrip ⟨"Robot", "standard", ⟨100, 0, 0⟩, "bfs"⟩, .update 0]

theorem unknownSearch_run {s : SimulationModel Int}
    (hs : perform (Transit.step quietWorld) (init Int) unknownSearch = some s) :
    Run (Transit.step quietWorld) (fun _ _ => True) (init Int) s :=
  run_of_perform hs (fun _ _ _ => trivial)

/-- The same with a search that there is a strategy for. -/
def knownSearch : List (Command Int) :=
  [.createEntity (atOrigin "drone" "Drone"), .createEntity (atOrigin "robot" "Robot"),
    .scheduleTrip ⟨"Robot", "standard", ⟨100, 0, 0⟩, "dfs"⟩, .update 0]

theorem droneStates_iff_knownSearch :
    (∃ s, perform (Transit.step quietWorld) (init Int) knownSearch = some s ∧
      ∀ id d, s.objects id = some (.drone d) → d.Idle ∨ d.Fetching ∨ d.Delivering) ∧
    ∃ s, perform (Transit.step quietWorld) (init Int) unknownSearch = some s ∧
      ¬ ∀ id d, s.objects id = some (.drone d) → d.Idle ∨ d.Fetching ∨ d.Delivering := by
  constructor
  · obtain ⟨s, hs⟩ : ∃ s, perform (Transit.step quietWorld) (init Int) knownSearch = some s :=
      ⟨_, rfl⟩
    have hrun : Run (Transit.step quietWorld) (fun _ _ => True) (init Int) s :=
      run_of_perform hs (fun _ _ _ => trivial)
    refine ⟨s, hs, (droneStates_iff quietWorld hrun).mpr ?_⟩
    intro l₁ e r strat finalDest l₂ hjournal
    obtain ⟨m, hm, hstrat, _⟩ :=
      (Logged.of_run quietWorld hrun).2.informed l₁ _ l₂ hjournal e r strat finalDest rfl
    have hdfs : (s.journal.all fun n => match n with
        | .assigned _ _ strat _ => strat == "dfs"
        | _ => true) = true := by
      cases hs
      rfl
    have hassigned := List.all_eq_true.mp hdfs (.assigned e r strat finalDest) (by simp [hjournal])
    refine ⟨m, hm, ?_⟩
    rw [← hstrat, beq_iff_eq.mp hassigned]
    decide
  · obtain ⟨s, hs⟩ : ∃ s, perform (Transit.step quietWorld) (init Int) unknownSearch = some s :=
      ⟨_, rfl⟩
    refine ⟨s, hs, fun hstates => ?_⟩
    have hknown := (droneStates_iff quietWorld (unknownSearch_run hs)).mp hstates
    cases hs
    obtain ⟨m, hm, hsearch⟩ := hknown [_, _, _] _ _ "bfs" _ [_, _, _, _] rfl
    cases hm
    exact absurd hsearch (by decide)

/-- It has reached its rider, has no strategy left and is not available. -/
theorem drone_stranded_by_unknownSearch :
    ∃ s, Run (Transit.step quietWorld) (fun _ _ => True) (init Int) s ∧
      ∃ d, s.objects 0 = some (.drone d) ∧ d.available = false ∧ d.toRobot = none ∧
        d.toFinalDestination = none ∧ ¬ (d.Idle ∨ d.Fetching ∨ d.Delivering) := by
  obtain ⟨s, hs⟩ : ∃ s, perform (Transit.step quietWorld) (init Int) unknownSearch = some s :=
    ⟨_, rfl⟩
  obtain ⟨d, hd, available, toRobot, final⟩ : ∃ d, s.objects 0 = some (.drone d) ∧
      d.available = false ∧ d.toRobot = none ∧ d.toFinalDestination = none := by
    cases hs
    exact ⟨_, rfl, rfl, rfl, rfl⟩
  refine ⟨s, unknownSearch_run hs, d, hd, available, toRobot, final, ?_⟩
  intro hc
  exact Drone.Consistent.not_stranded hc ⟨available, final⟩

end SimulationModel

end UmnProjects.Transit
