import UmnProjects.Transit.Assignment

/-!
Robots and their trips. What a trip asks for is kept on the robot, so a later trip for the
same robot overwrites it; and the robot, once assigned, is never available again.
-/
namespace UmnProjects.Transit
open Runs History

variable {K : Type}

/-- The trip that the note says was accepted for the robot. -/
def Note.tripFor (id : Nat) : Note K → Option (TripMessage K)
  | .scheduled rider trip => if rider.getId = id then some trip else none
  | _ => none

/-- Of neither trips nor assignments, and no robot is made available. -/
def Note.Quiet (n : Note K) : Prop :=
  (∃ e dt, n = .updated e dt) ∨ ∃ id, n = .availability id false

theorem Note.Quiet.tripFor {n : Note K} (h : n.Quiet) (id : Nat) : n.tripFor id = none := by
  obtain ⟨e, dt, rfl⟩ | ⟨id', rfl⟩ := h
  · rfl
  · rfl

theorem Note.Quiet.not_assigns {n : Note K} (h : n.Quiet) (id : Nat) : ¬ n.Assigns id := by
  intro ha
  obtain ⟨e, r, strat, finalDest, rfl, _⟩ := ha
  simp [Note.Quiet] at h

/-- The last trip accepted for the robot. -/
def lastTrip (id : Nat) (journal : List (Note K)) : Option (TripMessage K) :=
  latest (Note.tripFor id) journal

/-- What a robot keeps of a trip. -/
def Object.order : Object K → Option (Vector3 K × String)
  | .robot r => some (r.destination, r.strategyName)
  | _ => none

def Object.SameOrder (o o' : Object K) : Prop := o'.order = o.order

theorem Object.sameOrder_movement [Scalar K] : Movement (Object.SameOrder (K := K)) where
  refl _ := rfl
  trans _ _ _ h h' := Eq.trans h' h
  setPosition pos o := by cases o <;> rfl
  setDirection dir o := by cases o <;> rfl
  toRobot _ _ _ _ _ := rfl
  atRobot _ _ _ _ := rfl
  toDestination _ _ _ _ _ _ := rfl
  finish _ _ _ := rfl
  human _ _ := rfl
  helicopter _ _ := rfl
  ufo _ _ := rfl

namespace SimulationModel

def order (s : SimulationModel K) (id : Nat) : Option (Vector3 K × String) :=
  (s.objects id).bind Object.order

theorem Each.order {s s' : SimulationModel K} (h : Each Object.SameOrder s s') (id : Nat) :
    s'.order id = s.order id := by
  unfold SimulationModel.order
  cases ho : s.objects id with
  | none => simp [h.absent id ho]
  | some o =>
      obtain ⟨o', ho', same⟩ := h.related id o ho
      simpa [ho', Object.SameOrder] using same

/-- An assignment reads from the robot what its last accepted trip asked for. -/
def Informed (journal : List (Note K)) (n : Note K) : Prop :=
  ∀ e r strat finalDest, n = .assigned e r strat finalDest →
    ∃ m, lastTrip r.getId journal = some m ∧ strat = m.search ∧ finalDest = m.finish

/-- The notes of trips and assignments against the scheduler and the robots. -/
structure Logged (s : SimulationModel K) : Prop where
  scheduled : ∀ r m, .scheduled r m ∈ s.journal → r ∈ s.scheduler
  assigned : ∀ e r strat finalDest, .assigned e r strat finalDest ∈ s.journal →
    r ∈ s.scheduler
  ordered : ∀ id m, lastTrip id s.journal = some m → s.order id = some (m.finish, m.search)
  informed : Always Informed s.journal
  neverFreed : ∀ id, .availability id true ∉ s.journal
  spent : ∀ id, s.robotFree id = some false ↔ ∃ n ∈ s.journal, n.Assigns id

namespace Logged

variable {s s' : SimulationModel K}

theorem init : Logged (SimulationModel.init K) where
  scheduled := by
    intro r m h
    cases h
  assigned := by
    intro e r strat finalDest h
    cases h
  ordered := by
    intro id m h
    cases h
  informed := always_nil
  neverFreed := by
    intro id h
    cases h
  spent := by
    intro id
    constructor
    · intro h
      cases h
    · intro h
      obtain ⟨n, hn, _⟩ := h
      cases hn

/-- What was said of robots and riders, when only quiet notes are added. -/
theorem mem_of_quiet {ns : List (Note K)} (journal : s'.journal = s.journal ++ ns)
    (quiet : ∀ n ∈ ns, n.Quiet) {n : Note K} (loud : ¬ n.Quiet) :
    n ∈ s'.journal ↔ n ∈ s.journal := by
  rw [journal, List.mem_append]
  constructor
  · intro h
    exact h.resolve_right fun hn => loud (quiet n hn)
  · exact .inl

theorem quiet (h : Logged s) (scheduler : s'.scheduler = s.scheduler)
    (order : ∀ id, s'.order id = s.order id) (free : ∀ id, s'.robotFree id = s.robotFree id)
    (ns : List (Note K)) (journal : s'.journal = s.journal ++ ns)
    (quiet : ∀ n ∈ ns, n.Quiet) : Logged s' := by
  have same : ∀ {n : Note K}, ¬ n.Quiet → (n ∈ s'.journal ↔ n ∈ s.journal) :=
    fun loud => mem_of_quiet journal quiet loud
  refine ⟨?_, ?_, ?_, ?_, ?_, ?_⟩
  · intro r m hm
    rw [scheduler]
    exact h.scheduled r m ((same (by simp [Note.Quiet])).mp hm)
  · intro e r strat finalDest hm
    rw [scheduler]
    exact h.assigned e r strat finalDest ((same (by simp [Note.Quiet])).mp hm)
  · intro id m hm
    rw [order]
    apply h.ordered id m
    rw [journal, lastTrip, latest_append_quiet fun n hn => (quiet n hn).tripFor id] at hm
    exact hm
  · rw [journal]
    refine h.informed.append_list ?_
    intro n hn l e r strat finalDest heq
    have hq := quiet n hn
    rw [heq] at hq
    simp [Note.Quiet] at hq
  · intro id hm
    exact h.neverFreed id ((same (by simp [Note.Quiet])).mp hm)
  · intro id
    rw [free, h.spent]
    constructor
    · intro hex
      obtain ⟨n, hn, ha⟩ := hex
      exact ⟨n, (same fun hq => hq.not_assigns id ha).mpr hn, ha⟩
    · intro hex
      obtain ⟨n, hn, ha⟩ := hex
      exact ⟨n, (same fun hq => hq.not_assigns id ha).mp hn, ha⟩

/-- Whoever was assigned is known to the scheduler, so no new object was. -/
theorem not_assigned_new (h : Logged s) (wf : WellFormed s) :
    ¬ ∃ n ∈ s.journal, n.Assigns s.currentId := by
  intro hex
  obtain ⟨n, hn, e, r, strat, finalDest, rfl, hid⟩ := hex
  obtain ⟨details, hp⟩ := wf.rider r (h.assigned e r strat finalDest hn)
  rw [hid, wf.fresh s.currentId (Nat.le_refl _)] at hp
  cases hp

theorem lastTrip_new (h : Logged s) (wf : WellFormed s) :
    lastTrip s.currentId s.journal = none := by
  apply List.findSome?_eq_none_iff.mpr
  intro n hn
  have hn' := List.mem_reverse.mp hn
  cases n with
  | scheduled r m =>
      obtain ⟨details, hp⟩ := wf.rider r (h.scheduled r m hn')
      have hid : r.getId ≠ s.currentId := by
        intro hid
        rw [hid, wf.fresh s.currentId (Nat.le_refl _)] at hp
        cases hp
      simp [Note.tripFor, hid]
  | assigned _ _ _ _ | availability _ _ | updated _ _ => rfl

/-- Every handler of the chain sends its drone to the rider by a strategy that is known. -/
theorem chain_known {c : HandlerClass} (h : c ∈ chain) : c.toRobot ∈ strategyNames := by
  simp only [chain, List.mem_cons, List.not_mem_nil, or_false] at h
  obtain rfl | rfl | rfl := h
  all_goals decide

theorem order_assigned {e rider : TypeDecorator} {d : Drone K} {robot : Robot K}
    (spec : Paired.Assigned s s' e rider robot) (hd : s.objects e.getId = some (.drone d))
    (hrobot : s.objects rider.getId = some (.robot robot)) (id : Nat) :
    s'.order id = s.order id := by
  unfold SimulationModel.order
  by_cases he : id = e.getId
  · obtain ⟨d', hd', _⟩ := spec.drone
    rw [he, hd', hd]
    rfl
  · by_cases hr : id = rider.getId
    · rw [hr, spec.robot, hrobot]
      rfl
    · rw [spec.others id he hr]

/-- The rider's entry is a trip accepted for the robot, so the robot keeps some trip. -/
theorem trip_of_listed (h : Logged s) (paired : Paired s) {r : TypeDecorator}
    (hr : r ∈ s.scheduler) : ∃ m, lastTrip r.getId s.journal = some m ∧
      s.order r.getId = some (m.finish, m.search) := by
  obtain ⟨trip, htrip, _⟩ := paired.requested r hr
  obtain ⟨m, hm⟩ := latest_of_mem (f := Note.tripFor r.getId) htrip (by simp [Note.tripFor])
  exact ⟨m, hm, h.ordered r.getId m hm⟩

variable [Scalar K] (world : World K)

theorem updated (h : Logged s) (e : TypeDecorator) (dt : K) :
    Logged (s.updateEntity world e dt) := by
  have calm := Calm.updateEntity world s e dt
  have each := Each.updateEntity world Object.sameOrder_movement s e dt
  refine h.quiet calm.scheduler (fun id => each.order id)
    (fun id => Paired.robotFree_calm calm id) _ (s.journal_updateEntity world e dt) ?_
  intro n hn
  exact .inl ⟨e, dt, List.mem_singleton.mp hn⟩

theorem createEntity (h : Logged s) (wf : WellFormed s) {m : EntityMessage K}
    (hc : s.createEntity world m = some s') : Logged s' := by
  obtain ⟨o, _, _, free, objects, _, scheduler, journal, _⟩ :=
    WellFormed.createEntity_spec world hc
  refine ⟨?_, ?_, ?_, ?_, ?_, ?_⟩
  · rw [journal, scheduler]
    exact h.scheduled
  · rw [journal, scheduler]
    exact h.assigned
  · intro id m hm
    rw [journal] at hm
    have hid : id ≠ s.currentId := by
      rintro rfl
      rw [h.lastTrip_new wf] at hm
      cases hm
    have hold := h.ordered id m hm
    simpa [SimulationModel.order, objects, hid] using hold
  · rw [journal]
    exact h.informed
  · rw [journal]
    exact h.neverFreed
  · intro id
    rw [journal]
    by_cases hid : id = s.currentId
    · subst hid
      have unfree : s'.robotFree s.currentId ≠ some false := by
        obtain free | free := free <;> simp [robotFree, objects, free]
      exact iff_of_false unfree (h.not_assigned_new wf)
    · rw [← h.spent id]
      simp [robotFree, objects, hid]

/-- The robot found keeps the trip's destination and strategy, and no other object does. -/
theorem order_request (wf : WellFormed s) {m : TripMessage K} {e : TypeDecorator}
    (he : s.findRobot m.name = some e) :
    ((s.setDestination world e.getId m.finish).modify e.getId
      (Object.setStrategyName m.search)).order e.getId = some (m.finish, m.search) ∧
    ∀ id, id ≠ e.getId → ((s.setDestination world e.getId m.finish).modify e.getId
      (Object.setStrategyName m.search)).order id = s.order id := by
  obtain ⟨_, type, _⟩ := WellFormed.findRobot_spec he
  obtain ⟨r, hr⟩ := Paired.robot_of_type wf type
  have heq : s.setDestination world e.getId m.finish =
      s.modify e.getId fun _ => .robot { r with destination := m.finish } := by
    simp [SimulationModel.setDestination, hr]
  rw [heq]
  constructor
  · simp [SimulationModel.order, SimulationModel.modify, hr, Object.setStrategyName, Object.order]
  · intro id hid
    simp [SimulationModel.order, SimulationModel.modify, hid]

theorem scheduleTrip (h : Logged s) (wf : WellFormed s) {m : TripMessage K}
    (hc : s.scheduleTrip world m = some s') : Logged s' := by
  obtain hs | ⟨e, travelType, s₁, he, _, hs₁, objects, _, _, scheduler, journal⟩ :=
    WellFormed.scheduleTrip_spec world hc
  · rw [hs]
    exact h.quiet rfl (fun _ => rfl) (fun _ => rfl) [] (by simp) (by simp)
  · have calm := WellFormed.calm_request world s e m
    obtain ⟨ordered, others⟩ := order_request world wf he
    rw [← hs₁] at calm ordered others
    have log : s₁.journal = s.journal := by simp [hs₁]
    rw [log] at journal
    rw [calm.scheduler] at scheduler
    refine ⟨?_, ?_, ?_, ?_, ?_, ?_⟩
    · intro r m' hm
      rw [scheduler]
      rw [journal] at hm
      obtain hm | hm := List.mem_append.mp hm
      · exact List.mem_append_left _ (h.scheduled r m' hm)
      · cases List.mem_singleton.mp hm
        exact List.mem_append_right _ (List.mem_singleton.mpr rfl)
    · intro e' r strat finalDest hm
      rw [scheduler]
      rw [journal] at hm
      obtain hm | hm := List.mem_append.mp hm
      · exact List.mem_append_left _ (h.assigned e' r strat finalDest hm)
      · cases List.mem_singleton.mp hm
    · intro id m' hm
      have same : s'.order id = s₁.order id := by simp [SimulationModel.order, objects]
      rw [same]
      rw [journal] at hm
      by_cases hid : id = e.getId
      · subst hid
        rw [lastTrip, latest_append_some (v := m) s.journal (if_pos rfl)] at hm
        cases hm
        exact ordered
      · rw [others id hid]
        apply h.ordered id m'
        rwa [lastTrip, latest_append_quiet] at hm
        intro n hn
        rw [List.mem_singleton.mp hn]
        exact if_neg (Ne.symm hid)
    · rw [journal]
      apply h.informed.append
      intro e' r strat finalDest heq
      cases heq
    · intro id hm
      rw [journal] at hm
      obtain hm | hm := List.mem_append.mp hm
      · exact h.neverFreed id hm
      · cases List.mem_singleton.mp hm
    · intro id
      have same : s'.robotFree id = s.robotFree id := by
        rw [← Paired.robotFree_calm calm id]
        simp [robotFree, objects]
      rw [same, h.spent id, journal]
      simp [Note.Assigns]

theorem assign (h : Logged s) (paired : Paired s) {c : HandlerClass} {e rider : TypeDecorator}
    (link : c ∈ chain) (member : e ∈ s.entities) (handled : s.handles c e = true)
    (found : s.findRider c s.scheduler = some rider) : Logged (s.assign world c e rider) := by
  obtain ⟨d, robot, hd, hrobot, _, hne, listed, _⟩ :=
    Paired.found_spec paired.wellFormed handled found
  have journal := (assign_sent world (chain_known link) hd hrobot hne).journal
  have order := order_assigned (Paired.assign_spec world c hd hrobot hne) hd hrobot
  have pairs := paired.assign_pairs world member handled found
  have scheduler := pairs.steady.scheduler
  have quiet : ∀ n ∈ [Note.availability (K := K) rider.getId false,
      .availability e.getId false], n.Quiet := by
    simp [Note.Quiet]
  have latest : ∀ id, lastTrip id (s.assign world c e rider).journal =
      lastTrip id s.journal := by
    intro id
    rw [journal, lastTrip, latest_append_quiet, latest_append_quiet]
    · rfl
    · exact fun n hn => (quiet n hn).tripFor id
    · intro n hn
      rw [List.mem_singleton.mp hn]
      rfl
  refine ⟨?_, ?_, ?_, ?_, ?_, ?_⟩
  · intro r m hm
    rw [scheduler]
    exact h.scheduled r m (by simpa [journal] using hm)
  · intro e' r strat finalDest hm
    rw [scheduler]
    rw [journal] at hm
    simp only [List.mem_append, List.mem_cons, List.not_mem_nil, or_false, reduceCtorEq,
      Note.assigned.injEq] at hm
    obtain hm | hm := hm
    · exact h.assigned e' r strat finalDest hm
    · rw [hm.2.1]
      exact listed
  · intro id m hm
    rw [order]
    rw [latest] at hm
    exact h.ordered id m hm
  · rw [journal]
    refine (h.informed.append_list ?_).append ?_
    · intro n hn l e' r strat finalDest heq
      have hq := quiet n hn
      rw [heq] at hq
      simp [Note.Quiet] at hq
    · intro e' r strat finalDest heq
      cases heq
      obtain ⟨m, hm, hkeeps⟩ := h.trip_of_listed paired listed
      have heq : (robot.destination, robot.strategyName) = (m.finish, m.search) := by
        simpa [SimulationModel.order, hrobot, Object.order] using hkeeps
      refine ⟨m, ?_, congrArg Prod.snd heq, congrArg Prod.fst heq⟩
      rw [lastTrip, latest_append_quiet fun n hn => (quiet n hn).tripFor _]
      exact hm
  · intro id hm
    exact h.neverFreed id (by simpa [journal] using hm)
  · intro id
    by_cases hid : id = rider.getId
    · rw [hid]
      have noted : .assigned e rider robot.strategyName robot.destination ∈
          (SimulationModel.assign world s c e rider).journal := by
        rw [journal]
        simp
      exact iff_of_true pairs.isTaken ⟨_, noted, Paired.assigns_iff.mpr rfl⟩
    · rw [pairs.freeOther id hid, h.spent id, journal]
      constructor
      · intro hex
        obtain ⟨n, hn, ha⟩ := hex
        exact ⟨n, by simp [hn], ha⟩
      · intro hex
        obtain ⟨n, hn, ha⟩ := hex
        simp only [List.mem_append, List.mem_singleton] at hn
        obtain (hn | hn) | rfl := hn
        · exact ⟨n, hn, ha⟩
        · exact absurd ha ((quiet n hn).not_assigns id)
        · exact absurd (Paired.assigns_iff.mp ha).symm hid

theorem stage (hs : Stage world s s') (h : Paired s ∧ Logged s) : Paired s' ∧ Logged s' := by
  obtain ⟨paired, logged⟩ := h
  refine ⟨paired.stage world hs, ?_⟩
  cases hs with
  | created m _ hc => exact logged.createEntity world paired.wellFormed hc
  | scheduled m _ hc => exact logged.scheduleTrip world paired.wellFormed hc
  | updated e dt => exact logged.updated world e dt
  | assigned c e rider link member handled _ found =>
      exact logged.assign world paired link member handled found
  | shown _ objects _ scheduler _ journal =>
      refine logged.quiet scheduler ?_ ?_ [] (by simp [journal]) (by simp)
      · intro id
        simp only [SimulationModel.order, objects]
      · intro id
        simp only [robotFree, objects]

theorem of_run {ok : SimulationModel K → Command K → Prop}
    (h : Run (Transit.step world) ok (SimulationModel.init K) s) : Paired s ∧ Logged s := by
  apply h.invariant (I := fun s => Paired s ∧ Logged s)
  · intro _ _ _ _ hc hi
    exact invariant_of_stages (fun _ _ hs hl => stage world hs hl) (stages_of_step hc) hi
  · exact ⟨.init, .init⟩

end Logged

/-- In every reachable state a robot is unavailable if and only if it was assigned at some
time. So a rider is unavailable, a robot is assigned once at most, and when all robots of a
name were assigned, a trip for the name is not honoured. -/
theorem robots_of_reachable [Scalar K] (world : World K) {s : SimulationModel K}
    (h : Run (Transit.step world) (fun _ _ => True) (init K) s) :
    (∀ id robot, s.objects id = some (.robot robot) →
      (robot.available = false ↔ ∃ e r strat finalDest,
        .assigned e r strat finalDest ∈ s.journal ∧ r.getId = id)) ∧
    (∀ id d r, s.objects id = some (.drone d) → d.nearestEntity = some r →
      ∃ robot, s.objects r.getId = some (.robot robot) ∧ robot.available = false) ∧
    (∀ l₁ e r strat finalDest l₂ e' r' strat' finalDest' l₃,
      s.journal = l₁ ++ .assigned e r strat finalDest :: l₂ ++
        .assigned e' r' strat' finalDest' :: l₃ → r.getId ≠ r'.getId) ∧
    ∀ m, (∀ e ∈ s.entities, ∀ robot, s.objects e.getId = some (.robot robot) →
        robot.details.name = m.name → robot.available = false) →
      s.scheduleTrip world m = some (s.send .tripScheduled) := by
  obtain ⟨paired, logged⟩ := Logged.of_run world h
  refine ⟨?_, ?_, ?_, ?_⟩
  · intro id robot hr
    have free : s.robotFree id = some robot.available := by simp [robotFree, hr, Object.robotFree]
    have hspent := logged.spent id
    rw [free, Option.some.injEq] at hspent
    rw [hspent]
    constructor
    · intro hex
      obtain ⟨n, hn, e, r, strat, finalDest, rfl, hid⟩ := hex
      exact ⟨e, r, strat, finalDest, hn, hid⟩
    · intro hex
      obtain ⟨e, r, strat, finalDest, hn, hid⟩ := hex
      exact ⟨_, hn, e, r, strat, finalDest, rfl, hid⟩
  · intro id d r hd hr
    have rides : s.riderOf id = some r := by simp [riderOf, hd, Object.rider, hr]
    obtain ⟨robot, hrobot⟩ := Paired.robot_of_scheduler paired.wellFormed (paired.listed id r rides)
    refine ⟨robot, hrobot, ?_⟩
    simpa [robotFree, hrobot, Object.robotFree] using paired.taken id r rides
  · intro l₁ e r strat finalDest l₂ e' r' strat' finalDest' l₃ heq hid
    -- between two assignments of one robot it would have been made available
    obtain ⟨n, hn, hfrees⟩ := paired.separated r.getId l₁ _ l₂ _ l₃ heq
      ⟨e, r, strat, finalDest, rfl, rfl⟩ ⟨e', r', strat', finalDest', rfl, hid.symm⟩
    apply logged.neverFreed r.getId
    rw [heq, ← hfrees]
    simp [hn]
  · intro m gone
    have nobody : s.findRobot m.name = none := by
      apply List.find?_eq_none.mpr
      intro e he hsat
      simp only [Bool.and_eq_true, beq_iff_eq] at hsat
      obtain ⟨name, type, available⟩ := hsat
      obtain ⟨robot, hr⟩ := Paired.robot_of_type paired.wellFormed type
      have taken := gone e he robot hr (by simpa [hr, Object.getDetails] using name)
      simp [hr, Object.getAvailability, taken] at available
    simp only [SimulationModel.scheduleTrip, nobody]

/-- Each assignment gives the drone the end and the search of the last trip accepted for the
robot before it, which is the entry's own if no other came between. -/
theorem assigned_lastTrip [Scalar K] (world : World K) {s : SimulationModel K}
    (h : Run (Transit.step world) (fun _ _ => True) (init K) s)
    {l₁ l₂ : List (Note K)} {e r : TypeDecorator} {strat : String} {finalDest : Vector3 K}
    (assigned : s.journal = l₁ ++ .assigned e r strat finalDest :: l₂) :
    (∃ l₃ r' m l₄, l₁ = l₃ ++ .scheduled r' m :: l₄ ∧ r'.getId = r.getId ∧
      (∀ r'' m', .scheduled r'' m' ∈ l₄ → r''.getId ≠ r.getId) ∧
      strat = m.search ∧ finalDest = m.finish) ∧
    ∀ l₃ m l₄, l₁ = l₃ ++ .scheduled r m :: l₄ →
      (∀ r' m', .scheduled r' m' ∈ l₄ → r'.getId ≠ r.getId) →
      strat = m.search ∧ finalDest = m.finish := by
  have informed := (Logged.of_run world h).2.informed l₁ _ l₂ assigned
  obtain ⟨m, hm, hstrat, hdest⟩ := informed e r strat finalDest rfl
  refine ⟨?_, ?_⟩
  · obtain ⟨l₃, n, l₄, hl, hn, quiet⟩ := latest_eq_some hm
    cases n with
    | scheduled r' trip =>
        have htrip : r'.getId = r.getId ∧ trip = m := by simpa [Note.tripFor] using hn
        obtain ⟨hid, rfl⟩ := htrip
        refine ⟨l₃, r', trip, l₄, hl, hid, ?_, hstrat, hdest⟩
        intro r'' m' hmem hid'
        simpa [Note.tripFor, hid'] using quiet _ hmem
    | assigned _ _ _ _ | availability _ _ | updated _ _ => cases hn
  · intro l₃ m' l₄ hl quiet
    have last : lastTrip r.getId l₁ = some m' := by
      rw [hl, List.append_cons, lastTrip, latest_append_quiet]
      · exact latest_append_some l₃ (if_pos rfl)
      · intro n hn
        cases n with
        | scheduled r' trip => simp [Note.tripFor, quiet r' trip hn]
        | assigned _ _ _ _ | availability _ _ | updated _ _ => rfl
    rw [last] at hm
    cases hm
    exact ⟨hstrat, hdest⟩

/-- A drone at the origin and a robot; the trip ends where it begins. -/
def shortRide : List (Command Int) :=
  [.createEntity (atOrigin "drone" "Drone"), .createEntity (atOrigin "robot" "Robot"),
    .scheduleTrip ⟨"Robot", "standard", ⟨0, 0, 0⟩, "beeline"⟩, .update 0, .update 0]

theorem shortRide_run {s : SimulationModel Int}
    (hs : perform (Transit.step quietWorld) (init Int) shortRide = some s) :
    Run (Transit.step quietWorld) (fun _ _ => True) (init Int) s :=
  run_of_perform hs (fun _ _ _ => trivial)

theorem robots_of_reachable_shortRide :
    ∃ s, perform (Transit.step quietWorld) (init Int) shortRide = some s ∧
      ∃ robot, s.objects 2 = some (.robot robot) ∧
        (robot.available = false ↔ ∃ e r strat finalDest,
          .assigned e r strat finalDest ∈ s.journal ∧ r.getId = 2) := by
  obtain ⟨s, hs⟩ : ∃ s, perform (Transit.step quietWorld) (init Int) shortRide = some s :=
    ⟨_, rfl⟩
  obtain ⟨robot, hr⟩ : ∃ robot, s.objects 2 = some (.robot robot) := by
    cases hs
    exact ⟨_, rfl⟩
  exact ⟨s, hs, robot, hr, (robots_of_reachable quietWorld (shortRide_run hs)).1 2 robot hr⟩

/-- The trip is over, nobody has the robot as rider, and it is still unavailable. -/
theorem robot_unavailable_after_shortRide :
    ∃ s, Run (Transit.step quietWorld) (fun _ _ => True) (init Int) s ∧
      (∃ robot, s.objects 2 = some (.robot robot) ∧ robot.available = false) ∧
      ∀ id d, s.objects id = some (.drone d) → d.nearestEntity = none := by
  obtain ⟨s, hs⟩ : ∃ s, perform (Transit.step quietWorld) (init Int) shortRide = some s :=
    ⟨_, rfl⟩
  refine ⟨s, shortRide_run hs, ?_, ?_⟩
  · cases hs
    exact ⟨_, rfl, rfl⟩
  · intro id d hd
    have wf := (Paired.of_run quietWorld (shortRide_run hs)).wellFormed
    have made : s.profile id ≠ none := by simp [SimulationModel.profile, hd]
    have hlt := wf.lt_currentId made
    cases hs
    have hid : id < 5 := hlt
    obtain rfl | rfl | rfl | rfl | rfl :
        id = 0 ∨ id = 1 ∨ id = 2 ∨ id = 3 ∨ id = 4 := by omega
    · cases hd
      rfl
    · cases hd
    · cases hd
    · cases hd
    · cases hd

def firstTrip : TripMessage Int := ⟨"Robot", "standard", ⟨100, 0, 0⟩, "beeline"⟩

def secondTrip : TripMessage Int := ⟨"Robot", "standard", ⟨0, 0, 100⟩, "dfs"⟩

/-- A second trip for a robot that still waits for a drone. -/
def overtakenTrip : List (Command Int) :=
  [.createEntity (atOrigin "drone" "Drone"), .createEntity (atOrigin "robot" "Robot"),
    .scheduleTrip firstTrip, .scheduleTrip secondTrip, .update 0]

theorem overtakenTrip_run {s : SimulationModel Int}
    (hs : perform (Transit.step quietWorld) (init Int) overtakenTrip = some s) :
    Run (Transit.step quietWorld) (fun _ _ => True) (init Int) s :=
  run_of_perform hs (fun _ _ _ => trivial)

theorem assigned_lastTrip_overtakenTrip :
    ∃ s l₁ l₂ e r, perform (Transit.step quietWorld) (init Int) overtakenTrip = some s ∧
      s.journal = l₁ ++ .assigned e r "dfs" ⟨0, 0, 100⟩ :: l₂ ∧
      ∃ l₃ r' m l₄, l₁ = l₃ ++ .scheduled r' m :: l₄ ∧ r'.getId = r.getId ∧
        "dfs" = m.search ∧ (⟨0, 0, 100⟩ : Vector3 Int) = m.finish := by
  obtain ⟨s, hs⟩ : ∃ s, perform (Transit.step quietWorld) (init Int) overtakenTrip = some s :=
    ⟨_, rfl⟩
  have run := overtakenTrip_run hs
  obtain ⟨l₁, l₂, e, r, assigned⟩ : ∃ l₁ l₂ e r,
      s.journal = l₁ ++ .assigned e r "dfs" ⟨0, 0, 100⟩ :: l₂ := by
    cases hs
    exact ⟨[_, _, _, _], _, _, _, rfl⟩
  obtain ⟨⟨l₃, r', m, l₄, hl, hid, _, hstrat, hdest⟩, _⟩ :=
    assigned_lastTrip quietWorld run assigned
  exact ⟨s, l₁, l₂, e, r, hs, assigned, l₃, r', m, l₄, hl, hid, hstrat, hdest⟩

/-- The entry of the first trip is served with the search and the end of the second. -/
theorem first_entry_served_as_second :
    ∃ s, Run (Transit.step quietWorld) (fun _ _ => True) (init Int) s ∧
      ∃ e r strat finalDest, .scheduled r firstTrip ∈ s.journal ∧
        .assigned e r strat finalDest ∈ s.journal ∧
        strat ≠ firstTrip.search ∧ finalDest ≠ firstTrip.finish := by
  obtain ⟨s, hs⟩ : ∃ s, perform (Transit.step quietWorld) (init Int) overtakenTrip = some s :=
    ⟨_, rfl⟩
  obtain ⟨e, r, r', a, b, l, journal⟩ : ∃ e r r' a b l, s.journal =
      .scheduled r firstTrip :: .scheduled r' secondTrip :: a :: b ::
        .assigned e r "dfs" ⟨0, 0, 100⟩ :: l := by
    cases hs
    exact ⟨_, _, _, _, _, _, rfl⟩
  refine ⟨s, overtakenTrip_run hs, e, r, "dfs", ⟨0, 0, 100⟩, ?_, ?_, ?_, ?_⟩
  · simp [journal]
  · simp [journal]
  · decide
  · simp [firstTrip]

end SimulationModel

end UmnProjects.Transit
