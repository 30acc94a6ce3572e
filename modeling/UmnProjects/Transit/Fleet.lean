import UmnProjects.Transit.Arrival
import UmnProjects.Transit.Trips

/-!
The fleet left to itself: while nothing but updates happens, every trip ends, and every robot
that waits for a drone of a kind there is gets one.
-/
namespace UmnProjects.Transit

open Runs Progress

variable {K : Type}

namespace SimulationModel

/-! ### Those who wait -/

variable {s s' : SimulationModel K}

/-- The entries whose robots are still to be assigned. -/
def waiting (s : SimulationModel K) : List TypeDecorator :=
  s.scheduler.filter fun r => s.robotFree r.getId == some true

theorem mem_waiting {r : TypeDecorator} :
    r ∈ s.waiting ↔ r ∈ s.scheduler ∧ s.robotFree r.getId = some true := by
  simp [waiting]

theorem waiting_sublist (scheduler : s'.scheduler = s.scheduler)
    (free : ∀ a, s'.robotFree a = some true → s.robotFree a = some true) :
    s'.waiting.Sublist s.waiting := by
  rw [waiting, waiting, scheduler]
  refine List.monotone_filter_right _ ?_
  intro r hr
  rw [beq_iff_eq] at hr ⊢
  exact free _ hr

theorem waiting_length_lt {s' : SimulationModel K} (hsub : s'.waiting.Sublist s.waiting)
    {r : TypeDecorator} (hr : r ∈ s.waiting) (hr' : r ∉ s'.waiting) :
    s'.waiting.length < s.waiting.length := by
  refine Nat.lt_of_le_of_ne hsub.length_le ?_
  intro hlength
  rw [hsub.eq_of_length hlength] at hr'
  exact hr' hr

theorem availability_of_scheduler (h : WellFormed s) {r : TypeDecorator} (hr : r ∈ s.scheduler) :
    (s.objects r.getId).bind Object.getAvailability = s.robotFree r.getId := by
  obtain ⟨robot, hrobot⟩ := Paired.robot_of_scheduler h hr
  rw [robotFree, hrobot]
  rfl

/-- A handler finds nobody exactly when nobody waits for it. -/
theorem findRider_eq_none_iff (h : WellFormed s) {c : HandlerClass} :
    s.findRider c s.scheduler = none ↔ ∀ r ∈ s.waiting, r.travelType ≠ c.travelType := by
  rw [findRider, List.find?_eq_none]
  constructor
  · intro hnone r hr htype
    obtain ⟨hlisted, hfree⟩ := mem_waiting.mp hr
    apply hnone r hlisted
    rw [availability_of_scheduler h hlisted, hfree, htype]
    simp
  · intro hnone r hr hsat
    rw [availability_of_scheduler h hr, Bool.and_eq_true, beq_iff_eq, beq_iff_eq] at hsat
    exact hnone r (mem_waiting.mpr ⟨hr, hsat.1⟩) hsat.2

theorem handles_of_drone (h : WellFormed s) {e : TypeDecorator} {d : Drone K}
    (hd : s.objects e.getId = some (.drone d)) {c : HandlerClass}
    (htype : c.travelType = e.travelType) : s.handles c e = true := by
  have hname : d.details.type = "drone" :=
    h.typed e.getId ("drone", d.details) (by rw [profile, hd]; rfl)
  simp [handles, getType, hd, Object.getDetails, hname, htype]

theorem exists_handler (e : TypeDecorator) : ∃ c ∈ chain, c.travelType = e.travelType := by
  cases e.travelType with
  | standard => exact ⟨StandardHandler, by simp [chain], rfl⟩
  | fancy => exact ⟨FancyHandler, by simp [chain], rfl⟩
  | extravagant => exact ⟨ExtravagantHandler, by simp [chain], rfl⟩

variable [Scalar K] (world : World K)

/-- A free drone takes somebody if there is somebody for it. -/
theorem handle_serves (h : Paired s) (dt : K) {e : TypeDecorator} (he : e ∈ s.entities)
    {d : Drone K} (hd : s.objects e.getId = some (.drone d)) (hfree : d.available = true)
    {handlers : List HandlerClass} {r : TypeDecorator} (hr : r ∈ s.waiting)
    (hhandled : ∃ c ∈ handlers, s.handles c e = true)
    (htype : r.travelType = e.travelType) :
    ∃ r' ∈ s.waiting,
      (handle world dt e s.scheduler handlers s).robotFree r'.getId = some false := by
  have hcalm (t : SimulationModel K) (a : Nat) :=
    Paired.robotFree_calm (Calm.updateEntity world t e dt) a
  induction handlers with
  | nil => exact absurd hhandled.choose_spec.1 List.not_mem_nil
  | cons c next ih =>
      simp only [handle]
      split
      · next handled =>
          have havailable : (s.objects e.getId).bind Object.getAvailability = some true := by
            simp [hd, Object.getAvailability, hfree]
          rw [if_pos havailable]
          split
          · next hnone =>
              have hnobody := (findRider_eq_none_iff h.wellFormed).mp hnone r hr
              simp only [handles, Bool.and_eq_true, beq_iff_eq] at handled
              exact absurd (htype.trans handled.2) hnobody
          · next rider found =>
              have hpairs := h.assign_pairs world he handled found
              exact ⟨rider, mem_waiting.mpr ⟨hpairs.listed, hpairs.wasFree⟩, by
                rw [hcalm, hpairs.isTaken]⟩
      · next handled =>
          obtain ⟨r', hr', htaken⟩ := ih (by
            obtain ⟨c', hc', hhandles⟩ := hhandled
            obtain rfl | hc' := List.mem_cons.mp hc'
            · exact absurd hhandles handled
            · exact ⟨c', hc', hhandles⟩)
          exact ⟨r', hr', by rw [hcalm, htaken]⟩

theorem waiting_update (h : Paired s) (dt : K) : (s.update world dt).waiting.Sublist s.waiting :=
  waiting_sublist (Steady.foldl_updateOne world dt s.entities s).scheduler
    fun _ => robotFree_foldl world h dt s.entities fun _ he => he

/-- An update with a free drone that somebody waits for leaves fewer waiting. -/
theorem update_serves (h : Paired s) (hl : Listed s) (dt : K) {e : TypeDecorator}
    (he : e ∈ s.entities) {d : Drone K} (hd : s.objects e.getId = some (.drone d))
    (hfree : d.available = true) {r : TypeDecorator} (hr : r ∈ s.waiting)
    (htype : r.travelType = e.travelType) :
    (s.update world dt).waiting.length < s.waiting.length := by
  obtain ⟨t, es', ht, hsteady, htd, hkept, heq, hmem, _⟩ := update_turn world h hl he hd dt
  have het : e ∈ t.entities := by
    rw [hsteady.entities]
    exact he
  have hmem' : ∀ a ∈ es', a ∈ (t.updateOne world dt e).entities := by
    intro a ha
    rw [(Steady.updateOne world dt t e).entities, hsteady.entities]
    exact hmem a ha
  -- Somebody is gone from the list: before the turn of the drone, or in it.
  have hgone : ∃ r' ∈ s.waiting, (t.updateOne world dt e).robotFree r'.getId ≠ some true := by
    by_cases hwaits : t.robotFree r.getId = some true
    · have hrt : r ∈ t.waiting := by
        rw [mem_waiting, hsteady.scheduler]
        exact ⟨(mem_waiting.mp hr).1, hwaits⟩
      obtain ⟨c, hc, hctype⟩ := exists_handler e
      obtain ⟨r', hr', htaken⟩ := handle_serves world ht dt het htd hfree hrt
        ⟨c, hc, handles_of_drone ht.wellFormed htd hctype⟩ htype
      refine ⟨r', (waiting_sublist hsteady.scheduler hkept).subset hr', ?_⟩
      rw [robotFree, objects_updateOne]
      rw [robotFree] at htaken
      simp [htaken]
    · exact ⟨r, hr, fun hwaits' => hwaits (robotFree_updateOne world ht dt het hwaits')⟩
  obtain ⟨r', hr', hnot⟩ := hgone
  refine waiting_length_lt (waiting_update world h dt) hr' ?_
  intro hstill
  apply hnot
  refine robotFree_foldl world (ht.updateOne world dt het) dt es' hmem' ?_
  rw [← heq]
  exact (mem_waiting.mp hstill).2

/-- A drone that is idle and that nobody waits for stays as it is. -/
theorem update_idle (h : Paired s) (hl : Listed s) (dt : K) {e : TypeDecorator}
    (he : e ∈ s.entities) {d : Drone K} (hd : s.objects e.getId = some (.drone d))
    (hidle : d.Idle) (hnobody : ∀ r ∈ s.waiting, r.travelType ≠ e.travelType) :
    (s.update world dt).objects e.getId = some (.drone d) := by
  obtain ⟨d', hd', rfl⟩ := drone_update world h hl he hd dt (P := fun d' => d' = d) (by
    intro t ht hsteady htd hkept
    refine ⟨d, ?_, rfl⟩
    refine drone_handle_idle world ht htd hidle dt (hsteady.entities.symm ▸ he) (fun _ hc => hc) ?_
    intro c _ handled
    simp only [handles, Bool.and_eq_true, beq_iff_eq] at handled
    rw [findRider_eq_none_iff ht.wellFormed, ← handled.2]
    intro r hr
    exact hnobody r ((waiting_sublist hsteady.scheduler hkept).subset hr))
  exact hd'

/-! ### Trips with known searches -/

/-- A trip asks for a search there is a strategy for. -/
def KnownSearch (_ : SimulationModel K) : Command K → Prop
  | .scheduleTrip m => m.search ∈ strategyNames
  | _ => True

/-- Updates note no trips. -/
theorem journal_handle (dt : K) (e : TypeDecorator) (scheduler : List TypeDecorator)
    (handlers : List HandlerClass) (s : SimulationModel K) :
    ∃ ns, (handle world dt e scheduler handlers s).journal = s.journal ++ ns ∧
      ∀ n ∈ ns, ∀ id, n.tripFor id = none := by
  induction handlers with
  | nil => exact ⟨[], (List.append_nil _).symm, by simp⟩
  | cons c next ih =>
      simp only [handle]
      split
      · rw [journal_updateEntity]
        split
        · split
          · exact ⟨_, rfl, by simp [Note.tripFor]⟩
          · next rider _ =>
              obtain ⟨strat, finalDest, hassign⟩ := s.journal_assign world c e rider
              rw [hassign, journal_claim, List.append_assoc, List.append_assoc]
              exact ⟨_, rfl, by simp [Note.tripFor]⟩
        · exact ⟨_, rfl, by simp [Note.tripFor]⟩
      · obtain ⟨ns, hns, hquiet⟩ := ih
        rw [journal_updateEntity, hns, List.append_assoc]
        refine ⟨_, rfl, List.forall_mem_append.mpr ⟨hquiet, ?_⟩⟩
        simp [Note.tripFor]

theorem journal_foldl (dt : K) (es : List TypeDecorator) (s : SimulationModel K) :
    ∃ ns, (es.foldl (updateOne world dt) s).journal = s.journal ++ ns ∧
      ∀ n ∈ ns, ∀ id, n.tripFor id = none := by
  induction es generalizing s with
  | nil => exact ⟨[], (List.append_nil _).symm, by simp⟩
  | cons e es ih =>
      obtain ⟨ns, hns, hquiet⟩ := journal_handle world dt e s.scheduler chain s
      obtain ⟨ns', hns', hquiet'⟩ := ih (s.updateOne world dt e)
      refine ⟨ns ++ ns', ?_, List.forall_mem_append.mpr ⟨hquiet, hquiet'⟩⟩
      rw [List.foldl_cons, hns', journal_updateOne, hns, List.append_assoc]

theorem lastTrip_update (dt : K) (s : SimulationModel K) (id : Nat) :
    lastTrip id (s.update world dt).journal = lastTrip id s.journal := by
  obtain ⟨ns, hns, hquiet⟩ := journal_foldl world dt s.entities s
  rw [update, hns, lastTrip, History.latest_append_quiet fun n hn => hquiet n hn id]
  rfl

theorem scheduled_update (dt : K) (s : SimulationModel K) {r : TypeDecorator}
    {m : TripMessage K} :
    .scheduled r m ∈ (s.update world dt).journal ↔ .scheduled r m ∈ s.journal := by
  obtain ⟨ns, hns, hquiet⟩ := journal_foldl world dt s.entities s
  rw [update, hns, List.mem_append]
  refine ⟨fun h => h.resolve_right fun hm => ?_, .inl⟩
  have hnone := hquiet _ hm r.getId
  simp [Note.tripFor] at hnone

theorem lastTrip_updates (dt : K) (s : SimulationModel K) (k id : Nat) :
    lastTrip id ((update world dt)^[k] s).journal = lastTrip id s.journal := by
  induction k with
  | zero => rfl
  | succ k ih => rw [Function.iterate_succ_apply', lastTrip_update, ih]

theorem steady_updates (dt : K) (s : SimulationModel K) (k : Nat) :
    Steady s ((update world dt)^[k] s) := by
  induction k with
  | zero => exact .refl s
  | succ k ih =>
      rw [Function.iterate_succ_apply']
      exact ih.trans (Steady.foldl_updateOne world dt _ _)

theorem search_of_run (h : Run (Transit.step world) KnownSearch (init K) s) {r : TypeDecorator}
    {m : TripMessage K} (hm : .scheduled r m ∈ s.journal) : m.search ∈ strategyNames := by
  induction h with
  | refl => cases hm
  | @tail t u c _ hok hc ih =>
      cases c with
      | createEntity m' =>
          obtain ⟨_, _, _, _, _, _, _, journal, _⟩ := WellFormed.createEntity_spec world hc
          exact ih (journal ▸ hm)
      | scheduleTrip m' =>
          obtain rfl | ⟨e, travelType, s₁, _, _, rfl, _, _, _, _, journal⟩ :=
            WellFormed.scheduleTrip_spec world hc
          · exact ih hm
          · rw [journal, journal_modify, journal_setDestination] at hm
            obtain hm | hm := List.mem_append.mp hm
            · exact ih hm
            · cases List.mem_singleton.mp hm
              exact hok
      | update dt =>
          cases hc
          exact ih ((scheduled_update world dt t).mp hm)

/-- No drone is stranded. -/
theorem consistent_of_run (h : Run (Transit.step world) KnownSearch (init K) s) {id : Nat}
    {d : Drone K} (hd : s.objects id = some (.drone d)) : d.Consistent := by
  have htracked := Tracked.of_run world h
  obtain hconsistent | hstranded := htracked.states id _ hd
  · exact hconsistent
  · obtain ⟨n, hn, e, r, strat, finalDest, rfl, hunknown⟩ :=
      htracked.stranded.mp ⟨id, _, hd, hstranded⟩
    obtain ⟨l₁, l₂, hj⟩ := List.append_of_mem hn
    obtain ⟨m, hm, rfl, _⟩ :=
      (Logged.of_run world h).2.informed l₁ _ l₂ hj e r strat finalDest rfl
    obtain ⟨l₃, n, l₄, hl, htrip, _⟩ := History.latest_eq_some hm
    obtain ⟨r', heq⟩ : ∃ r', n = .scheduled r' m := by
      cases n with
      | scheduled r' m' =>
          simp only [Note.tripFor] at htrip
          split at htrip
          · cases htrip
            exact ⟨r', rfl⟩
          · cases htrip
      | updated _ _ | availability _ _ | assigned _ _ _ _ => cases htrip
    refine absurd (search_of_run world h (r := r') (m := m) ?_) hunknown
    rw [hj, hl, heq]
    simp

/-! ### The fleet under updates -/

/-- A state that runs lead to in which trips ask for known searches, with drones of good speeds. -/
structure Operated (good : K → Prop) (s : SimulationModel K) : Prop where
  run : Run (Transit.step world) KnownSearch (init K) s
  speed : ∀ id d, s.objects id = some (.drone d) → good d.speed

/-- There is nobody a drone could take. -/
def Served (s : SimulationModel K) : Prop :=
  ∀ e ∈ s.entities, ∀ d, s.objects e.getId = some (.drone d) →
    ∀ r ∈ s.waiting, r.travelType ≠ e.travelType

/-- Every drone is idle, and those who wait ask for drones there are not. -/
structure AtRest (s : SimulationModel K) : Prop where
  idle : ∀ id d, s.objects id = some (.drone d) → d.Idle
  served : s.Served

def HasFreeDrone (id : Nat) (s : SimulationModel K) : Prop :=
  ∃ d, s.objects id = some (.drone d) ∧ d.available = true

section Updates

variable {world} {good : K → Prop} (hlast : IStrategy.CelebrationsLast K) {dt : K}

namespace Operated

theorem paired (h : Operated world good s) : Paired s := (Logged.of_run world h.run).1

theorem listed (h : Operated world good s) : Listed s := .of_run world h.run

include hlast

theorem sound (h : Operated world good s) {id : Nat} {d : Drone K}
    (hd : s.objects id = some (.drone d)) : d.Sound good where
  consistent := consistent_of_run world h.run hd
  equipped := equipped_of_run world hlast h.run hd
  speed := h.speed id d hd

theorem kept : Kept (update world dt) (Operated world good) := by
  intro s h
  refine ⟨.tail (a := .update dt) h.run trivial rfl, ?_⟩
  intro id d hd
  obtain ⟨d', hd', hspeed⟩ := speed_update world hlast h.paired dt hd
  rw [← hspeed]
  exact h.speed id d' hd'

omit hlast in
theorem drone_before {id : Nat} {d : Drone K}
    (hd : (s.update world dt).objects id = some (.drone d)) :
    ∃ d', s.objects id = some (.drone d') :=
  drone_of_profile ((Steady.foldl_updateOne world dt s.entities s).profile id) hd

/-- No drone is on a trip for ever. By induction on the calls of `Update` that its trip takes. -/
theorem free (hends : ∀ (strategy : IStrategy K) (d : Drone K), strategy.Phased →
      good d.speed → strategy.Ends dt d)
    (h : Operated world good s) {id : Nat} {d : Drone K} (hd : s.objects id = some (.drone d)) :
    Eventually (update world dt) (HasFreeDrone id) s := by
  obtain ⟨n, hn⟩ := (h.sound hlast hd).lands hlast hends
  induction n using Nat.strongRecOn generalizing s d with
  | ind n ih =>
      cases hfree : d.available with
      | true => exact .now ⟨d, hd, hfree⟩
      | false =>
          obtain ⟨k, hk, hd'⟩ := drone_update_busy world h.paired h.listed hd hfree dt
          refine .later ?_
          obtain hle | hlt := le_or_gt k n
          · refine ih (n - k) (by omega) (kept hlast s h) hd' ?_
            rwa [← Function.iterate_add_apply, Nat.sub_add_cancel hle]
          · obtain ⟨j, rfl⟩ := Nat.exists_eq_add_of_le' hlt.le
            rw [Function.iterate_add_apply, Function.iterate_fixed (Drone.fly_idle dt hn)] at hd'
            exact .now ⟨_, hd', hn.available⟩

/-- The entities stay, and nobody joins those who wait. -/
theorem keeps_waiting (t : SimulationModel K) : Kept (update world dt) fun u =>
    Operated world good u ∧ u.entities = t.entities ∧ u.waiting.Sublist t.waiting := by
  intro u hu
  obtain ⟨h, hentities, hwaiting⟩ := hu
  exact ⟨kept hlast u h, (Steady.foldl_updateOne world dt u.entities u).entities.trans hentities,
    (waiting_update world h.paired dt).trans hwaiting⟩

theorem keeps_served (t : SimulationModel K) : Kept (update world dt) fun u =>
    (Operated world good u ∧ u.entities = t.entities) ∧ Served u := by
  intro u hu
  obtain ⟨⟨h, hentities⟩, hserved⟩ := hu
  have hsteady := Steady.foldl_updateOne world dt u.entities u
  refine ⟨⟨kept hlast u h, hsteady.entities.trans hentities⟩, ?_⟩
  intro e he d hd r hr
  rw [update, hsteady.entities] at he
  obtain ⟨d', hd'⟩ := drone_before hd
  exact hserved e he d' hd' r ((waiting_update world h.paired dt).subset hr)

/-- A drone that somebody waits for becomes free, and then fewer are waiting. -/
theorem served (hends : ∀ (strategy : IStrategy K) (d : Drone K), strategy.Phased →
      good d.speed → strategy.Ends dt d) (h : Operated world good s) :
    Eventually (update world dt) Served s := by
  refine eventually_of_measure (fun t => t.waiting.length) (kept hlast) h ?_
  intro t ht
  by_cases hserved : t.Served
  · exact .now (.inl hserved)
  · simp only [Served, not_forall, not_not] at hserved
    obtain ⟨e, he, d, hd, r, hr, htype⟩ := hserved
    refine ((ht.free hlast hends hd).keep (keeps_waiting hlast t) ⟨ht, rfl, .refl _⟩).trans ?_
    intro u hu
    obtain ⟨⟨hu, hentities, hwaiting⟩, d', hd', hfree⟩ := hu
    by_cases hstill : r ∈ u.waiting
    · have hfewer := update_serves world hu.paired hu.listed dt (hentities ▸ he) hd' hfree hstill
        htype
      exact .later (.now (.inr (hfewer.trans_le hwaiting.length_le)))
    · exact .now (.inr (waiting_length_lt hwaiting hr hstill))

theorem keeps_idle (t : SimulationModel K) {e : TypeDecorator} (he : e ∈ t.entities) :
    Kept (update world dt) fun u => ((Operated world good u ∧ u.entities = t.entities) ∧ Served u) ∧
      ∀ d, u.objects e.getId = some (.drone d) → d.Idle := by
  intro u hu
  obtain ⟨hserved, hidle⟩ := hu
  refine ⟨keeps_served hlast t u hserved, ?_⟩
  obtain ⟨⟨h, hentities⟩, hserved⟩ := hserved
  intro d hd
  obtain ⟨d', hd'⟩ := drone_before hd
  rw [← hentities] at he
  have hsame := update_idle world h.paired h.listed dt he hd' (hidle d' hd') (hserved e he d' hd')
  rw [hd] at hsame
  cases hsame
  exact hidle _ hd'

theorem atRest (hends : ∀ (strategy : IStrategy K) (d : Drone K), strategy.Phased →
      good d.speed → strategy.Ends dt d) (h : Operated world good s) :
    Eventually (update world dt) AtRest s := by
  refine ((h.served hlast hends).keep (kept hlast) h).trans ?_
  intro t ht
  obtain ⟨ht, hserved⟩ := ht
  have hall := eventually_all t.entities (keeps_served hlast t) ⟨⟨ht, rfl⟩, hserved⟩
    (R := fun e u => ∀ d, u.objects e.getId = some (.drone d) → d.Idle)
    (fun e he => keeps_idle hlast t he) (by
      intro e _ u hu
      obtain ⟨⟨hu, _⟩, _⟩ := hu
      by_cases hdrone : ∃ d, u.objects e.getId = some (.drone d)
      · obtain ⟨d, hd⟩ := hdrone
        refine ((hu.free hlast hends hd).keep (kept hlast) hu).mono ?_
        intro v hv d'' hd''
        obtain ⟨hv, d', hd', hfree⟩ := hv
        rw [hd''] at hd'
        cases hd'
        exact (hv.sound hlast hd'').consistent.idle hfree
      · exact .now fun d hd => absurd ⟨d, hd⟩ hdrone)
  refine (hall.keep (keeps_served hlast t) ⟨⟨ht, rfl⟩, hserved⟩).mono ?_
  intro u hu
  obtain ⟨⟨⟨hu, hentities⟩, hserved⟩, hidle⟩ := hu
  refine ⟨?_, hserved⟩
  intro id d hd
  obtain ⟨e, he, rfl⟩ := hu.listed.all id (by simp [hd])
  exact hidle e (hentities ▸ he) d hd

/-- Once at rest, an update changes no drone and takes nobody. -/
theorem keeps_atRest :
    Kept (update world dt) fun u => Operated world good u ∧ AtRest u := by
  intro u hu
  obtain ⟨h, hrest⟩ := hu
  have hserved : (Operated world good (u.update world dt) ∧ _) ∧ (u.update world dt).Served :=
    keeps_served hlast u u ⟨⟨h, rfl⟩, hrest.served⟩
  refine ⟨hserved.1.1, ?_, hserved.2⟩
  intro id d hd
  obtain ⟨d', hd'⟩ := drone_before hd
  obtain ⟨e, he, rfl⟩ := h.listed.all id (by simp [hd'])
  exact (keeps_idle hlast u he u ⟨⟨⟨h, rfl⟩, hrest.served⟩, fun d _ => hrest.idle _ d ‹_›⟩).2 d hd

end Operated

end Updates

/-! ### In exact arithmetic -/

section Exact

theorem timePasses {dt : ℝ} (hdt : 0 < dt) : @IStrategy.TimePasses ℝ realScalar dt := by
  intro time
  obtain ⟨n, hn⟩ := exists_nat_ge ((4 - time) / dt)
  refine ⟨n, ?_⟩
  have htime : (· + dt)^[n] time = time + n * dt := by
    rw [add_right_iterate, nsmul_eq_mul]
  change decide ((· + dt)^[n] time < ((4 : ℤ) : ℝ)) = false
  rw [htime, decide_eq_false_iff_not, not_lt]
  rw [div_le_iff₀ hdt] at hn
  push_cast
  linarith

/-- Steps that are too short to pass over a waypoint bring every strategy to its end. -/
theorem ends_of_short {E : Type} [Movable ℝ E] [LawfulMovable ℝ E] {dt : ℝ} {e : E}
    (hdt : 0 < dt) (hspeed : 0 < (Movable.getSpeed e : ℝ)) (hshort : Movable.getSpeed e * dt < 8)
    (s : IStrategy ℝ) : @IStrategy.Ends ℝ E realScalar _ dt s e := by
  have hreach := (forall_withinReach_iff (mul_pos hspeed hdt)).mpr hshort
  induction s with
  | beeline position destination =>
      exact (beeline_completes_iff hdt hspeed position destination).mpr (hreach _ _)
  | path points index =>
      exact (path_completes_iff hdt hspeed rfl).mpr (forall_walkable_iff.mpr hreach _ _)
  | jump strategy time ih => exact @IStrategy.Ends.jump ℝ E realScalar _ _ (timePasses hdt) _ _ ih _
  | spin strategy time ih => exact @IStrategy.Ends.spin ℝ E realScalar _ _ (timePasses hdt) _ _ ih _

/-- The states of a fleet that is left to itself are those of a run, and from some point on the
fleet is at rest in them. -/
theorem rests (world : World ℝ) {s : SimulationModel ℝ} {dt : ℝ} (hdt : 0 < dt)
    (h : Run (@Transit.step ℝ realScalar world) KnownSearch (init ℝ) s)
    (hspeed : ∀ id d, s.objects id = some (.drone d) → 0 < d.speed ∧ d.speed * dt < 8) :
    ∃ n, ∀ m, n ≤ m →
      Run (@Transit.step ℝ realScalar world) KnownSearch (init ℝ)
        ((@update ℝ realScalar world dt)^[m] s) ∧
      AtRest ((@update ℝ realScalar world dt)^[m] s) := by
  let scalar := realScalar
  have hoperated : Operated world (fun speed : ℝ => 0 < speed ∧ speed * dt < 8) s := ⟨h, hspeed⟩
  have hends (strategy : IStrategy ℝ) (d : Drone ℝ) (_ : strategy.Phased)
      (hgood : 0 < d.speed ∧ d.speed * dt < 8) : strategy.Ends dt d :=
    ends_of_short hdt hgood.1 hgood.2 strategy
  have hrest := (hoperated.atRest celebrationsLast hends).keep
    (Operated.kept celebrationsLast) hoperated
  obtain ⟨n, hn⟩ := hrest.forever (Operated.keeps_atRest celebrationsLast)
  exact ⟨n, fun m hm => ⟨(hn m hm).1.run, (hn m hm).2⟩⟩

/-- After a run in which every trip asks for a known search, updates alone bring the fleet to
rest, if each of their steps is too short for a drone to pass over a waypoint: after some number
of them every drone is idle, nobody who waits asks for a drone there is, and so it stays. -/
theorem fleet_comes_to_rest (world : World ℝ) {s : SimulationModel ℝ} {dt : ℝ} (hdt : 0 < dt)
    (h : Run (@Transit.step ℝ realScalar world) KnownSearch (init ℝ) s)
    (hspeed : ∀ id d, s.objects id = some (.drone d) → 0 < d.speed ∧ d.speed * dt < 8) :
    ∃ n, ∀ m, n ≤ m → AtRest ((@update ℝ realScalar world dt)^[m] s) := by
  obtain ⟨n, hn⟩ := rests world hdt h hspeed
  exact ⟨n, fun m hm => (hn m hm).2⟩

/-- No routes, random numbers at the lower bound. -/
def calmWorld : World ℝ where
  getPath _ _ _ := []
  random _ min _ := min
  uninitialized := false
  noName := ""

/-- A drone and a robot that it is to bring away. -/
noncomputable def errand : List (Command ℝ) :=
  [.createEntity ⟨"drone", "Drone", ⟨0, 0, 0⟩, ⟨1, 0, 0⟩, (30 : ℕ)⟩,
    .createEntity ⟨"robot", "Robot", ⟨(50 : ℕ), 0, 0⟩, ⟨1, 0, 0⟩, (30 : ℕ)⟩,
    .scheduleTrip ⟨"Robot", "standard", ⟨(100 : ℕ), 0, 0⟩, "beeline"⟩]

theorem fleet_comes_to_rest_errand :
    ∃ s, perform (@Transit.step ℝ realScalar calmWorld) (init ℝ) errand = some s ∧
      s.waiting.length = 1 ∧
      ∃ n, ∀ m, n ≤ m → AtRest ((@update ℝ realScalar calmWorld (1 / 100))^[m] s) := by
  obtain ⟨s, hs⟩ : ∃ s,
      perform (@Transit.step ℝ realScalar calmWorld) (init ℝ) errand = some s := ⟨_, rfl⟩
  have hwaiting : s.waiting.length = 1 := by
    cases hs
    rfl
  have hknown : ∀ c ∈ errand, ∀ s, KnownSearch s c := by
    simp [errand, KnownSearch, strategyNames]
  have hspeed : ∀ id d, s.objects id = some (.drone d) → d.speed = (30 : ℕ) := by
    intro id d hd
    cases hs
    obtain _ | _ | _ | id := id
    · cases hd
      rfl
    all_goals cases hd
  refine ⟨s, hs, hwaiting, ?_⟩
  refine fleet_comes_to_rest calmWorld (by norm_num) (run_of_perform hs hknown) ?_
  intro id d hd
  rw [hspeed id d hd]
  norm_num

end Exact

end SimulationModel

end UmnProjects.Transit
