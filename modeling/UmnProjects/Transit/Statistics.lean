import UmnProjects.Transit.CommandOutcomes
import UmnProjects.Transit.Sessions

/-!
What the data collection reports. It keeps its numbers by the name of an entity; the calls
of `UpdatePosition` are watched here by the entity itself.
-/
namespace UmnProjects.Transit
open Runs

variable {K : Type}

/-- The calls of `UpdatePosition` for each object so far: the time that was passed and the
position the object had. -/
structure Watched (K : Type) where
  model : SimulationModel K
  calls : Nat → List (K × Vector3 K)

namespace SimulationModel

/-- All but the objects, the journal and the count of random numbers is as it was. -/
def Inner (s s' : SimulationModel K) : Prop :=
  s' = { s with objects := s'.objects, draws := s'.draws, journal := s'.journal }

namespace Inner

variable {s s' s'' : SimulationModel K}

theorem refl (s : SimulationModel K) : Inner s s := rfl

theorem trans (h : Inner s s') (h' : Inner s' s'') : Inner s s'' := by
  rw [Inner] at h h' ⊢
  rw [h', h]

theorem dataCollection (h : Inner s s') : s'.dataCollection = s.dataCollection := by
  rw [h]

variable [Scalar K] (world : World K)

theorem setDestination (s : SimulationModel K) (id : Nat) (des : Vector3 K) :
    Inner s (s.setDestination world id des) := by
  unfold SimulationModel.setDestination
  split <;> rfl

theorem assign (s : SimulationModel K) (h : HandlerClass) (e rider : TypeDecorator) :
    Inner s (s.assign world h e rider) := by
  have claimed : Inner s (s.claim world e rider) := by
    refine trans ?_ (setDestination world _ e.getId _)
    rfl
  exact claimed.trans rfl

theorem updateDrone (s : SimulationModel K) (id : Nat) (d : Drone K) (dt : K) :
    Inner s (s.updateDrone id d dt) := by
  unfold SimulationModel.updateDrone
  split
  · rfl
  · split
    · rfl
    · simp only
      split <;> split <;> rfl

theorem updateEntity (s : SimulationModel K) (e : TypeDecorator) (dt : K) :
    Inner s (s.updateEntity world e dt) := by
  have noted : Inner s (s.note (.updated e dt)) := rfl
  refine noted.trans ?_
  unfold SimulationModel.updateEntity
  simp only
  split
  · exact updateDrone _ _ _ dt
  · unfold updateHuman
    split
    · rfl
    · split <;> rfl
  · unfold updateHelicopter
    split
    · rfl
    · split <;> rfl
  · unfold updateUfo
    split <;> rfl
  · rfl
  · rfl

theorem handle (dt : K) (e : TypeDecorator) (scheduler : List TypeDecorator)
    (handlers : List HandlerClass) (s : SimulationModel K) :
    Inner s (handle world dt e scheduler handlers s) := by
  induction handlers with
  | nil => rfl
  | cons h next ih =>
      simp only [SimulationModel.handle]
      split
      · refine trans ?_ (updateEntity world _ e dt)
        split
        · split
          · rfl
          · exact assign world s h e _
        · rfl
      · exact ih.trans (updateEntity world _ e dt)

end Inner

/-- What is there stays there. -/
theorem Steady.listed {s s' : SimulationModel K} (h : Steady s s') {es : List TypeDecorator}
    (hes : ∀ e ∈ es, s.profile e.getId ≠ none) : ∀ e ∈ es, s'.profile e.getId ≠ none := by
  intro e he
  rw [h.profile]
  exact hes e he

variable [Scalar K] (world : World K)

/-- A round of the loop of `Update`, with the call of `UpdatePosition` at its end watched. -/
def watchOne (dt : K) (w : Watched K) (e : TypeDecorator) : Watched K :=
  let s := (handle world dt e w.model.scheduler chain w.model).send (.updateEntity e.getId)
  match s.objects e.getId with
  | none => { w with model := s }
  | some o =>
      { model := s.updatePosition o dt
        calls := Function.update w.calls e.getId (w.calls e.getId ++ [(dt, o.getPosition)]) }

def watch (w : Watched K) : Command K → Option (Watched K)
  | .createEntity m => (w.model.createEntity world m).map fun s => { w with model := s }
  | .scheduleTrip m => (w.model.scheduleTrip world m).map fun s => { w with model := s }
  | .update dt => some (w.model.entities.foldl (watchOne world dt) w)

theorem watchOne_model (dt : K) (w : Watched K) (e : TypeDecorator) :
    (watchOne world dt w e).model = w.model.updateOne world dt e := by
  unfold watchOne updateOne
  generalize (handle world dt e w.model.scheduler chain w.model).send (.updateEntity e.getId) = s
  cases ho : s.objects e.getId with
  | none => simp only [ho]
  | some o => simp only [ho]

theorem foldl_watchOne_model (dt : K) (es : List TypeDecorator) (w : Watched K) :
    (es.foldl (watchOne world dt) w).model = es.foldl (updateOne world dt) w.model := by
  induction es generalizing w with
  | nil => rfl
  | cons e es ih => rw [List.foldl_cons, ih, watchOne_model, List.foldl_cons]

/-- Watching changes nothing. -/
theorem watch_model (w : Watched K) (c : Command K) :
    (watch world w c).map Watched.model = Transit.step world w.model c := by
  cases c with
  | createEntity m | scheduleTrip m =>
      rw [watch, Option.map_map]
      exact Option.map_id'
  | update dt => exact congrArg some (foldl_watchOne_model world dt _ w)

end SimulationModel

/-! ### Tallies -/

/-- What is kept of the calls for one name. -/
structure Tally (K : Type) where
  position : Vector3 K
  distance : K
  time : K

def Collected.tally (c : Collected K) : Tally K := ⟨c.position, c.distance, c.time⟩

section Tallies

variable [Scalar K]

def Tally.add (t : Tally K) (call : K × Vector3 K) : Tally K :=
  ⟨call.2, t.distance + t.position.distance call.2, call.1 + t.time⟩

def tally (start : Vector3 K) (calls : List (K × Vector3 K)) : Tally K :=
  calls.foldl Tally.add ⟨start, Scalar.ofInt 0, Scalar.ofInt 0⟩

theorem tally_append (start : Vector3 K) (calls : List (K × Vector3 K)) (call : K × Vector3 K) :
    tally start (calls ++ [call]) = (tally start calls).add call := by
  rw [tally, List.foldl_append]
  rfl

namespace SimulationModel

variable {s s' : SimulationModel K}

/-- A call of `UpdatePosition` counts for the name of its object and for no other. -/
theorem updatePosition_spec (o : Object K) (dt : K) :
    (∀ name, name ≠ o.getDetails.name →
      (s.updatePosition o dt).dataCollection name = s.dataCollection name) ∧
    ∀ c, s.dataCollection o.getDetails.name = some c →
      ∃ c', (s.updatePosition o dt).dataCollection o.getDetails.name = some c' ∧
        c'.tally = c.tally.add (dt, o.getPosition) := by
  refine ⟨fun name hname => Function.update_of_ne hname _ _, fun c hc => ?_⟩
  refine ⟨_, (Function.update_self _ _ _).trans (by rw [hc]; rfl), rfl⟩

variable (world : World K)

theorem inner_newObject {m : EntityMessage K} {o : Object K}
    (h : s.newObject world m = some (o, s')) : Inner s s' := by
  obtain ⟨_, rfl, _⟩ | ⟨_, rfl, _⟩ | ⟨_, rfl, _⟩ | ⟨_, rfl, _⟩ | ⟨_, rfl, _⟩ :=
    WellFormed.newObject_cases world h
  all_goals rfl

/-- A creation starts the tally of its name anew. -/
theorem createEntity_tally {m : EntityMessage K} (h : s.createEntity world m = some s') :
    ∃ o c, s'.objects = Function.update s.objects s.currentId (some o) ∧
      o.getDetails = ⟨m.type, m.name, m.position, m.direction, m.speed⟩ ∧
      s'.dataCollection = Function.update s.dataCollection m.name (some c) ∧
      c.tally = tally m.position [] := by
  unfold createEntity at h
  split at h
  · cases h
  · next o s₁ hnew =>
      obtain ⟨details, _⟩ := newObject_details world hnew
      obtain ⟨steady, _, _, _, objects, _⟩ := WellFormed.newObject_spec world hnew
      have collected := (inner_newObject world hnew).dataCollection
      cases h
      let c : Collected K :=
        { speed := m.speed, travelType := wrapType s₁.currentId, type := m.type
          distance := Scalar.ofInt 0, time := Scalar.ofInt 0
          position := m.position, direction := m.direction
          destination := ((s.dataCollection m.name).map Collected.destination).getD .zero }
      refine ⟨o, c, ?_, details, ?_, rfl⟩
      · rw [← objects, ← steady.currentId]
        rfl
      · simp only [entityCreation, details, send, collected]
        rfl

/-- A trip leaves the entities and what is collected about them alone. -/
theorem scheduleTrip_kept {m : TripMessage K} (h : s.scheduleTrip world m = some s') :
    s'.entities = s.entities ∧ s'.dataCollection = s.dataCollection ∧
      s.currentId ≤ s'.currentId ∧ ∀ id, s'.profile id = s.profile id := by
  unfold scheduleTrip at h
  split at h
  · cases h
    exact ⟨rfl, rfl, le_rfl, fun _ => rfl⟩
  · next e _ =>
      have calm := WellFormed.calm_request world s e m
      have inner : Inner s ((s.setDestination world e.getId m.finish).modify e.getId
          (Object.setStrategyName m.search)) :=
        (Inner.setDestination world s e.getId m.finish).trans rfl
      simp only at h
      split at h
      · cases h
      · cases h
        refine ⟨calm.entities, ?_, ?_, calm.steady.profile⟩
        · exact inner.dataCollection
        · exact calm.currentId.symm.le.trans (Nat.le_succ _)

end SimulationModel

end Tallies

/-! ### Names -/

namespace Watched

/-- Well formed, and no call is on record for an object that is not made yet. -/
structure Sound (w : Watched K) : Prop where
  wellFormed : SimulationModel.WellFormed w.model
  fresh : ∀ id, w.model.currentId ≤ id → w.calls id = []

variable [Scalar K]

/-- The names are told apart, and under each is the tally of the calls for its entity. -/
structure Recorded (w : Watched K) : Prop where
  sound : w.Sound
  named : ∀ e ∈ w.model.entities, ∀ e' ∈ w.model.entities, ∀ p p',
    w.model.profile e.getId = some p → w.model.profile e'.getId = some p' →
      p.2.name = p'.2.name → e.getId = e'.getId
  kept : ∀ e ∈ w.model.entities, ∀ p, w.model.profile e.getId = some p →
    ∃ c, w.model.dataCollection p.2.name = some c ∧
      c.tally = tally p.2.position (w.calls e.getId)

/-- A new entity has a name that no other entity has. -/
def NewName (w : Watched K) : Command K → Prop
  | .createEntity m => ∀ e ∈ w.model.entities, ∀ o, w.model.objects e.getId = some o →
      o.getDetails.name ≠ m.name
  | .scheduleTrip _ | .update _ => True

def start (K : Type) : Watched K := ⟨.init K, fun _ => []⟩

variable (world : World K) {w w' : Watched K}

open SimulationModel

/-- What one round does to the watched state. -/
theorem watchOne_spec (dt : K) (w : Watched K) {e : TypeDecorator}
    (he : w.model.profile e.getId ≠ none) :
    Steady w.model (watchOne world dt w e).model ∧
      ∃ o : Object K, w.model.profile e.getId = some o.profile ∧
        (∀ name, name ≠ o.getDetails.name →
          (watchOne world dt w e).model.dataCollection name = w.model.dataCollection name) ∧
        (∀ c, w.model.dataCollection o.getDetails.name = some c →
          ∃ c', (watchOne world dt w e).model.dataCollection o.getDetails.name = some c' ∧
            c'.tally = c.tally.add (dt, o.getPosition)) ∧
        (watchOne world dt w e).calls =
          Function.update w.calls e.getId (w.calls e.getId ++ [(dt, o.getPosition)]) := by
  have steady : Steady w.model (watchOne world dt w e).model := by
    rw [watchOne_model]
    exact Steady.updateOne world dt w.model e
  let s := (handle world dt e w.model.scheduler chain w.model).send (.updateEntity e.getId)
  have hsteady : Steady w.model s :=
    (Steady.handle world dt e w.model.scheduler chain w.model).trans (Steady.send _ _)
  have hcollected : s.dataCollection = w.model.dataCollection :=
    (Inner.handle world dt e w.model.scheduler chain w.model).dataCollection
  obtain ⟨p, hp⟩ := Option.ne_none_iff_exists'.mp he
  rw [← hsteady.profile] at hp
  obtain ⟨o, ho, rfl⟩ := Option.map_eq_some_iff.mp hp
  have hone : watchOne world dt w e = ⟨s.updatePosition o dt,
      Function.update w.calls e.getId (w.calls e.getId ++ [(dt, o.getPosition)])⟩ := by
    unfold watchOne
    simp only
    rw [show ((handle world dt e w.model.scheduler chain w.model).send
      (.updateEntity e.getId)).objects e.getId = some o from ho]
  obtain ⟨hother, hself⟩ := updatePosition_spec (s := s) o dt
  rw [hcollected] at hother hself
  refine ⟨steady, o, (hsteady.profile _).symm.trans hp, ?_, ?_, ?_⟩
  · rw [hone]
    exact hother
  · rw [hone]
    exact hself
  · rw [hone]

omit [Scalar K] in
theorem Sound.listed (h : w.Sound) {e : TypeDecorator} (he : e ∈ w.model.entities) :
    w.model.profile e.getId ≠ none :=
  (h.wellFormed.entity e he).2

theorem Sound.watchOne (h : w.Sound) (dt : K) {e : TypeDecorator} (he : e ∈ w.model.entities) :
    (watchOne world dt w e).Sound := by
  obtain ⟨steady, o, _, _, _, calls⟩ := watchOne_spec world dt w (h.listed he)
  refine ⟨h.wellFormed.steady steady, fun id hid => ?_⟩
  rw [steady.currentId] at hid
  have hlt := h.wellFormed.lt_currentId (h.listed he)
  rw [calls, Function.update_of_ne (by omega)]
  exact h.fresh id hid

theorem Recorded.watchOne (h : w.Recorded) (dt : K) {e : TypeDecorator}
    (he : e ∈ w.model.entities) : (watchOne world dt w e).Recorded := by
  obtain ⟨steady, o, hprofile, hother, hself, calls⟩ :=
    watchOne_spec world dt w (h.sound.listed he)
  refine ⟨h.sound.watchOne world dt he, ?_, ?_⟩
  · intro a ha a' ha' p p' hp hp' hname
    rw [steady.entities] at ha ha'
    rw [steady.profile] at hp hp'
    exact h.named a ha a' ha' p p' hp hp' hname
  · intro a ha p hp
    rw [steady.entities] at ha
    rw [steady.profile] at hp
    by_cases hid : a.getId = e.getId
    · -- The entity of this round: one more call on both sides.
      rw [hid, hprofile] at hp
      cases hp
      obtain ⟨c, hc, htally⟩ := h.kept e he _ hprofile
      obtain ⟨c', hc', hadd⟩ := hself c hc
      refine ⟨c', hc', ?_⟩
      rw [hadd, htally, calls, hid, Function.update_self, tally_append]
    · have hname : p.2.name ≠ o.getDetails.name :=
        fun heq => hid (h.named a ha e he p _ hp hprofile heq)
      obtain ⟨c, hc, htally⟩ := h.kept a ha p hp
      refine ⟨c, (hother _ hname).trans hc, ?_⟩
      rw [htally, calls, Function.update_of_ne hid]

/-- Over the list of entities, which no round changes. -/
theorem foldl_watchOne_induction {P : Watched K → Prop} (dt : K) {es : List TypeDecorator}
    (keep : ∀ w, P w → ∀ e ∈ w.model.entities, P (SimulationModel.watchOne world dt w e))
    (hw : P w) (hes : ∀ e ∈ es, e ∈ w.model.entities) :
    P (es.foldl (SimulationModel.watchOne world dt) w) := by
  induction es generalizing w with
  | nil => exact hw
  | cons e es ih =>
      refine ih (keep w hw e (hes e List.mem_cons_self)) (fun a ha => ?_)
      rw [watchOne_model, (Steady.updateOne world dt w.model e).entities]
      exact hes a (List.mem_cons_of_mem _ ha)

omit [Scalar K] in
theorem start_sound : (start K).Sound := ⟨WellFormed.init, fun _ _ => rfl⟩

theorem start_recorded : (start K).Recorded := by
  refine ⟨start_sound, ?_, ?_⟩
  · intro e he
    cases he
  · intro e he
    cases he

theorem Sound.watch {c : Command K} (h : w.Sound) (hstep : watch world w c = some w') :
    w'.Sound := by
  cases c with
  | createEntity m =>
      obtain ⟨s, hs, rfl⟩ := Option.map_eq_some_iff.mp hstep
      obtain ⟨_, _, _, _, _, currentId, _⟩ := WellFormed.createEntity_spec world hs
      refine ⟨h.wellFormed.createEntity world hs, fun id hid => h.fresh id ?_⟩
      have hle : s.currentId ≤ id := hid
      omega
  | scheduleTrip m =>
      obtain ⟨s, hs, rfl⟩ := Option.map_eq_some_iff.mp hstep
      obtain ⟨_, _, hle, _⟩ := scheduleTrip_kept world hs
      exact ⟨h.wellFormed.scheduleTrip world hs, fun id hid => h.fresh id (hle.trans hid)⟩
  | update dt =>
      cases hstep
      exact foldl_watchOne_induction world dt (fun _ hw _ he => hw.watchOne world dt he) h
        fun _ he => he

/-- An entity after a creation is an old one, with its old profile, or the new one. -/
theorem entity_cases (h : w.Sound) {m : EntityMessage K} {s : SimulationModel K}
    (hs : w.model.createEntity world m = some s) {e : TypeDecorator} (he : e ∈ s.entities) :
    e ∈ w.model.entities ∧ e.getId ≠ w.model.currentId ∧
        s.profile e.getId = w.model.profile e.getId ∨
      e.getId = w.model.currentId := by
  obtain ⟨_, _, _, _, _, _, _, _, entities⟩ := WellFormed.createEntity_spec world hs
  rw [entities] at he
  obtain he | he := List.mem_append.mp he
  · have hne : e.getId ≠ w.model.currentId := (h.wellFormed.lt_currentId (h.listed he)).ne
    exact .inl ⟨he, hne, WellFormed.profile_createEntity world hs hne⟩
  · rw [List.mem_singleton.mp he]
    exact .inr rfl

omit [Scalar K] in
theorem NewName.profile {m : EntityMessage K} (h : w.NewName (.createEntity m))
    {e : TypeDecorator} (he : e ∈ w.model.entities) {p : String × Details K}
    (hp : w.model.profile e.getId = some p) : p.2.name ≠ m.name := by
  obtain ⟨o, ho, rfl⟩ := Option.map_eq_some_iff.mp hp
  exact h e he o ho

theorem Recorded.createEntity {m : EntityMessage K} (h : w.Recorded)
    (hname : w.NewName (.createEntity m))
    (hstep : SimulationModel.watch world w (.createEntity m) = some w') : w'.Recorded := by
  have sound := h.sound.watch world hstep
  obtain ⟨s, hs, rfl⟩ := Option.map_eq_some_iff.mp hstep
  obtain ⟨o, c, objects, details, collected, htally⟩ := createEntity_tally world hs
  have hnew : s.profile w.model.currentId = some o.profile := by
    simp [SimulationModel.profile, objects]
  have hnewName : o.profile.2.name = m.name := congrArg Details.name details
  refine ⟨sound, ?_, ?_⟩
  · intro e he e' he' p p' hp hp' heq
    obtain ⟨hold, _, hsame⟩ | hid := entity_cases world h.sound hs he
    · rw [hsame] at hp
      obtain ⟨hold', _, hsame'⟩ | hid' := entity_cases world h.sound hs he'
      · rw [hsame'] at hp'
        exact h.named e hold e' hold' p p' hp hp' heq
      · rw [hid', hnew] at hp'
        cases hp'
        exact absurd (heq.trans hnewName) (hname.profile hold hp)
    · obtain ⟨hold', _, hsame'⟩ | hid' := entity_cases world h.sound hs he'
      · rw [hsame'] at hp'
        rw [hid, hnew] at hp
        cases hp
        exact absurd (heq.symm.trans hnewName) (hname.profile hold' hp')
      · exact hid.trans hid'.symm
  · intro e he p hp
    obtain ⟨hold, _, hsame⟩ | hid := entity_cases world h.sound hs he
    · rw [hsame] at hp
      obtain ⟨c', hc', htally'⟩ := h.kept e hold p hp
      refine ⟨c', ?_, htally'⟩
      rw [collected, Function.update_of_ne (hname.profile hold hp)]
      exact hc'
    · rw [hid, hnew] at hp
      cases hp
      refine ⟨c, ?_, ?_⟩
      · rw [hnewName, collected, Function.update_self]
      · rw [htally, hid, h.sound.fresh _ le_rfl]
        exact congrArg (fun d : Details K => tally d.position []) details.symm

theorem Recorded.watch {c : Command K} (h : w.Recorded) (hname : w.NewName c)
    (hstep : SimulationModel.watch world w c = some w') : w'.Recorded := by
  cases c with
  | createEntity m => exact h.createEntity world hname hstep
  | scheduleTrip m =>
      have sound := h.sound.watch world hstep
      obtain ⟨s, hs, rfl⟩ := Option.map_eq_some_iff.mp hstep
      obtain ⟨entities, collected, _, profile⟩ := scheduleTrip_kept world hs
      refine ⟨sound, ?_, ?_⟩
      · intro e he e' he' p p' hp hp' heq
        rw [entities] at he he'
        rw [profile] at hp hp'
        exact h.named e he e' he' p p' hp hp' heq
      · intro e he p hp
        rw [entities] at he
        rw [profile] at hp
        rw [collected]
        exact h.kept e he p hp
  | update dt =>
      cases hstep
      exact foldl_watchOne_induction world dt (fun _ hw _ he => hw.watchOne world dt he) h
        fun _ he => he

theorem Recorded.of_run (h : Run (SimulationModel.watch world) NewName (start K) w) :
    w.Recorded :=
  h.invariant (fun _ _ _ hname hstep hw => hw.watch world hname hstep) start_recorded

theorem Sound.of_run (h : Reaches (SimulationModel.watch world) (start K) w) : w.Sound :=
  h.invariant (fun _ _ _ _ hstep hw => hw.watch world hstep) start_sound

/-! ### Two entities of one name -/

/-- The entities of a name. -/
def hasName (s : SimulationModel K) (name : String) (e : TypeDecorator) : Bool :=
  (s.profile e.getId).any fun p => p.2.name == name

/-- An update passes its time on to a name once for every entity that has it, and to an
entity once. -/
theorem foldl_watchOne_time (dt : K) (name : String) (es : List TypeDecorator) (w : Watched K)
    (hes : ∀ e ∈ es, w.model.profile e.getId ≠ none) {c : Collected K}
    (hc : w.model.dataCollection name = some c) :
    ∃ c', (es.foldl (SimulationModel.watchOne world dt) w).model.dataCollection name = some c' ∧
      c'.time = (dt + ·)^[es.countP (hasName w.model name)] c.time := by
  induction es generalizing w c with
  | nil => exact ⟨c, hc, rfl⟩
  | cons e es ih =>
      obtain ⟨steady, o, hprofile, hother, hself, _⟩ :=
        watchOne_spec world dt w (hes e List.mem_cons_self)
      have hsame : hasName (SimulationModel.watchOne world dt w e).model name =
          hasName w.model name := by
        funext a
        rw [hasName, hasName, steady.profile]
      have hrest := steady.listed fun a ha => hes a (List.mem_cons_of_mem _ ha)
      rw [List.foldl_cons, List.countP_cons]
      by_cases hname : o.getDetails.name = name
      · subst hname
        obtain ⟨c₁, hc₁, hadd⟩ := hself c hc
        obtain ⟨c', hc', htime⟩ := ih _ hrest hc₁
        have hcounts : hasName w.model o.getDetails.name e = true := by
          rw [hasName, hprofile]
          exact beq_self_eq_true _
        refine ⟨c', hc', ?_⟩
        rw [htime, hsame, if_pos hcounts, Function.iterate_succ_apply]
        exact congrArg _ (congrArg Tally.time hadd)
      · obtain ⟨c', hc', htime⟩ := ih _ hrest ((hother name (Ne.symm hname)).trans hc)
        have hcounts : hasName w.model name e = false := by
          rw [hasName, hprofile]
          exact beq_false_of_ne hname
        refine ⟨c', hc', ?_⟩
        rw [htime, hsame, hcounts]
        rfl

theorem foldl_watchOne_calls (dt : K) (id : Nat) (es : List TypeDecorator) (w : Watched K)
    (hes : ∀ e ∈ es, w.model.profile e.getId ≠ none) :
    ((es.foldl (SimulationModel.watchOne world dt) w).calls id).map Prod.fst =
      (w.calls id).map Prod.fst ++ List.replicate (es.countP (·.getId == id)) dt := by
  induction es generalizing w with
  | nil => simp
  | cons e es ih =>
      obtain ⟨steady, o, _, _, _, calls⟩ := watchOne_spec world dt w (hes e List.mem_cons_self)
      have hrest := steady.listed fun a ha => hes a (List.mem_cons_of_mem _ ha)
      rw [List.foldl_cons, ih _ hrest, calls, List.countP_cons]
      by_cases hid : e.getId = id
      · subst hid
        rw [Function.update_self, List.map_append, List.append_assoc, beq_self_eq_true, if_pos rfl,
          List.replicate_succ]
        rfl
      · rw [Function.update_of_ne (Ne.symm hid), beq_false_of_ne hid]
        rfl

/-- Where a name is used again the time of an update counts twice for it. -/
theorem countP_hasName (h : w.Sound) {m : EntityMessage K} {s : SimulationModel K}
    (hshared : ¬ w.NewName (.createEntity m)) (hs : w.model.createEntity world m = some s) :
    2 ≤ s.entities.countP (hasName s m.name) := by
  obtain ⟨o, c, objects, details, _⟩ := createEntity_tally world hs
  obtain ⟨_, _, _, _, _, _, _, _, entities⟩ := WellFormed.createEntity_spec world hs
  have hnew : hasName s m.name
      ⟨w.model.currentId + 1, wrapType w.model.currentId, .object w.model.currentId⟩ = true := by
    simp [hasName, SimulationModel.profile, objects, TypeDecorator.getId, IEntity.getId,
      Object.profile, details]
  have hold : 0 < w.model.entities.countP (hasName s m.name) := by
    simp only [NewName, not_forall, not_not] at hshared
    obtain ⟨e, he, o', ho', hname⟩ := hshared
    have hne : e.getId ≠ w.model.currentId := (h.wellFormed.lt_currentId (h.listed he)).ne
    refine List.countP_pos_iff.mpr ⟨e, he, ?_⟩
    simp [hasName, SimulationModel.profile, objects, hne, ho', Object.profile, hname]
  rw [entities, List.countP_append, List.countP_singleton, if_pos hnew]
  omega

theorem countP_getId (h : w.Sound) {m : EntityMessage K} {s : SimulationModel K}
    (hs : w.model.createEntity world m = some s) :
    s.entities.countP (·.getId == w.model.currentId) = 1 := by
  obtain ⟨_, _, _, _, _, _, _, _, entities⟩ := WellFormed.createEntity_spec world hs
  have hold : w.model.entities.countP (·.getId == w.model.currentId) = 0 := by
    refine List.countP_eq_zero.mpr fun e he => ?_
    have hlt := h.wellFormed.lt_currentId (h.listed he)
    simp [hlt.ne]
  rw [entities, List.countP_append, hold, List.countP_singleton, Nat.zero_add]
  exact if_pos (beq_self_eq_true w.model.currentId)

end Watched

/-! ### Exact numbers -/

section Exact

variable [Field K] [LinearOrder K] (functions : Functions K)

/-- The distances between one position and the next. -/
def legs : Vector3 K → List (Vector3 K) → List K
  | _, [] => []
  | p, q :: positions => @Vector3.distance K (exactScalar functions) p q :: legs q positions

theorem foldl_add (calls : List (K × Vector3 K)) (t : Tally K) :
    (calls.foldl (@Tally.add K (exactScalar functions)) t).time =
        t.time + (calls.map Prod.fst).sum ∧
      (calls.foldl (@Tally.add K (exactScalar functions)) t).distance =
        t.distance + (legs functions t.position (calls.map Prod.snd)).sum := by
  induction calls generalizing t with
  | nil => exact ⟨(add_zero _).symm, (add_zero _).symm⟩
  | cons call calls ih =>
      obtain ⟨htime, hdistance⟩ := ih (@Tally.add K (exactScalar functions) t call)
      refine ⟨htime.trans ?_, hdistance.trans ?_⟩
      · rw [List.map_cons, List.sum_cons, ← add_assoc]
        exact congrArg (· + _) (add_comm _ _)
      · rw [List.map_cons, legs, List.sum_cons, ← add_assoc]
        rfl

/-- For every entity the data collection reports the sums over its own calls, the distances
from the place of its creation on. -/
def Reported (w : Watched K) : Prop :=
  ∀ e ∈ w.model.entities, ∃ o c, w.model.objects e.getId = some o ∧
    w.model.dataCollection o.getDetails.name = some c ∧
    c.time = ((w.calls e.getId).map Prod.fst).sum ∧
    c.distance =
      (legs functions o.getDetails.position ((w.calls e.getId).map Prod.snd)).sum

theorem Watched.Recorded.reported {w : Watched K}
    (h : @Watched.Recorded K (exactScalar functions) w) : Reported functions w := by
  let _ := exactScalar functions
  intro e he
  obtain ⟨p, hp⟩ := Option.ne_none_iff_exists'.mp (h.sound.listed he)
  obtain ⟨c, hc, htally⟩ := h.kept e he p hp
  obtain ⟨o, ho, rfl⟩ := Option.map_eq_some_iff.mp hp
  obtain ⟨htime, hdistance⟩ := foldl_add functions (w.calls e.getId) ⟨o.getDetails.position,
    ((0 : ℤ) : K), ((0 : ℤ) : K)⟩
  have hzero (a : K) : ((0 : ℤ) : K) + a = a := by rw [Int.cast_zero, zero_add]
  refine ⟨o, c, ho, hc, ?_, ?_⟩
  · exact (congrArg Tally.time htally).trans (htime.trans (hzero _))
  · exact (congrArg Tally.distance htally).trans (hdistance.trans (hzero _))

variable [IsStrictOrderedRing K] (world : World K)

open SimulationModel Watched

/-- After the second creation under a name and an update the report for it is wrong. -/
theorem not_reported_of_shared {w w₁ w₂ : Watched K} {m : EntityMessage K} {dt : K}
    (h : w.Sound) (hshared : ¬ w.NewName (.createEntity m))
    (hcreate : @watch K (exactScalar functions) world w (.createEntity m) = some w₁)
    (hupdate : @watch K (exactScalar functions) world w₁ (.update dt) = some w₂)
    (hdt : dt ≠ 0) : ¬ Reported functions w₂ := by
  let _ := exactScalar functions
  intro hreported
  have sound₁ := h.watch world hcreate
  obtain ⟨s, hs, rfl⟩ := Option.map_eq_some_iff.mp hcreate
  obtain ⟨o, c, objects, details, collected, htally⟩ := createEntity_tally world hs
  obtain ⟨_, _, _, _, _, _, _, _, entities⟩ := WellFormed.createEntity_spec world hs
  have hprofiles : ∀ e ∈ s.entities, s.profile e.getId ≠ none := fun e he => sound₁.listed he
  have hcollected : s.dataCollection m.name = some c := by
    rw [collected, Function.update_self]
  obtain ⟨c', hc', htime⟩ :=
    foldl_watchOne_time world dt m.name s.entities ⟨s, w.calls⟩ hprofiles hcollected
  have hcalls :=
    foldl_watchOne_calls world dt w.model.currentId s.entities ⟨s, w.calls⟩ hprofiles
  rw [countP_getId world h hs, h.fresh w.model.currentId le_rfl] at hcalls
  have steady : Steady s (s.entities.foldl (watchOne world dt) ⟨s, w.calls⟩).model := by
    rw [foldl_watchOne_model]
    exact Steady.foldl_updateOne world dt s.entities s
  cases hupdate
  obtain ⟨o', c₂, ho', hc₂, hsum, _⟩ := hreported
    ⟨w.model.currentId + 1, wrapType w.model.currentId, .object w.model.currentId⟩ (by
      rw [steady.entities, entities]
      exact List.mem_append_right _ List.mem_cons_self)
  have hname : o'.getDetails.name = m.name := by
    have hprofile := steady.profile w.model.currentId
    rw [SimulationModel.profile, SimulationModel.profile, objects, Function.update_self,
      show (s.entities.foldl (watchOne world dt) ⟨s, w.calls⟩).model.objects w.model.currentId =
        some o' from ho'] at hprofile
    have hdetails : o'.getDetails = o.getDetails :=
      congrArg Prod.snd (Option.some.inj hprofile)
    rw [hdetails, details]
  rw [hname, hc'] at hc₂
  cases hc₂
  have hzero : c.time = 0 := (congrArg Tally.time htally).trans Int.cast_zero
  have hmultiple := htime.trans (congrFun (add_left_iterate dt _) c.time)
  have honce : c'.time = dt := hsum.trans ((congrArg List.sum hcalls).trans (List.sum_singleton))
  have htwice := countP_hasName world h hshared hs
  rw [honce, hzero, add_zero, nsmul_eq_mul] at hmultiple
  have hone : ((s.entities.countP (hasName s m.name) : ℕ) : K) = 1 :=
    (mul_eq_right₀ hdt).mp hmultiple.symm
  have hcount := Nat.cast_eq_one.mp hone
  omega

/-- Watching changes nothing. The reports are right as long as no name is used again; one that
is used again is wrong after the next update that passes any time. -/
theorem reported_while_names_differ :
    (∀ w c, (@watch K (exactScalar functions) world w c).map Watched.model =
      @Transit.step K (exactScalar functions) world w.model c) ∧
    (∀ w, Run (@watch K (exactScalar functions) world) NewName (start K) w →
      Reported functions w) ∧
    ∀ w m w₁ dt w₂, Reaches (@watch K (exactScalar functions) world) (start K) w →
      ¬ w.NewName (.createEntity m) →
      @watch K (exactScalar functions) world w (.createEntity m) = some w₁ →
      @watch K (exactScalar functions) world w₁ (.update dt) = some w₂ → dt ≠ 0 →
      ¬ Reported functions w₂ := by
  let _ := exactScalar functions
  refine ⟨watch_model world, fun w hw => (Recorded.of_run world hw).reported functions, ?_⟩
  intro w m w₁ dt w₂ hw hshared hcreate hupdate hdt
  exact not_reported_of_shared functions world (.of_run world hw) hshared hcreate hupdate hdt

end Exact

/-- A robot of the name, at rest in the origin. -/
def restingRobot (name : String) : Command ℚ :=
  .createEntity ⟨"robot", name, ⟨0, 0, 0⟩, ⟨1, 0, 0⟩, 1⟩

/-- Roots of small squares. -/
def squareRoots : Functions ℚ where
  sqrt q := ((List.range 51).find? fun n => ((n * n : ℕ) : ℚ) = q).elim q Nat.cast
  sin := id
  cos := id

/-- A UFO can fly to one place only. -/
def onePlace : World ℚ := { plainWorld with random := fun n _ _ => [30, 40, 0].getD n 0 }

def robotAndUfo : List (Command ℚ) :=
  [restingRobot "A", .createEntity ⟨"ufo", "B", ⟨0, 0, 0⟩, ⟨1, 0, 0⟩, 5⟩, .update 1, .update 1]

theorem robotAndUfo_reported :
    ∃ w, perform (@SimulationModel.watch ℚ (exactScalar squareRoots) onePlace)
        (Watched.start ℚ) robotAndUfo = some w ∧
      (w.model.dataCollection "A").map (fun c => (c.time, c.distance)) = some (2, 0) ∧
      (w.model.dataCollection "B").map (fun c => (c.time, c.distance)) = some (2, 30) ∧
      Reported squareRoots w := by
  have hstart : Run (@SimulationModel.watch ℚ (exactScalar squareRoots) onePlace)
      Watched.NewName (Watched.start ℚ) (Watched.start ℚ) := .refl
  have hrobot := hstart.tail (a := restingRobot "A") (by nofun) rfl
  have hufo := hrobot.tail (a := .createEntity ⟨"ufo", "B", ⟨0, 0, 0⟩, ⟨1, 0, 0⟩, 5⟩) (by
    intro e he o ho
    cases List.mem_singleton.mp he
    cases ho
    decide) rfl
  have hupdated := (hufo.tail (a := .update 1) (by exact trivial) rfl).tail (a := .update 1)
    (by exact trivial) rfl
  exact ⟨_, rfl, by decide +kernel, by decide +kernel,
    (reported_while_names_differ squareRoots onePlace).2.1 _ hupdated⟩

/-- For two robots of one name an update of one second is reported as two. -/
theorem namesakes_not_reported :
    ∃ w, perform (@SimulationModel.watch ℚ (exactScalar plainFunctions) plainWorld)
      (Watched.start ℚ) [restingRobot "A", restingRobot "A", .update 1] = some w ∧
        ¬ Reported plainFunctions w := by
  let _ := exactScalar plainFunctions
  obtain ⟨w, hw⟩ : ∃ w, SimulationModel.watch plainWorld (Watched.start ℚ) (restingRobot "A") =
      some w := ⟨_, rfl⟩
  obtain ⟨w₁, hw₁⟩ : ∃ w₁, SimulationModel.watch plainWorld w (restingRobot "A") = some w₁ := by
    cases hw
    exact ⟨_, rfl⟩
  obtain ⟨w₂, hw₂⟩ : ∃ w₂, SimulationModel.watch plainWorld w₁ (.update 1) = some w₂ := ⟨_, rfl⟩
  refine ⟨w₂, by simp only [perform, hw, hw₁, hw₂], ?_⟩
  refine not_reported_of_shared plainFunctions plainWorld
    (Watched.start_sound.watch plainWorld hw) ?_ hw₁ hw₂ one_ne_zero
  intro hnew
  cases hw
  exact hnew _ List.mem_cons_self _ rfl rfl

end UmnProjects.Transit
