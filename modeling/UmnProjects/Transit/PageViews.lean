import Mathlib.Data.List.Sort
import UmnProjects.Foundations.History
import UmnProjects.Transit.CommandOutcomes
import UmnProjects.Transit.EntityList
import UmnProjects.Transit.Sessions

/-!
What the pages are told. Every session keeps the entities that the model has updated since the
last `Update` of the session itself, whoever caused that, and sends where they are at its end.
-/
namespace UmnProjects.Transit

open Runs History

/-! ### Messages -/

/-- The data of a message that stand for an entity and where it is. -/
structure Sighting (K : Type) where
  position : Vector3 K
  direction : Vector3 K

/-- No entity has a colour, so that none is sent. -/
inductive Message (K : Type) where
  | addEntity (id : Nat) (details : Details K) (travelType : TravelType) (seen : Sighting K)
  | updateEntity (id : Nat) (seen : Sighting K)
  | tripScheduled

/-- The keys of the map of entities to update, in their order, and the messages sent. -/
structure Page (K : Type) where
  updateEntites : List Nat
  sent : List (Message K)

structure PageServer (K : Type) where
  server : TransitWebServer K
  pages : List (Page K)

def Object.sighting {K : Type} (o : Object K) : Sighting K := ⟨o.getPosition, o.getDirection⟩

namespace SimulationModel

variable {K : Type}

/-- Where an entity is. -/
def sighting (s : SimulationModel K) (id : Nat) : Option (Sighting K) :=
  (s.objects id).map Object.sighting

/-- `SendEntity` for an entity that has just been created. -/
def sendAdded (s : SimulationModel K) (id : Nat) : Option (Message K) :=
  (s.objects id).map fun o => .addEntity id o.getDetails (wrapType id) o.sighting

def sendUpdated (s : SimulationModel K) (id : Nat) : Option (Message K) :=
  (s.sighting id).map fun seen => .updateEntity id seen

end SimulationModel

namespace Page

variable {K : Type}

/-- A key put into a map. -/
def insertKey (id : Nat) (keys : List Nat) : List Nat :=
  if id ∈ keys then keys else keys.orderedInsert (· ≤ ·) id

/-- What a call of the controller does in one session. -/
def receive (model : SimulationModel K) (page : Page K) : Event → Page K
  | .addEntity id => { page with sent := page.sent ++ (model.sendAdded id).toList }
  | .updateEntity id => { page with updateEntites := insertKey id page.updateEntites }
  | .tripScheduled => { page with sent := page.sent ++ [.tripScheduled] }

def clear (page : Page K) : Page K := { page with updateEntites := [] }

/-- The loop over the updated entities. -/
def sendUpdates (model : SimulationModel K) (page : Page K) : Page K :=
  { page with sent := page.sent ++ page.updateEntites.filterMap model.sendUpdated }

end Page

namespace PageServer

section Steps

variable {K : Type} [Field K] [LinearOrder K] [IsStrictOrderedRing K] [FloorSemiring K]
  (functions : Functions K) (world : World K)

/-- The calls of the controller reach every session. -/
def deliver (model : SimulationModel K) (events : List Event) (pages : List (Page K)) :
    List (Page K) :=
  pages.map fun page => events.foldl (Page.receive model) page

def step (s : PageServer K) (a : Action K) : Option (PageServer K) :=
  (serverStep functions world s.server a).map fun server =>
    let events := server.model.events.drop s.server.model.events.length
    ⟨server, match a with
      | .createSession _ => s.pages ++ [⟨[], []⟩]
      | .receiveCommand i (.update _ _) =>
          (deliver server.model events (s.pages.modify i Page.clear)).modify i
            (Page.sendUpdates server.model)
      | .receiveCommand _ _ => deliver server.model events s.pages⟩

def start (now : K) : PageServer K := ⟨serverStart now, [⟨[], []⟩]⟩

end Steps

end PageServer

/-! ### Views -/

/-- Where a page believes each entity to be. -/
abbrev View (K : Type) := Nat → Option (Sighting K)

/-- The server with the belief of each page. -/
structure ViewServer (K : Type) where
  server : TransitWebServer K
  views : List (View K)

def Message.about {K : Type} (id : Nat) : Message K → Option (Sighting K)
  | .addEntity id' _ _ seen => if id' = id then some seen else none
  | .updateEntity id' seen => if id' = id then some seen else none
  | .tripScheduled => none

/-- What a page has last been told of each entity. -/
def Page.view {K : Type} (page : Page K) : View K := fun id => latest (Message.about id) page.sent

namespace ViewServer

section Steps

variable {K : Type} [Field K] [LinearOrder K] [IsStrictOrderedRing K] [FloorSemiring K]
  (functions : Functions K) (world : World K)

/-- A page sees every entity as it is when the page itself updates, and sees no other change but
new entities. -/
def step (s : ViewServer K) (a : Action K) : Option (ViewServer K) :=
  (serverStep functions world s.server a).map fun server =>
    ⟨server, match a with
      | .createSession _ => s.views ++ ([fun _ => none] : List (View K))
      | .receiveCommand i (.update _ _) => s.views.modify i fun view id =>
          if server.model.IsEntity id then server.model.sighting id else view id
      | .receiveCommand _ (.createEntity _) => s.views.map fun view id =>
          if id = s.server.model.currentId then server.model.sighting id else view id
      | .receiveCommand _ _ => s.views⟩

def start (now : K) : ViewServer K := ⟨serverStart now, [fun _ => none]⟩

end Steps

end ViewServer

/-! ### Calls of the controller -/

namespace SimulationModel

variable {K : Type}

section Calls

variable [Scalar K] (world : World K)

theorem events_setDestination (s : SimulationModel K) (id : Nat) (des : Vector3 K) :
    (s.setDestination world id des).events = s.events := by
  rw [setDestination]
  split <;> rfl

theorem events_claim (s : SimulationModel K) (e rider : TypeDecorator) :
    (s.claim world e rider).events = s.events := by
  rw [claim, events_setDestination]
  rfl

theorem events_assign (s : SimulationModel K) (h : HandlerClass) (e rider : TypeDecorator) :
    (s.assign world h e rider).events = s.events := events_claim world s e rider

theorem events_updateDrone (s : SimulationModel K) (id : Nat) (d : Drone K) (dt : K) :
    (s.updateDrone id d dt).events = s.events := by
  rw [updateDrone]
  repeat' split
  all_goals rfl

theorem events_updateEntity (s : SimulationModel K) (e : TypeDecorator) (dt : K) :
    (s.updateEntity world e dt).events = s.events := by
  rw [updateEntity]
  split
  · rw [events_updateDrone]
    rfl
  · simp only [updateHuman]
    repeat' split
    all_goals rfl
  · simp only [updateHelicopter]
    repeat' split
    all_goals rfl
  · simp only [updateUfo]
    repeat' split
    all_goals rfl
  · rfl
  · rfl

theorem events_handle (dt : K) (e : TypeDecorator) (scheduler : List TypeDecorator)
    (handlers : List HandlerClass) (s : SimulationModel K) :
    (handle world dt e scheduler handlers s).events = s.events := by
  induction handlers with
  | nil => rfl
  | cons h next ih =>
      rw [handle]
      split
      · rw [events_updateEntity]
        split
        · split
          · rfl
          · exact events_assign world s h e _
        · rfl
      · rw [events_updateEntity, ih]

theorem events_updateOne (dt : K) (s : SimulationModel K) (e : TypeDecorator) :
    (s.updateOne world dt e).events = s.events ++ [.updateEntity e.getId] := by
  have hhandle := events_handle world dt e s.scheduler chain s
  simp only [updateOne]
  split
  · rw [send, hhandle]
  · rw [updatePosition, send, hhandle]

theorem events_foldl_updateOne (dt : K) (es : List TypeDecorator) (s : SimulationModel K) :
    (es.foldl (updateOne world dt) s).events =
      s.events ++ es.map fun e => .updateEntity e.getId := by
  induction es generalizing s with
  | nil => simp
  | cons e es ih =>
      rw [List.foldl_cons, ih, events_updateOne]
      simp

theorem events_createEntity {s s' : SimulationModel K} {m : EntityMessage K}
    (h : s.createEntity world m = some s') :
    s'.events = s.events ++ [.addEntity s.currentId] := by
  unfold createEntity at h
  split at h
  · cases h
  · case h_2 o s₁ hnew =>
      have hsteady := (WellFormed.newObject_spec world hnew).1
      cases h
      rw [← (newObject_details world hnew).2, ← hsteady.currentId]
      rfl

theorem events_scheduleTrip {s s' : SimulationModel K} {m : TripMessage K}
    (h : s.scheduleTrip world m = some s') : s'.events = s.events ++ [.tripScheduled] := by
  unfold scheduleTrip at h
  split at h
  · cases h
    rfl
  · simp only at h
    split at h
    · cases h
    · cases h
      simp only [send, note, modify, events_setDestination]

end Calls

theorem Listed.sighting_ne_none_iff {s : SimulationModel K} (h : Listed s) (id : Nat) :
    s.sighting id ≠ none ↔ s.IsEntity id := by
  rw [← h.objects_ne_none_iff, sighting, Ne, Option.map_eq_none_iff]

end SimulationModel

/-! ### One page -/

namespace Page

variable {K : Type}

theorem mem_insertKey {id a : Nat} {keys : List Nat} :
    a ∈ insertKey id keys ↔ a = id ∨ a ∈ keys := by
  rw [insertKey]
  split
  · next hmem =>
      constructor
      · exact .inr
      · intro h
        obtain rfl | h := h
        · exact hmem
        · exact h
  · exact List.mem_orderedInsert _

theorem insertKey_sorted {id : Nat} {keys : List Nat} (h : keys.Pairwise (· < ·)) :
    (insertKey id keys).Pairwise (· < ·) := by
  rw [insertKey]
  split
  · exact h
  · next hnew =>
      have hle : (keys.orderedInsert (· ≤ ·) id).Pairwise (· ≤ ·) :=
        (h.imp Nat.le_of_lt).orderedInsert id keys
      have hnodup : (keys.orderedInsert (· ≤ ·) id).Nodup :=
        (List.perm_orderedInsert (· ≤ ·) id keys).nodup_iff.mpr
          (List.nodup_cons.mpr ⟨hnew, h.imp Nat.ne_of_lt⟩)
      exact hle.imp₂ (fun _ _ hab hne => Nat.lt_of_le_of_ne hab hne) hnodup

/-- What a page keeps of a series of updates. -/
theorem foldl_receive_updates (model : SimulationModel K) (ids : List Nat) (page : Page K) :
    (ids.map Event.updateEntity).foldl (receive model) page =
      ⟨ids.foldl (fun keys id => insertKey id keys) page.updateEntites, page.sent⟩ := by
  induction ids generalizing page with
  | nil => rfl
  | cons id ids ih =>
      rw [List.map_cons, List.foldl_cons, ih]
      rfl

theorem mem_foldl_insertKey {a : Nat} {ids keys : List Nat} :
    a ∈ ids.foldl (fun keys id => insertKey id keys) keys ↔ a ∈ ids ∨ a ∈ keys := by
  induction ids generalizing keys with
  | nil => simp
  | cons id ids ih =>
      rw [List.foldl_cons, ih, mem_insertKey, List.mem_cons]
      tauto

theorem foldl_insertKey_sorted (ids : List Nat) {keys : List Nat} (h : keys.Pairwise (· < ·)) :
    (ids.foldl (fun keys id => insertKey id keys) keys).Pairwise (· < ·) := by
  induction ids generalizing keys with
  | nil => exact h
  | cons id ids ih => exact ih (insertKey_sorted h)

/-- The ids of the entities, each once and in order, are what an updating page keeps. -/
theorem keys_of_update {model : SimulationModel K} (hl : model.Listed) {dts : List K}
    (hdts : dts ≠ []) :
    (dts.flatMap fun _ => model.entities.map TypeDecorator.getId).foldl
      (fun keys id => insertKey id keys) [] = model.entities.map TypeDecorator.getId := by
  refine (foldl_insertKey_sorted _ .nil).eq_of_mem_iff hl.sorted ?_
  intro id
  rw [mem_foldl_insertKey]
  obtain ⟨dt, hdt⟩ := List.exists_mem_of_ne_nil dts hdts
  constructor
  · intro h
    obtain h | h := h
    · exact (List.mem_flatMap.mp h).choose_spec.2
    · cases h
  · intro h
    exact .inl (List.mem_flatMap.mpr ⟨dt, hdt, h⟩)

theorem about_sendUpdated (model : SimulationModel K) (id key : Nat) :
    (model.sendUpdated key).bind (Message.about id) =
      if key = id then model.sighting id else none := by
  rw [SimulationModel.sendUpdated]
  by_cases hkey : key = id
  · subst hkey
    cases model.sighting key <;> simp [Message.about]
  · cases model.sighting key <;> simp [Message.about, hkey]

/-- What a page is told of an entity by what it sends at the end of an update. -/
theorem latest_sendUpdates (model : SimulationModel K) (id : Nat) (keys : List Nat) :
    latest (Message.about id) (keys.filterMap model.sendUpdated) =
      if id ∈ keys then model.sighting id else none := by
  induction keys with
  | nil => rfl
  | cons key keys ih =>
      have habout := about_sendUpdated model id key
      cases hsent : model.sendUpdated key with
      | none =>
          rw [List.filterMap_cons_none hsent, ih]
          rw [hsent] at habout
          split at habout
          · simp [← habout]
          · next hkey => simp [Ne.symm hkey]
      | some message =>
          rw [List.filterMap_cons_some hsent, latest_cons, ih]
          rw [hsent, Option.bind_some] at habout
          rw [habout]
          by_cases hkey : key = id
          · subst hkey
            rw [if_pos rfl, if_pos List.mem_cons_self]
            split <;> simp
          · simp [hkey, Ne.symm hkey]

theorem latest_sendAdded (model : SimulationModel K) (id key : Nat) :
    latest (Message.about id) (model.sendAdded key).toList =
      if id = key then model.sighting id else none := by
  rw [SimulationModel.sendAdded, SimulationModel.sighting]
  by_cases hkey : id = key
  · subst hkey
    cases model.objects id <;> simp [latest, Message.about]
  · cases model.objects key <;> simp [latest, Message.about, hkey, Ne.symm hkey]

end Page

/-! ### The calls of one command -/

section Commands

variable {K : Type} [Field K] [LinearOrder K]

theorem modelUpdates_ne_nil [IsStrictOrderedRing K] [FloorSemiring K] (delta : K) :
    modelUpdates delta ≠ [] := by
  rw [modelUpdates]
  split
  · next hlong =>
      have hpos : 0 < delta := lt_trans (by norm_num) hlong
      rw [subSteps, if_pos hpos]
      exact List.cons_ne_nil _ _
  · exact List.cons_ne_nil _ _

variable (functions : Functions K) (world : World K)

/-- All that the updates of one command call for are updates of every entity. -/
theorem updateModel_calls (dts : List K) (s : SimulationModel K) :
    SimulationModel.Steady s (updateModel functions world dts s) ∧
      (updateModel functions world dts s).events =
        s.events ++ (dts.flatMap fun _ => s.entities.map TypeDecorator.getId).map
          Event.updateEntity := by
  let scalar := exactScalar functions
  induction dts generalizing s with
  | nil => exact ⟨.refl s, by simp [updateModel]⟩
  | cons dt dts ih =>
      have hsteady := SimulationModel.Steady.foldl_updateOne world dt s.entities s
      obtain ⟨hrest, hevents⟩ := ih (s.update world dt)
      refine ⟨hsteady.trans hrest, ?_⟩
      rw [updateModel, List.foldl_cons]
      rw [updateModel] at hevents
      rw [hevents, SimulationModel.update, hsteady.entities,
        SimulationModel.events_foldl_updateOne]
      simp

variable [IsStrictOrderedRing K] [FloorSemiring K]

section Models

variable {server server' : TransitWebServer K} {i : Nat}

theorem receiveCommand_session {cmd : Request K}
    (h : receiveCommand functions world server i cmd = some server') :
    i < server.sessions.length := by
  cases hi : server.sessions[i]? with
  | none => simp [receiveCommand, hi] at h
  | some service => exact (List.getElem?_eq_some_iff.mp hi).1

theorem receiveCommand_createEntity {m : EntityMessage K}
    (h : receiveCommand functions world server i (.createEntity m) = some server') :
    let _ := exactScalar functions
    server.model.createEntity world m = some server'.model ∧
      server'.sessions = server.sessions := by
  cases hi : server.sessions[i]? with
  | none => simp [receiveCommand, hi] at h
  | some service =>
      simp only [receiveCommand, hi] at h
      obtain ⟨model, hmodel, rfl⟩ := Option.map_eq_some_iff.mp h
      exact ⟨hmodel, rfl⟩

theorem receiveCommand_scheduleTrip {m : TripMessage K}
    (h : receiveCommand functions world server i (.scheduleTrip m) = some server') :
    let _ := exactScalar functions
    server.model.scheduleTrip world m = some server'.model ∧
      server'.sessions = server.sessions := by
  cases hi : server.sessions[i]? with
  | none => simp [receiveCommand, hi] at h
  | some service =>
      simp only [receiveCommand, hi] at h
      obtain ⟨model, hmodel, rfl⟩ := Option.map_eq_some_iff.mp h
      exact ⟨hmodel, rfl⟩

theorem receiveCommand_update {now simSpeed : K}
    (h : receiveCommand functions world server i (.update now simSpeed) = some server') :
    (∃ dts ≠ [], server'.model = updateModel functions world dts server.model) ∧
      server'.sessions.length = server.sessions.length := by
  cases hi : server.sessions[i]? with
  | none => simp [receiveCommand, hi] at h
  | some service =>
      simp only [receiveCommand, hi, Option.some.injEq] at h
      subst h
      exact ⟨⟨_, modelUpdates_ne_nil _, rfl⟩, List.length_set⟩

theorem receiveCommand_quiet {cmd : Request K} (hcmd : cmd = .toCSV ∨ cmd = .ping)
    (h : receiveCommand functions world server i cmd = some server') : server' = server := by
  obtain rfl | rfl := hcmd
  all_goals
    cases hi : server.sessions[i]? with
    | none => simp [receiveCommand, hi] at h
    | some service =>
        simp only [receiveCommand, hi, Option.some.injEq] at h
        exact h.symm

end Models

end Commands

/-! ### One command on the pages -/

namespace PageServer

variable {K : Type}

/-- The server with what its pages believe. -/
def views (s : PageServer K) : ViewServer K := ⟨s.server, s.pages.map Page.view⟩

variable [Field K] [LinearOrder K] [IsStrictOrderedRing K] [FloorSemiring K]
  (functions : Functions K) (world : World K) {s s' : PageServer K}

theorem step_server {a : Action K} (h : step functions world s a = some s') :
    serverStep functions world s.server a = some s'.server := by
  obtain ⟨server, hserver, rfl⟩ := Option.map_eq_some_iff.mp h
  exact hserver

/-- The page that updates sends every entity; the others only keep what is to be sent. -/
theorem step_update {i : Nat} {now simSpeed : K} (hl : s.server.model.Listed)
    (h : step functions world s (.receiveCommand i (.update now simSpeed)) = some s') (j : Nat) :
    let ids := s.server.model.entities.map TypeDecorator.getId
    s'.server.model.Listed ∧ s'.server.model.entities = s.server.model.entities ∧
      s'.pages[j]?.map Page.sent = s.pages[j]?.map fun page =>
        if i = j then page.sent ++ ids.filterMap s'.server.model.sendUpdated else page.sent := by
  obtain ⟨server, hserver, rfl⟩ := Option.map_eq_some_iff.mp h
  obtain ⟨hmodel, _⟩ := receiveCommand_update functions world hserver
  obtain ⟨dts, hdts, hmodel⟩ := hmodel
  obtain ⟨hsteady, hevents⟩ := updateModel_calls functions world dts s.server.model
  rw [← hmodel] at hsteady hevents
  refine ⟨hl.steady hsteady, hsteady.entities, ?_⟩
  simp only [hevents, List.drop_left, deliver, Page.foldl_receive_updates]
  by_cases hij : i = j
  · subst hij
    cases hpage : s.pages[i]? with
    | none => simp [hpage]
    | some page =>
        simp [hpage, Page.clear, Page.sendUpdates, Page.keys_of_update hl hdts]
  · cases hpage : s.pages[j]? with
    | none => simp [hpage, hij]
    | some page => simp [hpage, hij]

theorem step_createEntity {i : Nat} {m : EntityMessage K} (hl : s.server.model.Listed)
    (h : step functions world s (.receiveCommand i (.createEntity m)) = some s') :
    s'.server.model.Listed ∧ (∀ id, s.server.model.IsEntity id → s'.server.model.IsEntity id) ∧
      s'.server.model.IsEntity s.server.model.currentId ∧
      s'.pages = s.pages.map fun page => { page with
        sent := page.sent ++ (s'.server.model.sendAdded s.server.model.currentId).toList } := by
  let scalar := exactScalar functions
  obtain ⟨server, hserver, rfl⟩ := Option.map_eq_some_iff.mp h
  obtain ⟨hmodel, _⟩ := receiveCommand_createEntity functions world hserver
  have hevents := SimulationModel.events_createEntity world hmodel
  obtain ⟨o, _, _, _, objects, _, _, _, entities⟩ :=
    SimulationModel.WellFormed.createEntity_spec world hmodel
  refine ⟨hl.createEntity world hmodel, ?_, ?_, ?_⟩
  · intro id hid
    obtain ⟨e, he, heq⟩ := hid
    exact ⟨e, entities ▸ List.mem_append_left _ he, heq⟩
  · exact ⟨_, entities ▸ List.mem_append_right _ List.mem_cons_self, rfl⟩
  · simp only [hevents, List.drop_left, deliver]
    rfl

theorem step_scheduleTrip {i : Nat} {m : TripMessage K} (hl : s.server.model.Listed)
    (h : step functions world s (.receiveCommand i (.scheduleTrip m)) = some s') :
    s'.server.model.Listed ∧ (∀ id, s.server.model.IsEntity id → s'.server.model.IsEntity id) ∧
      s'.pages = s.pages.map fun page => { page with sent := page.sent ++ [.tripScheduled] } := by
  let scalar := exactScalar functions
  obtain ⟨server, hserver, rfl⟩ := Option.map_eq_some_iff.mp h
  obtain ⟨hmodel, _⟩ := receiveCommand_scheduleTrip functions world hserver
  have hevents := SimulationModel.events_scheduleTrip world hmodel
  refine ⟨hl.scheduleTrip world hmodel, ?_, ?_⟩
  · intro id hid
    obtain hs | ⟨e, travelType, s₁, _, _, hs₁, _, entities, _⟩ :=
      SimulationModel.WellFormed.scheduleTrip_spec world hmodel
    · rw [hs]
      exact hid
    · have hsteady := (SimulationModel.WellFormed.calm_request world s.server.model e m).steady
      rw [SimulationModel.IsEntity, entities, hs₁, hsteady.entities]
      exact hid
  · simp only [hevents, List.drop_left, deliver]
    rfl

theorem step_quiet {i : Nat} {cmd : Request K} (hcmd : cmd = .toCSV ∨ cmd = .ping)
    (h : step functions world s (.receiveCommand i cmd) = some s') : s' = s := by
  obtain ⟨server, hserver, rfl⟩ := Option.map_eq_some_iff.mp h
  have hsame := receiveCommand_quiet functions world hcmd hserver
  subst hsame
  obtain rfl | rfl := hcmd
  all_goals simp [deliver]

/-- What a page learns of one command is what its view learns. -/
theorem step_refines {a : Action K} (hl : s.server.model.Listed)
    (h : step functions world s a = some s') :
    ViewServer.step functions world s.views a = some s'.views := by
  have hserver := step_server functions world h
  rw [ViewServer.step, show s.views.server = s.server from rfl, hserver, Option.map_some, views]
  congr 2
  cases a with
  | createSession now =>
      obtain ⟨server, _, rfl⟩ := Option.map_eq_some_iff.mp h
      rw [List.map_append]
      rfl
  | receiveCommand i cmd =>
      cases cmd with
      | createEntity m =>
          obtain ⟨hl', _, hentity, hpages⟩ := step_createEntity functions world hl h
          simp only [hpages, List.map_map]
          apply List.map_congr_left
          intro page _
          funext id
          simp only [Function.comp_apply, Page.view, latest_append, Page.latest_sendAdded]
          split
          · next hid =>
              obtain ⟨seen, hseen⟩ := Option.ne_none_iff_exists'.mp
                ((hl'.sighting_ne_none_iff id).mpr (hid ▸ hentity))
              rw [hseen, Option.some_or]
          · rfl
      | scheduleTrip m =>
          obtain ⟨_, _, hpages⟩ := step_scheduleTrip functions world hl h
          simp only [hpages, List.map_map]
          apply List.map_congr_left
          intro page _
          funext id
          exact (latest_append_quiet (by simp [Message.about])).symm
      | toCSV =>
          rw [step_quiet functions world (.inl rfl) h]
      | ping =>
          rw [step_quiet functions world (.inr rfl) h]
      | update now simSpeed =>
          apply List.ext_getElem?
          intro j
          obtain ⟨hl', entities, hsent⟩ := step_update functions world hl h j
          have hview : (s'.pages.map Page.view)[j]? = (s'.pages[j]?.map Page.sent).map
              fun sent id => latest (Message.about id) sent := by
            rw [List.getElem?_map, Option.map_map]
            rfl
          rw [hview, hsent, List.getElem?_modify, Option.map_eq_map, Option.map_map]
          change ((s.pages.map Page.view)[j]?).map _ = _
          rw [List.getElem?_map, Option.map_map]
          apply Option.map_congr
          intro page _
          by_cases hij : i = j
          · funext id
            have hids : id ∈ s.server.model.entities.map TypeDecorator.getId ↔
                s'.server.model.IsEntity id := by
              rw [SimulationModel.IsEntity, entities, List.mem_map]
            simp only [Function.comp_apply, if_pos hij, latest_append, Page.latest_sendUpdates,
              hids]
            split
            · next hid =>
                obtain ⟨seen, hseen⟩ := Option.ne_none_iff_exists'.mp
                  ((hl'.sighting_ne_none_iff id).mpr hid)
                rw [hseen, Option.some_or]
            · rfl
          · simp only [Function.comp_apply, if_neg hij]
            rfl

/-! ### Runs -/

/-- No entity is ever taken out of the list. -/
theorem step_listed {a : Action K} (hl : s.server.model.Listed)
    (h : step functions world s a = some s') :
    s'.server.model.Listed ∧
      ∀ id, s.server.model.IsEntity id → s'.server.model.IsEntity id := by
  cases a with
  | createSession now =>
      cases h
      exact ⟨hl, fun _ hid => hid⟩
  | receiveCommand i cmd =>
      cases cmd with
      | createEntity m =>
          obtain ⟨hl', hentities, _⟩ := step_createEntity functions world hl h
          exact ⟨hl', hentities⟩
      | scheduleTrip m =>
          obtain ⟨hl', hentities, _⟩ := step_scheduleTrip functions world hl h
          exact ⟨hl', hentities⟩
      | toCSV =>
          rw [step_quiet functions world (.inl rfl) h]
          exact ⟨hl, fun _ hid => hid⟩
      | ping =>
          rw [step_quiet functions world (.inr rfl) h]
          exact ⟨hl, fun _ hid => hid⟩
      | update now simSpeed =>
          obtain ⟨hl', entities, _⟩ := step_update functions world hl h 0
          refine ⟨hl', ?_⟩
          intro id hid
          rw [SimulationModel.IsEntity, entities]
          exact hid

theorem step_length {a : Action K} (hlength : s.pages.length = s.server.sessions.length)
    (h : step functions world s a = some s') :
    s'.pages.length = s'.server.sessions.length := by
  obtain ⟨server, hserver, rfl⟩ := Option.map_eq_some_iff.mp h
  cases a with
  | createSession now =>
      cases hserver
      simp [hlength]
  | receiveCommand i cmd =>
      cases cmd with
      | createEntity m =>
          simp [deliver, hlength, (receiveCommand_createEntity functions world hserver).2]
      | scheduleTrip m =>
          simp [deliver, hlength, (receiveCommand_scheduleTrip functions world hserver).2]
      | toCSV => simp [deliver, hlength, receiveCommand_quiet functions world (.inl rfl) hserver]
      | ping => simp [deliver, hlength, receiveCommand_quiet functions world (.inr rfl) hserver]
      | update now simSpeed =>
          simp [deliver, hlength, (receiveCommand_update functions world hserver).2]

end PageServer

/-- Nobody learns of what is not an entity. -/
theorem ViewServer.step_known {K : Type} [Field K] [LinearOrder K] [IsStrictOrderedRing K]
    [FloorSemiring K] (functions : Functions K) (world : World K) {s s' : ViewServer K}
    {a : Action K} (h : ViewServer.step functions world s a = some s')
    (hgrow : ∀ id, s.server.model.IsEntity id → s'.server.model.IsEntity id)
    (hsighting : ∀ id, s'.server.model.sighting id ≠ none → s'.server.model.IsEntity id)
    (hknown : ∀ view ∈ s.views, ∀ id, view id ≠ none → s.server.model.IsEntity id) :
    ∀ view ∈ s'.views, ∀ id, view id ≠ none → s'.server.model.IsEntity id := by
  have hold : ∀ view ∈ s.views, ∀ id, view id ≠ none → s'.server.model.IsEntity id :=
    fun view hview id hid => hgrow id (hknown view hview id hid)
  obtain ⟨server, _, rfl⟩ := Option.map_eq_some_iff.mp h
  intro view hview id hid
  cases a with
  | createSession now =>
      obtain hview | hview := List.mem_append.mp hview
      · exact hold view hview id hid
      · rw [List.mem_singleton.mp hview] at hid
        exact absurd rfl hid
  | receiveCommand i cmd =>
      cases cmd with
      | createEntity m =>
          obtain ⟨before, hbefore, rfl⟩ := List.mem_map.mp hview
          simp only at hid
          split at hid
          · exact hsighting id hid
          · exact hold before hbefore id hid
      | scheduleTrip m | toCSV | ping => exact hold view hview id hid
      | update now simSpeed =>
          obtain ⟨j, hj⟩ := List.mem_iff_getElem?.mp hview
          rw [List.getElem?_modify, Option.map_eq_map] at hj
          obtain ⟨before, hbefore, rfl⟩ := Option.map_eq_some_iff.mp hj
          split at hid
          · simp only at hid
            split at hid
            · exact hsighting id hid
            · exact hold before (List.mem_of_getElem? hbefore) id hid
          · exact hold before (List.mem_of_getElem? hbefore) id hid

theorem map_some_filterMap {A B : Type} {f : A → Option B} {l : List A}
    (h : ∀ a ∈ l, f a ≠ none) : (l.filterMap f).map some = l.map f := by
  induction l with
  | nil => rfl
  | cons a l ih =>
      obtain ⟨b, hb⟩ := Option.ne_none_iff_exists'.mp (h a List.mem_cons_self)
      rw [List.filterMap_cons_some hb, List.map_cons, List.map_cons, hb,
        ih fun c hc => h c (List.mem_cons_of_mem a hc)]

/-! ### Runs -/

namespace PageServer

/-- Every page belongs to a session and knows of entities only. -/
structure Consistent {K : Type} (s : PageServer K) : Prop where
  listed : s.server.model.Listed
  length : s.pages.length = s.server.sessions.length
  known : ∀ view ∈ s.pages.map Page.view, ∀ id, view id ≠ none → s.server.model.IsEntity id

namespace Consistent

variable {K : Type} [Field K]

theorem start (now : K) : Consistent (PageServer.start now) where
  listed := .init
  length := rfl
  known := by
    intro view hview id hid
    rw [List.mem_singleton.mp hview] at hid
    exact absurd rfl hid

variable [LinearOrder K] [IsStrictOrderedRing K] [FloorSemiring K] (functions : Functions K)
  (world : World K) {s s' : PageServer K}

theorem step {a : Action K} (h : PageServer.step functions world s a = some s')
    (hs : Consistent s) : Consistent s' := by
  obtain ⟨hlisted, hgrow⟩ := step_listed functions world hs.listed h
  refine ⟨hlisted, step_length functions world hs.length h, ?_⟩
  exact ViewServer.step_known functions world (step_refines functions world hs.listed h) hgrow
    (fun id hid => (hlisted.sighting_ne_none_iff id).mp hid) hs.known

theorem of_run {now : K} (h : Reaches (PageServer.step functions world) (PageServer.start now) s) :
    Consistent s :=
  h.invariant (fun _ _ _ _ hstep hs => hs.step functions world hstep) (start now)

end Consistent

variable {K : Type} [Field K] [LinearOrder K] [IsStrictOrderedRing K] [FloorSemiring K]
  (functions : Functions K) (world : World K)

/-- At any time a page knows what the view of it says. -/
theorem pages_refine_views {now : K} {as : List (Action K)} {s : PageServer K}
    (h : perform (step functions world) (start now) as = some s) :
    perform (ViewServer.step functions world) (ViewServer.start now) as = some s.views := by
  have hrun : Consistent s ∧
      perform (ViewServer.step functions world) (ViewServer.start now) as = some s.views := by
    refine perform_induction (I := fun done u => Consistent u ∧
      perform (ViewServer.step functions world) (ViewServer.start now) done = some u.views)
      ⟨.start now, rfl⟩ ?_ h
    intro done u a u' hstep hdone
    obtain ⟨hconsistent, hperform⟩ := hdone
    exact ⟨hconsistent.step functions world hstep,
      perform_concat hperform (step_refines functions world hconsistent.listed hstep)⟩
  exact hrun.2

/-- An update sends the page that asks for it each entity once, where it is now and in the order
of the ids, so that the page is right about the whole simulation, and sends no one else
anything. -/
theorem update_told {now now' simSpeed : K} {s s' : PageServer K} {i : Nat}
    (hrun : Reaches (step functions world) (start now) s)
    (h : step functions world s (.receiveCommand i (.update now' simSpeed)) = some s') :
    ∃ page page' told, s.pages[i]? = some page ∧ s'.pages[i]? = some page' ∧
      page'.sent = page.sent ++ told ∧
      told.map some = s'.server.model.entities.map
        (fun e => s'.server.model.sendUpdated e.getId) ∧
      (s'.server.model.entities.map TypeDecorator.getId).Pairwise (· < ·) ∧
      page'.view = s'.server.model.sighting ∧
      ∀ j ≠ i, s'.pages[j]?.map Page.sent = s.pages[j]?.map Page.sent := by
  have hs := Consistent.of_run functions world hrun
  have hs' := hs.step functions world h
  obtain ⟨_, entities, hsent⟩ := step_update functions world hs.listed h i
  have hi : i < s.pages.length := by
    rw [hs.length]
    exact receiveCommand_session functions world (step_server functions world h)
  have hpage : s.pages[i]? = some s.pages[i] := List.getElem?_eq_getElem hi
  rw [hpage, Option.map_some, if_pos rfl] at hsent
  obtain ⟨page', hpage', htold⟩ := Option.map_eq_some_iff.mp hsent
  have hknown := hs'.known page'.view (List.mem_map_of_mem (List.mem_of_getElem? hpage'))
  refine ⟨_, page', _, hpage, hpage', htold, ?_, hs'.listed.sorted, ?_, ?_⟩
  · rw [map_some_filterMap, entities, List.map_map]
    · rfl
    intro id hid
    have hentity : s'.server.model.IsEntity id := by
      rw [SimulationModel.IsEntity, entities]
      exact List.mem_map.mp hid
    rw [SimulationModel.sendUpdated, Ne, Option.map_eq_none_iff]
    exact (hs'.listed.sighting_ne_none_iff id).mpr hentity
  · funext id
    cases hseen : s'.server.model.sighting id with
    | none =>
        by_contra hid
        exact (hs'.listed.sighting_ne_none_iff id).mpr (hknown id hid) hseen
    | some seen =>
        have hentity : s'.server.model.IsEntity id :=
          (hs'.listed.sighting_ne_none_iff id).mp (by simp [hseen])
        rw [SimulationModel.IsEntity, entities, ← List.mem_map] at hentity
        rw [Page.view, htold, latest_append, Page.latest_sendUpdates, if_pos hentity, hseen,
          Option.some_or]
  · intro j hj
    have hother := (step_update functions world hs.listed h j).2.2
    simp only [if_neg (Ne.symm hj)] at hother
    exact hother

/-- A page opened late and a robot that the first page asks for. -/
def latePage : List (Action ℚ) :=
  [.receiveCommand 0 (.createEntity ⟨"robot", "Robot", ⟨1, 0, 0⟩, ⟨1, 0, 0⟩, 1⟩),
    .createSession (1 / 10)]

theorem pages_refine_views_latePage :
    ∃ s, perform (step plainFunctions plainWorld) (start 0) latePage = some s ∧
      perform (ViewServer.step plainFunctions plainWorld) (ViewServer.start 0) latePage =
        some s.views :=
  ⟨_, rfl, pages_refine_views plainFunctions plainWorld rfl⟩

/-- The late page knows of the robot once it has updated. -/
theorem update_told_latePage :
    ∃ s s', perform (step plainFunctions plainWorld) (start 0) latePage = some s ∧
      step plainFunctions plainWorld s (.receiveCommand 1 (.update (1 / 5) 1)) = some s' ∧
      ∃ page page' told, s.pages[1]? = some page ∧ s'.pages[1]? = some page' ∧
        page'.sent = page.sent ++ told ∧
        told.map some = s'.server.model.entities.map
          (fun e => s'.server.model.sendUpdated e.getId) ∧
        (s'.server.model.entities.map TypeDecorator.getId).Pairwise (· < ·) ∧
        page'.view = s'.server.model.sighting ∧
        ∀ j ≠ 1, s'.pages[j]?.map Page.sent = s.pages[j]?.map Page.sent := by
  obtain ⟨s, hs⟩ : ∃ s, perform (step plainFunctions plainWorld) (start 0) latePage = some s :=
    ⟨_, rfl⟩
  obtain ⟨s', hs'⟩ : ∃ s',
      step plainFunctions plainWorld s (.receiveCommand 1 (.update (1 / 5) 1)) = some s' := by
    cases hs
    exact ⟨_, rfl⟩
  exact ⟨s, s', hs, hs', update_told plainFunctions plainWorld
    (run_of_perform hs fun _ _ _ => trivial) hs'⟩

end PageServer

end UmnProjects.Transit
