import Mathlib.Data.List.Nodup
import UmnProjects.Transit.Reachable

/-!
How often one pass through the handlers calls `Update` of the entity. A handler that
passes an entity on calls it once more when the rest of the chain has returned.
-/
namespace UmnProjects.Transit
open Runs

variable {K : Type}

namespace SimulationModel

section Journal

variable (s : SimulationModel K) (id : Nat)

@[simp] theorem journal_modify (f : Object K → Object K) : (s.modify id f).journal = s.journal :=
  rfl

@[simp] theorem journal_note (n : Note K) : (s.note n).journal = s.journal ++ [n] := rfl

@[simp] theorem journal_send (e : Event) : (s.send e).journal = s.journal := rfl

variable [Scalar K] (world : World K)

@[simp] theorem journal_drawGround (y : K) : (s.drawGround world y).2.journal = s.journal := rfl

@[simp] theorem journal_drawSky : (s.drawSky world).2.journal = s.journal := rfl

@[simp] theorem journal_setDestination (des : Vector3 K) :
    (s.setDestination world id des).journal = s.journal := by
  unfold setDestination
  split <;> simp

theorem journal_updateDrone (d : Drone K) (dt : K) :
    (s.updateDrone id d dt).journal = s.journal := by
  unfold updateDrone
  split
  · rfl
  · split
    · rfl
    · simp only
      split <;> split <;> rfl

theorem journal_updateHuman (h : Human K) (dt : K) :
    (s.updateHuman world id h dt).journal = s.journal := by
  unfold updateHuman
  split
  · rfl
  · split <;> rfl

theorem journal_updateHelicopter (h : Helicopter K) (dt : K) :
    (s.updateHelicopter world id h dt).journal = s.journal := by
  unfold updateHelicopter
  split
  · rfl
  · split <;> rfl

theorem journal_updateUfo (u : Ufo K) (dt : K) :
    (s.updateUfo world id u dt).journal = s.journal := by
  unfold updateUfo
  split <;> rfl

theorem journal_updateEntity (e : TypeDecorator) (dt : K) :
    (s.updateEntity world e dt).journal = s.journal ++ [.updated e dt] := by
  unfold updateEntity
  simp only
  split
  · rw [journal_updateDrone, journal_note]
  · rw [journal_updateHuman, journal_note]
  · rw [journal_updateHelicopter, journal_note]
  · rw [journal_updateUfo, journal_note]
  · rfl
  · rfl

theorem journal_claim (e rider : TypeDecorator) :
    (s.claim world e rider).journal = s.journal ++
      [.availability rider.getId false, .availability e.getId false] := by
  simp [claim, setAvailability]

theorem journal_assign (h : HandlerClass) (e rider : TypeDecorator) :
    ∃ strat finalDest, (s.assign world h e rider).journal =
      (s.claim world e rider).journal ++ [.assigned e rider strat finalDest] :=
  ⟨_, _, rfl⟩

end Journal

end SimulationModel

/-- A call of `Update` on the entity. -/
def Note.updates (e : TypeDecorator) : Note K → Bool
  | .updated e' _ => e' == e
  | _ => false

namespace SimulationModel

/-- The calls of `Update` on the entity so far. -/
def updateCount (s : SimulationModel K) (e : TypeDecorator) : Nat :=
  s.journal.countP (Note.updates e)

theorem Steady.handles {s s' : SimulationModel K} (h : Steady s s') (e : TypeDecorator) :
    (fun c => s'.handles c e) = fun c => s.handles c e := by
  funext c
  simp only [SimulationModel.handles, getType_eq, h.profile]

variable [Scalar K] (world : World K)

theorem updateCount_updateEntity (s : SimulationModel K) (e : TypeDecorator) (dt : K) :
    (s.updateEntity world e dt).updateCount e = s.updateCount e + 1 := by
  simp [updateCount, journal_updateEntity, Note.updates]

theorem updateCount_assign (s : SimulationModel K) (h : HandlerClass) (e rider : TypeDecorator)
    (e' : TypeDecorator) : (s.assign world h e rider).updateCount e' = s.updateCount e' := by
  obtain ⟨strat, finalDest, hj⟩ := s.journal_assign world h e rider
  simp [updateCount, hj, journal_claim, Note.updates]

/-- How many calls the chain makes, given which of its handlers handle the entity. -/
def callsOf (handles : HandlerClass → Bool) : List HandlerClass → Nat
  | [] => 0
  | h :: next => if handles h then 1 else callsOf handles next + 1

theorem callsOf_eq_one (handles : HandlerClass → Bool) (h : HandlerClass)
    (next : List HandlerClass) :
    callsOf handles (h :: next) = 1 ↔ handles h = true ∨ next = [] := by
  cases hh : handles h with
  | true => simp [callsOf, hh]
  | false =>
      cases next with
      | nil => simp [callsOf, hh]
      | cons h' next =>
          have hpos : 0 < callsOf handles (h' :: next) := by
            simp only [callsOf]
            split <;> omega
          simp [callsOf, hh] at hpos ⊢
          omega

/-- By induction on the chain: the rest of it is run on the same state. -/
theorem updateCount_handle (dt : K) (e : TypeDecorator) (scheduler : List TypeDecorator)
    (handlers : List HandlerClass) (s : SimulationModel K) :
    (handle world dt e scheduler handlers s).updateCount e =
      s.updateCount e + callsOf (fun h => s.handles h e) handlers := by
  induction handlers with
  | nil => rfl
  | cons h next ih =>
      cases hh : s.handles h e with
      | true =>
          simp only [handle, hh, if_true, callsOf, updateCount_updateEntity]
          split
          · split
            · rfl
            · rw [updateCount_assign]
          · rfl
      | false =>
          simp only [handle, hh, callsOf, Bool.false_eq_true, if_false,
            updateCount_updateEntity, ih, Nat.add_assoc]

/-- Handling one entity updates no other. -/
theorem updateCount_handle_of_ne (dt : K) {e e' : TypeDecorator} (hne : e ≠ e')
    (scheduler : List TypeDecorator) (handlers : List HandlerClass) (s : SimulationModel K) :
    (handle world dt e scheduler handlers s).updateCount e' = s.updateCount e' := by
  have other : ∀ t : SimulationModel K,
      (t.updateEntity world e dt).updateCount e' = t.updateCount e' := by
    intro t
    simp [updateCount, journal_updateEntity, Note.updates, hne]
  induction handlers with
  | nil => rfl
  | cons h next ih =>
      simp only [handle]
      split
      · rw [other]
        split
        · split
          · rfl
          · rw [updateCount_assign]
        · rfl
      · rw [other, ih]

theorem journal_updateOne (dt : K) (s : SimulationModel K) (e : TypeDecorator) :
    (s.updateOne world dt e).journal = (handle world dt e s.scheduler chain s).journal := by
  unfold updateOne
  simp only
  split <;> rfl

/-- Over the loop each occurrence of an entity is handled as in the first state. -/
theorem updateCount_foldl (dt : K) (e : TypeDecorator) (es : List TypeDecorator)
    (s : SimulationModel K) :
    (es.foldl (updateOne world dt) s).updateCount e =
      s.updateCount e + es.count e * callsOf (fun h => s.handles h e) chain := by
  induction es generalizing s with
  | nil => simp
  | cons a es ih =>
      have steady := Steady.updateOne world dt s a
      rw [List.foldl_cons, ih, steady.handles]
      have hone : (s.updateOne world dt a).updateCount e =
          s.updateCount e + if a = e then callsOf (fun h => s.handles h e) chain else 0 := by
        unfold updateCount
        rw [journal_updateOne]
        by_cases ha : a = e
        · subst a
          rw [if_pos rfl]
          exact updateCount_handle world dt e s.scheduler chain s
        · rw [if_neg ha]
          exact updateCount_handle_of_ne world dt ha s.scheduler chain s
      rw [hone, List.count_cons]
      by_cases ha : a = e
      · simp only [ha, if_true, beq_self_eq_true, Nat.add_mul, Nat.one_mul]
        omega
      · simp [ha]

theorem count_of_nodup_map {es : List TypeDecorator} {e : TypeDecorator}
    (h : (es.map TypeDecorator.getId).Nodup) (he : e ∈ es) : es.count e = 1 :=
  List.count_eq_one_of_mem (List.Nodup.of_map _ h) he

/-- One pass of a chain updates the entity once exactly when its first handler handles it
or is its last; one `Update` of the model updates exactly the standard drones once. -/
theorem update_once_iff :
    (∀ (s : SimulationModel K) (dt : K) (e : TypeDecorator) (scheduler : List TypeDecorator)
      (h : HandlerClass) (next : List HandlerClass),
      (handle world dt e scheduler (h :: next) s).updateCount e = s.updateCount e + 1 ↔
        s.getType e = some "drone" ∧ e.travelType = h.travelType ∨ next = []) ∧
    ∀ (s : SimulationModel K), Run (step world) (fun _ _ => True) (init K) s →
      ∀ (dt : K), ∀ e ∈ s.entities,
        ((s.update world dt).updateCount e = s.updateCount e + 1 ↔
          s.getType e = some "drone" ∧ e.travelType = .standard) := by
  have handles_iff : ∀ (s : SimulationModel K) (h : HandlerClass) (e : TypeDecorator),
      s.handles h e = true ↔ s.getType e = some "drone" ∧ e.travelType = h.travelType := by
    intro s h e
    simp [handles]
  refine ⟨?_, ?_⟩
  · intro s dt e scheduler h next
    rw [updateCount_handle, Nat.add_left_cancel_iff, callsOf_eq_one, handles_iff]
  · intro s run dt e he
    have once := count_of_nodup_map (WellFormed.of_run world run).nodup he
    rw [update, updateCount_foldl, once, Nat.one_mul, Nat.add_left_cancel_iff, chain,
      callsOf_eq_one, handles_iff]
    simp [StandardHandler]

/-- No routes, random numbers at the lower bound. -/
def quietWorld : World Int where
  getPath _ _ _ := []
  random _ min _ := min
  uninitialized := false
  noName := ""

/-- A message for an entity at the origin. -/
def atOrigin (type name : String) : EntityMessage Int :=
  ⟨type, name, ⟨0, 0, 0⟩, ⟨1, 0, 0⟩, 30⟩

theorem update_once_iff_standardDrone :
    ∃ s, perform (step quietWorld) (init Int) [.createEntity (atOrigin "drone" "Drone")] =
        some s ∧ ∀ e ∈ s.entities, (s.update quietWorld 1).updateCount e = s.updateCount e + 1 := by
  obtain ⟨s, hs⟩ : ∃ s, perform (step quietWorld) (init Int)
      [.createEntity (atOrigin "drone" "Drone")] = some s := ⟨_, rfl⟩
  have run : Run (step quietWorld) (fun _ _ => True) (init Int) s :=
    run_of_perform hs (fun _ _ _ => trivial)
  refine ⟨s, hs, ?_⟩
  intro e he
  apply ((update_once_iff quietWorld).2 s run 1 e he).mpr
  cases hs
  rw [List.mem_singleton.mp he]
  exact ⟨rfl, rfl⟩

/-- Any other entity is updated by each of the three handlers. -/
theorem robot_updated_three_times :
    ∃ s : SimulationModel Int, Run (step quietWorld) (fun _ _ => True) (init Int) s ∧
      ∃ e ∈ s.entities, s.getType e = some "robot" ∧
        (s.update quietWorld 1).updateCount e = s.updateCount e + 3 := by
  obtain ⟨s, hs⟩ : ∃ s, perform (step quietWorld) (init Int)
      [.createEntity (atOrigin "robot" "Robot")] = some s := ⟨_, rfl⟩
  refine ⟨s, run_of_perform hs (fun _ _ _ => trivial), ?_⟩
  cases hs
  exact ⟨_, List.mem_singleton.mpr rfl, rfl, rfl⟩

end SimulationModel

end UmnProjects.Transit
