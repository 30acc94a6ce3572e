import UmnProjects.Foundations.Rounds
import UmnProjects.Transit.Riders

/-!
How many entities each decorator is put around. The choice goes by the id of the object, and
the ids also count the decorators, those of trips included.
-/
namespace UmnProjects.Transit
open Runs Rounds

variable {K : Type}

instance : Fintype TravelType where
  elems := {.standard, .fancy, .extravagant}
  complete t := by cases t <;> decide

theorem wrapType_inj {i j : Nat} : SimulationModel.wrapType i = SimulationModel.wrapType j ↔
    i % 3 = j % 3 := by
  unfold SimulationModel.wrapType
  have hi := Nat.mod_lt i (by decide : 0 < 3)
  have hj := Nat.mod_lt j (by decide : 0 < 3)
  split_ifs <;> simp <;> omega

namespace SimulationModel

/-- The decorators of the entities, in the order of their creation. -/
def decorators (s : SimulationModel K) : List TravelType :=
  s.entities.map TypeDecorator.travelType

/-- The entities since the last whole round of three. -/
def openEntities (s : SimulationModel K) : List TypeDecorator :=
  s.entities.drop (s.entities.length / 3 * 3)

/-- A new object has another id modulo 3 than the other entities of its round. -/
def TakesTurn (s : SimulationModel K) : Command K → Prop
  | .createEntity _ => ∀ e ∈ s.openEntities, e.getId % 3 ≠ s.currentId % 3
  | .scheduleTrip _ | .update _ => True

instance (s : SimulationModel K) (c : Command K) : Decidable (s.TakesTurn c) :=
  match c with
  | .createEntity _ => inferInstanceAs (Decidable (∀ e ∈ s.openEntities, _))
  | .scheduleTrip _ | .update _ => .isTrue trivial

/-- The decorator of each entity is the one its id asks for. -/
def ById (s : SimulationModel K) : Prop :=
  ∀ e ∈ s.entities, e.travelType = wrapType e.getId

variable {s s' : SimulationModel K}

theorem openRound_decorators : openRound s.decorators =
    s.openEntities.map TypeDecorator.travelType := by
  rw [openRound, decorators, List.length_map, openEntities, List.map_drop]
  rfl

theorem takesTurn_iff (h : ById s) (m : EntityMessage K) :
    s.TakesTurn (.createEntity m) ↔ wrapType s.currentId ∉ openRound s.decorators := by
  rw [openRound_decorators, List.mem_map, not_exists]
  refine forall_congr' fun e => ?_
  rw [not_and]
  refine forall_congr' fun he => not_congr ?_
  rw [h e (List.mem_of_mem_drop he), wrapType_inj]

variable [Scalar K] (world : World K)

/-- The one thing that happens to the list of entities. -/
theorem entities_step {c : Command K} (h : Transit.step world s c = some s') :
    (∃ m, c = .createEntity m ∧ s'.entities = s.entities ++
        [⟨s.currentId + 1, wrapType s.currentId, .object s.currentId⟩]) ∨
      (∀ m, c ≠ .createEntity m) ∧ s'.entities = s.entities := by
  cases c with
  | createEntity m =>
      obtain ⟨_, _, _, _, _, _, _, _, entities⟩ := WellFormed.createEntity_spec world h
      exact .inl ⟨m, rfl, entities⟩
  | scheduleTrip m =>
      refine .inr ⟨nofun, ?_⟩
      obtain rfl | ⟨e, _, s₁, _, _, rfl, _, entities, _⟩ := WellFormed.scheduleTrip_spec world h
      · rfl
      · exact entities.trans (WellFormed.calm_request world s e m).entities
  | update dt =>
      cases h
      exact .inr ⟨nofun, (Steady.foldl_updateOne world dt s.entities s).entities⟩

theorem ById.step {c : Command K} (h : ById s) (hstep : Transit.step world s c = some s') :
    ById s' := by
  obtain ⟨m, _, entities⟩ | ⟨_, entities⟩ := entities_step world hstep
  · intro e he
    rw [entities] at he
    obtain he | he := List.mem_append.mp he
    · exact h e he
    · rw [List.mem_singleton.mp he]
      rfl
  · intro e he
    rw [entities] at he
    exact h e he

/-- What a creation does to the rounds. -/
theorem decorators_createEntity {m : EntityMessage K}
    (hstep : Transit.step world s (.createEntity m) = some s') :
    s'.decorators = s.decorators ++ [wrapType s.currentId] := by
  obtain ⟨_, _, entities⟩ | ⟨hnot, _⟩ := entities_step world hstep
  · rw [decorators, entities, List.map_append]
    rfl
  · exact absurd rfl (hnot m)

theorem inRounds_step {c : Command K} (h : ById s) (hrounds : InRounds s.decorators)
    (hturn : s.TakesTurn c) (hstep : Transit.step world s c = some s') :
    InRounds s'.decorators := by
  obtain ⟨m, rfl, _⟩ | ⟨_, entities⟩ := entities_step world hstep
  · rw [decorators_createEntity world hstep]
    exact hrounds.append ((takesTurn_iff h m).mp hturn)
  · rwa [decorators, entities]

theorem inRounds_of_run (h : Run (Transit.step world) TakesTurn (init K) s) :
    ById s ∧ InRounds s.decorators := by
  refine h.invariant (I := fun s => ById s ∧ InRounds s.decorators)
    (fun s c t hturn hstep hs => ?_) ⟨?_, inRounds_nil⟩
  · exact ⟨hs.1.step world hstep, inRounds_step world hs.1 hs.2 hturn hstep⟩
  · intro e he
    cases he

/-- The decorators are balanced as long as every creation takes its turn, and the first one
that does not upsets them. -/
theorem decorators_balanced_while :
    (∀ s, Run (Transit.step world) TakesTurn (init K) s → Balanced s.decorators) ∧
    ∀ s m s', Run (Transit.step world) TakesTurn (init K) s →
      Transit.step world s (.createEntity m) = some s' →
      (Balanced s'.decorators ↔ s.TakesTurn (.createEntity m)) := by
  refine ⟨fun s h => (inRounds_of_run world h).2.balanced, ?_⟩
  intro s m s' h hstep
  obtain ⟨hid, hrounds⟩ := inRounds_of_run world h
  rw [decorators_createEntity world hstep, takesTurn_iff hid m]
  constructor
  · exact fun hbalanced hopen => hrounds.not_balanced_append hopen hbalanced
  · exact fun hfree => (hrounds.append hfree).balanced

/-! ### Runs without trips -/

/-- Where there have been no trips the entities have the even ids. -/
structure EvenIds (s : SimulationModel K) : Prop where
  ids : s.entities.map TypeDecorator.getId = (List.range s.entities.length).map (2 * ·)
  currentId : s.currentId = 2 * s.entities.length

omit [Scalar K] in
/-- Of three even numbers in a row no two are the same modulo 3. -/
theorem EvenIds.takesTurn (h : EvenIds s) (m : EntityMessage K) :
    s.TakesTurn (.createEntity m) := by
  intro e he
  have hmem : e.getId ∈ (s.entities.map TypeDecorator.getId).drop (s.entities.length / 3 * 3) := by
    rw [← List.map_drop]
    exact List.mem_map_of_mem he
  rw [h.ids, List.mem_drop_iff_getElem] at hmem
  obtain ⟨j, hj, hid⟩ := hmem
  rw [List.length_map, List.length_range] at hj
  rw [List.getElem_map, List.getElem_range] at hid
  rw [← hid, h.currentId]
  omega

theorem EvenIds.step {c : Command K} (h : EvenIds s) (hc : ∀ m, c ≠ .scheduleTrip m)
    (hstep : Transit.step world s c = some s') : EvenIds s' := by
  cases c with
  | createEntity m =>
      obtain ⟨_, _, _, _, _, currentId, _, _, entities⟩ := WellFormed.createEntity_spec world hstep
      refine ⟨?_, ?_⟩
      · rw [entities, List.map_append, h.ids, List.length_append, List.length_singleton,
          List.range_succ, List.map_append, h.currentId]
        rfl
      · rw [entities, currentId, h.currentId, List.length_append, List.length_singleton]
        omega
  | scheduleTrip m => exact absurd rfl (hc m)
  | update dt =>
      cases hstep
      have steady := Steady.foldl_updateOne world dt s.entities s
      refine ⟨?_, ?_⟩
      · change ((s.entities.foldl _ s).entities).map _ = _
        rw [update, steady.entities]
        exact h.ids
      · rw [update, steady.entities, steady.currentId]
        exact h.currentId

/-- It is the trips that upset the balance. -/
theorem balanced_without_trips
    (h : Run (Transit.step world) (fun _ c => ∀ m, c ≠ .scheduleTrip m) (init K) s) :
    Balanced s.decorators := by
  have hrun : EvenIds s ∧ Run (Transit.step world) TakesTurn (init K) s := by
    induction h with
    | refl => exact ⟨⟨rfl, rfl⟩, .refl⟩
    | @tail t u c _ hc hstep ih =>
        refine ⟨ih.1.step world hc hstep, ih.2.tail ?_ hstep⟩
        cases c with
        | createEntity m => exact ih.1.takesTurn m
        | scheduleTrip m | update dt => trivial
  exact (inRounds_of_run world hrun.2).2.balanced

/-- Three robots. -/
def threeRobots : List (Command Int) :=
  [.createEntity (atOrigin "robot" "A"), .createEntity (atOrigin "robot" "B"),
    .createEntity (atOrigin "robot" "C")]

theorem threeRobots_balanced :
    ∃ s, perform (Transit.step quietWorld) (init Int) threeRobots = some s ∧
      Balanced s.decorators := by
  refine ⟨_, rfl, ?_⟩
  have hstart : Run (Transit.step quietWorld) TakesTurn (init Int) (init Int) := .refl
  have hfirst := hstart.tail (a := .createEntity (atOrigin "robot" "A")) (by decide) rfl
  have hsecond := hfirst.tail (a := .createEntity (atOrigin "robot" "B")) (by decide) rfl
  have hthird := hsecond.tail (a := .createEntity (atOrigin "robot" "C")) (by decide) rfl
  exact (decorators_balanced_while quietWorld).1 _ hthird

/-- A trip between the creation of two robots. -/
def tripBetween : List (Command Int) :=
  [.createEntity (atOrigin "robot" "A"), .scheduleTrip ⟨"A", "standard", ⟨1, 0, 0⟩, "astar"⟩,
    .createEntity (atOrigin "robot" "B")]

theorem tripBetween_not_balanced :
    ∃ s, perform (Transit.step quietWorld) (init Int) tripBetween = some s ∧
      s.decorators = [.standard, .standard] ∧ ¬ Balanced s.decorators := by
  refine ⟨_, rfl, rfl, ?_⟩
  intro hbalanced
  have hcount : [TravelType.standard, .standard].count .standard ≤
      [TravelType.standard, .standard].count .fancy + 1 := hbalanced .standard .fancy
  exact absurd hcount (by decide)

end SimulationModel

end UmnProjects.Transit
