import UmnProjects.Transit.Reachable

/-!
The list of the entities: every object is in it, and the ids ascend, so that each entity is
listed once.
-/
namespace UmnProjects.Transit

open Runs

namespace SimulationModel

variable {K : Type}

def IsEntity (s : SimulationModel K) (id : Nat) : Prop :=
  ∃ e ∈ s.entities, e.getId = id

instance (s : SimulationModel K) (id : Nat) : Decidable (s.IsEntity id) :=
  inferInstanceAs (Decidable (∃ e ∈ s.entities, e.getId = id))

/-- Every object is listed, in the order of the ids. -/
structure Listed (s : SimulationModel K) : Prop where
  wellFormed : s.WellFormed
  all : ∀ id, s.objects id ≠ none → s.IsEntity id
  sorted : (s.entities.map TypeDecorator.getId).Pairwise (· < ·)

namespace Listed

variable {s s' : SimulationModel K}

theorem init : Listed (SimulationModel.init K) where
  wellFormed := .init
  all := by
    intro id h
    exact absurd rfl h
  sorted := .nil

theorem steady (h : Listed s) (hs : Steady s s') : Listed s' := by
  refine ⟨h.wellFormed.steady hs, ?_, ?_⟩
  · intro id hid
    rw [IsEntity, hs.entities]
    refine h.all id ?_
    intro hnone
    have hprofile := hs.profile id
    simp only [profile, hnone, Option.map_none, Option.map_eq_none_iff] at hprofile
    exact hid hprofile
  · rw [hs.entities]
    exact h.sorted

theorem objects_ne_none_iff (h : Listed s) (id : Nat) : s.objects id ≠ none ↔ s.IsEntity id := by
  constructor
  · exact h.all id
  · intro hid hnone
    obtain ⟨e, he, rfl⟩ := hid
    exact (h.wellFormed.entity e he).2 (by rw [profile, hnone]; rfl)

/-- Each entity has one turn in an update. -/
theorem turn (h : Listed s) {e : TypeDecorator} (he : e ∈ s.entities) :
    ∃ es es', s.entities = es ++ e :: es' ∧ (∀ a ∈ es, a.getId ≠ e.getId) ∧
      ∀ a ∈ es', a.getId ≠ e.getId := by
  obtain ⟨es, es', hsplit⟩ := List.append_of_mem he
  have hsorted := h.sorted
  rw [hsplit, List.map_append, List.map_cons, List.pairwise_append, List.pairwise_cons] at hsorted
  obtain ⟨_, ⟨hafter, _⟩, hbefore⟩ := hsorted
  refine ⟨es, es', hsplit, ?_, ?_⟩
  · intro a ha
    exact Nat.ne_of_lt (hbefore _ (List.mem_map_of_mem ha) _ List.mem_cons_self)
  · intro a ha
    exact Nat.ne_of_gt (hafter _ (List.mem_map_of_mem ha))

variable [Scalar K] (world : World K)

theorem createEntity (h : Listed s) {m : EntityMessage K}
    (hc : s.createEntity world m = some s') : Listed s' := by
  obtain ⟨o, _, _, _, objects, _, _, _, entities⟩ := WellFormed.createEntity_spec world hc
  refine ⟨h.wellFormed.createEntity world hc, ?_, ?_⟩
  · intro id hid
    rw [IsEntity, entities]
    by_cases hnew : id = s.currentId
    · exact ⟨_, List.mem_append_right _ List.mem_cons_self, hnew.symm⟩
    · rw [objects, Function.update_of_ne hnew] at hid
      obtain ⟨e, he, heq⟩ := h.all id hid
      exact ⟨e, List.mem_append_left _ he, heq⟩
  · rw [entities, List.map_append]
    refine List.pairwise_append.mpr ⟨h.sorted, by simp, ?_⟩
    intro a ha b hb
    obtain ⟨e, he, rfl⟩ := List.mem_map.mp ha
    rw [List.map_singleton, List.mem_singleton] at hb
    rw [hb]
    exact h.wellFormed.lt_currentId (h.wellFormed.entity e he).2

theorem scheduleTrip (h : Listed s) {m : TripMessage K}
    (hc : s.scheduleTrip world m = some s') : Listed s' := by
  obtain hs | ⟨e, travelType, s₁, _, _, hs₁, objects, entities, _⟩ :=
    WellFormed.scheduleTrip_spec world hc
  · rw [hs]
    exact h.steady (Steady.send s _)
  · have h₁ : Listed s₁ := hs₁ ▸ h.steady (WellFormed.calm_request world s e m).steady
    refine ⟨h.wellFormed.scheduleTrip world hc, ?_, ?_⟩
    · intro id hid
      rw [objects] at hid
      rw [IsEntity, entities]
      exact h₁.all id hid
    · rw [entities]
      exact h₁.sorted

theorem step {c : Command K} (hc : Transit.step world s c = some s') (h : Listed s) :
    Listed s' := by
  cases c with
  | createEntity m => exact h.createEntity world hc
  | scheduleTrip m => exact h.scheduleTrip world hc
  | update dt =>
      cases hc
      exact h.steady (Steady.foldl_updateOne world dt s.entities s)

theorem of_run {ok : SimulationModel K → Command K → Prop}
    (h : Run (Transit.step world) ok (SimulationModel.init K) s) : Listed s :=
  h.invariant (fun _ _ _ _ hc hs => hs.step world hc) init

end Listed

end SimulationModel

end UmnProjects.Transit
