import Mathlib.Logic.Relation
import UmnProjects.Transit.Reachable

/-!
The stages a command is carried out in. An update is a sequence of calls of `Update` on
entities and of assignments of riders, so an invariant is checked against each of these.
-/
namespace UmnProjects.Transit
open Runs

variable {K : Type} [Scalar K] (world : World K)

namespace SimulationModel

inductive Stage (s : SimulationModel K) : SimulationModel K → Prop where
  | created (m : EntityMessage K) (s' : SimulationModel K)
      (h : s.createEntity world m = some s') : Stage s s'
  | scheduled (m : TripMessage K) (s' : SimulationModel K)
      (h : s.scheduleTrip world m = some s') : Stage s s'
  | updated (e : TypeDecorator) (dt : K) : Stage s (s.updateEntity world e dt)
  | assigned (c : HandlerClass) (e rider : TypeDecorator) (link : c ∈ chain)
      (member : e ∈ s.entities) (handled : s.handles c e = true)
      (available : (s.objects e.getId).bind Object.getAvailability = some true)
      (found : s.findRider c s.scheduler = some rider) : Stage s (s.assign world c e rider)
  | shown (s' : SimulationModel K) (objects : s'.objects = s.objects)
      (entities : s'.entities = s.entities) (scheduler : s'.scheduler = s.scheduler)
      (currentId : s'.currentId = s.currentId) (journal : s'.journal = s.journal) : Stage s s'

abbrev Stages (s s' : SimulationModel K) : Prop := Relation.ReflTransGen (Stage world) s s'

/-- By induction on the chain, which passes the same state on. -/
theorem stages_handle (s : SimulationModel K) (dt : K) {e : TypeDecorator}
    (he : e ∈ s.entities) {handlers : List HandlerClass} (links : ∀ c ∈ handlers, c ∈ chain) :
    Stages world s (handle world dt e s.scheduler handlers s) := by
  induction handlers with
  | nil => exact .refl
  | cons c next ih =>
      simp only [handle]
      split
      · case isTrue handled =>
          refine .tail ?_ (.updated e dt)
          split
          · case isTrue available =>
              split
              · exact .refl
              · case h_2 rider found =>
                  exact .single (.assigned c e rider (links c List.mem_cons_self) he handled
                    available found)
          · exact .refl
      · exact .tail (ih fun c' hc' => links c' (List.mem_cons_of_mem _ hc')) (.updated e dt)

theorem stages_updateOne (s : SimulationModel K) (dt : K) {e : TypeDecorator}
    (he : e ∈ s.entities) : Stages world s (s.updateOne world dt e) := by
  have handled := stages_handle world s dt he fun _ hc => hc
  have sent := handled.tail (.shown
    ((handle world dt e s.scheduler chain s).send (.updateEntity e.getId)) rfl rfl rfl rfl rfl)
  unfold updateOne
  simp only
  split
  · exact sent
  · exact sent.tail (.shown _ rfl rfl rfl rfl rfl)

/-- Over the list of entities, which no update changes. -/
theorem stages_foldl (dt : K) (es : List TypeDecorator) (s : SimulationModel K)
    (hes : ∀ e ∈ es, e ∈ s.entities) : Stages world s (es.foldl (updateOne world dt) s) := by
  induction es generalizing s with
  | nil => exact .refl
  | cons e es ih =>
      refine (stages_updateOne world s dt (hes e List.mem_cons_self)).trans (ih _ ?_)
      intro a ha
      rw [(Steady.updateOne world dt s e).entities]
      exact hes a (List.mem_cons_of_mem _ ha)

variable {world}

theorem stages_of_step {s s' : SimulationModel K} {c : Command K}
    (h : step world s c = some s') : Stages world s s' := by
  cases c with
  | createEntity m => exact .single (.created m s' h)
  | scheduleTrip m => exact .single (.scheduled m s' h)
  | update dt =>
      cases h
      exact stages_foldl world dt s.entities s fun _ he => he

/-- What every stage keeps is kept by every command. -/
theorem invariant_of_stages {I : SimulationModel K → Prop}
    (keep : ∀ s s', Stage world s s' → I s → I s') {s s' : SimulationModel K}
    (h : Stages world s s') (hs : I s) : I s' := by
  induction h with
  | refl => exact hs
  | tail _ stage ih => exact keep _ _ stage ih

end SimulationModel

end UmnProjects.Transit
