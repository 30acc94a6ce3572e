import UmnProjects.Transit.Movement
import UmnProjects.Transit.Riders

/-!
What a handler leaves behind when it assigns a rider: the drone's fields, the robot's, and
the note of the strategy name and the destination it read from the robot.
-/
namespace UmnProjects.Transit

variable {K : Type}

/-- The names that `SetToRobot` and `SetToDestination` know. -/
def strategyNames : List String := ["beeline", "astar", "dfs", "dijkstra"]

section Strategies

variable (world : World K) {strategyName : String} (start finish : Vector3 K) (d : Drone K)

theorem Drone.setToRobot_known (h : strategyName ∈ strategyNames) :
    ∃ strategy, d.setToRobot world strategyName start finish =
      { d with toRobot := some strategy } := by
  simp only [strategyNames, List.mem_cons, List.not_mem_nil, or_false] at h
  obtain rfl | rfl | rfl | rfl := h
  all_goals exact ⟨_, rfl⟩

variable [Scalar K]

theorem Drone.setToDestination_known (h : strategyName ∈ strategyNames) :
    ∃ strategy, d.setToDestination world strategyName start finish =
      { d with toFinalDestination := some strategy } := by
  simp only [strategyNames, List.mem_cons, List.not_mem_nil, or_false] at h
  obtain rfl | rfl | rfl | rfl := h
  all_goals exact ⟨_, rfl⟩

/-- There is no last `else`: an unknown name sets nothing. -/
theorem Drone.setToDestination_unknown (h : strategyName ∉ strategyNames) :
    d.setToDestination world strategyName start finish = d := by
  simp only [strategyNames, List.mem_cons, List.not_mem_nil, or_false, not_or] at h
  simp [Drone.setToDestination, h]

end Strategies

namespace SimulationModel

variable [Scalar K] (world : World K) {s : SimulationModel K} {e rider : TypeDecorator}
  {d : Drone K} {robot : Robot K}

open Paired

/-- The drone a handler has claimed, on its way to where the rider stands. -/
def claimed (d : Drone K) (rider : TypeDecorator) (des : Vector3 K) : Drone K :=
  { d with nearestEntity := some rider, available := false, pickedUp := false
           destination := des }

theorem claim_spec (he : s.objects e.getId = some (.drone d))
    (hr : s.objects rider.getId = some (.robot robot)) (hne : rider.getId ≠ e.getId) :
    (∃ des, (s.claim world e rider).objects e.getId = some (.drone (claimed d rider des))) ∧
      (s.claim world e rider).objects rider.getId =
        some (.robot { robot with available := false }) := by
  let s₁ := s.modify e.getId (Object.setNearestEntity rider)
  let s₂ := s₁.setAvailability rider.getId false
  let s₃ := s₂.setAvailability e.getId false
  let s₄ := s₃.modify e.getId (Object.setPickedUp false)
  have drone₁ : s₁.objects e.getId = some (.drone { d with nearestEntity := some rider }) :=
    modify_self s _ he
  have drone₂ : s₂.objects e.getId = some (.drone { d with nearestEntity := some rider }) :=
    (modify_of_ne s₁ _ hne.symm).trans drone₁
  have drone₃ : s₃.objects e.getId =
      some (.drone { d with nearestEntity := some rider, available := false }) :=
    modify_self s₂ _ drone₂
  have drone₄ : s₄.objects e.getId = some (.drone { d with
      nearestEntity := some rider, available := false, pickedUp := false }) :=
    modify_self s₃ _ drone₃
  have robot₁ : s₁.objects rider.getId = some (.robot robot) :=
    (modify_of_ne s _ hne).trans hr
  have robot₂ : s₂.objects rider.getId = some (.robot { robot with available := false }) :=
    modify_self s₁ _ robot₁
  have robot₄ : s₄.objects rider.getId = some (.robot { robot with available := false }) :=
    (modify_of_ne s₃ _ hne).trans ((modify_of_ne s₂ _ hne).trans robot₂)
  have last : s.claim world e rider = s₄.modify e.getId fun _ => .drone
      (claimed d rider (s₄.getPosition rider)) := by
    show s₄.setDestination world e.getId (s₄.getPosition rider) = _
    simp only [SimulationModel.setDestination, drone₄]
    rfl
  rw [last]
  exact ⟨⟨_, modify_self s₄ _ drone₄⟩, (modify_of_ne s₄ _ hne).trans robot₄⟩

/-- The drone and the note that an assignment leaves; name and destination are the robot's. -/
structure Sent (s s' : SimulationModel K) (e rider : TypeDecorator) (d : Drone K)
    (robot : Robot K) : Prop where
  drone : ∃ d', s'.objects e.getId = some (.drone d') ∧ d'.available = false ∧
    d'.pickedUp = false ∧ d'.nearestEntity = some rider ∧ d'.toRobot ≠ none ∧
    (robot.strategyName ∈ strategyNames → d'.toFinalDestination ≠ none) ∧
    (robot.strategyName ∉ strategyNames → d'.toFinalDestination = d.toFinalDestination)
  journal : s'.journal = s.journal ++
    [.availability rider.getId false, .availability e.getId false] ++
      [.assigned e rider robot.strategyName robot.destination]

theorem assign_sent {c : HandlerClass} (known : c.toRobot ∈ strategyNames)
    (he : s.objects e.getId = some (.drone d))
    (hr : s.objects rider.getId = some (.robot robot)) (hne : rider.getId ≠ e.getId) :
    Sent s (s.assign world c e rider) e rider d robot := by
  obtain ⟨⟨des, drone₁⟩, robot₁⟩ := claim_spec world he hr hne
  let s₁ := s.claim world e rider
  let start := s₁.getPosition e
  let s₂ := s₁.modify e.getId
    (Object.onDrone (Drone.setToRobot world c.toRobot start (s₁.getPosition rider)))
  obtain ⟨strategy, fetch⟩ := Drone.setToRobot_known world start (s₁.getPosition rider)
    (claimed d rider des) known
  have drone₂ : s₂.objects e.getId =
      some (.drone { claimed d rider des with toRobot := some strategy }) := by
    refine (modify_self s₁ _ drone₁).trans ?_
    simp only [Object.onDrone, fetch]
  have robot₂ : s₂.objects rider.getId = some (.robot { robot with available := false }) :=
    (modify_of_ne s₁ _ hne).trans robot₁
  have name : s₂.getStrategyName world rider = robot.strategyName := by
    simp [getStrategyName, robot₂, Object.getStrategyName]
  have destination : s₁.getDestination rider = robot.destination := by
    simp only [getDestination, s₁, robot₁, Option.map_some, Object.getDestination,
      Option.getD_some]
  let fetching : Drone K := { claimed d rider des with toRobot := some strategy }
  have drone₃ : (s.assign world c e rider).objects e.getId =
      some (.drone (fetching.setToDestination world (s₂.getStrategyName world rider)
        (s₂.getDestination e) (s₁.getDestination rider))) :=
    modify_self s₂ _ drone₂
  rw [name] at drone₃
  refine ⟨?_, ?_⟩
  · by_cases hk : robot.strategyName ∈ strategyNames
    · obtain ⟨strategy', deliver⟩ := Drone.setToDestination_known world (s₂.getDestination e)
        (s₁.getDestination rider) fetching hk
      rw [deliver] at drone₃
      exact ⟨_, drone₃, rfl, rfl, rfl, by simp [fetching], fun _ => by simp,
        fun h => absurd hk h⟩
    · rw [Drone.setToDestination_unknown world _ _ fetching hk] at drone₃
      exact ⟨_, drone₃, rfl, rfl, rfl, by simp [fetching], fun h => absurd h hk, fun _ => rfl⟩
  · rw [← s.journal_claim world e rider, ← name, ← destination]
    rfl

end SimulationModel

end UmnProjects.Transit
