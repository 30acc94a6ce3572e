import UmnProjects.Transit.Vector
import Mathlib.Logic.Function.Basic

/-!
Entities, the decorators around them and the movement strategies. A pointer to an
entity is the id of an object, possibly inside type decorators, which never change
once they are made.
-/
namespace UmnProjects.Transit

inductive TravelType where
  | standard
  | fancy
  | extravagant
deriving DecidableEq

/-- The text that a decorator puts under `travelType`. -/
def TravelType.name : TravelType → String
  | .standard => "standard"
  | .fancy => "fancy"
  | .extravagant => "extravagant"

/-- The counter of the constructor gives every object and every decorator its own id. -/
inductive IEntity where
  | object (id : Nat)
  | decorated (id : Nat) (travelType : TravelType) (entity : IEntity)
deriving DecidableEq

/-- A decorator answers with the id of the object inside. -/
def IEntity.getId : IEntity → Nat
  | .object id => id
  | .decorated _ _ entity => entity.getId

structure TypeDecorator where
  id : Nat
  travelType : TravelType
  entity : IEntity
deriving DecidableEq

def TypeDecorator.toEntity (e : TypeDecorator) : IEntity :=
  .decorated e.id e.travelType e.entity

def TypeDecorator.getId (e : TypeDecorator) : Nat := e.entity.getId

structure Details (K : Type) where
  type : String
  name : String
  position : Vector3 K
  direction : Vector3 K
  speed : K

inductive IStrategy (K : Type) where
  | beeline (position destination : Vector3 K)
  | path (points : List (Vector3 K)) (index : Nat)
  | jump (strategy : IStrategy K) (time : K)
  | spin (strategy : IStrategy K) (time : K)

structure Drone (K : Type) where
  details : Details K
  position : Vector3 K
  direction : Vector3 K
  jumpHeight : K
  goUp : Bool
  destination : Vector3 K
  speed : K
  available : Bool
  pickedUp : Bool
  nearestEntity : Option TypeDecorator
  toRobot : Option (IStrategy K)
  toFinalDestination : Option (IStrategy K)

structure Robot (K : Type) where
  details : Details K
  position : Vector3 K
  direction : Vector3 K
  destination : Vector3 K
  speed : K
  available : Bool
  strategyName : String

structure Human (K : Type) where
  details : Details K
  position : Vector3 K
  direction : Vector3 K
  destination : Vector3 K
  speed : K
  toDestination : Option (IStrategy K)

structure Helicopter (K : Type) where
  details : Details K
  position : Vector3 K
  direction : Vector3 K
  destination : Vector3 K
  speed : K
  toDestination : Option (IStrategy K)

structure Ufo (K : Type) where
  details : Details K
  position : Vector3 K
  direction : Vector3 K
  destination : Vector3 K
  speed : K

inductive Object (K : Type) where
  | drone (d : Drone K)
  | robot (r : Robot K)
  | human (h : Human K)
  | helicopter (h : Helicopter K)
  | ufo (u : Ufo K)

namespace Object

variable {K : Type}

def getDetails : Object K → Details K
  | .drone d => d.details
  | .robot r => r.details
  | .human h => h.details
  | .helicopter h => h.details
  | .ufo u => u.details

def getPosition : Object K → Vector3 K
  | .drone d => d.position
  | .robot r => r.position
  | .human h => h.position
  | .helicopter h => h.position
  | .ufo u => u.position

def getDirection : Object K → Vector3 K
  | .drone d => d.direction
  | .robot r => r.direction
  | .human h => h.direction
  | .helicopter h => h.direction
  | .ufo u => u.direction

def getDestination : Object K → Vector3 K
  | .drone d => d.destination
  | .robot r => r.destination
  | .human h => h.destination
  | .helicopter h => h.destination
  | .ufo u => u.destination

def getSpeed : Object K → K
  | .drone d => d.speed
  | .robot r => r.speed
  | .human h => h.speed
  | .helicopter h => h.speed
  | .ufo u => u.speed

/-- The other entities inherit a function without a `return`. -/
def getAvailability : Object K → Option Bool
  | .drone d => some d.available
  | .robot r => some r.available
  | .human _ | .helicopter _ | .ufo _ => none

/-- The other entities inherit a function without a `return`. -/
def getStrategyName : Object K → Option String
  | .robot r => some r.strategyName
  | .drone _ | .human _ | .helicopter _ | .ufo _ => none

def setPosition (pos : Vector3 K) : Object K → Object K
  | .drone d => .drone { d with position := pos }
  | .robot r => .robot { r with position := pos }
  | .human h => .human { h with position := pos }
  | .helicopter h => .helicopter { h with position := pos }
  | .ufo u => .ufo u

def setDirection (dir : Vector3 K) : Object K → Object K
  | .drone d => .drone { d with direction := dir }
  | .robot r => .robot { r with direction := dir }
  | .human h => .human { h with direction := dir }
  | .helicopter h => .helicopter { h with direction := dir }
  | .ufo u => .ufo u

def setAvailability (choice : Bool) : Object K → Object K
  | .drone d => .drone { d with available := choice }
  | .robot r => .robot { r with available := choice }
  | o => o

def setStrategyName (strategyName : String) : Object K → Object K
  | .robot r => .robot { r with strategyName := strategyName }
  | o => o

def setPickedUp (pickedUp : Bool) : Object K → Object K
  | .drone d => .drone { d with pickedUp := pickedUp }
  | o => o

def setNearestEntity (entity : TypeDecorator) : Object K → Object K
  | .drone d => .drone { d with nearestEntity := some entity }
  | o => o

end Object

/-- What a strategy does to the entity it moves. -/
class Movable (K : outParam Type) (E : Type) where
  getPosition : E → Vector3 K
  getSpeed : E → K
  setPosition : Vector3 K → E → E
  setDirection : Vector3 K → E → E
  jump : K → E → E
  rotate : K → E → E

section Instances

variable {K : Type} [Scalar K]

def Drone.jump (height : K) (d : Drone K) : Drone K :=
  if d.goUp then
    let jumpHeight := d.jumpHeight + height
    { d with
      position := { d.position with y := d.position.y + height }
      jumpHeight := jumpHeight
      goUp := if Scalar.less (Scalar.ofInt 5) jumpHeight then false else d.goUp }
  else
    let jumpHeight := d.jumpHeight - height
    { d with
      position := { d.position with y := d.position.y - height }
      jumpHeight := jumpHeight
      goUp := if Scalar.less jumpHeight (Scalar.ofInt 0) then true else d.goUp }

instance : Movable K (Drone K) where
  getPosition d := d.position
  getSpeed d := d.speed
  setPosition pos d := { d with position := pos }
  setDirection dir d := { d with direction := dir }
  jump := Drone.jump
  rotate angle d := { d with direction := d.direction.rotate angle }

instance : Movable K (Human K) where
  getPosition h := h.position
  getSpeed h := h.speed
  setPosition pos h := { h with position := pos }
  setDirection dir h := { h with direction := dir }
  jump _ h := h
  rotate _ h := h

instance : Movable K (Helicopter K) where
  getPosition h := h.position
  getSpeed h := h.speed
  setPosition pos h := { h with position := pos }
  setDirection dir h := { h with direction := dir }
  jump _ h := h
  rotate angle h := { h with direction := h.direction.rotate angle }

end Instances

namespace IStrategy

variable {K E : Type} [Scalar K] [Movable K E]

def isCompleted : IStrategy K → Bool
  | .beeline position destination =>
      Scalar.less (position.distance destination) (Scalar.ofInt 4)
  | .path points index => decide (points.length ≤ index)
  | .jump _ time | .spin _ time => !Scalar.less time (Scalar.ofInt 4)

/-- The strategy and the entity after one `Move`. -/
def move (dt : K) : IStrategy K → E → IStrategy K × E
  | .beeline position destination, entity =>
      if (beeline position destination).isCompleted then (.beeline position destination, entity)
      else
        let dir := (destination.sub position).unit
        let position := position.add ((dir.mul (Movable.getSpeed entity)).mul dt)
        let entity := Movable.setDirection dir (Movable.setPosition position entity)
        (.beeline position destination, entity)
  | .path points index, entity =>
      match points[index]? with
      | none => (.path points index, entity)
      | some vi =>
          let dir := (vi.sub (Movable.getPosition entity)).unit
          let pos := (Movable.getPosition entity).add
            ((dir.mul (Movable.getSpeed entity)).mul dt)
          let entity := Movable.setDirection dir (Movable.setPosition pos entity)
          let near := Scalar.less ((Movable.getPosition entity).distance vi) (Scalar.ofInt 4)
          (.path points (if near then index + 1 else index), entity)
  | .jump strategy time, entity =>
      if strategy.isCompleted && !(jump strategy time).isCompleted then
        (.jump strategy (time + dt), Movable.jump (dt * Scalar.ofInt 10) entity)
      else
        let (strategy, entity) := strategy.move dt entity
        (.jump strategy time, entity)
  | .spin strategy time, entity =>
      if strategy.isCompleted && !(spin strategy time).isCompleted then
        (.spin strategy (time + dt), Movable.rotate (dt * Scalar.ofInt 10) entity)
      else
        let (strategy, entity) := strategy.move dt entity
        (.spin strategy time, entity)

/-- What none of the entity's own movements changes, no strategy changes. -/
theorem move_frame {β : Type} (f : E → β)
    (hpos : ∀ pos (e : E), f (Movable.setPosition pos e) = f e)
    (hdir : ∀ dir (e : E), f (Movable.setDirection dir e) = f e)
    (hjump : ∀ height (e : E), f (Movable.jump height e) = f e)
    (hrotate : ∀ angle (e : E), f (Movable.rotate angle e) = f e)
    (dt : K) (s : IStrategy K) (e : E) : f (s.move dt e).2 = f e := by
  induction s with
  | beeline position destination =>
      simp only [move]
      split
      · rfl
      · simp only [hdir, hpos]
  | path points index =>
      simp only [move]
      split
      · rfl
      · simp only [hdir, hpos]
  | jump strategy time ih =>
      simp only [move]
      split
      · exact hjump _ e
      · exact ih
  | spin strategy time ih =>
      simp only [move]
      split
      · exact hrotate _ e
      · exact ih

end IStrategy

end UmnProjects.Transit
