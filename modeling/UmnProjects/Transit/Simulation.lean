import UmnProjects.Transit.Entities

/-!
`SimulationModel`: the objects, the two lists of decorated entities, the handler chain
and the three commands. What lies outside (routes, random numbers, the contents of a
field before it is first set) is given by `World`. The journal is read by nothing.
-/
namespace UmnProjects.Transit

inductive RoutingStrategy where
  | astar
  | dfs
  | dijkstra
deriving DecidableEq

structure World (K : Type) where
  getPath : RoutingStrategy → Vector3 K → Vector3 K → List (Vector3 K)
  /-- The `n`-th random number, between two bounds. -/
  random : Nat → K → K → K
  uninitialized : Bool
  /-- What `GetStrategyName` without a `return` yields. -/
  noName : String

/-- What a `CreateEntity` message says. -/
structure EntityMessage (K : Type) where
  type : String
  name : String
  position : Vector3 K
  direction : Vector3 K
  speed : K

/-- What a `ScheduleTrip` message says. -/
structure TripMessage (K : Type) where
  name : String
  droneReq : String
  finish : Vector3 K
  search : String

/-- What the data collection keeps under one name. -/
structure Collected (K : Type) where
  speed : K
  travelType : TravelType
  type : String
  distance : K
  time : K
  position : Vector3 K
  direction : Vector3 K
  destination : Vector3 K

inductive Event where
  | addEntity (id : Nat)
  | tripScheduled
  | updateEntity (id : Nat)
deriving DecidableEq

/-- The calls a history of the simulation is told by. -/
inductive Note (K : Type) where
  | scheduled (rider : TypeDecorator) (trip : TripMessage K)
  | assigned (drone rider : TypeDecorator) (strategyName : String) (finalDest : Vector3 K)
  | availability (id : Nat) (choice : Bool)
  | updated (entity : TypeDecorator) (dt : K)

structure SimulationModel (K : Type) where
  objects : Nat → Option (Object K)
  currentId : Nat
  entities : List TypeDecorator
  scheduler : List TypeDecorator
  draws : Nat
  dataCollection : String → Option (Collected K)
  events : List Event
  journal : List (Note K)

def SimulationModel.init (K : Type) : SimulationModel K where
  objects := fun _ => none
  currentId := 0
  entities := []
  scheduler := []
  draws := 0
  dataCollection := fun _ => none
  events := []
  journal := []

namespace SimulationModel

variable {K : Type}

def modify (s : SimulationModel K) (id : Nat) (f : Object K → Object K) : SimulationModel K :=
  { s with objects := Function.update s.objects id ((s.objects id).map f) }

def note (s : SimulationModel K) (n : Note K) : SimulationModel K :=
  { s with journal := s.journal ++ [n] }

def send (s : SimulationModel K) (e : Event) : SimulationModel K :=
  { s with events := s.events ++ [e] }

def setAvailability (s : SimulationModel K) (id : Nat) (choice : Bool) : SimulationModel K :=
  (s.modify id (Object.setAvailability choice)).note (.availability id choice)

variable [Scalar K] (world : World K)

/-- `Random(Min, Max)`. -/
def draw (s : SimulationModel K) (min max : Int) : K × SimulationModel K :=
  (world.random s.draws (Scalar.ofInt min) (Scalar.ofInt max), { s with draws := s.draws + 1 })

/-- The destination of a human or helicopter, at the given height. -/
def drawGround (s : SimulationModel K) (y : K) : Vector3 K × SimulationModel K :=
  let (x, s) := s.draw world (-1400) 1500
  let (z, s) := s.draw world (-800) 800
  (⟨x, y, z⟩, s)

/-- The destination of a UFO. -/
def drawSky (s : SimulationModel K) : Vector3 K × SimulationModel K :=
  let (x, s) := s.draw world (-1400) 1500
  let (y, s) := s.draw world 400 1000
  let (z, s) := s.draw world (-800) 800
  (⟨x, y, z⟩, s)

/-- `SetDestination` of the object, which a UFO answers with a random one. -/
def setDestination (s : SimulationModel K) (id : Nat) (des : Vector3 K) : SimulationModel K :=
  match s.objects id with
  | some (.ufo u) =>
      let (des, s) := s.drawSky world
      s.modify id fun _ => .ufo { u with destination := des }
  | some (.drone d) => s.modify id fun _ => .drone { d with destination := des }
  | some (.robot r) => s.modify id fun _ => .robot { r with destination := des }
  | some (.human h) => s.modify id fun _ => .human { h with destination := des }
  | some (.helicopter h) => s.modify id fun _ => .helicopter { h with destination := des }
  | none => s

end SimulationModel

section Drones

variable {K : Type} [Scalar K] (world : World K)

def Drone.setToRobot (strategyName : String) (start finish : Vector3 K) (d : Drone K) : Drone K :=
  let set (strategy : IStrategy K) := { d with toRobot := some strategy }
  if strategyName = "beeline" then set (.beeline start finish)
  else if strategyName = "astar" then set (.path (world.getPath .astar start finish) 0)
  else if strategyName = "dfs" then set (.path (world.getPath .dfs start finish) 0)
  else if strategyName = "dijkstra" then set (.path (world.getPath .dijkstra start finish) 0)
  else d

def Drone.setToDestination (strategyName : String) (start finish : Vector3 K) (d : Drone K) :
    Drone K :=
  let set (strategy : IStrategy K) := { d with toFinalDestination := some strategy }
  let zero := Scalar.ofInt 0
  if strategyName = "beeline" then set (.beeline start finish)
  else if strategyName = "astar" then
    set (.jump (.path (world.getPath .astar start finish) 0) zero)
  else if strategyName = "dfs" then
    set (.spin (.jump (.path (world.getPath .dfs start finish) 0) zero) zero)
  else if strategyName = "dijkstra" then
    set (.jump (.spin (.path (world.getPath .dijkstra start finish) 0) zero) zero)
  else d

/-- The end of a trip. -/
def Drone.finish (d : Drone K) : Drone K :=
  { d with toFinalDestination := none, nearestEntity := none, available := true
           pickedUp := false }

def Object.onDrone (f : Drone K → Drone K) : Object K → Object K
  | .drone d => .drone (f d)
  | o => o

end Drones

namespace SimulationModel

variable {K : Type} [Scalar K] (world : World K)

/-- `Drone::Update`. -/
def updateDrone (s : SimulationModel K) (id : Nat) (d : Drone K) (dt : K) :
    SimulationModel K :=
  match d.toRobot with
  | some strategy =>
      let (strategy, d) := strategy.move dt d
      let d :=
        if strategy.isCompleted then { d with toRobot := none, pickedUp := true }
        else { d with toRobot := some strategy }
      s.modify id fun _ => .drone d
  | none =>
      match d.toFinalDestination with
      | none => s
      | some strategy =>
          let (strategy, d) := strategy.move dt d
          let s := s.modify id fun _ => .drone { d with toFinalDestination := some strategy }
          let s := match d.nearestEntity, d.pickedUp with
            | some rider, true =>
                (s.modify rider.getId (Object.setPosition d.position)).modify rider.getId
                  (Object.setDirection d.direction)
            | _, _ => s
          if strategy.isCompleted then s.modify id (Object.onDrone Drone.finish) else s

/-- `Human::Update`. -/
def updateHuman (s : SimulationModel K) (id : Nat) (h : Human K) (dt : K) :
    SimulationModel K :=
  let wander (s : SimulationModel K) :=
    let (destination, s) := s.drawGround world h.position.y
    s.modify id fun _ => .human { h with
      destination := destination
      toDestination := some (.path (world.getPath .astar h.position destination) 0) }
  match h.toDestination with
  | none => wander s
  | some strategy =>
      if strategy.isCompleted then wander s
      else
        let (strategy, h) := strategy.move dt h
        s.modify id fun _ => .human { h with toDestination := some strategy }

/-- `Helicopter::Update`. -/
def updateHelicopter (s : SimulationModel K) (id : Nat) (h : Helicopter K) (dt : K) :
    SimulationModel K :=
  let wander (s : SimulationModel K) :=
    let (destination, s) := s.drawGround world h.position.y
    s.modify id fun _ => .helicopter { h with
      destination := destination
      toDestination := some (.beeline h.position destination) }
  match h.toDestination with
  | none => wander s
  | some strategy =>
      if strategy.isCompleted then wander s
      else
        let (strategy, h) := strategy.move dt h
        s.modify id fun _ => .helicopter { h with toDestination := some strategy }

/-- `Ufo::Update`. -/
def updateUfo (s : SimulationModel K) (id : Nat) (u : Ufo K) (dt : K) : SimulationModel K :=
  let fly (destination : Vector3 K) (s : SimulationModel K) :=
    let direction := (destination.sub u.position).unit
    s.modify id fun _ => .ufo { u with
      destination := destination
      direction := direction
      position := u.position.add ((direction.mul u.speed).mul dt) }
  if Scalar.less (u.position.distance u.destination) (Scalar.ofInt 1) then
    let (destination, s) := s.drawSky world
    fly destination s
  else fly u.destination s

/-- `entity->Update(dt, scheduler)`; a robot inherits an empty function. -/
def updateEntity (s : SimulationModel K) (e : TypeDecorator) (dt : K) : SimulationModel K :=
  let s := s.note (.updated e dt)
  match s.objects e.getId with
  | some (.drone d) => s.updateDrone e.getId d dt
  | some (.human h) => s.updateHuman world e.getId h dt
  | some (.helicopter h) => s.updateHelicopter world e.getId h dt
  | some (.ufo u) => s.updateUfo world e.getId u dt
  | some (.robot _) | none => s

/-- A class of handlers: the travel type it looks for and how its drones go to the rider. -/
structure HandlerClass where
  travelType : TravelType
  toRobot : String

def StandardHandler : HandlerClass := ⟨.standard, "astar"⟩
def FancyHandler : HandlerClass := ⟨.fancy, "dfs"⟩
def ExtravagantHandler : HandlerClass := ⟨.extravagant, "dijkstra"⟩

/-- The first available rider of the travel type. -/
def findRider (s : SimulationModel K) (h : HandlerClass) (scheduler : List TypeDecorator) :
    Option TypeDecorator :=
  scheduler.find? fun rider =>
    ((s.objects rider.getId).bind Object.getAvailability == some true) &&
      rider.travelType == h.travelType

def getPosition (s : SimulationModel K) (e : TypeDecorator) : Vector3 K :=
  ((s.objects e.getId).map Object.getPosition).getD .zero

def getDestination (s : SimulationModel K) (e : TypeDecorator) : Vector3 K :=
  ((s.objects e.getId).map Object.getDestination).getD .zero

def getStrategyName (s : SimulationModel K) (e : TypeDecorator) : String :=
  ((s.objects e.getId).bind Object.getStrategyName).getD world.noName

/-- The drone and the rider are taken out of the pool and the drone is sent to the rider. -/
def claim (s : SimulationModel K) (e rider : TypeDecorator) : SimulationModel K :=
  let s := s.modify e.getId (Object.setNearestEntity rider)
  let s := s.setAvailability rider.getId false
  let s := s.setAvailability e.getId false
  let s := s.modify e.getId (Object.setPickedUp false)
  s.setDestination world e.getId (s.getPosition rider)

/-- What a handler does with its drone and the rider it has found. -/
def assign (s : SimulationModel K) (h : HandlerClass) (e rider : TypeDecorator) :
    SimulationModel K :=
  let s := s.claim world e rider
  let finalDest := s.getDestination rider
  let s := s.modify e.getId
    (Object.onDrone (Drone.setToRobot world h.toRobot (s.getPosition e) (s.getPosition rider)))
  let strat := s.getStrategyName world rider
  let s := s.modify e.getId
    (Object.onDrone (Drone.setToDestination world strat (s.getDestination e) finalDest))
  s.note (.assigned e rider strat finalDest)

def getType (s : SimulationModel K) (e : TypeDecorator) : Option String :=
  (s.objects e.getId).map fun o => o.getDetails.type

/-- The entity is a drone of the handler's travel type. -/
def handles (s : SimulationModel K) (h : HandlerClass) (e : TypeDecorator) : Bool :=
  s.getType e == some "drone" && e.travelType == h.travelType

/-- `Handle` of the first handler of a chain; nothing for the null pointer at its end. -/
def handle (dt : K) (e : TypeDecorator) (scheduler : List TypeDecorator) :
    List HandlerClass → SimulationModel K → SimulationModel K
  | [], s => s
  | h :: next, s =>
      if s.handles h e then
        let s :=
          if (s.objects e.getId).bind Object.getAvailability = some true then
            match s.findRider h scheduler with
            | none => s
            | some rider => s.assign world h e rider
          else s
        s.updateEntity world e dt
      else
        (handle dt e scheduler next s).updateEntity world e dt

/-- The chain that the constructor links. -/
def chain : List HandlerClass := [StandardHandler, FancyHandler, ExtravagantHandler]

/-- `DataCollection::EntityCreation`; the destination kept under the name is left as it is. -/
def entityCreation (s : SimulationModel K) (travelType : TravelType) (m : Details K) :
    SimulationModel K :=
  let destination := ((s.dataCollection m.name).map Collected.destination).getD .zero
  { s with dataCollection := Function.update s.dataCollection m.name (some
      { speed := m.speed, travelType := travelType, type := m.type
        distance := Scalar.ofInt 0, time := Scalar.ofInt 0
        position := m.position, direction := m.direction, destination := destination }) }

/-- `DataCollection::UpdatePosition`. -/
def updatePosition (s : SimulationModel K) (o : Object K) (dt : K) : SimulationModel K :=
  let collect (c : Collected K) : Collected K :=
    { c with
      distance := c.distance + c.position.distance o.getPosition
      position := o.getPosition
      direction := o.getDirection
      destination := o.getDestination
      time := dt + c.time }
  let name := o.getDetails.name
  { s with dataCollection :=
    Function.update s.dataCollection name ((s.dataCollection name).map collect) }

/-- The object each factory makes of a message, in the order they were added. -/
def newObject (s : SimulationModel K) (m : EntityMessage K) :
    Option (Object K × SimulationModel K) :=
  let details : Details K := ⟨m.type, m.name, m.position, m.direction, m.speed⟩
  let zero : Vector3 K := .zero
  if m.type = "drone" then
    some (.drone
      { details := details, position := m.position, direction := m.direction
        jumpHeight := Scalar.ofInt 0, goUp := true, destination := zero, speed := m.speed
        available := true, pickedUp := world.uninitialized, nearestEntity := none
        toRobot := none, toFinalDestination := none }, s)
  else if m.type = "robot" then
    some (.robot ⟨details, m.position, m.direction, zero, m.speed, true, ""⟩, s)
  else if m.type = "human" then
    some (.human ⟨details, m.position, m.direction, zero, m.speed, none⟩, s)
  else if m.type = "helicopter" then
    some (.helicopter ⟨details, m.position, m.direction, zero, m.speed, none⟩, s)
  else if m.type = "ufo" then
    let (destination, s) := s.drawSky world
    some (.ufo ⟨details, m.position, m.direction, destination, m.speed⟩, s)
  else none

/-- The decorator chosen by the id of the object. -/
def wrapType (id : Nat) : TravelType :=
  if id % 3 + 1 = 1 then .standard
  else if id % 3 + 1 = 3 then .fancy
  else .extravagant

/-- `CreateEntity`; a type no factory knows makes the program follow a null pointer. -/
def createEntity (s : SimulationModel K) (m : EntityMessage K) : Option (SimulationModel K) :=
  match s.newObject world m with
  | none => none
  | some (o, s) =>
      let id := s.currentId
      let e : TypeDecorator := ⟨id + 1, wrapType id, .object id⟩
      let s := { s with
        objects := Function.update s.objects id (some o)
        currentId := id + 2 }
      let s := (s.entityCreation e.travelType o.getDetails).send (.addEntity id)
      some { s with entities := s.entities ++ [e] }

/-- The decorator a trip asks for. -/
def requested (droneReq : String) : Option TravelType :=
  if droneReq = "standard" then some .standard
  else if droneReq = "fancy" then some .fancy
  else if droneReq = "extravagant" then some .extravagant
  else none

/-- The first available robot of the name. -/
def findRobot (s : SimulationModel K) (name : String) : Option TypeDecorator :=
  s.entities.find? fun e =>
    ((s.objects e.getId).map fun o => o.getDetails.name) == some name &&
      (s.getType e == some "robot" &&
        (s.objects e.getId).bind Object.getAvailability == some true)

/-- `ScheduleTrip`; for an unknown request the program puts a stray pointer in the scheduler. -/
def scheduleTrip (s : SimulationModel K) (m : TripMessage K) : Option (SimulationModel K) :=
  match s.findRobot m.name with
  | none => some (s.send .tripScheduled)
  | some e =>
      let s := s.setDestination world e.getId m.finish
      let s := s.modify e.getId (Object.setStrategyName m.search)
      match requested m.droneReq with
      | none => none
      | some travelType =>
          let rider : TypeDecorator := ⟨s.currentId, travelType, e.toEntity⟩
          let s := { s with currentId := s.currentId + 1, scheduler := s.scheduler ++ [rider] }
          some ((s.note (.scheduled rider m)).send .tripScheduled)

/-- One round of the loop of `Update`. -/
def updateOne (dt : K) (s : SimulationModel K) (e : TypeDecorator) : SimulationModel K :=
  let s := (handle world dt e s.scheduler chain s).send (.updateEntity e.getId)
  match s.objects e.getId with
  | none => s
  | some o => s.updatePosition o dt

def update (dt : K) (s : SimulationModel K) : SimulationModel K :=
  s.entities.foldl (updateOne world dt) s

end SimulationModel

inductive Command (K : Type) where
  | createEntity (m : EntityMessage K)
  | scheduleTrip (m : TripMessage K)
  | update (dt : K)

/-- The commands of `ReceiveCommand`; `none` where the program has no defined behaviour. -/
def step {K : Type} [Scalar K] (world : World K) (s : SimulationModel K) :
    Command K → Option (SimulationModel K)
  | .createEntity m => s.createEntity world m
  | .scheduleTrip m => s.scheduleTrip world m
  | .update dt => some (s.update world dt)

end UmnProjects.Transit
