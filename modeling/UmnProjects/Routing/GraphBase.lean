import UmnProjects.Routing.DepthFirstSearch

/-!
`GraphBase`: the node nearest to a point, and the positions along a path between the nodes
nearest to two points. A call ends with a result, with an exception, or in undefined
behaviour; a search may end in several ways, since ties are broken by its queue.
-/
namespace UmnProjects.Routing
open Runs

inductive Ending (A : Type) where
  | returned (result : A)
  | thrown (message : String)
  | undefined

/-- A graph and the names for which `GetNode` is defined at all; null is an answer. Every
node that is found and every neighbour of one has such a name. -/
structure RoutingGraph (P K : Type) extends IGraph P K where
  answers : String → Bool
  finite : toIGraph.FiniteNodes
  found : ∀ {name p}, getNode name = some p → answers name
  neighbors : ∀ {name p}, getNode name = some p → ∀ q ∈ getNeighbors p, answers (getName q)

/-- The loop of a search, once its end points are found. -/
structure Loop (S A : Type) where
  step : S → A → Option S
  initial : S
  result : S → Option (List String)

variable {P K S A : Type}

def AStar.loop [Zero K] [Add K] [LT K] [DecidableLT K] (strategy : AStar K)
    (graph : IGraph P K) (source target : String) : Except String (Loop (Search K) ℕ) :=
  match AStar.enter graph source target with
  | .error message => .error message
  | .ok (terminal, s) => .ok ⟨strategy.step graph target terminal, s, fun s => s.result⟩

def DepthFirstSearch.loop [Zero K] (graph : IGraph P K) (source target : String) :
    Except String (Loop (DepthFirstSearch.Traversal K) Unit) :=
  match DepthFirstSearch.enter graph source target with
  | .error message => .error message
  | .ok s => .ok ⟨DepthFirstSearch.step graph target, s, fun s => s.result⟩

namespace RoutingGraph

/-- `GetNode` is defined for the names that a search asks for before its loop. -/
structure Answered (graph : RoutingGraph P K) (source target : String) : Prop where
  start : graph.answers source
  terminal : (graph.getNode source).isSome → graph.answers target

/-- What `GetPath` of a strategy can end with. -/
inductive Ends (graph : RoutingGraph P K) (source target : String)
    (search : Except String (Loop S A)) : Ending (List String) → Prop where
  | unanswered : ¬ graph.Answered source target → Ends graph source target search .undefined
  | thrown {message : String} : graph.Answered source target → search = .error message →
      Ends graph source target search (.thrown message)
  | returned {loop : Loop S A} {s : S} {path : List String} :
      graph.Answered source target → search = .ok loop → Reaches loop.step loop.initial s →
      Final loop.step s → loop.result s = some path →
      Ends graph source target search (.returned path)
  -- the loop is left without a return statement
  | fellOff {loop : Loop S A} {s : S} :
      graph.Answered source target → search = .ok loop → Reaches loop.step loop.initial s →
      Final loop.step s → loop.result s = none → Ends graph source target search .undefined

/-- The positions of the nodes of these names, unless one of them is no node. -/
def positionPath (graph : RoutingGraph P K) (stringPath : List String) :
    Option (List (List K)) :=
  stringPath.mapM fun name =>
    if graph.answers name then (graph.getNode name).map graph.getPosition else none

/-- The second half of `GetPath`, by what the strategy has ended with. -/
def rebuild (graph : RoutingGraph P K) (startNode endNode : P) :
    Ending (List String) → Ending (List (List K))
  | .returned stringPath =>
      match graph.positionPath stringPath with
      | none => .undefined
      | some positions =>
          .returned (graph.getPosition startNode :: positions ++ [graph.getPosition endNode])
  | .thrown message => .thrown message
  | .undefined => .undefined

theorem positionPath_eq {graph : RoutingGraph P K} {stringPath : List String}
    (h : ∀ name ∈ stringPath, (graph.getNode name).isSome) :
    graph.positionPath stringPath = some (stringPath.map graph.positionOf) := by
  induction stringPath with
  | nil => rfl
  | cons name stringPath ih =>
      obtain ⟨hname, hrest⟩ := List.forall_mem_cons.mp h
      obtain ⟨p, hp⟩ := Option.isSome_iff_exists.mp hname
      have hmap := ih hrest
      rw [positionPath] at hmap ⊢
      rw [List.mapM_cons, hmap, hp, graph.found hp, List.map_cons, IGraph.positionOf_eq hp]
      rfl

section Nearest

variable {D : Type} [LT D] [DecidableLT D]

def nearestNode (graph : RoutingGraph P K) (infinity : D) (distance : List K → List K → D)
    (point : List K) : Option P :=
  (graph.getNodes.foldl
    (fun (closest : Option P × D) node =>
      let d := distance (graph.getPosition node) point
      if d < closest.2 then (some node, d) else closest)
    (none, infinity)).1

/-- What `GetPath` can end with under a strategy. -/
inductive PathEnds (graph : RoutingGraph P K) (infinity : D) (distance : List K → List K → D)
    (pathing : String → String → Ending (List String) → Prop) (src dest : List K) :
    Ending (List (List K)) → Prop where
  | noNode : graph.nearestNode infinity distance src = none ∨
        graph.nearestNode infinity distance dest = none →
      PathEnds graph infinity distance pathing src dest .undefined
  | search {startNode endNode : P} {ending : Ending (List String)} :
      graph.nearestNode infinity distance src = some startNode →
      graph.nearestNode infinity distance dest = some endNode →
      pathing (graph.getName startNode) (graph.getName endNode) ending →
      PathEnds graph infinity distance pathing src dest (graph.rebuild startNode endNode ending)

end Nearest

end RoutingGraph

end UmnProjects.Routing
