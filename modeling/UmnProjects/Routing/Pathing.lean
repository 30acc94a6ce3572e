import UmnProjects.Foundations.Runs
import UmnProjects.Routing.Graph

/-!
`AStar::GetPath`. One step is one round of the loop: it takes a candidate from the top
of the priority queue. Which of several equally good candidates is on top depends on
the heap inside the queue, so a step is labelled with the place of the one it takes.
-/
namespace UmnProjects.Routing

inductive FStack (T : Type) where
  | base (elem : T)
  | push (elem : T) (stack : FStack T)
deriving DecidableEq

namespace FStack

variable {T : Type}

def top : FStack T → T
  | .base elem => elem
  | .push elem _ => elem

def toList : FStack T → List T
  | .base elem => [elem]
  | .push elem stack => stack.toList ++ [elem]

theorem getLast?_toList (s : FStack T) : s.toList.getLast? = some s.top := by
  cases s with
  | base elem => rfl
  | push elem stack => simp [toList, top]

end FStack

structure CandidatePath (K : Type) where
  path : FStack String
  distance : K
  estimate : K
deriving DecidableEq

def compareCandidatePaths {K : Type} [Add K] [LT K] [DecidableLT K]
    (path1 path2 : CandidatePath K) : Bool :=
  decide (path1.distance + path1.estimate > path2.distance + path2.estimate)

/-- The variables of the loop. `expanded` is a journal of the names whose neighbours
have been pushed; the loop does not read it. -/
structure Search (K : Type) where
  visited : List String
  possiblePaths : List (CandidatePath K)
  expanded : List String
  result : Option (List String)
deriving DecidableEq

def Search.initial {K : Type} [Zero K] (source : String) : Search K where
  visited := []
  possiblePaths := [⟨.base source, 0, 0⟩]
  expanded := []
  result := none

structure AStar (K : Type) where
  cost : DistanceFunction K
  heuristic : DistanceFunction K

def AStar.default {K : Type} [Zero K] [Add K] [Sub K] [Mul K] (sqrt : K → K) : AStar K where
  cost := euclideanDistance sqrt
  heuristic := euclideanDistance sqrt

def Dijkstra {K : Type} [Zero K] [Add K] [Sub K] [Mul K] (sqrt : K → K) : AStar K where
  cost := euclideanDistance sqrt
  heuristic := zeroDistance

namespace AStar

variable {P K : Type} [Zero K] [Add K] [LT K] [DecidableLT K]
variable (strategy : AStar K) (graph : IGraph P K) (target : String) (terminal : P)

/-- `GetPath` up to its loop: the terminal node and the variables at the first round, or
the message of the exception. -/
def enter (graph : IGraph P K) (source target : String) : Except String (P × Search K) :=
  match graph.getNode source, graph.getNode target with
  | none, _ => .error ("'from' node not found in graph: " ++ source)
  | some _, none => .error ("'to' node not found in graph: " ++ target)
  | some _, some terminal => .ok (terminal, .initial source)

/-- The candidate that is pushed for one neighbour of the node a path ends at. -/
def extend (candidate : CandidatePath K) (pathEndNode next : P) : CandidatePath K where
  path := .push (graph.getName next) candidate.path
  distance := candidate.distance +
    strategy.cost (graph.getPosition pathEndNode) (graph.getPosition next)
  estimate := strategy.heuristic (graph.getPosition next) (graph.getPosition terminal)

/-- The loop body after the candidate has been popped. -/
def visit (candidate : CandidatePath K) (s : Search K) : Search K :=
  let pathEnd := candidate.path.top
  if pathEnd ∈ s.visited then s
  else
    let s := { s with visited := s.visited ++ [pathEnd] }
    if pathEnd = target then { s with result := some candidate.path.toList }
    else
      match graph.getNode pathEnd with
      | none => s
      | some pathEndNode =>
          let nextSteps := graph.getNeighbors pathEndNode
          { s with
            possiblePaths := s.possiblePaths ++
              nextSteps.map (strategy.extend graph terminal candidate pathEndNode)
            expanded := s.expanded ++ [pathEnd] }

/-- One round takes the candidate at place `i` if no other one belongs before it. -/
def step (s : Search K) (i : Nat) : Option (Search K) :=
  match s.result, s.possiblePaths[i]? with
  | none, some candidate =>
      if s.possiblePaths.any (compareCandidatePaths candidate) then none
      else some (strategy.visit graph target terminal candidate
        { s with possiblePaths := s.possiblePaths.eraseIdx i })
  | _, _ => none

/-- The cost of an edge between two names. -/
def edgeCost (u v : String) : K :=
  strategy.cost (graph.positionOf u) (graph.positionOf v)

/-- The estimate for a name. -/
def estimateOf (u : String) : K :=
  strategy.heuristic (graph.positionOf u) (graph.getPosition terminal)

end AStar

end UmnProjects.Routing
