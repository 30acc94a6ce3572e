import UmnProjects.Foundations.BestFirst
import Mathlib.Data.Finset.Basic
import Mathlib.Data.Finset.Dedup
import Mathlib.Data.Set.Finite.Lattice

/-!
The graph interface of the routing library. A node is reached through a pointer; the
graph answers with the name, the neighbours and the position behind it.
-/
namespace UmnProjects.Routing

structure IGraph (P K : Type) where
  getNode : String → Option P
  getNodes : List P
  getName : P → String
  getNeighbors : P → List P
  getPosition : P → List K

namespace IGraph

variable {P K : Type} (graph : IGraph P K)

/-- The nodes are the finitely many that `getNodes` lists, and neighbour pointers point
to them. -/
structure OwnsNodes : Prop where
  listed : ∀ {name p}, graph.getNode name = some p → p ∈ graph.getNodes
  own : ∀ {name p}, graph.getNode name = some p →
    ∀ q ∈ graph.getNeighbors p, graph.getNode (graph.getName q) = some q

/-- A finite graph, whatever its neighbour pointers point to. -/
def FiniteNodes : Prop := {p | ∃ name, graph.getNode name = some p}.Finite

/-- Some neighbour of the node named `u` is named `v`. -/
def Edge (u v : String) : Prop :=
  ∃ p, graph.getNode u = some p ∧ ∃ q ∈ graph.getNeighbors p, graph.getName q = v

def Reachable : String → String → Prop := Relation.ReflTransGen graph.Edge

/-- The position of the node of that name. -/
def positionOf (name : String) : List K :=
  match graph.getNode name with
  | some p => graph.getPosition p
  | none => []

variable {graph}

theorem positionOf_eq {name : String} {p : P} (h : graph.getNode name = some p) :
    graph.positionOf name = graph.getPosition p := by
  rw [positionOf, h]

theorem edge_iff {u : String} {p : P} (hp : graph.getNode u = some p) (v : String) :
    graph.Edge u v ↔ ∃ q ∈ graph.getNeighbors p, graph.getName q = v := by
  constructor
  · rintro ⟨p', hp', hq⟩
    rw [hp] at hp'
    cases hp'
    exact hq
  · exact fun h => ⟨p, hp, h⟩

theorem mem_neighborNames_iff {u v : String} {p : P} (hp : graph.getNode u = some p) :
    v ∈ (graph.getNeighbors p).map graph.getName ↔ graph.Edge u v :=
  List.mem_map.trans (edge_iff hp v).symm

theorem not_edge {u : String} (hp : graph.getNode u = none) (v : String) : ¬ graph.Edge u v := by
  rintro ⟨p, hp', _⟩
  rw [hp] at hp'
  cases hp'

/-- A walk that ends at a node of the graph passes nodes of the graph only. -/
theorem isSome_of_walk {source target : String} {path : List String}
    (hwalk : BestFirst.IsWalk graph.Edge source target path)
    (htarget : (graph.getNode target).isSome) : ∀ u ∈ path, (graph.getNode u).isSome := by
  induction path generalizing source with
  | nil => exact nofun
  | cons v path ih =>
      obtain ⟨heq, rfl⟩ | ⟨w, path', heq, ⟨p, hp, _⟩, hrest⟩ := hwalk.cases_cons
      · rw [heq]
        exact fun u hu => List.mem_singleton.mp hu ▸ htarget
      · obtain ⟨rfl, rfl⟩ := List.cons.inj heq
        refine List.forall_mem_cons.mpr ⟨?_, ih hrest⟩
        rw [hp]
        rfl

theorem OwnsNodes.positionOf_neighbor (h : graph.OwnsNodes) {name : String} {p q : P}
    (hp : graph.getNode name = some p) (hq : q ∈ graph.getNeighbors p) :
    graph.positionOf (graph.getName q) = graph.getPosition q :=
  positionOf_eq (h.own hp q hq)

theorem OwnsNodes.finiteNodes (hown : graph.OwnsNodes) : graph.FiniteNodes := by
  refine graph.getNodes.finite_toSet.subset ?_
  rintro p ⟨name, hp⟩
  exact hown.listed hp

/-- What can be reached has finitely many names. -/
theorem FiniteNodes.exists_names (hfin : graph.FiniteNodes) (source : String) :
    ∃ names : Finset String, ∀ u, graph.Reachable source u → u ∈ names := by
  have hnames : (insert source (⋃ p ∈ {p | ∃ name, graph.getNode name = some p},
      {u | u ∈ (graph.getNeighbors p).map graph.getName})).Finite :=
    (hfin.biUnion fun p _ => List.finite_toSet _).insert source
  refine ⟨hnames.toFinset, ?_⟩
  intro u hreach
  rw [Set.Finite.mem_toFinset]
  obtain heq | ⟨v, _, p, hp, q, hq, hname⟩ := hreach.cases_tail
  · exact .inl heq
  · exact .inr (Set.mem_biUnion ⟨v, hp⟩ (List.mem_map.mpr ⟨q, hq, hname⟩))

end IGraph

abbrev DistanceFunction (K : Type) := List K → List K → K

section Distances

variable {K : Type} [Zero K] [Add K] [Sub K] [Mul K]

/-- The sum runs over the coordinates that both points have. -/
def sumOfSquares (a b : List K) : K :=
  (a.zip b).foldl (fun sum p => sum + (p.2 - p.1) * (p.2 - p.1)) 0

def euclideanDistance (sqrt : K → K) : DistanceFunction K :=
  fun a b => sqrt (sumOfSquares a b)

end Distances

def zeroDistance {K : Type} [Zero K] : DistanceFunction K := fun _ _ => 0

end UmnProjects.Routing
