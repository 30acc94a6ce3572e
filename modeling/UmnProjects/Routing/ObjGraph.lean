import UmnProjects.Routing.GraphBase
import Mathlib.Data.List.ReduceOption

/-!
`SimpleGraph` and the `ObjGraph` that is read from a file.

A node is its place in the list of nodes; a pointer may be null. `none` is undefined
behaviour: a null pointer is followed, or a coordinate is used that was never written.
-/
namespace UmnProjects.Routing
open Runs

structure SimpleGraphNode (K : Type) where
  name : String
  neighbors : List (Option ℕ)
  position : List K

def SimpleGraphNode.addNeighbor {K : Type} (neighbor : Option ℕ) (node : SimpleGraphNode K) :
    SimpleGraphNode K :=
  { node with neighbors := node.neighbors ++ [neighbor] }

/-- `nodeMap` answers with the entry of a name, which may be null. -/
structure SimpleGraph (K : Type) where
  nodes : List (SimpleGraphNode K)
  nodeMap : String → Option (Option ℕ)

namespace SimpleGraph

variable {K : Type}

def empty : SimpleGraph K := ⟨[], fun _ => none⟩

def addNode (node : SimpleGraphNode K) (graph : SimpleGraph K) : SimpleGraph K where
  nodes := graph.nodes ++ [node]
  nodeMap := fun name =>
    if name = node.name then some (some graph.nodes.length) else graph.nodeMap name

/-- The map after `nodeMap[name]`, which makes a null entry where there is none. -/
def touch (name : String) (graph : SimpleGraph K) : SimpleGraph K :=
  { graph with nodeMap := fun x => if x = name then some (graph.nodeMap name).join
                                   else graph.nodeMap x }

/-- `nodeMap[a]->AddNeighbor(nodeMap[b])` -/
def addEdge (a b : String) (graph : SimpleGraph K) : Option (SimpleGraph K) :=
  match (graph.nodeMap a).join with
  | none => none
  | some node =>
      some { graph.touch b with
        nodes := graph.nodes.modify node (SimpleGraphNode.addNeighbor (graph.nodeMap b).join) }

/-- Every node is in the map, and every pointer points to a node. -/
structure Whole (graph : SimpleGraph K) : Prop where
  named : ∀ node ∈ graph.nodes, (graph.nodeMap node.name).isSome
  mapped : ∀ name i, graph.nodeMap name = some (some i) → i < graph.nodes.length
  neighbors : ∀ node ∈ graph.nodes, ∀ q ∈ node.neighbors,
    ∃ i, q = some i ∧ i < graph.nodes.length

/-- A place past the end stands for no node and answers with empty data. -/
def toIGraph (graph : SimpleGraph K) : IGraph ℕ K where
  getNode name := (graph.nodeMap name).join
  getNodes := List.range graph.nodes.length
  getName i := (graph.nodes[i]?).elim "" SimpleGraphNode.name
  getNeighbors i := (graph.nodes[i]?).elim [] fun node => node.neighbors.reduceOption
  getPosition i := (graph.nodes[i]?).elim [] SimpleGraphNode.position

/-- `GetNode` is defined for the names in the map only. -/
def toRoutingGraph (graph : SimpleGraph K) (h : graph.Whole) : RoutingGraph ℕ K where
  toIGraph := graph.toIGraph
  answers name := (graph.nodeMap name).isSome
  finite := by
    refine (List.finite_toSet (List.range graph.nodes.length)).subset ?_
    rintro i ⟨name, hi⟩
    exact List.mem_range.mpr (h.mapped name i (Option.join_eq_some_iff.mp hi))
  found := by
    intro name i hi
    rw [show graph.nodeMap name = some (some i) from Option.join_eq_some_iff.mp hi]
    rfl
  neighbors := by
    intro name i hi j hj
    have hlt := h.mapped name i (Option.join_eq_some_iff.mp hi)
    simp only [toIGraph, List.getElem?_eq_getElem hlt, Option.elim_some,
      List.reduceOption_mem_iff] at hj
    obtain ⟨j', hj', hlt'⟩ := h.neighbors _ (List.getElem_mem hlt) _ hj
    obtain rfl : j = j' := Option.some.inj hj'
    simp only [toIGraph, List.getElem?_eq_getElem hlt', Option.elim_some]
    exact h.named _ (List.getElem_mem hlt')

theorem whole_empty : (empty : SimpleGraph K).Whole := ⟨nofun, nofun, nofun⟩

theorem Whole.addNode {graph : SimpleGraph K} (h : graph.Whole) (name : String)
    (position : List K) : (graph.addNode ⟨name, [], position⟩).Whole := by
  refine ⟨?_, ?_, ?_⟩
  · intro node hnode
    simp only [SimpleGraph.addNode]
    split
    · rfl
    · next hne =>
        obtain hnode | hnode := List.mem_append.mp hnode
        · exact h.named node hnode
        · exact absurd (congrArg SimpleGraphNode.name (List.mem_singleton.mp hnode)) hne
  · intro x i hi
    simp only [SimpleGraph.addNode, List.length_append, List.length_singleton] at hi ⊢
    split at hi
    · cases hi
      exact Nat.lt_succ_self _
    · exact Nat.lt_succ_of_lt (h.mapped x i hi)
  · intro node hnode q hq
    simp only [SimpleGraph.addNode, List.length_append, List.length_singleton]
    obtain hnode | hnode := List.mem_append.mp hnode
    · obtain ⟨i, rfl, hi⟩ := h.neighbors node hnode q hq
      exact ⟨i, rfl, Nat.lt_succ_of_lt hi⟩
    · rw [List.mem_singleton.mp hnode] at hq
      cases hq

theorem mem_of_mem_modify {A : Type} {l : List A} {f : A → A} {i : ℕ} {x : A}
    (h : x ∈ l.modify i f) : x ∈ l ∨ ∃ y ∈ l, x = f y := by
  obtain ⟨k, hk⟩ := List.mem_iff_getElem?.mp h
  rw [List.getElem?_modify] at hk
  obtain ⟨y, hy, heq⟩ := Option.map_eq_some_iff.mp hk
  have hmem := List.mem_of_getElem? hy
  split at heq
  · exact .inr ⟨y, hmem, heq.symm⟩
  · exact .inl (heq ▸ hmem)

/-- An edge changes no pointer in the map. -/
theorem nodeMap_of_addEdge {a b : String} {graph graph' : SimpleGraph K}
    (h : graph.addEdge a b = some graph') :
    (∃ i, graph.nodeMap a = some (some i)) ∧
      ∀ x i, graph'.nodeMap x = some (some i) → graph.nodeMap x = some (some i) := by
  unfold addEdge at h
  split at h
  · cases h
  · next node hnode =>
      cases h
      refine ⟨⟨node, Option.join_eq_some_iff.mp hnode⟩, ?_⟩
      intro x i hx
      simp only [touch] at hx
      split at hx
      · next hxb =>
          rw [hxb]
          exact Option.join_eq_some_iff.mp (Option.some.inj hx)
      · exact hx

theorem Whole.addEdge {a b : String} {graph graph' : SimpleGraph K} (hwhole : graph.Whole)
    {i : ℕ} (hb : graph.nodeMap b = some (some i)) (h : graph.addEdge a b = some graph') :
    graph'.Whole := by
  unfold SimpleGraph.addEdge at h
  split at h
  · cases h
  · next node hnode =>
      have htouch : (graph.touch b).nodeMap = graph.nodeMap := by
        funext x
        simp only [touch, hb, Option.join_some]
        split
        · next hx => rw [hx, hb]
        · rfl
      cases h
      refine ⟨?_, ?_, ?_⟩
      · intro node hnode
        rw [htouch]
        obtain hnode | ⟨old, hold, rfl⟩ := mem_of_mem_modify hnode
        · exact hwhole.named node hnode
        · exact hwhole.named old hold
      · intro x j hx
        rw [htouch] at hx
        simpa using hwhole.mapped x j hx
      · intro node hnode q hq
        simp only [List.length_modify]
        obtain hnode | ⟨old, hold, rfl⟩ := mem_of_mem_modify hnode
        · exact hwhole.neighbors node hnode q hq
        · obtain hq | hq := List.mem_append.mp hq
          · exact hwhole.neighbors old hold q hq
          · rw [List.mem_singleton.mp hq, hb]
            exact ⟨i, rfl, hwhole.mapped b i hb⟩

/-- The two edges of a side; the second one is undefined where the first adds null. -/
theorem Whole.side {a b : String} {graph graph' graph'' : SimpleGraph K} (hwhole : graph.Whole)
    (h : graph.addEdge a b = some graph') (h' : graph'.addEdge b a = some graph'') :
    graph''.Whole := by
  obtain ⟨⟨i, hi⟩, hback⟩ := nodeMap_of_addEdge h
  obtain ⟨⟨j, hj⟩, _⟩ := nodeMap_of_addEdge h'
  have hwhole' := hwhole.addEdge (hback b j hj) h
  unfold SimpleGraph.addEdge at h
  split at h
  · cases h
  · cases h
    refine hwhole'.addEdge (i := i) ?_ h'
    simp only [touch, hi]
    split
    · next hab => rw [← hab, hi, Option.join_some]
    · rfl

end SimpleGraph

/-! ### The loader -/

namespace ObjGraph

/-- The characters that are left, unless an extraction has failed. -/
abbrev Stream := Option (List Char)

/-- `std::isspace` -/
def isSpace (c : Char) : Bool :=
  c = ' ' || c = '\t' || c = '\n' || c = '\r' || c = '\x0b' || c = '\x0c'

/-- `stream >> word` for an empty `word`. -/
def readWord : Stream → String × Stream
  | none => ("", none)
  | some text => match text.dropWhile isSpace with
    | [] => ("", none)
    | rest => (String.ofList (rest.takeWhile (!isSpace ·)), some (rest.dropWhile (!isSpace ·)))

section

variable {K : Type} (numGet : List Char → K × Option (List Char))

/-- `stream >> value`; `none` is a value that is left as it was. `numGet` is the library's
conversion, which writes a value even where it fails. -/
def readFloat : Stream → Option K × Stream
  | none => (none, none)
  | some text => match text.dropWhile isSpace with
    | [] => (none, none)
    | rest => (some (numGet rest).1, (numGet rest).2)

/-- The variables of the loop. -/
structure Loader (K : Type) where
  objFile : Stream
  numNodes : ℕ
  graph : Option (SimpleGraph K)

def Loader.initial (text : List Char) : Loader K := ⟨some text, 0, some .empty⟩

/-- A record that begins with "v". -/
def readVertex [Neg K] (stream : Stream) (numNodes : ℕ) (graph : SimpleGraph K) : Loader K :=
  let (x, stream) := readFloat numGet stream
  let (y, stream) := readFloat numGet stream
  let (z, stream) := readFloat numGet stream
  { objFile := stream
    numNodes := numNodes + 1
    graph := match x, y, z with
      | some x, some y, some z => some (graph.addNode ⟨toString (numNodes + 1), [], [x, z, -y]⟩)
      | _, _, _ => none }

/-- A record that begins with "f". -/
def readFace (stream : Stream) (numNodes : ℕ) (graph : SimpleGraph K) : Loader K :=
  let (a, stream) := readWord stream
  let (b, stream) := readWord stream
  let (c, stream) := readWord stream
  { objFile := stream
    numNodes := numNodes
    graph := do
      let graph ← graph.addEdge a b
      let graph ← graph.addEdge b a
      let graph ← graph.addEdge b c
      let graph ← graph.addEdge c b
      let graph ← graph.addEdge c a
      graph.addEdge a c }

/-- One round of the loop. -/
def step [Neg K] (s : Loader K) (_ : Unit) : Option (Loader K) :=
  match s.graph, readWord s.objFile with
  | some graph, (word, some rest) =>
      if word = "v" then some (readVertex numGet (some rest) s.numNodes graph)
      else if word = "f" then some (readFace (some rest) s.numNodes graph)
      else some { s with objFile := some rest }
  | _, _ => none

variable {numGet} [Neg K]

theorem step_whole {s t : Loader K} {u : Unit} (h : step numGet s u = some t)
    (hs : ∀ graph, s.graph = some graph → graph.Whole) :
    ∀ graph, t.graph = some graph → graph.Whole := by
  unfold step at h
  split at h
  · next graph word rest hgraph _ =>
      have hwhole := hs graph hgraph
      split at h
      · cases h
        intro graph' hgraph'
        simp only [readVertex] at hgraph'
        split at hgraph'
        · cases hgraph'
          exact hwhole.addNode _ _
        · cases hgraph'
      · split at h
        · cases h
          intro graph' hgraph'
          simp only [readFace, Option.bind_eq_bind, Option.bind_eq_some_iff] at hgraph'
          obtain ⟨g1, h1, g2, h2, g3, h3, g4, h4, g5, h5, h6⟩ := hgraph'
          exact (((hwhole.side h1 h2).side h3 h4).side h5 h6)
        · cases h
          exact hs
  · cases h

/-- However much of a file has been read, the graph is whole. -/
theorem whole_of_reaches {text : List Char} {s : Loader K} {graph : SimpleGraph K}
    (hrun : Reaches (step numGet) (.initial text) s) (hgraph : s.graph = some graph) :
    graph.Whole := by
  refine hrun.invariant (I := fun s => ∀ graph, s.graph = some graph → graph.Whole)
    (fun _ _ _ _ hstep hs => step_whole hstep hs) ?_ graph hgraph
  rintro graph ⟨⟩
  exact SimpleGraph.whole_empty

end

end ObjGraph

end UmnProjects.Routing
