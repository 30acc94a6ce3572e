import UmnProjects.Osm.OSMGraph
import UmnProjects.Routing.ObjRecords
import UmnProjects.Viewer.GraphViewer

/-!
Graphs of both loaders are what the viewer expects.
-/
namespace UmnProjects.Viewer
open Routing Runs ObjGraph

/-! ### Map data -/

theorem loaded_osm (graph : Osm.OSMGraph ℝ) : Loaded graph.toIGraph where
  named := by
    intro i hi
    have hlt := List.mem_range.mp hi
    refine graph.lookup_eq_some.mpr ?_
    rw [Osm.OSMGraph.names, List.getElem?_map, List.getElem?_eq_getElem hlt]
    simp [Osm.OSMGraph.toIGraph, hlt]
  listed := graph.toIGraph_ownsNodes.listed
  neighbors := by
    intro i hi j hj
    have hlt := List.mem_range.mp hi
    simp only [Osm.OSMGraph.toIGraph, List.getElem?_eq_getElem hlt, Option.elim_some] at hj ⊢
    exact List.mem_range.mpr (graph.neighbours_lt _ (List.getElem_mem hlt) j hj)
  space := by
    intro i hi
    have hlt := List.mem_range.mp hi
    simp only [Osm.OSMGraph.toIGraph, List.getElem?_eq_getElem hlt, Option.elim_some]
    rfl

/-! ### Object files -/

section Objects

variable {K : Type}

/-- The nodes are numbered from one, and each is found under its number. -/
structure Numbered (graph : Routing.SimpleGraph K) : Prop where
  nodes : ∀ (i : ℕ) (node : SimpleGraphNode K), graph.nodes[i]? = some node →
    node.name = nodeName i ∧ node.position.length = 3
  found : ∀ i, i < graph.nodes.length → graph.nodeMap (nodeName i) = some (some i)

variable {graph graph' : Routing.SimpleGraph K} {a b : String}

theorem Numbered.addNode (h : Numbered graph) {position : List K} (hspace : position.length = 3) :
    Numbered (graph.addNode ⟨nodeName graph.nodes.length, [], position⟩) := by
  refine ⟨?_, ?_⟩
  · intro i node hnode
    by_cases hi : i < graph.nodes.length
    · rw [Routing.SimpleGraph.addNode, List.getElem?_append_left hi] at hnode
      exact h.nodes i node hnode
    · have hlt := (List.getElem?_eq_some_iff.mp hnode).1
      rw [Routing.SimpleGraph.addNode, List.length_append, List.length_singleton] at hlt
      have hlast : i = graph.nodes.length := by omega
      rw [hlast, Routing.SimpleGraph.addNode, List.getElem?_concat_length] at hnode
      cases hnode
      exact ⟨congrArg nodeName hlast.symm, hspace⟩
  · intro i hi
    rw [Routing.SimpleGraph.addNode, List.length_append, List.length_singleton] at hi
    simp only [Routing.SimpleGraph.addNode]
    split
    · next hname => rw [nodeName_injective hname]
    · next hname =>
        refine h.found i ?_
        have hne : i ≠ graph.nodes.length := fun heq => hname (congrArg nodeName heq)
        omega

theorem Numbered.addEdge (h : Numbered graph) (hadd : graph.addEdge a b = some graph') :
    Numbered graph' ∧ graph'.nodes.length = graph.nodes.length := by
  unfold Routing.SimpleGraph.addEdge at hadd
  split at hadd
  · cases hadd
  · cases hadd
    refine ⟨⟨?_, ?_⟩, List.length_modify _ _ _⟩
    · intro i node hnode
      rw [List.getElem?_modify] at hnode
      obtain ⟨old, hold, heq⟩ := Option.map_eq_some_iff.mp hnode
      have hnumbered := h.nodes i old hold
      split at heq
      · rw [← heq]
        exact hnumbered
      · rw [← heq]
        exact hnumbered
    · intro i hi
      rw [List.length_modify] at hi
      simp only [Routing.SimpleGraph.touch]
      split
      · next hname => rw [← hname, h.found i hi, Option.join_some]
      · exact h.found i hi

variable {numGet : List Char → K × Option (List Char)} [Neg K]

/-- The graph, if there is one, has its nodes numbered, and their number is known. -/
def Numbers (s : Loader K) : Prop :=
  ∀ graph, s.graph = some graph → Numbered graph ∧ graph.nodes.length = s.numNodes

theorem numbers_step {s t : Loader K} {u : Unit} (h : step numGet s u = some t)
    (hs : Numbers s) : Numbers t := by
  unfold step at h
  split at h
  · next graph word rest hgraph _ =>
      obtain ⟨hnumbered, hlength⟩ := hs graph hgraph
      split at h
      · cases h
        intro graph' hgraph'
        simp only [readVertex] at hgraph' ⊢
        split at hgraph'
        · cases hgraph'
          rw [← hlength]
          refine ⟨hnumbered.addNode rfl, ?_⟩
          rw [Routing.SimpleGraph.addNode, List.length_append, List.length_singleton]
        · cases hgraph'
      · split at h
        · cases h
          intro graph' hgraph'
          simp only [readFace, Option.bind_eq_bind, Option.bind_eq_some_iff] at hgraph' ⊢
          obtain ⟨g1, h1, g2, h2, g3, h3, g4, h4, g5, h5, h6⟩ := hgraph'
          obtain ⟨n1, l1⟩ := hnumbered.addEdge h1
          obtain ⟨n2, l2⟩ := n1.addEdge h2
          obtain ⟨n3, l3⟩ := n2.addEdge h3
          obtain ⟨n4, l4⟩ := n3.addEdge h4
          obtain ⟨n5, l5⟩ := n4.addEdge h5
          obtain ⟨n6, l6⟩ := n5.addEdge h6
          exact ⟨n6, by omega⟩
        · cases h
          exact hs
  · cases h

end Objects

/-- However much of a file has been read, without undefined behaviour. -/
theorem loaded_obj {numGet : List Char → ℝ × Option (List Char)} {text : List Char}
    {s : Loader ℝ} {graph : Routing.SimpleGraph ℝ} (hrun : Reaches (step numGet) (.initial text) s)
    (hgraph : s.graph = some graph) : Loaded graph.toIGraph := by
  have hwhole := whole_of_reaches hrun hgraph
  have hnumbers : Numbers s := by
    refine hrun.invariant (fun _ _ _ _ hstep hs => numbers_step hstep hs) ?_
    intro graph hgraph
    cases hgraph
    refine ⟨⟨?_, ?_⟩, rfl⟩
    · intro i node hnode
      cases hnode
    · intro i hi
      cases hi
  obtain ⟨hnumbered, _⟩ := hnumbers graph hgraph
  refine ⟨?_, ?_, ?_, ?_⟩
  · intro i hi
    have hlt := List.mem_range.mp hi
    have hname := (hnumbered.nodes i _ (List.getElem?_eq_getElem hlt)).1
    simp only [Routing.SimpleGraph.toIGraph, List.getElem?_eq_getElem hlt, Option.elim_some, hname,
      hnumbered.found i hlt, Option.join_some]
  · intro name i hi
    exact List.mem_range.mpr (hwhole.mapped name i (Option.join_eq_some_iff.mp hi))
  · intro i hi j hj
    have hlt := List.mem_range.mp hi
    simp only [Routing.SimpleGraph.toIGraph, List.getElem?_eq_getElem hlt, Option.elim_some,
      List.reduceOption_mem_iff] at hj ⊢
    obtain ⟨j', hj', hlt'⟩ := hwhole.neighbors _ (List.getElem_mem hlt) _ hj
    rw [Option.some.inj hj']
    exact List.mem_range.mpr hlt'
  · intro i hi
    have hlt := List.mem_range.mp hi
    simp only [Routing.SimpleGraph.toIGraph, List.getElem?_eq_getElem hlt, Option.elim_some]
    exact (hnumbered.nodes i _ (List.getElem?_eq_getElem hlt)).2

end UmnProjects.Viewer
