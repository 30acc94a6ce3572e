import UmnProjects.Osm.Filter
import UmnProjects.Routing.ObjGraph

/-!
The nodes of the graph that `Filter` makes, one by one: the position of each and its
neighbours in order. `Filter` reads three coordinates of a position.
-/
namespace UmnProjects.Osm

open Tables Routing

namespace GraphUtils

variable {P K : Type} {original : IGraph P K} {keep : Table String Bool}

/-- The nodes are those the filter keeps, where they were, and the neighbours of each are its
own that are kept; every neighbour pointer points to a node. -/
structure Induced (original : IGraph P K) (keep : Table String Bool) (result : OSMGraph K) :
    Prop where
  names : ∀ x, x ∈ result.names ↔ keep.lookup x = some true
  nodup : result.names.Nodup
  copied : ∀ node ∈ result.nodes, ∃ n ∈ original.getNodes, original.getName n = node.name ∧
    original.getPosition n = node.loc.toVec ∧
    node.neighbours.map (fun j => result.names[j]?) = (keptNames original keep n).map some

theorem filter_induced (hash : HashOrder) (hunique : UniqueNames original)
    (hnodup : (original.getNodes.map original.getName).Nodup) (hclosed : Closed original)
    (hdefined : ∀ x, x ∈ keep ↔ x ∈ nodeNames original)
    (hthree : ∀ n ∈ original.getNodes, keep.lookup (original.getName n) = some true →
      (original.getPosition n).length = 3) :
    ∃ result, filter hash original keep = .ok result ∧ Induced original keep result := by
  have hcoordinates : ∀ n ∈ original.getNodes, keep.lookup (original.getName n) = some true →
      ∃ x y z rest, original.getPosition n = x :: y :: z :: rest := by
    intro n hn hkept
    obtain ⟨x, y, z, hposition⟩ := List.length_eq_three.mp (hthree n hn hkept)
    exact ⟨x, y, z, [], hposition⟩
  have h : Filterable original keep := ⟨hunique, hclosed, hdefined, hcoordinates⟩
  obtain ⟨result, hfilter, hnames, hout, hplaced⟩ := filter_outNames hash h
  refine ⟨result, hfilter, hnames, result.names_nodup, ?_⟩
  intro node hnode
  have hkept : keep.lookup node.name = some true := (hnames _).mp (List.mem_map_of_mem hnode)
  obtain ⟨n, hn, hget, hname⟩ := getName_of_unique hunique (h.mem_nodeNames hkept)
  refine ⟨n, hn, hname, ?_, ?_⟩
  · obtain ⟨rest, hposition⟩ := hplaced (node.name, node.loc) (List.mem_map_of_mem hnode)
    rw [IGraph.positionOf_eq hget] at hposition
    have hlength := hthree n hn (hname ▸ hkept)
    rw [hposition, List.length_append] at hlength
    have hrest : rest = [] := List.eq_nil_of_length_eq_zero (Nat.add_left_cancel hlength)
    rw [hposition, hrest, List.append_nil]
  · rw [← result.outNames_of_mem hnode, hout, ← hname]
    rw [← hname] at hkept
    simp only [hkept, and_true]
    rw [flatMap_of_nodup_keys hnodup hn]

theorem defined_of_keys (h : keep.keys.toFinset = nodeNames original) (x : String) :
    x ∈ keep ↔ x ∈ nodeNames original := by
  rw [← h, List.mem_toFinset, AList.mem_keys]

/-- Two nodes that are kept, the first with a repeated neighbour, and one that is not. -/
def threeTowns : IGraph ℕ ℕ :=
  Routing.SimpleGraph.toIGraph {
    nodes := [⟨"a", [some 1, some 2, some 1], [0, 0, 1]⟩, ⟨"b", [some 0], [0, 0, 2]⟩,
      ⟨"c", [], []⟩]
    nodeMap := fun name => if name = "a" then some (some 0) else if name = "b" then some (some 1)
      else if name = "c" then some (some 2) else none }

def keepTwo : Table String Bool :=
  ((AList.insert "b" true ∅).insert "a" true).insert "c" false

theorem filter_induced_threeTowns : ∃ result,
    filter .insertion threeTowns keepTwo = .ok result ∧ Induced threeTowns keepTwo result := by
  have hdefined := defined_of_keys (show keepTwo.keys.toFinset = nodeNames threeTowns by decide)
  exact filter_induced .insertion (by decide) (by decide) (by decide) hdefined (by decide)

/-- A node without coordinates. -/
def nowhere : IGraph ℕ ℕ :=
  (Routing.SimpleGraph.empty.addNode ⟨"a", [], []⟩).toIGraph

theorem filter_nowhere :
    UniqueNames nowhere ∧ (nowhere.getNodes.map nowhere.getName).Nodup ∧ Closed nowhere ∧
      (∀ x, x ∈ AList.insert "a" true (∅ : Table String Bool) ↔ x ∈ nodeNames nowhere) ∧
      filter .insertion nowhere (AList.insert "a" true ∅) = .error .outOfRange := by
  exact ⟨by decide, by decide, by decide, defined_of_keys (by decide), rfl⟩

end GraphUtils

end UmnProjects.Osm
