import UmnProjects.Foundations.Components
import UmnProjects.Osm.OsmParser

/-!
`ConnectedComponents`. A visit with a large enough bound floods the unrecorded names
from its node; on a graph with symmetric edges the loop over the nodes labels the
connected components.
-/
namespace UmnProjects.Osm

open Tables Routing Components Relation

namespace GraphUtils

variable {P K : Type} {graph : IGraph P K}

/-- Every listed node is the one its name stands for. -/
def UniqueNames (graph : IGraph P K) : Prop :=
  ∀ n ∈ graph.getNodes, graph.getNode (graph.getName n) = some n

/-- The neighbours are nodes of the graph. -/
def Closed (graph : IGraph P K) : Prop :=
  ∀ n ∈ graph.getNodes, ∀ q ∈ graph.getNeighbors n, q ∈ graph.getNodes

instance [DecidableEq P] : Decidable (UniqueNames graph) :=
  inferInstanceAs (Decidable (∀ n ∈ graph.getNodes,
    graph.getNode (graph.getName n) = some n))

instance [DecidableEq P] : Decidable (Closed graph) :=
  inferInstanceAs (Decidable (∀ n ∈ graph.getNodes, ∀ q ∈ graph.getNeighbors n,
    q ∈ graph.getNodes))

theorem closed_of_ownsNodes (hown : graph.OwnsNodes) (hunique : UniqueNames graph) :
    Closed graph :=
  fun n hn q hq => hown.listed (hown.own (hunique n hn) q hq)

def nodeNames (graph : IGraph P K) : Finset String :=
  (graph.getNodes.map graph.getName).toFinset

theorem mem_nodeNames (hown : graph.OwnsNodes) {name : String} {n : P}
    (h : graph.getNode name = some n) : graph.getName n ∈ nodeNames graph := by
  rw [nodeNames, List.mem_toFinset]
  exact List.mem_map_of_mem (hown.listed h)

theorem mem_nodeNames_of_reachable (hown : graph.OwnsNodes) {a x : String}
    (ha : a ∈ nodeNames graph) (hax : graph.Reachable a x) : x ∈ nodeNames graph := by
  obtain heq | ⟨y, _, p, hp, q, hq, hname⟩ := hax.cases_tail
  · exact heq ▸ ha
  · exact hname ▸ mem_nodeNames hown (hown.own hp q hq)

/-- How many names a visit can still record. -/
def unrecorded (graph : IGraph P K) (record : Table String ℕ) : ℕ :=
  ((nodeNames graph).filter (fun x => x ∉ record)).card

theorem unrecorded_le (graph : IGraph P K) {record record' : Table String ℕ}
    (h : ∀ x, x ∈ record → x ∈ record') :
    unrecorded graph record' ≤ unrecorded graph record := by
  refine Finset.card_le_card ?_
  intro x hx
  rw [Finset.mem_filter] at hx ⊢
  exact ⟨hx.1, fun hmem => hx.2 (h x hmem)⟩

theorem unrecorded_insert_lt {record : Table String ℕ} {x : String} (index : ℕ)
    (hname : x ∈ nodeNames graph) (hx : x ∉ record) :
    unrecorded graph (record.insert x index) < unrecorded graph record := by
  refine Finset.card_lt_card (Finset.ssubset_iff_of_subset ?_ |>.mpr ⟨x, ?_, ?_⟩)
  · intro y hy
    rw [Finset.mem_filter] at hy ⊢
    exact ⟨hy.1, fun hmem => hy.2 ((AList.mem_insert record).mpr (.inr hmem))⟩
  · exact Finset.mem_filter.mpr ⟨hname, hx⟩
  · intro hmem
    exact (Finset.mem_filter.mp hmem).2 ((AList.mem_insert record).mpr (.inl rfl))

/-- The marks that a record stands for. -/
def marks (record : Table String ℕ) (x : String) : Option ℕ := record.lookup x

theorem marks_ne_none {record : Table String ℕ} {x : String} :
    marks record x ≠ none ↔ x ∈ record := by
  rw [marks, Ne, AList.lookup_eq_none, not_not]

theorem marks_eq_none {record : Table String ℕ} {x : String} (h : x ∉ record) :
    marks record x = none :=
  AList.lookup_eq_none.mpr h

theorem marks_insert (record : Table String ℕ) (x : String) (index : ℕ) :
    marks (record.insert x index) = Function.update (marks record) x (some index) := by
  funext y
  by_cases hy : y = x
  · rw [hy, Function.update_self, marks, AList.lookup_insert]
  · rw [Function.update_of_ne hy, marks, marks, AList.lookup_insert_ne hy]

theorem dfsVisit_ok (hown : graph.OwnsNodes) (index bound : ℕ) (record : Table String ℕ) {n : P}
    (hn : graph.getNode (graph.getName n) = some n) (hbound : unrecorded graph record < bound) :
    ∃ record', dfsVisit graph index bound record n = .ok record' ∧
      Flood graph.Edge index (fun r => r = graph.getName n) (marks record) (marks record') := by
  induction bound generalizing record n with
  | zero => exact absurd hbound (Nat.not_lt_zero _)
  | succ bound ih =>
      rw [dfsVisit]
      by_cases hmem : graph.getName n ∈ record
      · rw [if_pos hmem]
        refine ⟨record, rfl, .skip ?_⟩
        intro r hr
        exact marks_ne_none.mpr (hr ▸ hmem)
      · rw [if_neg hmem]
        have hless := unrecorded_insert_lt index (mem_nodeNames hown hn) hmem
        have hloop := foldlM_invariant (l := graph.getNeighbors n)
          (f := dfsVisit graph index bound) (b := record.insert (graph.getName n) index)
          (fun done record' => Flood graph.Edge index (fun r => ∃ q ∈ done, graph.getName q = r)
            (marks (record.insert (graph.getName n) index)) (marks record')) ?_ ?_
        · obtain ⟨record', hfold, hflood⟩ := hloop
          refine ⟨record', hfold, ?_⟩
          rw [marks_insert] at hflood
          exact .enter (marks_eq_none hmem)
            (hflood.congr fun r => (IGraph.edge_iff hn r).symm)
        · refine .skip ?_
          intro r hr
          obtain ⟨q, hq, _⟩ := hr
          exact absurd hq List.not_mem_nil
        · intro done q rest current hsplit hcurrent
          have hq : q ∈ graph.getNeighbors n := by
            rw [hsplit]
            exact List.mem_append_right _ List.mem_cons_self
          have hkept := unrecorded_le graph
            (fun x hx => marks_ne_none.mp (hcurrent.marked (marks_ne_none.mpr hx)))
          obtain ⟨next, hvisit, hnext⟩ := ih current (hown.own hn q hq) (by omega)
          refine ⟨next, hvisit, (hcurrent.append hnext).congr ?_⟩
          intro r
          simp [or_and_right, exists_or, eq_comm]

/-- Between two rounds the record labels whole components, those of the nodes `done`. -/
structure Visited (graph : IGraph P K) (done : List P) (visited : Table String ℕ × ℕ) : Prop where
  labelled : Labelled graph.Edge visited.2 (marks visited.1)
  covered : ∀ n ∈ done, graph.getName n ∈ visited.1
  known : ∀ x ∈ visited.1, x ∈ nodeNames graph

theorem Visited.start (graph : IGraph P K) : Visited graph [] (∅, 0) := by
  have hempty : marks ∅ = fun _ => none := by
    funext x
    exact AList.lookup_empty x
  refine ⟨hempty ▸ .empty graph.Edge, ?_, ?_⟩
  · intro n hn
    exact absurd hn List.not_mem_nil
  · intro x hx
    exact absurd hx (AList.notMem_empty x)

theorem visitNode_ok (hown : graph.OwnsNodes) (hunique : UniqueNames graph)
    (hsymm : ∀ x y, graph.Edge x y → graph.Edge y x) {bound : ℕ}
    (hbound : (nodeNames graph).card < bound) {done : List P} {n : P} (hn : n ∈ graph.getNodes)
    {visited : Table String ℕ × ℕ} (h : Visited graph done visited) :
    ∃ visited', visitNode graph bound visited n = .ok visited' ∧
      Visited graph (done ++ [n]) visited' := by
  rw [visitNode]
  by_cases hmem : graph.getName n ∈ visited.1
  · rw [if_pos hmem]
    refine ⟨visited, rfl, h.labelled, ?_, h.known⟩
    intro m hm
    obtain hm | hm := List.mem_append.mp hm
    · exact h.covered m hm
    · exact List.mem_singleton.mp hm ▸ hmem
  · rw [if_neg hmem]
    have hless : unrecorded graph visited.1 < bound :=
      Nat.lt_of_le_of_lt (Finset.card_filter_le _ _) hbound
    obtain ⟨record, hvisit, hflood⟩ :=
      dfsVisit_ok hown visited.2 bound visited.1 (hunique n hn) hless
    refine ⟨(record, visited.2 + 1), by rw [hvisit]; rfl,
      h.labelled.flood hsymm (marks_eq_none hmem) hflood, ?_, ?_⟩
    · intro m hm
      obtain hm | hm := List.mem_append.mp hm
      · exact marks_ne_none.mp (hflood.marked (marks_ne_none.mpr (h.covered m hm)))
      · exact marks_ne_none.mp (hflood.covered _ (by rw [List.mem_singleton.mp hm]))
    · intro x hx
      by_cases hold : x ∈ visited.1
      · exact h.known x hold
      · obtain ⟨_, r, hr, hreach⟩ := hflood.fresh x (marks_eq_none hold) (marks_ne_none.mpr hx)
        refine mem_nodeNames_of_reachable hown ?_ hreach
        exact hr ▸ mem_nodeNames hown (hunique n hn)

theorem connectedComponents_ok (hown : graph.OwnsNodes) (hunique : UniqueNames graph)
    (hsymm : ∀ x y, graph.Edge x y → graph.Edge y x) {bound : ℕ}
    (hbound : (nodeNames graph).card < bound) :
    ∃ record count, connectedComponents graph bound = .ok record ∧
      Labelled graph.Edge count (marks record) ∧ ∀ x, x ∈ record ↔ x ∈ nodeNames graph := by
  have hloop := foldlM_invariant (l := graph.getNodes) (f := visitNode graph bound) (b := (∅, 0))
    (Visited graph) (.start graph) ?_
  · obtain ⟨visited, hfold, hvisited⟩ := hloop
    refine ⟨visited.1, visited.2, by rw [connectedComponents, hfold]; rfl, hvisited.labelled, ?_⟩
    intro x
    constructor
    · exact hvisited.known x
    · intro hx
      obtain ⟨n, hn, hname⟩ := List.mem_map.mp (List.mem_toFinset.mp hx)
      exact hname ▸ hvisited.covered n hn
  · intro done n rest visited hsplit hvisited
    have hn : n ∈ graph.getNodes := by
      rw [hsplit]
      exact List.mem_append_right _ List.mem_cons_self
    exact visitNode_ok hown hunique hsymm hbound hn hvisited

end GraphUtils

end UmnProjects.Osm
