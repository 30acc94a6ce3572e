import UmnProjects.Osm.Components
import UmnProjects.Routing.ObjGraph

/-!
What `ConnectedComponents` makes of a graph of which only the lists of nodes and neighbours are
known. It labels names, so nodes of one name share their label.
-/
namespace UmnProjects.Osm

open Tables Routing Components Relation

namespace GraphUtils

variable {P K : Type} {graph : IGraph P K}

def Undirected (graph : IGraph P K) : Prop :=
  ∀ n ∈ graph.getNodes, ∀ q ∈ graph.getNeighbors n, n ∈ graph.getNeighbors q

def DistinctNames (graph : IGraph P K) : Prop :=
  ∀ n ∈ graph.getNodes, ∀ q ∈ graph.getNodes, graph.getName n = graph.getName q → n = q

instance [DecidableEq P] : Decidable (Undirected graph) :=
  inferInstanceAs (Decidable (∀ n ∈ graph.getNodes, ∀ q ∈ graph.getNeighbors n,
    n ∈ graph.getNeighbors q))

instance [DecidableEq P] : Decidable (DistinctNames graph) :=
  inferInstanceAs (Decidable (∀ n ∈ graph.getNodes, ∀ q ∈ graph.getNodes,
    graph.getName n = graph.getName q → n = q))

abbrev Node (graph : IGraph P K) : Type := {p : P // p ∈ graph.getNodes}

def Adjacent (graph : IGraph P K) (p q : Node graph) : Prop := q.val ∈ graph.getNeighbors p.val

def labelOf (record : Table String ℕ) (p : Node graph) : Option ℕ :=
  record.lookup (graph.getName p.val)

/-- The record labels the connected components, from 0 on. -/
structure LabelsComponents (graph : IGraph P K) (record : Table String ℕ) : Prop where
  keys : ∀ x, x ∈ record ↔ ∃ p : Node graph, graph.getName p.val = x
  same_iff : ∀ p q : Node graph,
    labelOf record p = labelOf record q ↔ ReflTransGen (Adjacent graph) p q
  labels : ∀ l, (∃ p : Node graph, labelOf record p = some l) ↔
    l < (Set.range (component (Adjacent graph))).ncard

/-! ### A larger bound changes nothing -/

theorem dfsVisit_succ (index bound : ℕ) (record record' : Table String ℕ) (n : P)
    (h : dfsVisit graph index bound record n = .ok record') :
    dfsVisit graph index (bound + 1) record n = .ok record' := by
  induction bound generalizing record record' n with
  | zero => cases h
  | succ bound ih =>
      rw [dfsVisit] at h ⊢
      by_cases hmem : graph.getName n ∈ record
      · rw [if_pos hmem] at h ⊢
        exact h
      · rw [if_neg hmem] at h ⊢
        exact foldlM_ok_mono (fun before q after => ih before after q) h

theorem connectedComponents_succ {bound : ℕ} {record : Table String ℕ}
    (h : connectedComponents graph bound = .ok record) :
    connectedComponents graph (bound + 1) = .ok record := by
  obtain ⟨visited, hfold, hrecord⟩ := of_bind_ok h
  rw [connectedComponents, foldlM_ok_mono (g := visitNode graph (bound + 1)) ?_ hfold]
  · exact hrecord
  · intro before n after hvisit
    rw [visitNode] at hvisit ⊢
    by_cases hmem : graph.getName n ∈ before.1
    · rw [if_pos hmem] at hvisit ⊢
      exact hvisit
    · rw [if_neg hmem] at hvisit ⊢
      obtain ⟨record, hdfs, hafter⟩ := of_bind_ok hvisit
      rw [dfsVisit_succ _ _ _ _ _ hdfs]
      exact hafter

theorem connectedComponents_mono {bound bound' : ℕ} (hle : bound ≤ bound')
    {record : Table String ℕ} (h : connectedComponents graph bound = .ok record) :
    connectedComponents graph bound' = .ok record := by
  induction hle with
  | refl => exact h
  | step _ ih => exact connectedComponents_succ ih

/-! ### The graph whose nodes are found by their names -/

/-- `ConnectedComponents` does not call `GetNode`, so that it may be any. -/
def indexed (graph : IGraph P K) : IGraph P K :=
  { graph with getNode := fun name => graph.getNodes.find? fun p => graph.getName p == name }

theorem getNode_indexed (hnames : DistinctNames graph) (p : Node graph) :
    (indexed graph).getNode (graph.getName p.val) = some p.val := by
  change graph.getNodes.find? (fun q => graph.getName q == graph.getName p.val) = some p.val
  cases hfind : graph.getNodes.find? fun q => graph.getName q == graph.getName p.val with
  | none =>
      have hother := List.find?_eq_none.mp hfind p.val p.property
      exact absurd (beq_self_eq_true _) hother
  | some q =>
      have hq : q ∈ graph.getNodes := List.mem_of_find?_eq_some hfind
      have hname : graph.getName q = graph.getName p.val :=
        beq_iff_eq.mp (List.find?_some (p := fun q => graph.getName q == graph.getName p.val) hfind)
      exact congrArg some (hnames q hq p.val p.property hname)

theorem indexed_uniqueNames (hnames : DistinctNames graph) : UniqueNames (indexed graph) :=
  fun n hn => getNode_indexed hnames ⟨n, hn⟩

theorem indexed_ownsNodes (hclosed : Closed graph) (hnames : DistinctNames graph) :
    (indexed graph).OwnsNodes := by
  have hlisted : ∀ {name p}, (indexed graph).getNode name = some p → p ∈ graph.getNodes :=
    fun hp => List.mem_of_find?_eq_some hp
  refine ⟨hlisted, ?_⟩
  intro name p hp q hq
  exact getNode_indexed hnames ⟨q, hclosed p (hlisted hp) q hq⟩

theorem dfsVisit_indexed (index bound : ℕ) :
    dfsVisit (indexed graph) index bound = dfsVisit graph index bound := by
  induction bound with
  | zero => rfl
  | succ bound ih =>
      funext record n
      rw [dfsVisit, dfsVisit, ih]
      rfl

theorem connectedComponents_indexed (bound : ℕ) :
    connectedComponents (indexed graph) bound = connectedComponents graph bound := by
  have hvisit : visitNode (indexed graph) bound = visitNode graph bound := by
    funext visited n
    rw [visitNode, visitNode, dfsVisit_indexed]
    rfl
  rw [connectedComponents, connectedComponents, hvisit]
  rfl

/-! ### From names to nodes -/

theorem edge_indexed (hnames : DistinctNames graph) (p : Node graph) (x : String) :
    (indexed graph).Edge (graph.getName p.val) x ↔
      ∃ q ∈ graph.getNeighbors p.val, graph.getName q = x :=
  IGraph.edge_iff (getNode_indexed hnames p) x

theorem edge_indexed_symm (hclosed : Closed graph) (hnames : DistinctNames graph)
    (hundirected : Undirected graph) (x y : String)
    (h : (indexed graph).Edge x y) : (indexed graph).Edge y x := by
  obtain ⟨p, hp, q, hq, rfl⟩ := h
  have hnode : p ∈ graph.getNodes := List.mem_of_find?_eq_some hp
  have hname : graph.getName p = x :=
    beq_iff_eq.mp (List.find?_some (p := fun p => graph.getName p == x) hp)
  exact (edge_indexed hnames ⟨q, hclosed p hnode q hq⟩ x).mpr
    ⟨p, hundirected p hnode q hq, hname⟩

theorem path_of_reachable (hclosed : Closed graph) (hnames : DistinctNames graph) {p : Node graph}
    {x : String} (h : (indexed graph).Reachable (graph.getName p.val) x) :
    ∃ q : Node graph, graph.getName q.val = x ∧ ReflTransGen (Adjacent graph) p q := by
  induction h with
  | refl => exact ⟨p, rfl, .refl⟩
  | tail _ hedge ih =>
      obtain ⟨q, rfl, hpath⟩ := ih
      obtain ⟨r, hr, hname⟩ := (edge_indexed hnames q _).mp hedge
      exact ⟨⟨r, hclosed q.val q.property r hr⟩, hname, .tail hpath hr⟩

/-- Labels of the names are labels of the nodes. -/
theorem labelled_nodes (hclosed : Closed graph) (hnames : DistinctNames graph) {count : ℕ}
    {record : Table String ℕ} (h : Labelled (indexed graph).Edge count (marks record))
    (hkeys : ∀ x, x ∈ record ↔ x ∈ nodeNames (indexed graph)) :
    Labelled (Adjacent graph) count (labelOf record) := by
  refine ⟨?_, ?_, fun p => h.below _, ?_⟩
  · intro p q l hp hadjacent
    exact h.closed _ _ l hp ((edge_indexed hnames p _).mpr ⟨q.val, hadjacent, rfl⟩)
  · intro p q l hp hq
    obtain ⟨r, hname, hpath⟩ := path_of_reachable hclosed hnames (h.joined _ _ l hp hq)
    rw [← Subtype.ext (hnames r.val r.property q.val q.property hname)]
    exact hpath
  · intro l hl
    obtain ⟨x, hx⟩ := h.used l hl
    have hmem : x ∈ nodeNames (indexed graph) :=
      (hkeys x).mp (marks_ne_none.mp (by rw [hx]; exact Option.some_ne_none l))
    obtain ⟨p, hp, rfl⟩ := List.mem_map.mp (List.mem_toFinset.mp hmem)
    exact ⟨⟨p, hp⟩, hx⟩

theorem labelsComponents_of_labelled {count : ℕ} {record : Table String ℕ}
    (h : Labelled (Adjacent graph) count (labelOf record))
    (hkeys : ∀ x, x ∈ record ↔ ∃ p : Node graph, graph.getName p.val = x) :
    LabelsComponents graph record := by
  have hmarked : ∀ p : Node graph, ∃ l, labelOf record p = some l :=
    fun p => Option.isSome_iff_exists.mp (AList.lookup_isSome.mpr ((hkeys _).mpr ⟨p, rfl⟩))
  have hcount : (Set.range (component (Adjacent graph))).ncard = count := by
    rw [← h.ncard_components]
    congr 1
    ext C
    constructor
    · intro hgiven
      obtain ⟨p, rfl⟩ := hgiven
      obtain ⟨l, hl⟩ := hmarked p
      exact ⟨p, by rw [hl]; exact Option.some_ne_none l, rfl⟩
    · intro hgiven
      obtain ⟨p, _, rfl⟩ := hgiven
      exact ⟨p, rfl⟩
  refine ⟨hkeys, ?_, ?_⟩
  · intro p q
    obtain ⟨l, hl⟩ := hmarked p
    rw [hl]
    constructor
    · exact fun hq => h.joined p q l hl hq.symm
    · exact fun hpath => (h.same_of_reaches hl hpath).symm
  · intro l
    rw [hcount]
    constructor
    · intro hgiven
      obtain ⟨p, hl⟩ := hgiven
      exact h.below p l hl
    · exact h.used l

theorem connectedComponents_labels (hclosed : Closed graph) (hundirected : Undirected graph)
    (hnames : DistinctNames graph) :
    ∃ record, (∀ bound > (nodeNames graph).card, connectedComponents graph bound = .ok record) ∧
      LabelsComponents graph record := by
  obtain ⟨record, count, hok, hlabelled, hkeys⟩ :=
    connectedComponents_ok (indexed_ownsNodes hclosed hnames) (indexed_uniqueNames hnames)
      (edge_indexed_symm hclosed hnames hundirected) (Nat.lt_succ_self _)
  rw [connectedComponents_indexed] at hok
  refine ⟨record, fun bound hbound => connectedComponents_mono hbound hok, ?_⟩
  refine labelsComponents_of_labelled (labelled_nodes hclosed hnames hlabelled hkeys) ?_
  intro x
  rw [hkeys, nodeNames, List.mem_toFinset, List.mem_map]
  constructor
  · intro hgiven
    obtain ⟨p, hp, hname⟩ := hgiven
    exact ⟨⟨p, hp⟩, hname⟩
  · intro hgiven
    obtain ⟨p, hname⟩ := hgiven
    exact ⟨p.val, p.property, hname⟩

/-- A node alone and two that are neighbours, the first of them named `a`. -/
def aloneAndPair (alone : String) : IGraph ℕ ℕ :=
  Routing.SimpleGraph.toIGraph {
    nodes := [⟨alone, [], []⟩, ⟨"a", [some 2], []⟩, ⟨"b", [some 1], []⟩]
    nodeMap := fun name => if name = "a" then some (some 1) else if name = "b" then some (some 2)
      else if name = alone then some (some 0) else none }

theorem connectedComponents_labels_aloneAndPair : ∃ record,
    connectedComponents (aloneAndPair "c") 4 = .ok record ∧
      LabelsComponents (aloneAndPair "c") record := by
  obtain ⟨record, hok, hlabels⟩ :=
    @connectedComponents_labels _ _ (aloneAndPair "c") (by decide) (by decide) (by decide)
  exact ⟨record, hok 4 (by decide), hlabels⟩

/-- The two neighbours get different labels when the node alone has the name of one of them. -/
theorem connectedComponents_sameNames :
    Closed (aloneAndPair "a") ∧ Undirected (aloneAndPair "a") ∧
      ∃ record, (∀ bound ≥ 3, connectedComponents (aloneAndPair "a") bound = .ok record) ∧
        ¬ LabelsComponents (aloneAndPair "a") record := by
  refine ⟨by decide, by decide, ?_⟩
  obtain ⟨record, hok⟩ : ∃ record, connectedComponents (aloneAndPair "a") 3 = .ok record :=
    ⟨_, rfl⟩
  refine ⟨record, fun bound hbound => connectedComponents_mono hbound hok, ?_⟩
  intro hlabels
  have hdifferent : record.lookup "a" ≠ record.lookup "b" := by
    cases hok
    decide
  apply hdifferent
  exact (hlabels.same_iff ⟨1, by decide⟩ ⟨2, by decide⟩).mpr (.single (show 2 ∈ [2] by decide))

end GraphUtils

end UmnProjects.Osm
