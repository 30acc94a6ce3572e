import UmnProjects.Osm.Components

/-!
`Filter`. With unique names, own neighbours and a filter that is defined on the names of
the graph, the result is the subgraph induced on the names the filter keeps: each node has
its neighbours that are kept, in order.
-/
namespace UmnProjects.Osm

open Tables Routing

namespace GraphUtils

variable {P K : Type} {original : IGraph P K} {keep : Table String Bool}

/-- Positions have the three coordinates that `Filter` reads. -/
def ThreeCoordinates (graph : IGraph P K) : Prop :=
  ∀ n ∈ graph.getNodes, ∃ x y z rest, graph.getPosition n = x :: y :: z :: rest

/-- The node lies where the original one of its name does. -/
def PlacedAs (original : IGraph P K) (p : String × Point3 K) : Prop :=
  ∃ rest, original.positionOf p.1 = p.2.toVec ++ rest

/-- What `Filter` relies on. -/
structure Filterable (original : IGraph P K) (keep : Table String Bool) : Prop where
  unique : UniqueNames original
  closed : Closed original
  defined : ∀ x, x ∈ keep ↔ x ∈ nodeNames original
  three : ∀ n ∈ original.getNodes, keep.lookup (original.getName n) = some true →
    ∃ x y z rest, original.getPosition n = x :: y :: z :: rest

theorem Filterable.mem_nodeNames (h : Filterable original keep) {name : String}
    (hkept : keep.lookup name = some true) : name ∈ nodeNames original := by
  rw [← h.defined, ← AList.lookup_isSome, hkept]
  rfl

theorem Filterable.lookup (h : Filterable original keep) {n : P} (hn : n ∈ original.getNodes) :
    ∃ included, keep.lookup (original.getName n) = some included := by
  have hname : original.getName n ∈ nodeNames original :=
    List.mem_toFinset.mpr (List.mem_map_of_mem hn)
  exact Option.isSome_iff_exists.mp (AList.lookup_isSome.mpr ((h.defined _).mpr hname))

theorem getName_of_unique (hunique : UniqueNames original) {name : String}
    (hname : name ∈ nodeNames original) :
    ∃ n ∈ original.getNodes, original.getNode name = some n ∧ original.getName n = name := by
  obtain ⟨n, hn, rfl⟩ := List.mem_map.mp (List.mem_toFinset.mp hname)
  exact ⟨n, hn, hunique n hn, rfl⟩

/-! ### Copying the nodes -/

theorem copyNode_ok (h : Filterable original keep) {graph : OSMGraph K} {name : String}
    (hkept : keep.lookup name = some true) (hnew : name ∉ graph.names) :
    ∃ graph' loc, copyNode original graph name true = .ok graph' ∧
      graph'.places = graph.places ++ [(name, loc)] ∧ PlacedAs original (name, loc) ∧
      ∀ u, graph'.outNames u = graph.outNames u := by
  obtain ⟨n, hn, hget, rfl⟩ := getName_of_unique h.unique (h.mem_nodeNames hkept)
  obtain ⟨x, y, z, rest, hposition⟩ := h.three n hn hkept
  obtain ⟨graph', hadd, hplaces, hout⟩ := graph.addNode_outNames ⟨x, y, z⟩ hnew
  refine ⟨graph', ⟨x, y, z⟩, ?_, hplaces, ⟨rest, ?_⟩, hout⟩
  · simp only [copyNode, hget, hposition, if_true]
    exact hadd
  · rw [IGraph.positionOf_eq hget, hposition]
    rfl

theorem copyNodes_ok (hash : HashOrder) (h : Filterable original keep) :
    ∃ copied, (hash.order keep.entries).foldlM
        (fun graph kv => copyNode original graph kv.1 kv.2) OSMGraph.empty = .ok copied ∧
      (∀ x, x ∈ copied.names ↔ keep.lookup x = some true) ∧
      (∀ u, copied.outNames u = []) ∧ ∀ p ∈ copied.places, PlacedAs original p := by
  have hkeys : ((hash.order keep.entries).map Sigma.fst).Nodup :=
    ((hash.perm keep.entries).map Sigma.fst).nodup_iff.mpr keep.nodupKeys
  have hloop := foldlM_invariant (l := hash.order keep.entries)
    (f := fun graph kv => copyNode original graph kv.1 kv.2) (b := OSMGraph.empty)
    (fun (done : List (Sigma fun _ : String => Bool)) (graph : OSMGraph K) =>
      (∀ x, x ∈ graph.names ↔ Sigma.mk x true ∈ done) ∧ (∀ u, graph.outNames u = []) ∧
        ∀ p ∈ graph.places, PlacedAs original p) ?_ ?_
  · obtain ⟨copied, hfold, hnames, hrest⟩ := hloop
    refine ⟨copied, hfold, ?_, hrest⟩
    intro x
    rw [hnames, hash.mem_order, Table.lookup_eq_some_iff]
  · refine ⟨?_, fun u => OSMGraph.outNames_of_not_mem _ List.not_mem_nil, ?_⟩
    · intro x
      exact iff_of_false List.not_mem_nil List.not_mem_nil
    · intro p hp
      exact absurd hp List.not_mem_nil
  · intro done kv rest graph hsplit hgraph
    obtain ⟨hnames, hout, hplaced⟩ := hgraph
    obtain ⟨name, included⟩ := kv
    cases included with
    | false =>
        refine ⟨graph, rfl, ?_, hout, hplaced⟩
        intro x
        rw [hnames]
        simp
    | true =>
        have hkept : keep.lookup name = some true := by
          rw [Table.lookup_eq_some_iff, ← hash.mem_order, hsplit]
          exact List.mem_append_right _ List.mem_cons_self
        have hnew : name ∉ graph.names := by
          rw [hnames]
          intro hold
          rw [hsplit, List.map_append, List.nodup_append] at hkeys
          exact hkeys.2.2 name (List.mem_map_of_mem hold) name List.mem_cons_self rfl
        obtain ⟨graph', loc, hcopy, hplaces, hloc, hout'⟩ := copyNode_ok h hkept hnew
        have hnames' := OSMGraph.names_append hplaces
        refine ⟨graph', hcopy, ?_, fun u => (hout' u).trans (hout u), ?_⟩
        · intro x
          rw [hnames', List.mem_append, List.mem_append, hnames]
          simp
        · intro p hp
          rw [hplaces] at hp
          obtain hp | hp := List.mem_append.mp hp
          · exact hplaced p hp
          · exact List.mem_singleton.mp hp ▸ hloc

/-! ### Copying the edges -/

/-- The names of the neighbours that are kept. -/
def keptNames (original : IGraph P K) (keep : Table String Bool) (n : P) : List String :=
  ((original.getNeighbors n).map original.getName).filter fun name => keep.lookup name = some true

/-- One neighbour of a kept node. -/
theorem copyEdge_ok (h : Filterable original keep) {graph : OSMGraph K}
    (hnames : ∀ x, x ∈ graph.names ↔ keep.lookup x = some true) {name : String}
    (hsource : name ∈ graph.names) {other : P} (hother : other ∈ original.getNodes) :
    ∃ graph', copyEdge original keep name graph other = .ok graph' ∧
      graph.Appends (fun u => if u = name then
        [original.getName other].filter fun v => keep.lookup v = some true else []) graph' := by
  obtain ⟨kept, hkept⟩ := h.lookup hother
  cases kept with
  | false =>
      refine ⟨graph, by simp only [copyEdge, hkept], OSMGraph.Appends.refl graph ?_⟩
      intro u
      simp [hkept]
  | true =>
      obtain ⟨graph', hadd, happends⟩ := graph.addEdge_appends hsource ((hnames _).mpr hkept)
      refine ⟨graph', by simpa only [copyEdge, hkept] using hadd, happends.congr ?_⟩
      intro u
      simp [hkept]

/-- The edges out of a node. -/
theorem copyEdges_ok (h : Filterable original keep) {graph : OSMGraph K}
    (hnames : ∀ x, x ∈ graph.names ↔ keep.lookup x = some true) {n : P}
    (hn : n ∈ original.getNodes) :
    ∃ graph', copyEdges original keep graph n = .ok graph' ∧
      graph.Appends (fun u => if u = original.getName n ∧ keep.lookup u = some true then
        keptNames original keep n else []) graph' := by
  obtain ⟨included, hincluded⟩ := h.lookup hn
  cases included with
  | false =>
      refine ⟨graph, by simp only [copyEdges, hincluded], OSMGraph.Appends.refl graph ?_⟩
      intro u
      refine if_neg ?_
      intro hgiven
      obtain ⟨rfl, hkept⟩ := hgiven
      rw [hincluded] at hkept
      cases hkept
  | true =>
      have hsource := (hnames _).mpr hincluded
      have hround := fun other (hother : other ∈ original.getNeighbors n) (current : OSMGraph K)
          (hsame : current.names = graph.names) =>
        copyEdge_ok h (hsame ▸ hnames) (hsame ▸ hsource) (h.closed n hn other hother)
      obtain ⟨graph', hfold, happends⟩ := OSMGraph.Appends.foldlM_filter graph hround
      simp only [copyEdges, hincluded]
      refine ⟨graph', hfold, happends.congr ?_⟩
      intro u
      by_cases hu : u = original.getName n
      · rw [if_pos hu, if_pos ⟨hu, hu ▸ hincluded⟩]
        rfl
      · rw [if_neg hu, if_neg fun h => hu h.1]

theorem filter_outNames (hash : HashOrder) (h : Filterable original keep) :
    ∃ result, filter hash original keep = .ok result ∧
      (∀ x, x ∈ result.names ↔ keep.lookup x = some true) ∧
      (∀ u, result.outNames u = (original.getNodes.flatMap fun n =>
        if u = original.getName n ∧ keep.lookup u = some true then keptNames original keep n
        else []).map some) ∧
      ∀ p ∈ result.places, PlacedAs original p := by
  obtain ⟨copied, hcopied, hnames, hout, hplaced⟩ := copyNodes_ok hash h
  obtain ⟨result, hfold, happends⟩ := OSMGraph.Appends.foldlM (l := original.getNodes)
    (f := copyEdges original keep) copied fun n hn current hsame =>
      copyEdges_ok h (hsame ▸ hnames) hn
  refine ⟨result, ?_, ?_, ?_, ?_⟩
  · rw [filter, hcopied]
    exact hfold
  · rw [happends.names_eq]
    exact hnames
  · intro u
    rw [happends.outNames_eq, hout, List.nil_append]
  · rw [happends.places_eq]
    exact hplaced

/-- The subgraph induced on the names that the filter keeps. -/
theorem filter_ok (hash : HashOrder) (hown : original.OwnsNodes) (hunique : UniqueNames original)
    (hthree : ThreeCoordinates original)
    (hdefined : ∀ x, x ∈ keep ↔ x ∈ nodeNames original) :
    ∃ result, filter hash original keep = .ok result ∧
      (∀ x, x ∈ result.names ↔ keep.lookup x = some true) ∧
      (∀ u v, result.toIGraph.Edge u v ↔
        u ∈ result.names ∧ v ∈ result.names ∧ original.Edge u v) ∧
      ∀ p ∈ result.places, PlacedAs original p := by
  have h : Filterable original keep :=
    ⟨hunique, closed_of_ownsNodes hown hunique, hdefined, fun n hn _ => hthree n hn⟩
  obtain ⟨result, hfilter, hnames, hout, hplaced⟩ := filter_outNames hash h
  refine ⟨result, hfilter, hnames, ?_, hplaced⟩
  intro u v
  rw [OSMGraph.edge_iff_mem_outNames, hout,
    List.mem_map_of_injective (Option.some_injective String), List.mem_flatMap, hnames, hnames]
  constructor
  · intro hgiven
    obtain ⟨n, hn, hv⟩ := hgiven
    split at hv
    · next hu =>
        obtain ⟨rfl, hkept⟩ := hu
        obtain ⟨hneighbour, hv⟩ := List.mem_filter.mp hv
        exact ⟨hkept, of_decide_eq_true hv,
          (IGraph.mem_neighborNames_iff (hunique n hn)).mp hneighbour⟩
    · exact absurd hv List.not_mem_nil
  · intro hgiven
    obtain ⟨hu, hv, hedge⟩ := hgiven
    obtain ⟨n, hn, hget, rfl⟩ := getName_of_unique hunique (h.mem_nodeNames hu)
    refine ⟨n, hn, ?_⟩
    rw [if_pos ⟨rfl, hu⟩]
    exact List.mem_filter.mpr
      ⟨(IGraph.mem_neighborNames_iff hget).mpr hedge, decide_eq_true hv⟩

end GraphUtils

end UmnProjects.Osm
