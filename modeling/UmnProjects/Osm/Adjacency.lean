import UmnProjects.Osm.OsmParser

/-!
`get_adjacency_list_from_file` and `read_adjacencies_to`. Two ids are adjacent if two
neighbouring `nd` children of one highway element refer to them; the edges added to a
graph are the adjacencies between two of its nodes, in both directions.
-/
namespace UmnProjects.Osm

open Tables

namespace OsmParser

/-- The siblings from the first way on that carry a highway tag. -/
def highwayElements (doc : XmlDocument) : List XmlNode :=
  (doc.firstChild.childrenFrom "way").filter isHighway

/-- Two `nd` elements that follow each other refer to `u` and `v`, in either order. -/
def AdjacentNds (elements : List XmlNode) (u v : String) : Prop :=
  ∃ first second, [first, second] <:+: elements ∧ first.name = "nd" ∧ second.name = "nd" ∧
    ((u = first.value "ref" ∧ v = second.value "ref") ∨
      (u = second.value "ref" ∧ v = first.value "ref"))

def HighwayAdjacent (doc : XmlDocument) (u v : String) : Prop :=
  ∃ wayNode ∈ highwayElements doc, AdjacentNds wayNode.children u v

theorem HighwayAdjacent.symm {doc : XmlDocument} {u v : String} (h : HighwayAdjacent doc u v) :
    HighwayAdjacent doc v u := by
  obtain ⟨wayNode, hway, first, second, hinfix, hfirst, hsecond, hrefs⟩ := h
  exact ⟨wayNode, hway, first, second, hinfix, hfirst, hsecond, hrefs.symm.imp And.symm And.symm⟩

section Siblings

variable {first second : XmlNode} {rest : List XmlNode} {u v : String}

theorem infix_pair_iff {A : Type} {a b c d : A} {l : List A} :
    [a, b] <:+: c :: d :: l ↔ (a = c ∧ b = d) ∨ [a, b] <:+: d :: l := by
  rw [List.infix_cons_iff]
  simp

theorem adjacentNds_cons_cons : AdjacentNds (first :: second :: rest) u v ↔
    (first.name = "nd" ∧ second.name = "nd" ∧
      ((u = first.value "ref" ∧ v = second.value "ref") ∨
        (u = second.value "ref" ∧ v = first.value "ref"))) ∨
      AdjacentNds (second :: rest) u v := by
  constructor
  · intro h
    obtain ⟨a, b, hinfix, hnames⟩ := h
    obtain ⟨ha, hb⟩ | hinfix := infix_pair_iff.mp hinfix
    · subst ha hb
      exact .inl hnames
    · exact .inr ⟨a, b, hinfix, hnames⟩
  · intro h
    obtain hnames | ⟨a, b, hinfix, hnames⟩ := h
    · exact ⟨first, second, infix_pair_iff.mpr (.inl ⟨rfl, rfl⟩), hnames⟩
    · exact ⟨a, b, infix_pair_iff.mpr (.inr hinfix), hnames⟩

theorem not_adjacentNds_nil : ¬ AdjacentNds [] u v := by
  intro h
  obtain ⟨a, b, hinfix, _⟩ := h
  simp at hinfix

theorem not_adjacentNds_single : ¬ AdjacentNds [first] u v := by
  intro h
  obtain ⟨a, b, hinfix, _⟩ := h
  have hlength := hinfix.length_le
  simp at hlength

/-- What precedes the first `nd` is in no such pair. -/
theorem adjacentNds_dropWhile (elements : List XmlNode) :
    AdjacentNds (elements.dropWhile (fun c => c.name != "nd")) u v ↔ AdjacentNds elements u v := by
  induction elements with
  | nil => rfl
  | cons first rest ih =>
      by_cases hname : first.name = "nd"
      · rw [List.dropWhile_cons_of_neg (by simp [hname])]
      · rw [List.dropWhile_cons_of_pos (by simp [hname]), ih]
        cases rest with
        | nil => exact iff_of_false not_adjacentNds_nil not_adjacentNds_single
        | cons second rest =>
            rw [adjacentNds_cons_cons]
            constructor
            · exact .inr
            · intro h
              exact h.resolve_left (fun hfirst => hname hfirst.1)

end Siblings

/-! ### The adjacency sets -/

def Linked (adjacencies : Table String (List String)) (u v : String) : Prop :=
  v ∈ (adjacencies.lookup u).getD []

section Links

variable {adjacencies : Table String (List String)} {a b u v : String}

theorem mem_insertSorted {x y : String} {set : List String} :
    y ∈ insertSorted x set ↔ y = x ∨ y ∈ set := by
  unfold insertSorted
  split
  · case isTrue hx =>
      constructor
      · exact .inr
      · intro hy
        cases hy with
        | inl hy => exact hy ▸ hx
        | inr hy => exact hy
  · exact List.mem_orderedInsert _

theorem linked_link : Linked (link adjacencies a b) u v ↔
    (u = a ∧ v = b) ∨ Linked adjacencies u v := by
  unfold Linked link
  by_cases hu : u = a
  · subst hu
    rw [AList.lookup_insert, Option.getD_some, mem_insertSorted]
    simp
  · rw [AList.lookup_insert_ne hu]
    simp [hu]

theorem linked_connectSiblings (elements : List XmlNode) :
    Linked (connectSiblings adjacencies elements) u v ↔
      Linked adjacencies u v ∨ AdjacentNds elements u v := by
  induction elements generalizing adjacencies with
  | nil => simp [connectSiblings, not_adjacentNds_nil]
  | cons first rest ih =>
      cases rest with
      | nil => simp [connectSiblings, not_adjacentNds_single]
      | cons second rest =>
          rw [connectSiblings, adjacentNds_cons_cons]
          by_cases hnames : first.name = "nd" ∧ second.name = "nd"
          · rw [if_pos (by simp [hnames]), ih, linked_link, linked_link]
            simp only [hnames, true_and]
            grind
          · rw [if_neg (by simpa using hnames), ih]
            grind

theorem linked_emplace_nil (key : String) :
    Linked (adjacencies.emplace key []) u v ↔ Linked adjacencies u v := by
  unfold Linked
  by_cases hkey : key ∈ adjacencies
  · rw [Table.lookup_emplace_mem [] hkey]
  · by_cases hu : u = key
    · subst hu
      rw [Table.lookup_emplace_self _ _ hkey, AList.lookup_eq_none.mpr hkey]
      rfl
    · rw [Table.lookup_emplace_ne _ _ hu]

end Links

/-! ### The adjacency list of a document -/

/-- With distinct ids the table holds every highway element under its id. -/
theorem lookup_highwayWayNodes {doc : XmlDocument}
    (hids : ((highwayElements doc).map (fun wayNode => wayNode.value "id")).Nodup)
    {id : String} {wayNode : XmlNode} :
    (highwayWayNodes doc.firstChild).lookup id = some wayNode ↔
      wayNode ∈ highwayElements doc ∧ wayNode.value "id" = id := by
  have hfold : highwayWayNodes doc.firstChild = (highwayElements doc).foldl
      (fun ways wayNode => ways.emplace (wayNode.value "id") wayNode) ∅ := by
    rw [highwayElements, List.foldl_filter]
    rfl
  rw [hfold, Table.lookup_foldl_emplace hids]
  constructor
  · intro h
    obtain ⟨element, hmem, hid, heq⟩ := h
    exact ⟨heq ▸ hmem, heq ▸ hid⟩
  · intro h
    exact ⟨wayNode, h.1, h.2, rfl⟩

/-- The loops over the table run over the highway elements. -/
theorem exists_ways_iff (hash : HashOrder) {doc : XmlDocument}
    (hids : ((highwayElements doc).map (fun wayNode => wayNode.value "id")).Nodup)
    {P : XmlNode → Prop} :
    (∃ way ∈ hash.order (highwayWayNodes doc.firstChild).entries, P way.2) ↔
      ∃ wayNode ∈ highwayElements doc, P wayNode := by
  constructor
  · intro h
    obtain ⟨way, hway, hP⟩ := h
    have hlookup := Table.lookup_eq_some_iff.mpr (hash.mem_order.mp hway)
    exact ⟨way.2, ((lookup_highwayWayNodes hids).mp hlookup).1, hP⟩
  · intro h
    obtain ⟨wayNode, hmem, hP⟩ := h
    have hlookup := (lookup_highwayWayNodes hids).mpr ⟨hmem, rfl⟩
    exact ⟨_, hash.mem_order.mpr (Table.lookup_eq_some_iff.mp hlookup), hP⟩

/-- The adjacency sets hold exactly the adjacencies of the highway elements. -/
theorem linked_getAdjacencyListFromFile (hash : HashOrder) {doc : XmlDocument}
    (hids : ((highwayElements doc).map (fun wayNode => wayNode.value "id")).Nodup)
    {u v : String} :
    Linked (getAdjacencyListFromFile hash doc) u v ↔ HighwayAdjacent doc u v := by
  have hstart : ∀ ids : List String, ¬ Linked
      (ids.foldl (fun adjacencies id => Table.emplace adjacencies id []) ∅) u v := by
    intro ids
    refine foldl_invariant (fun _ adjacencies => ¬ Linked adjacencies u v) ?_ ?_
    · simp [Linked]
    · intro _ id _ adjacencies _ hnot
      rw [linked_emplace_nil]
      exact hnot
  have hways : ∀ (ways : List (Sigma fun _ : String => XmlNode)) initialized,
      ¬ Linked initialized u v →
      (Linked (ways.foldl (fun adjacencies way =>
        connectSiblings adjacencies (way.2.childrenFrom "nd")) initialized) u v ↔
          ∃ way ∈ ways, AdjacentNds way.2.children u v) := by
    intro ways initialized hnot
    refine foldl_invariant (fun (done : List (Sigma fun _ : String => XmlNode)) adjacencies =>
      Linked adjacencies u v ↔ ∃ way ∈ done, AdjacentNds way.2.children u v) ?_ ?_
    · simp [hnot]
    · intro done way rest adjacencies _ hdone
      rw [linked_connectSiblings, XmlNode.childrenFrom, adjacentNds_dropWhile, hdone]
      simp [or_and_right, exists_or]
  rw [getAdjacencyListFromFile, hways _ _ (hstart _)]
  exact exists_ways_iff hash hids (P := fun wayNode => AdjacentNds wayNode.children u v)

/-! ### The edges of the graph -/

section Edges

variable {K : Type}

theorem addEdgesFrom_ok (graph : OSMGraph K) {source : String} (hsource : source ∈ graph.names)
    (others : List String) : ∃ graph', addEdgesFrom source graph others = .ok graph' ∧
      OSMGraph.Appends graph
        (fun u => if u = source then others.filter (· ∈ graph.names) else []) graph' := by
  have hround : ∀ target ∈ others, ∀ current : OSMGraph K, current.names = graph.names →
      ∃ next, (if current.contains target then current.addEdge source target else .ok current) =
        .ok next ∧ OSMGraph.Appends current
          (fun u => if u = source then [target].filter (· ∈ graph.names) else []) next := by
    intro target _ current hnames
    by_cases htarget : target ∈ graph.names
    · obtain ⟨next, hadd, happends⟩ :=
        current.addEdge_appends (hnames ▸ hsource) (hnames ▸ htarget)
      refine ⟨next, ?_, happends.congr ?_⟩
      · rw [if_pos (current.contains_iff.mpr (hnames ▸ htarget))]
        exact hadd
      · intro u
        rw [List.filter_cons_of_pos (by simpa using htarget), List.filter_nil]
    · refine ⟨current, ?_, OSMGraph.Appends.refl current ?_⟩
      · rw [if_neg (by rw [current.contains_iff, hnames]; exact htarget)]
      · intro u
        rw [List.filter_cons_of_neg (by simpa using htarget), List.filter_nil]
        exact ite_self []
  obtain ⟨graph', hfold, happends⟩ := OSMGraph.Appends.foldlM_filter graph hround
  rw [List.map_id'] at happends
  exact ⟨graph', hfold, happends⟩

/-- The entries of the adjacency list are its links. -/
theorem linked_iff_entry (hash : HashOrder) {adjacencies : Table String (List String)}
    {u v : String} :
    Linked adjacencies u v ↔ ∃ it ∈ hash.order adjacencies.entries, u = it.1 ∧ v ∈ it.2 := by
  constructor
  · intro h
    rw [Linked] at h
    cases hlookup : adjacencies.lookup u with
    | none => simp [hlookup] at h
    | some others =>
        rw [hlookup] at h
        exact ⟨⟨u, others⟩, hash.mem_order.mpr (Table.lookup_eq_some_iff.mp hlookup), rfl, h⟩
  · intro h
    obtain ⟨it, hit, hu, hv⟩ := h
    have hlookup := Table.lookup_eq_some_iff.mpr (hash.mem_order.mp hit)
    rw [Linked, hu, hlookup]
    exact hv

theorem readAdjacenciesTo_ok (graph : OSMGraph K) (hash : HashOrder) {doc : XmlDocument}
    (hids : ((highwayElements doc).map (fun wayNode => wayNode.value "id")).Nodup) :
    ∃ graph', readAdjacenciesTo hash graph doc = .ok graph' ∧ OSMGraph.Adds graph
      (fun u v => u ∈ graph.names ∧ v ∈ graph.names ∧ HighwayAdjacent doc u v) graph' := by
  have hloop := OSMGraph.Appends.foldlM
    (l := hash.order (getAdjacencyListFromFile hash doc).entries)
    (f := fun (graph : OSMGraph K) it =>
      if graph.contains it.1 then addEdgesFrom it.1 graph it.2 else .ok graph)
    (D := fun it u => if u = it.1 ∧ u ∈ graph.names then it.2.filter (· ∈ graph.names) else [])
    graph ?_
  · obtain ⟨graph', hfold, happends⟩ := hloop
    refine ⟨graph', hfold, (OSMGraph.Adds.of_appends happends).congr ?_⟩
    intro u v
    rw [← linked_getAdjacencyListFromFile hash hids, linked_iff_entry hash, List.mem_flatMap]
    constructor
    · intro hgiven
      obtain ⟨it, hit, hv⟩ := hgiven
      split at hv
      · next hu =>
          obtain ⟨hentry, hv⟩ := List.mem_filter.mp hv
          exact ⟨hu.2, of_decide_eq_true hv, it, hit, hu.1, hentry⟩
      · exact absurd hv List.not_mem_nil
    · intro hgiven
      obtain ⟨hu, hv, it, hit, hname, hentry⟩ := hgiven
      refine ⟨it, hit, ?_⟩
      rw [if_pos ⟨hname, hu⟩]
      exact List.mem_filter.mpr ⟨hentry, decide_eq_true hv⟩
  · intro it _ current hnames
    by_cases hsource : it.1 ∈ graph.names
    · obtain ⟨next, hadd, happends⟩ := addEdgesFrom_ok current (hnames ▸ hsource) it.2
      refine ⟨next, ?_, happends.congr ?_⟩
      · rw [if_pos (current.contains_iff.mpr (hnames ▸ hsource))]
        exact hadd
      · intro u
        rw [hnames]
        by_cases hu : u = it.1
        · rw [if_pos hu, if_pos ⟨hu, hu ▸ hsource⟩]
        · rw [if_neg hu, if_neg fun h => hu h.1]
    · refine ⟨current, ?_, OSMGraph.Appends.refl current ?_⟩
      · rw [if_neg (by rw [current.contains_iff, hnames]; exact hsource)]
      · intro u
        refine if_neg ?_
        intro hgiven
        obtain ⟨rfl, hu⟩ := hgiven
        exact hsource hu

end Edges

end OsmParser

end UmnProjects.Osm
