import UmnProjects.Osm.Adjacency

/-!
The adjacency list as a whole: its sets and its keys.
-/
namespace UmnProjects.Osm

open Tables

namespace OsmParser

/-- The ways that carry a highway tag. -/
def highwayWays (doc : XmlDocument) : List XmlNode :=
  (doc.firstChild.childrenNamed "way").filter isHighway

def RefersTo (wayNode : XmlNode) (ref : String) : Prop :=
  ∃ child ∈ wayNode.children, child.name = "nd" ∧ child.value "ref" = ref

/-- The keys are what the highways refer to, and the sets hold the adjacencies of the highways
in both directions. -/
structure AdjacencyListOf (doc : XmlDocument) (adjacencies : Table String (List String)) :
    Prop where
  linked : ∀ u v, Linked adjacencies u v ↔
    ∃ wayNode ∈ highwayWays doc, AdjacentNds wayNode.children u v
  symm : ∀ u v, Linked adjacencies u v → Linked adjacencies v u
  keys : ∀ u, u ∈ adjacencies ↔ ∃ wayNode ∈ highwayWays doc, RefersTo wayNode u

variable {doc : XmlDocument} {wayNode : XmlNode} {elements : List XmlNode}
  {adjacencies : Table String (List String)} {ids : List String} {u v : String}

theorem RefersTo.of_adjacentNds (h : AdjacentNds wayNode.children u v) : RefersTo wayNode u := by
  obtain ⟨first, second, hinfix, hfirst, hsecond, hrefs⟩ := h
  have hmem := hinfix.subset
  cases hrefs with
  | inl hrefs => exact ⟨first, hmem (by simp), hfirst, hrefs.1.symm⟩
  | inr hrefs => exact ⟨second, hmem (by simp), hsecond, hrefs.1.symm⟩

/-! ### The elements -/

theorem mem_childrenFrom {node child : XmlNode} {name : String} (h : child.name = name) :
    child ∈ node.childrenFrom name ↔ child ∈ node.children := by
  rw [XmlNode.childrenFrom]
  induction node.children with
  | nil => rfl
  | cons first rest ih =>
      by_cases hfirst : first.name = name
      · rw [List.dropWhile_cons_of_neg (by simp [hfirst])]
      · have hne : child ≠ first := fun heq => hfirst (heq ▸ h)
        rw [List.dropWhile_cons_of_pos (by simp [hfirst]), ih, List.mem_cons]
        exact (or_iff_right hne).symm

/-- What a loop over the highway elements finds, it finds in the ways. -/
theorem exists_highwayElements_iff {P : XmlNode → Prop}
    (h : ∀ wayNode ∈ doc.firstChild.children, wayNode.name ≠ "way" → ¬ P wayNode) :
    (∃ wayNode ∈ highwayElements doc, P wayNode) ↔ ∃ wayNode ∈ highwayWays doc, P wayNode := by
  constructor
  · intro hexists
    obtain ⟨wayNode, hmem, hP⟩ := hexists
    obtain ⟨hfrom, hhighway⟩ := List.mem_filter.mp hmem
    have hchild := (List.dropWhile_suffix _).subset hfrom
    have hname : wayNode.name = "way" := by
      by_contra hne
      exact h wayNode hchild hne hP
    refine ⟨wayNode, List.mem_filter.mpr ⟨List.mem_filter.mpr ⟨hchild, ?_⟩, hhighway⟩, hP⟩
    rw [hname]
    exact beq_self_eq_true _
  · intro hexists
    obtain ⟨wayNode, hmem, hP⟩ := hexists
    obtain ⟨hnamed, hhighway⟩ := List.mem_filter.mp hmem
    obtain ⟨hchild, hname⟩ := List.mem_filter.mp hnamed
    exact ⟨wayNode, List.mem_filter.mpr
      ⟨(mem_childrenFrom (beq_iff_eq.mp hname)).mpr hchild, hhighway⟩, hP⟩

/-! ### The keys -/

theorem mem_addNodeIds : u ∈ addNodeIds ids wayNode ↔ u ∈ ids ∨ RefersTo wayNode u := by
  have hloop : u ∈ addNodeIds ids wayNode ↔ u ∈ ids ∨
      ∃ child ∈ wayNode.childrenFrom "nd", child.name = "nd" ∧ child.value "ref" = u := by
    rw [addNodeIds]
    induction wayNode.childrenFrom "nd" generalizing ids with
    | nil => simp
    | cons child rest ih =>
        rw [List.foldl_cons, ih]
        by_cases hname : child.name = "nd"
        · simp [hname, List.mem_insert_iff, or_comm, or_assoc, eq_comm]
        · simp [hname]
  rw [hloop]
  refine or_congr_right (exists_congr fun child => ?_)
  constructor
  · exact fun h => ⟨(mem_childrenFrom h.2.1).mp h.1, h.2⟩
  · exact fun h => ⟨(mem_childrenFrom h.2.1).mpr h.1, h.2⟩

theorem mem_foldl_addNodeIds (ways : List (Sigma fun _ : String => XmlNode)) :
    u ∈ ways.foldl (fun ids way => addNodeIds ids way.2) ids ↔
      u ∈ ids ∨ ∃ way ∈ ways, RefersTo way.2 u := by
  induction ways generalizing ids with
  | nil => simp
  | cons way rest ih =>
      rw [List.foldl_cons, ih, mem_addNodeIds, or_assoc]
      simp

theorem mem_link {a b : String} : u ∈ link adjacencies a b ↔ u = a ∨ u ∈ adjacencies :=
  AList.mem_insert _

theorem mem_connectSiblings : u ∈ connectSiblings adjacencies elements ↔
    u ∈ adjacencies ∨ ∃ v, AdjacentNds elements u v := by
  induction elements generalizing adjacencies with
  | nil => simp [connectSiblings, not_adjacentNds_nil]
  | cons first rest ih =>
      cases rest with
      | nil => simp [connectSiblings, not_adjacentNds_single]
      | cons second rest =>
          rw [connectSiblings]
          simp only [adjacentNds_cons_cons, exists_or]
          by_cases hnames : first.name = "nd" ∧ second.name = "nd"
          · rw [if_pos (by simp [hnames]), ih, mem_link, mem_link]
            simp only [hnames, true_and]
            grind
          · rw [if_neg (by simpa using hnames), ih]
            grind

theorem mem_foldl_connectSiblings (ways : List (Sigma fun _ : String => XmlNode)) :
    u ∈ ways.foldl (fun adjacencies way =>
        connectSiblings adjacencies (way.2.childrenFrom "nd")) adjacencies ↔
      u ∈ adjacencies ∨ ∃ way ∈ ways, ∃ v, AdjacentNds way.2.children u v := by
  induction ways generalizing adjacencies with
  | nil => simp
  | cons way rest ih =>
      rw [List.foldl_cons, ih, mem_connectSiblings, or_assoc]
      simp only [XmlNode.childrenFrom, adjacentNds_dropWhile, List.exists_mem_cons_iff]

theorem mem_foldl_emplace : u ∈ ids.foldl (fun adjacencies id =>
    Table.emplace adjacencies id []) adjacencies ↔ u ∈ adjacencies ∨ u ∈ ids := by
  induction ids generalizing adjacencies with
  | nil => simp
  | cons id rest ih =>
      rw [List.foldl_cons, ih, Table.mem_emplace, List.mem_cons, or_comm (a := u = id), or_assoc]

/-- The second loop over the ways adds no key to those of the first. -/
theorem mem_getAdjacencyListFromFile (hash : HashOrder) {doc : XmlDocument}
    (hids : ((highwayElements doc).map (fun wayNode => wayNode.value "id")).Nodup) {u : String} :
    u ∈ getAdjacencyListFromFile hash doc ↔
      ∃ wayNode ∈ highwayElements doc, RefersTo wayNode u := by
  rw [getAdjacencyListFromFile, mem_foldl_connectSiblings, mem_foldl_emplace, hash.mem_order,
    mem_foldl_addNodeIds]
  rw [exists_ways_iff hash hids (P := fun wayNode => RefersTo wayNode u),
    exists_ways_iff hash hids (P := fun wayNode => ∃ v, AdjacentNds wayNode.children u v)]
  constructor
  · intro h
    obtain (hempty | hempty | hrefers) | hadjacent := h
    · exact absurd hempty (AList.notMem_empty u)
    · cases hempty
    · exact hrefers
    · obtain ⟨wayNode, hmem, v, hv⟩ := hadjacent
      exact ⟨wayNode, hmem, .of_adjacentNds hv⟩
  · exact fun h => .inl (.inr (.inr h))

/-! ### The list -/

/-- With distinct ids and `nd` children in ways only, the list is that of the highways. -/
theorem getAdjacencyListFromFile_of_highways (hash : HashOrder) (doc : XmlDocument)
    (hids : ((highwayElements doc).map (fun wayNode => wayNode.value "id")).Nodup)
    (hnds : ∀ element ∈ doc.firstChild.children, element.name ≠ "way" →
      ∀ child ∈ element.children, child.name ≠ "nd") :
    AdjacencyListOf doc (getAdjacencyListFromFile hash doc) := by
  have hrefers : ∀ element ∈ doc.firstChild.children, element.name ≠ "way" →
      ∀ ref, ¬ RefersTo element ref := by
    intro element hmem hname ref h
    obtain ⟨child, hchild, hnd, _⟩ := h
    exact hnds element hmem hname child hchild hnd
  have hlinked : ∀ u v, Linked (getAdjacencyListFromFile hash doc) u v ↔
      ∃ wayNode ∈ highwayWays doc, AdjacentNds wayNode.children u v := by
    intro u v
    rw [linked_getAdjacencyListFromFile hash hids, HighwayAdjacent]
    refine exists_highwayElements_iff (P := fun e => AdjacentNds e.children u v) ?_
    exact fun element hmem hname h => hrefers element hmem hname u (.of_adjacentNds h)
  refine ⟨hlinked, fun u v h => ?_, fun u => ?_⟩
  · rw [linked_getAdjacencyListFromFile hash hids] at h ⊢
    exact h.symm
  · rw [mem_getAdjacencyListFromFile hash hids]
    exact exists_highwayElements_iff fun element hmem hname => hrefers element hmem hname u

/-- A highway in front of a footpath that shares a node with it. -/
def junction : XmlDocument where
  children := [.mk "osm" [] [
    .mk "node" [("id", "a")] [.mk "tag" [("k", "highway"), ("v", "crossing")] []],
    .mk "way" [("id", "w1")] [.mk "nd" [("ref", "a")] [], .mk "nd" [("ref", "b")] [],
      .mk "tag" [("k", "highway"), ("v", "residential")] []],
    .mk "way" [("id", "w2")] [.mk "nd" [("ref", "b")] [], .mk "nd" [("ref", "c")] []]]]

theorem getAdjacencyListFromFile_junction :
    AdjacencyListOf junction (getAdjacencyListFromFile .insertion junction) ∧
      (getAdjacencyListFromFile .insertion junction).entries = [⟨"b", ["a"]⟩, ⟨"a", ["b"]⟩] :=
  ⟨getAdjacencyListFromFile_of_highways .insertion junction (by decide) (by decide), rfl⟩

end OsmParser

end UmnProjects.Osm
