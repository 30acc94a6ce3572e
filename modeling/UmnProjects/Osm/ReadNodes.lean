import UmnProjects.Osm.OsmParser

/-!
`read_nodes`: a document whose numbers parse and whose node ids differ gives a graph
with one node for each element that has id, lat and lon, in document order and without
edges.
-/
namespace UmnProjects.Osm

open Tables

namespace OsmParser

def hasFields (wayNode : XmlNode) : Bool :=
  (wayNode.attributeNamed "id").isSome && (wayNode.attributeNamed "lat").isSome &&
    (wayNode.attributeNamed "lon").isSome

/-- The node elements that are not skipped. -/
def wellFormedNodes (doc : XmlDocument) : List XmlNode :=
  (doc.firstChild.childrenNamed "node").filter hasFields

def parsedIds (doc : XmlDocument) : List String :=
  (wellFormedNodes doc).map (fun wayNode => wayNode.value "id")

variable {K : Type} (num : Numerals K)

/-- The bounds and all coordinates are texts of numbers. -/
structure Parsable (doc : XmlDocument) : Prop where
  bounds : ∀ name ∈ ["minlat", "minlon", "maxlat", "maxlon"],
    (num.stod ((doc.firstChild.child "bounds").value name)).isSome
  coordinates : ∀ wayNode ∈ wellFormedNodes doc,
    (num.stod (wayNode.value "lat")).isSome ∧ (num.stod (wayNode.value "lon")).isSome

variable {num}

theorem read_ok {text : String} (h : (num.stod text).isSome) : ∃ x, num.read text = .ok x := by
  obtain ⟨x, hx⟩ := Option.isSome_iff_exists.mp h
  exact ⟨x, by rw [Numerals.read, hx]⟩

theorem value_eq {wayNode : XmlNode} {name text : String}
    (h : wayNode.attributeNamed name = some text) : wayNode.value name = text := by
  rw [XmlNode.value, h]
  rfl

variable [Field K] {centerLat centerLon : K} {graph : OSMGraph K} {wayNode : XmlNode}

theorem readNode_skip (h : hasFields wayNode = false) :
    readNode num centerLat centerLon graph wayNode = .ok graph := by
  unfold readNode
  split
  · case h_1 hid hlat hlon => simp [hasFields, hid, hlat, hlon] at h
  · rfl

theorem readNode_ok (h : hasFields wayNode = true)
    (hlat : (num.stod (wayNode.value "lat")).isSome)
    (hlon : (num.stod (wayNode.value "lon")).isSome)
    (hid : wayNode.value "id" ∉ graph.names) :
    ∃ graph', readNode num centerLat centerLon graph wayNode = .ok graph' ∧
      graph'.names = graph.names ++ [wayNode.value "id"] ∧
      ∀ u v, graph'.toIGraph.Edge u v ↔ graph.toIGraph.Edge u v := by
  unfold readNode
  split
  · case h_1 id lat lon hid' hlat' hlon' =>
      rw [value_eq hlat'] at hlat
      rw [value_eq hlon'] at hlon
      rw [value_eq hid'] at hid ⊢
      obtain ⟨latitude, hlatitude⟩ := read_ok hlat
      obtain ⟨longitude, hlongitude⟩ := read_ok hlon
      obtain ⟨graph', hadd, hplaces, hedge⟩ := graph.addNode_ok
        ⟨getLon num latitude longitude centerLat centerLon, 264,
          -(latitude - centerLat) * 40008000 / 360⟩ hid
      refine ⟨graph', ?_, ?_, hedge⟩
      · rw [hlatitude, hlongitude]
        exact hadd
      · exact OSMGraph.names_append hplaces
  · case h_2 hnone =>
      simp only [hasFields, Bool.and_eq_true, Option.isSome_iff_exists] at h
      obtain ⟨⟨⟨id, hid'⟩, ⟨lat, hlat'⟩⟩, ⟨lon, hlon'⟩⟩ := h
      exact absurd hlon' (hnone id lat lon hid' hlat')

theorem readNodes_ok {doc : XmlDocument} (h : Parsable num doc) (hids : (parsedIds doc).Nodup) :
    ∃ graph, readNodes num doc = .ok graph ∧ graph.names = parsedIds doc ∧
      ∀ u v, ¬ graph.toIGraph.Edge u v := by
  obtain ⟨minlat, hminlat⟩ := read_ok (h.bounds "minlat" (by simp))
  obtain ⟨minlon, hminlon⟩ := read_ok (h.bounds "minlon" (by simp))
  obtain ⟨maxlat, hmaxlat⟩ := read_ok (h.bounds "maxlat" (by simp))
  obtain ⟨maxlon, hmaxlon⟩ := read_ok (h.bounds "maxlon" (by simp))
  have hloop := foldlM_invariant (l := doc.firstChild.childrenNamed "node")
    (f := readNode num (minlat + (maxlat - minlat) / 2) (minlon + (maxlon - minlon) / 2))
    (b := OSMGraph.empty)
    (fun done graph =>
      graph.names = (done.filter hasFields).map (fun wayNode => wayNode.value "id") ∧
        ∀ u v, ¬ graph.toIGraph.Edge u v)
    ⟨rfl, OSMGraph.edge_empty⟩ ?_
  · obtain ⟨graph, hfold, hgraph⟩ := hloop
    refine ⟨graph, ?_, hgraph⟩
    simp only [readNodes, hminlat, hminlon, hmaxlat, hmaxlon]
    exact hfold
  · intro done wayNode rest graph hsplit hgraph
    obtain ⟨hnames, hedges⟩ := hgraph
    cases hfields : hasFields wayNode with
    | false =>
        refine ⟨graph, readNode_skip hfields, ?_, hedges⟩
        simp [hnames, hfields]
    | true =>
        have hmem : wayNode ∈ wellFormedNodes doc := by
          refine List.mem_filter.mpr ⟨?_, hfields⟩
          rw [hsplit]
          exact List.mem_append_right _ List.mem_cons_self
        have hnew : wayNode.value "id" ∉ graph.names := by
          rw [hnames]
          intro hold
          rw [parsedIds, wellFormedNodes, hsplit, List.filter_append, List.map_append,
            List.nodup_append] at hids
          refine hids.2.2 _ hold (wayNode.value "id") ?_ rfl
          simp [hfields]
        obtain ⟨hlat, hlon⟩ := h.coordinates wayNode hmem
        obtain ⟨graph', hread, hnames', hedges'⟩ := readNode_ok hfields hlat hlon hnew
        refine ⟨graph', hread, ?_, ?_⟩
        · simp [hnames', hnames, hfields]
        · intro u v
          rw [hedges']
          exact hedges u v

end OsmParser

end UmnProjects.Osm
