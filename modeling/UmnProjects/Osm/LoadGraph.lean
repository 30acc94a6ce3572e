import UmnProjects.Osm.Adjacency
import UmnProjects.Osm.Filter
import UmnProjects.Osm.LargestComponent
import UmnProjects.Osm.ReadNodes
import UmnProjects.Routing.SearchInvariant
import Mathlib.Algebra.Order.Field.Rat

/-!
`LoadGraphFromFile` as a whole: the loaded graph is induced on a largest connected
component of the highway graph of the document, so the router finds a path between any
two of its nodes.
-/
namespace UmnProjects.Osm

open Tables Routing Components Relation

namespace GraphUtils

variable {P K : Type} {original : IGraph P K}

/-- The result of the filter on the component of `root`. -/
structure InducedOn (original : IGraph P K) (result : OSMGraph K) (root : String) : Prop where
  names : ∀ x, x ∈ result.names ↔ x ∈ component original.Edge root
  largest : ∀ other ∈ nodeNames original,
    (component original.Edge other).ncard ≤ (component original.Edge root).ncard
  edges : ∀ u v, result.toIGraph.Edge u v ↔
    u ∈ result.names ∧ v ∈ result.names ∧ original.Edge u v
  placed : ∀ p ∈ result.places, PlacedAs original p

theorem filterToLargestConnectedComponent_ok (hash : HashOrder) (hown : original.OwnsNodes)
    (hunique : UniqueNames original) (hthree : ThreeCoordinates original)
    (hsymm : ∀ x y, original.Edge x y → original.Edge y x) {a : String}
    (ha : a ∈ nodeNames original) {bound : ℕ} (hbound : (nodeNames original).card < bound) :
    ∃ result root, filterToLargestConnectedComponent hash original bound = .ok result ∧
      root ∈ nodeNames original ∧ InducedOn original result root := by
  obtain ⟨record, count, hrecord, hlabelled, hdomain⟩ :=
    connectedComponents_ok hown hunique hsymm hbound
  have hmarked : ∀ x ∈ nodeNames original, ∃ l, marks record x = some l :=
    fun x hx => Option.ne_none_iff_exists'.mp (marks_ne_none.mpr ((hdomain x).mpr hx))
  obtain ⟨la, hla⟩ := hmarked a ha
  obtain ⟨l, root, hargmax, hroot, hmost⟩ := argmax_countValueOccurrences hash hla
  have hcomponent := hlabelled.component_eq hroot
  have hdefined : ∀ x, x ∈ whereEqual hash record l ↔ x ∈ nodeNames original := by
    intro x
    rw [← hdomain, ← AList.lookup_isSome, Option.isSome_iff_exists, ← marks_ne_none,
      Option.ne_none_iff_exists']
    constructor
    · intro h
      obtain ⟨b, hb⟩ := h
      obtain ⟨l', hl', _⟩ := (lookup_whereEqual hash record l).mp hb
      exact ⟨l', hl'⟩
    · intro h
      obtain ⟨l', hl'⟩ := h
      exact ⟨_, (lookup_whereEqual hash record l).mpr ⟨l', hl', rfl⟩⟩
  obtain ⟨result, hfilter, hnames, hedges, hplaced⟩ :=
    filter_ok hash hown hunique hthree hdefined
  refine ⟨result, root, ?_, ?_, ?_, ?_, hedges, hplaced⟩
  · simp only [filterToLargestConnectedComponent, hrecord]
    change (argmax hash (countValueOccurrences hash record) >>= fun l =>
      filter hash original (whereEqual hash record l)) = .ok result
    rw [hargmax]
    exact hfilter
  · exact (hdomain root).mp (marks_ne_none.mp (by rw [hroot]; exact Option.some_ne_none l))
  · intro x
    rw [hnames, hcomponent, lookup_whereEqual]
    simp
  · intro other hother
    obtain ⟨l', hl'⟩ := hmarked other hother
    rw [hlabelled.component_eq hl', hcomponent]
    exact hmost other l' hl'

end GraphUtils

namespace OSMGraph

variable {K : Type} (graph : OSMGraph K)

theorem toIGraph_uniqueNames : GraphUtils.UniqueNames graph.toIGraph := by
  intro i hi
  have hlt : i < graph.nodes.length := List.mem_range.mp hi
  refine graph.lookup_eq_some.mpr ?_
  simp [toIGraph, names, hlt]

theorem toIGraph_threeCoordinates : GraphUtils.ThreeCoordinates graph.toIGraph := by
  intro i hi
  have hlt : i < graph.nodes.length := List.mem_range.mp hi
  refine ⟨graph.nodes[i].loc.x, graph.nodes[i].loc.y, graph.nodes[i].loc.z, [], ?_⟩
  simp [toIGraph, hlt, Point3.toVec]

theorem mem_nodeNames_toIGraph {x : String} :
    x ∈ GraphUtils.nodeNames graph.toIGraph ↔ x ∈ graph.names := by
  rw [GraphUtils.nodeNames, List.mem_toFinset, List.mem_map, List.mem_iff_getElem?]
  constructor
  · intro h
    obtain ⟨i, hi, hname⟩ := h
    have hlt : i < graph.nodes.length := List.mem_range.mp hi
    refine ⟨i, ?_⟩
    simpa [toIGraph, names, hlt] using hname
  · intro h
    obtain ⟨i, hi⟩ := h
    obtain ⟨hlt, hname⟩ := List.getElem?_eq_some_iff.mp hi
    rw [names, List.length_map] at hlt
    refine ⟨i, List.mem_range.mpr hlt, ?_⟩
    simpa [toIGraph, names, hlt] using hname

/-- Positions are read off the places. -/
theorem positionOf_eq_of_places {other : OSMGraph K} (h : graph.places = other.places)
    {x : String} (hx : x ∈ other.names) :
    graph.toIGraph.positionOf x = other.toIGraph.positionOf x := by
  rw [← other.places_fst] at hx
  obtain ⟨⟨name, loc⟩, hmem, hname⟩ := List.mem_map.mp hx
  have heq : x = name := hname.symm
  rw [heq, other.positionOf_eq hmem, graph.positionOf_eq (h ▸ hmem)]

/-- A node that is placed as another graph has it has the same position there. -/
theorem positionOf_eq_of_placedAs {original : OSMGraph K}
    (h : ∀ p ∈ graph.places, GraphUtils.PlacedAs original.toIGraph p) {x : String}
    (hx : x ∈ graph.names) (hx' : x ∈ original.names) :
    graph.toIGraph.positionOf x = original.toIGraph.positionOf x := by
  rw [← graph.places_fst] at hx
  obtain ⟨⟨name, loc⟩, hmem, hname⟩ := List.mem_map.mp hx
  rw [← original.places_fst] at hx'
  obtain ⟨⟨name', loc'⟩, hmem', hname'⟩ := List.mem_map.mp hx'
  have hsame : name' = name := hname'.trans hname.symm
  have heq : x = name := hname.symm
  subst hsame heq
  obtain ⟨rest, hrest⟩ := h _ hmem
  rw [graph.positionOf_eq hmem]
  rw [original.positionOf_eq hmem'] at hrest ⊢
  have hlength := congrArg List.length hrest
  simp only [Point3.toVec, List.length_append, List.length_cons, List.length_nil] at hlength
  have hnil : rest = [] := List.eq_nil_of_length_eq_zero (by omega)
  rw [hrest, hnil, List.append_nil]

end OSMGraph

namespace OsmParser

/-- The edges of the highway graph of a document. -/
def ParsedEdge (doc : XmlDocument) (u v : String) : Prop :=
  u ∈ parsedIds doc ∧ v ∈ parsedIds doc ∧ HighwayAdjacent doc u v

theorem ParsedEdge.symm {doc : XmlDocument} {u v : String} (h : ParsedEdge doc u v) :
    ParsedEdge doc v u := ⟨h.2.1, h.1, h.2.2.symm⟩

theorem mem_parsedIds_of_component {doc : XmlDocument} {root x : String}
    (hroot : root ∈ parsedIds doc) (hx : x ∈ component (ParsedEdge doc) root) :
    x ∈ parsedIds doc := by
  obtain heq | ⟨y, _, hedge⟩ := ReflTransGen.cases_tail hx
  · exact heq ▸ hroot
  · exact hedge.2.1

/-- What is promised of the loaded graph. -/
structure LoadedFrom {K : Type} [Field K] [LinearOrder K] (num : Numerals K) (doc : XmlDocument)
    (graph : OSMGraph K) : Prop where
  symmetric : ∀ u v, graph.toIGraph.Edge u v → graph.toIGraph.Edge v u
  component : ∃ root ∈ parsedIds doc,
    (∀ x, x ∈ graph.names ↔ x ∈ component (ParsedEdge doc) root) ∧
      ∀ other ∈ parsedIds doc, (component (ParsedEdge doc) other).ncard ≤
        (component (ParsedEdge doc) root).ncard
  induced : ∀ u v, graph.toIGraph.Edge u v ↔
    u ∈ graph.names ∧ v ∈ graph.names ∧ ParsedEdge doc u v
  placed : ∃ parsed, readNodes num doc = .ok parsed ∧ parsed.names = parsedIds doc ∧
    ∀ x ∈ graph.names, graph.toIGraph.positionOf x = parsed.toIGraph.positionOf x
  routed : ∀ source ∈ graph.names, ∀ target ∈ graph.names, ∀ strategy : AStar K,
    ∃ terminal, strategy.AlwaysReturns graph.toIGraph source target terminal

/-- A path of the highway graph that starts in the component stays in the loaded graph. -/
theorem reachable_of_component {K : Type} {doc : XmlDocument} {graph : OSMGraph K}
    {root x : String}
    (hnames : ∀ x, x ∈ graph.names ↔ x ∈ component (ParsedEdge doc) root)
    (hedges : ∀ u v, graph.toIGraph.Edge u v ↔
      u ∈ graph.names ∧ v ∈ graph.names ∧ ParsedEdge doc u v)
    (hx : ReflTransGen (ParsedEdge doc) root x) : graph.toIGraph.Reachable root x := by
  induction hx with
  | refl => exact .refl
  | tail hreach hedge ih =>
      refine .tail ih ((hedges _ _).mpr ⟨?_, ?_, hedge⟩)
      · exact (hnames _).mpr hreach
      · exact (hnames _).mpr (.tail hreach hedge)

section Loading

variable {K : Type} [Field K] {num : Numerals K} {doc : XmlDocument}

/-- The graph before it is filtered is the highway graph. -/
theorem highwayGraph_ok (hash : HashOrder) (hparse : Parsable num doc)
    (hids : (parsedIds doc).Nodup)
    (hways : ((highwayElements doc).map (fun wayNode => wayNode.value "id")).Nodup) :
    ∃ parsed geazy, readNodes num doc = .ok parsed ∧
      readAdjacenciesTo hash parsed doc = .ok geazy ∧ parsed.names = parsedIds doc ∧
      geazy.places = parsed.places ∧ geazy.toIGraph.Edge = ParsedEdge doc := by
  obtain ⟨parsed, hread, hnames, hnoEdge⟩ := readNodes_ok hparse hids
  obtain ⟨geazy, hadjacencies, hplaces, hedges⟩ := readAdjacenciesTo_ok parsed hash hways
  refine ⟨parsed, geazy, hread, hadjacencies, hnames, hplaces, ?_⟩
  funext u v
  rw [eq_iff_iff, hedges, hnames, ParsedEdge]
  exact or_iff_right (hnoEdge u v)

/-- Every bound above the number of parsed nodes is enough for the recursion. -/
theorem loadGraphFromFile_loadedFrom [LinearOrder K] (hash : HashOrder)
    (hparse : Parsable num doc) (hids : (parsedIds doc).Nodup)
    (hways : ((highwayElements doc).map (fun wayNode => wayNode.value "id")).Nodup)
    (hnode : parsedIds doc ≠ []) (bound : ℕ) (hbound : (parsedIds doc).length < bound) :
    ∃ graph, loadGraphFromFile num hash bound doc = .ok graph ∧ LoadedFrom num doc graph := by
  obtain ⟨parsed, geazy, hread, hadjacencies, hparsed, hplaces, hedge⟩ :=
    highwayGraph_ok hash hparse hids hways
  have hsame : geazy.names = parsed.names := by
    rw [← geazy.places_fst, hplaces, parsed.places_fst]
  have hnodes : ∀ x, x ∈ GraphUtils.nodeNames geazy.toIGraph ↔ x ∈ parsedIds doc := by
    intro x
    rw [geazy.mem_nodeNames_toIGraph, hsame, hparsed]
  have hcard : (GraphUtils.nodeNames geazy.toIGraph).card < bound := by
    have heq : GraphUtils.nodeNames geazy.toIGraph = (parsedIds doc).toFinset := by
      ext x
      rw [hnodes, List.mem_toFinset]
    rw [heq, List.toFinset_card_of_nodup hids]
    exact hbound
  obtain ⟨a, ha⟩ := List.exists_mem_of_ne_nil _ hnode
  obtain ⟨graph, root, hfilter, hroot, hresult⟩ :=
    GraphUtils.filterToLargestConnectedComponent_ok hash geazy.toIGraph_ownsNodes
      geazy.toIGraph_uniqueNames geazy.toIGraph_threeCoordinates
      (by rw [hedge]; exact fun _ _ h => h.symm) ((hnodes a).mpr ha) hcard
  obtain ⟨hnames, hlargest, hedges, hplaced⟩ := hresult
  rw [hedge] at hnames hlargest hedges
  have hroot' := (hnodes root).mp hroot
  have hsymm : ∀ u v, graph.toIGraph.Edge u v → graph.toIGraph.Edge v u := by
    intro u v h
    obtain ⟨hu, hv, huv⟩ := (hedges u v).mp h
    exact (hedges v u).mpr ⟨hv, hu, huv.symm⟩
  refine ⟨graph, ?_, hsymm, ⟨root, hroot', hnames, ?_⟩, hedges, ⟨parsed, hread, hparsed, ?_⟩, ?_⟩
  · simp only [loadGraphFromFile, hread]
    change (readAdjacenciesTo hash parsed doc >>= fun geazy =>
      GraphUtils.filterToLargestConnectedComponent hash geazy.toIGraph bound) = .ok graph
    rw [hadjacencies]
    exact hfilter
  · intro other hother
    exact hlargest other ((hnodes other).mpr hother)
  · intro x hx
    have hx' : x ∈ parsedIds doc := mem_parsedIds_of_component hroot' ((hnames x).mp hx)
    rw [← geazy.positionOf_eq_of_places hplaces (by rw [hparsed]; exact hx')]
    exact graph.positionOf_eq_of_placedAs hplaced hx (by rw [hsame, hparsed]; exact hx')
  · intro source hsource target htarget strategy
    have hback := reachable_of_component hnames hedges ((hnames source).mp hsource)
    have hforth := reachable_of_component hnames hedges ((hnames target).mp htarget)
    obtain ⟨start, hstart⟩ := Option.isSome_iff_exists.mp (graph.contains_iff.mpr hsource)
    obtain ⟨terminal, hterminal⟩ := Option.isSome_iff_exists.mp (graph.contains_iff.mpr htarget)
    exact ⟨terminal, AStar.alwaysReturns strategy graph.toIGraph_ownsNodes.finiteNodes hstart
      hterminal ((reaches_symm hsymm hback).trans hforth)⟩

end Loading

section Crossing

/-- The numbers that occur in the document below; its centre has latitude zero. -/
def wholeNumerals : Numerals ℚ where
  stod text :=
    if text = "0" then some 0 else if text = "1" then some 1
    else if text = "-1" then some (-1) else none
  cos _ := 1

def nodeElement (id lat lon : String) : XmlNode :=
  .mk "node" [("id", id), ("lat", lat), ("lon", lon)] []

def nd (ref : String) : XmlNode := .mk "nd" [("ref", ref)] []

def highwayTag : XmlNode := .mk "tag" [("k", "highway"), ("v", "residential")] []

/-- A highway that leaves the document at `x`, a path that is no highway, and a node
without coordinates. -/
def crossing : XmlDocument where
  children := [.mk "osm" [] [
    .mk "bounds" [("minlat", "-1"), ("minlon", "-1"), ("maxlat", "1"), ("maxlon", "1")] [],
    nodeElement "c" "0" "0", nodeElement "a" "0" "1", nodeElement "b" "1" "0",
    .mk "node" [("id", "e")] [],
    .mk "way" [("id", "w1")] [nd "a", nd "b", nd "x", highwayTag],
    .mk "way" [("id", "w2")] [nd "c", nd "a"]]]

theorem crossing_parsable : Parsable wholeNumerals crossing := by
  refine ⟨?_, ?_⟩ <;> decide

theorem loadGraphFromFile_loadedFrom_crossing :
    (∃ graph, loadGraphFromFile wholeNumerals .insertion 4 crossing = .ok graph ∧
      LoadedFrom wholeNumerals crossing graph) ∧ parsedIds crossing = ["c", "a", "b"] ∧
      (loadGraphFromFile wholeNumerals .insertion 4 crossing).toOption.map OSMGraph.names =
        some ["a", "b"] :=
  ⟨loadGraphFromFile_loadedFrom .insertion crossing_parsable (by decide) (by decide) (by decide)
    4 (by decide), by decide, rfl⟩

end Crossing

end OsmParser

end UmnProjects.Osm
