import UmnProjects.Osm.LoadGraph
import UmnProjects.Routing.PositionPaths

/-!
Routes over loaded maps: what `GetPath` answers on the graph of a document, told in the highways
of this document.
-/
namespace UmnProjects.Osm

open Tables Routing Runs Components Relation BestFirst OsmParser

/-! ### The graph of a map as the router asks it -/

/-- `GetNode` answers for every name. -/
def OSMGraph.toRoutingGraph {K : Type} (graph : OSMGraph K) : RoutingGraph Nat K where
  toIGraph := graph.toIGraph
  answers _ := true
  finite := graph.toIGraph_ownsNodes.finiteNodes
  found := fun _ => rfl
  neighbors := fun _ _ _ => rfl

theorem OSMGraph.sameDimension {K : Type} (graph : OSMGraph K) : graph.toIGraph.SameDimension := by
  refine ⟨3, fun {name p} hp => ?_⟩
  have hlt := List.mem_range.mp (graph.toIGraph_ownsNodes.listed hp)
  simp [toIGraph, hlt, Point3.toVec]

/-- The nearest of a list of places, told by their names. -/
theorem firstLeast_map {P Q D : Type} [LinearOrder D] {f : Q → D} {f' : P → D} {g : P → Q}
    {nodes : List P} {node : P} (hsame : ∀ p ∈ nodes, f (g p) = f' p)
    (h : FirstLeast f' nodes node) : FirstLeast f (nodes.map g) (g node) := by
  obtain ⟨before, after, rfl, hbefore, hafter⟩ := h
  have hnode := hsame node (by simp)
  refine ⟨before.map g, after.map g, by simp, ?_, ?_⟩
  · refine List.forall_mem_map.mpr fun p hp => ?_
    rw [hnode, hsame p (by simp [hp])]
    exact hbefore p hp
  · refine List.forall_mem_map.mpr fun p hp => ?_
    rw [hnode, hsame p (by simp [hp])]
    exact hafter p hp

section Maps

variable {K : Type} {doc : XmlDocument}

/-- The loaded graph, as its routes depend on it. -/
structure MapOf (doc : XmlDocument) (parsed graph : OSMGraph K) : Prop where
  connected : ∀ x ∈ graph.names, ∀ y ∈ graph.names, graph.toIGraph.Reachable x y
  edges : ∀ u v, u ∈ graph.names → (graph.toIGraph.Edge u v ↔ ParsedEdge doc u v)
  closed : ∀ u v, u ∈ graph.names → ParsedEdge doc u v → v ∈ graph.names
  placed : ∀ x ∈ graph.names, graph.toIGraph.positionOf x = parsed.toIGraph.positionOf x

theorem loadGraphFromFile_mapOf [Field K] {num : Numerals K} (hash : HashOrder)
    (hparse : Parsable num doc) (hids : (parsedIds doc).Nodup)
    (hways : ((highwayElements doc).map (fun wayNode => wayNode.value "id")).Nodup)
    (hnode : parsedIds doc ≠ []) (bound : ℕ) (hbound : (parsedIds doc).length < bound) :
    ∃ parsed graph, readNodes num doc = .ok parsed ∧
      loadGraphFromFile num hash bound doc = .ok graph ∧ graph.names ≠ [] ∧
        MapOf doc parsed graph := by
  obtain ⟨parsed, geazy, hread, hadjacencies, hparsed, hplaces, hedge⟩ :=
    highwayGraph_ok hash hparse hids hways
  have hsame : geazy.names = parsed.names := by
    rw [← geazy.places_fst, hplaces, parsed.places_fst]
  have hnodes : ∀ x, x ∈ GraphUtils.nodeNames geazy.toIGraph ↔ x ∈ parsedIds doc := by
    intro x
    rw [geazy.mem_nodeNames_toIGraph, hsame, hparsed]
  have hcard : (GraphUtils.nodeNames geazy.toIGraph).card < bound := by
    have heq : GraphUtils.nodeNames geazy.toIGraph = (parsedIds doc).toFinset := by
      ext x
      rw [hnodes, List.mem_toFinset]
    rw [heq, List.toFinset_card_of_nodup hids]
    exact hbound
  obtain ⟨a, ha⟩ := List.exists_mem_of_ne_nil _ hnode
  obtain ⟨graph, root, hfilter, hroot, hresult⟩ :=
    GraphUtils.filterToLargestConnectedComponent_ok hash geazy.toIGraph_ownsNodes
      geazy.toIGraph_uniqueNames geazy.toIGraph_threeCoordinates
      (by rw [hedge]; exact fun _ _ h => h.symm) ((hnodes a).mpr ha) hcard
  obtain ⟨hnames, -, hedges, hplaced⟩ := hresult
  rw [hedge] at hnames hedges
  have hroot' := (hnodes root).mp hroot
  have hids' : ∀ x, x ∈ graph.names → x ∈ parsedIds doc :=
    fun x hx => mem_parsedIds_of_component hroot' ((hnames x).mp hx)
  have hsymm : ∀ u v, graph.toIGraph.Edge u v → graph.toIGraph.Edge v u := by
    intro u v h
    obtain ⟨hu, hv, huv⟩ := (hedges u v).mp h
    exact (hedges v u).mpr ⟨hv, hu, huv.symm⟩
  have hclosed : ∀ u v, u ∈ graph.names → ParsedEdge doc u v → v ∈ graph.names :=
    fun u v hu huv => (hnames v).mpr (((hnames u).mp hu).tail huv)
  refine ⟨parsed, graph, hread, ?_, ?_, ?_, ?_, hclosed, ?_⟩
  · simp only [loadGraphFromFile, hread]
    change (readAdjacenciesTo hash parsed doc >>= fun geazy =>
      GraphUtils.filterToLargestConnectedComponent hash geazy.toIGraph bound) = .ok graph
    rw [hadjacencies]
    exact hfilter
  · exact List.ne_nil_of_mem ((hnames root).mpr .refl)
  · intro x hx y hy
    have hback := reachable_of_component hnames hedges ((hnames x).mp hx)
    have hforth := reachable_of_component hnames hedges ((hnames y).mp hy)
    exact (reaches_symm hsymm hback).trans hforth
  · intro u v hu
    rw [hedges]
    exact ⟨fun h => h.2.2, fun h => ⟨hu, hclosed u v hu h, h⟩⟩
  · intro x hx
    rw [← geazy.positionOf_eq_of_places hplaces (by rw [hparsed]; exact hids' x hx)]
    exact graph.positionOf_eq_of_placedAs hplaced hx (by rw [hsame, hparsed]; exact hids' x hx)

/-! ### Walks -/

variable {parsed graph : OSMGraph K} {source target : String} {path : List String}

theorem MapOf.mem_of_walk (h : MapOf doc parsed graph) (hsource : source ∈ graph.names)
    (hwalk : IsWalk (ParsedEdge doc) source target path) : ∀ x ∈ path, x ∈ graph.names := by
  induction path generalizing source with
  | nil => simp
  | cons x path ih =>
      obtain ⟨heq, -⟩ | ⟨y, rest, heq, hedge, hrest⟩ := hwalk.cases_cons
      · rw [heq]
        exact List.forall_mem_singleton.mpr hsource
      · obtain ⟨rfl, rfl⟩ := List.cons.inj heq
        exact List.forall_mem_cons.mpr ⟨hsource, ih (h.closed _ _ hsource hedge) hrest⟩

/-- The walks of the loaded graph from one of its nodes are those of the highways. -/
theorem MapOf.walk_iff (h : MapOf doc parsed graph) (hsource : source ∈ graph.names) :
    IsWalk graph.toIGraph.Edge source target path ↔
      IsWalk (ParsedEdge doc) source target path := by
  induction path generalizing source with
  | nil => exact ⟨fun hwalk => ⟨hwalk.head, hwalk.last, .nil⟩,
      fun hwalk => ⟨hwalk.head, hwalk.last, .nil⟩⟩
  | cons x path ih =>
      constructor
      · intro hwalk
        obtain ⟨heq, rfl⟩ | ⟨y, rest, heq, hedge, hrest⟩ := hwalk.cases_cons
        · rw [heq]
          exact .single _
        · obtain ⟨rfl, rfl⟩ := List.cons.inj heq
          have hparsed := (h.edges _ _ hsource).mp hedge
          exact .cons hparsed ((ih (h.closed _ _ hsource hparsed)).mp hrest)
      · intro hwalk
        obtain ⟨heq, rfl⟩ | ⟨y, rest, heq, hedge, hrest⟩ := hwalk.cases_cons
        · rw [heq]
          exact .single _
        · obtain ⟨rfl, rfl⟩ := List.cons.inj heq
          exact .cons ((h.edges _ _ hsource).mpr hedge)
            ((ih (h.closed _ _ hsource hedge)).mpr hrest)

end Maps

/-! ### Routes -/

section Routes

variable {doc : XmlDocument} {parsed graph : OSMGraph ℝ}

/-- The way along highways from one place to another, with the ends twice, and no way along
highways between them is shorter. -/
structure ShortestRoute (doc : XmlDocument) (place : String → List ℝ) (source target : String)
    (positions : List (List ℝ)) : Prop where
  route : ∃ path, IsWalk (ParsedEdge doc) source target path ∧
    positions = place source :: path.map place ++ [place target] ∧
    ∀ walk, IsWalk (ParsedEdge doc) source target walk →
      walkCost (euclideanDistance Real.sqrt) (path.map place) ≤
        walkCost (euclideanDistance Real.sqrt) (walk.map place)

/-- The node that a point is moved to. -/
def Nearest (graph : OSMGraph ℝ) (place : String → List ℝ) (point : List ℝ) (name : String) :
    Prop :=
  FirstLeast (fun name => euclideanDistance Real.sqrt (place name) point) graph.names name

theorem names_eq_map (graph : OSMGraph ℝ) :
    graph.names = (List.range graph.nodes.length).map graph.toIGraph.getName := by
  apply List.ext_getElem
  · simp [OSMGraph.names]
  · intro i hi hi'
    have hlt : i < graph.nodes.length := by simpa [OSMGraph.names] using hi
    simp [OSMGraph.names, OSMGraph.toIGraph, hlt]

theorem exists_nearest (h : MapOf doc parsed graph) (hnodes : graph.names ≠ [])
    (point : List ℝ) : ∃ i, graph.toRoutingGraph.nearestNode ⊤ belowInfinity point = some i ∧
      graph.toIGraph.getNode (graph.toIGraph.getName i) = some i ∧
      graph.toIGraph.getName i ∈ graph.names ∧
      Nearest graph parsed.toIGraph.positionOf point (graph.toIGraph.getName i) := by
  have hsome : graph.toRoutingGraph.getNodes ≠ [] := by
    intro hnil
    have hrange : List.range graph.nodes.length = [] := hnil
    rw [names_eq_map, hrange] at hnodes
    exact hnodes rfl
  obtain ⟨i, hnearest, hfirst⟩ := RoutingGraph.nearestNode_firstLeast
    (euclideanDistance Real.sqrt) point hsome
  have hfound (j : ℕ) (hj : j ∈ List.range graph.nodes.length) :
      graph.toIGraph.getNode (graph.toIGraph.getName j) = some j :=
    graph.toIGraph_uniqueNames j hj
  have hnamed (j : ℕ) (hj : j ∈ List.range graph.nodes.length) :
      graph.toIGraph.getName j ∈ graph.names := by
    rw [names_eq_map]
    exact List.mem_map_of_mem hj
  refine ⟨i, hnearest, hfound i hfirst.mem, hnamed i hfirst.mem, ?_⟩
  rw [Nearest, names_eq_map]
  refine firstLeast_map (fun j hj => ?_) hfirst
  rw [← h.placed _ (hnamed j hj), IGraph.positionOf_eq (hfound j hj)]
  rfl

/-- What the search for a shortest path makes of a map. -/
theorem shortestRoute_of_walk (h : MapOf doc parsed graph) {startNode endNode : ℕ}
    (hstart : graph.toIGraph.getNode (graph.toIGraph.getName startNode) = some startNode)
    (hend : graph.toIGraph.getNode (graph.toIGraph.getName endNode) = some endNode)
    (hsource : graph.toIGraph.getName startNode ∈ graph.names) {path : List String}
    (hwalk : IsWalk graph.toIGraph.Edge (graph.toIGraph.getName startNode)
      (graph.toIGraph.getName endNode) path)
    (hleast : ∀ walk, IsWalk graph.toIGraph.Edge (graph.toIGraph.getName startNode)
      (graph.toIGraph.getName endNode) walk →
        walkCost (edgeLength graph.toIGraph) path ≤ walkCost (edgeLength graph.toIGraph) walk) :
    ShortestRoute doc parsed.toIGraph.positionOf (graph.toIGraph.getName startNode)
      (graph.toIGraph.getName endNode)
      (graph.toIGraph.getPosition startNode :: path.map graph.toIGraph.positionOf ++
        [graph.toIGraph.getPosition endNode]) := by
  have hparsed := (h.walk_iff hsource).mp hwalk
  have hplaced {walk : List String} (hwalk : IsWalk (ParsedEdge doc)
      (graph.toIGraph.getName startNode) (graph.toIGraph.getName endNode) walk) :
      walk.map graph.toIGraph.positionOf = walk.map parsed.toIGraph.positionOf :=
    List.map_congr_left fun x hx => h.placed x (h.mem_of_walk hsource hwalk x hx)
  have htarget : graph.toIGraph.getName endNode ∈ graph.names :=
    h.mem_of_walk hsource hparsed _ (List.mem_of_getLast? hparsed.last)
  refine ⟨path, hparsed, ?_, ?_⟩
  · rw [hplaced hparsed, ← h.placed _ hsource, ← h.placed _ htarget,
      IGraph.positionOf_eq hstart, IGraph.positionOf_eq hend]
  · intro walk hwalk'
    have hless := hleast walk ((h.walk_iff hsource).mpr hwalk')
    rw [← hplaced hparsed, ← hplaced hwalk', walkCost_map, walkCost_map]
    exact hless

/-- Every request for a route over a loaded map, with either strategy and for any two points,
ends, and can only end with the places along a shortest way over the highways of the document
between the nodes of the map that are nearest to the points. -/
theorem map_routes (num : Numerals ℝ) (hash : HashOrder) (hparse : Parsable num doc)
    (hids : (parsedIds doc).Nodup)
    (hways : ((highwayElements doc).map (fun wayNode => wayNode.value "id")).Nodup)
    (hnode : parsedIds doc ≠ []) (bound : ℕ) (hbound : (parsedIds doc).length < bound) :
    ∃ parsed graph, readNodes num doc = .ok parsed ∧
      loadGraphFromFile num hash bound doc = .ok graph ∧
      ∀ strategy : AStar ℝ, strategy = AStar.default Real.sqrt ∨ strategy = Dijkstra Real.sqrt →
        ∀ src dest : List ℝ, ∃ source target,
          Nearest graph parsed.toIGraph.positionOf src source ∧
          Nearest graph parsed.toIGraph.positionOf dest target ∧
          (∃ loop, strategy.loop graph.toIGraph source target = .ok loop ∧
            Terminates loop.step loop.initial) ∧
          ∀ ending, graph.toRoutingGraph.PathEnds ⊤ belowInfinity
            (fun source target => graph.toRoutingGraph.Ends source target
              (strategy.loop graph.toIGraph source target)) src dest ending →
            ∃ positions, ending = .returned positions ∧
              ShortestRoute doc parsed.toIGraph.positionOf source target positions := by
  obtain ⟨parsed, graph, hread, hload, hnodes, hmap⟩ :=
    loadGraphFromFile_mapOf hash hparse hids hways hnode bound hbound
  refine ⟨parsed, graph, hread, hload, fun strategy hstrategy src dest => ?_⟩
  have hown := graph.toIGraph_ownsNodes
  obtain ⟨startNode, hnearest, hstart, hsource, hfirst⟩ := exists_nearest hmap hnodes src
  obtain ⟨endNode, hnearest', hend, htarget, hfirst'⟩ := exists_nearest hmap hnodes dest
  have hcons : Consistent graph.toIGraph.Edge (strategy.edgeCost graph.toIGraph)
      (strategy.estimateOf graph.toIGraph endNode) := by
    obtain rfl | rfl := hstrategy
    · exact consistent_default hown graph.sameDimension hend
    · exact consistent_dijkstra graph.toIGraph endNode
  have hcost : strategy.edgeCost graph.toIGraph = edgeLength graph.toIGraph := by
    obtain rfl | rfl := hstrategy <;> rfl
  have hsearch := AStar.shortestPathSearch hown hstart hend hcons
  refine ⟨_, _, hfirst, hfirst', ⟨_, by rw [AStar.loop, hsearch.enters],
    hsearch.terminates⟩, ?_⟩
  intro ending hends
  cases hends with
  | noNode hnone =>
      obtain hnone | hnone := hnone
      · cases hnearest.symm.trans hnone
      · cases hnearest'.symm.trans hnone
  | search hs he hpathing =>
      cases hnearest.symm.trans hs
      cases hnearest'.symm.trans he
      obtain ⟨path, rfl, hwalk, hleast⟩ := AStar.ends_shortest
        hown hstart hend hcons (hmap.connected _ hsource _ htarget) hpathing
      have hfound : ∀ u ∈ path, (graph.toRoutingGraph.getNode u).isSome :=
        IGraph.isSome_of_walk hwalk (Option.isSome_iff_exists.mpr ⟨_, hend⟩)
      have hleast' : ∀ walk, IsWalk graph.toIGraph.Edge (graph.toIGraph.getName startNode)
          (graph.toIGraph.getName endNode) walk →
          walkCost (edgeLength graph.toIGraph) path ≤
            walkCost (edgeLength graph.toIGraph) walk := by
        rw [← hcost]
        exact hleast
      refine ⟨_, ?_, shortestRoute_of_walk hmap hstart hend hsource hwalk hleast'⟩
      rw [RoutingGraph.rebuild, RoutingGraph.positionPath_eq hfound]
      rfl

end Routes

/-! ### Routes over a small map -/

/-- The numbers of the crossing, in any field. -/
def signNumerals (K : Type) [Zero K] [One K] [Neg K] : Numerals K where
  stod text :=
    if text = "0" then some 0 else if text = "1" then some 1
    else if text = "-1" then some (-1) else none
  cos _ := 1

section Crossing

variable {parsed graph : OSMGraph ℝ} {name : String}

theorem crossing_names
    (hload : loadGraphFromFile (signNumerals ℝ) .insertion 4 crossing = .ok graph) :
    graph.names = ["a", "b"] := by
  have hnames : (loadGraphFromFile (signNumerals ℝ) .insertion 4 crossing).toOption.map
      OSMGraph.names = some ["a", "b"] := rfl
  rw [hload] at hnames
  exact Option.some.inj hnames

/-- The ends of its road, one degree to the east and one to the north of its middle. -/
theorem crossing_places (hread : readNodes (signNumerals ℝ) crossing = .ok parsed) :
    parsed.toIGraph.positionOf "a" = [((1001879 : ℕ) : ℝ) / (9 : ℕ), (264 : ℕ), 0] ∧
      parsed.toIGraph.positionOf "b" = [(0 : ℝ), (264 : ℕ), -(((333400 : ℕ) : ℝ) / (3 : ℕ))] := by
  have hplaces : (readNodes (signNumerals ℝ) crossing).toOption.map
      (fun parsed => (parsed.toIGraph.positionOf "a", parsed.toIGraph.positionOf "b")) =
        some ([_, _, _], [_, _, _]) := rfl
  rw [hread] at hplaces
  obtain ⟨ha, hb⟩ := Prod.mk.inj (Option.some.inj hplaces)
  rw [ha, hb]
  norm_num [getLon, asRadians, signNumerals]

theorem crossing_nearest_east
    (hload : loadGraphFromFile (signNumerals ℝ) .insertion 4 crossing = .ok graph)
    (hread : readNodes (signNumerals ℝ) crossing = .ok parsed)
    (h : Nearest graph parsed.toIGraph.positionOf [(100000 : ℕ), 0, 0] name) : name = "a" := by
  obtain ⟨ha, hb⟩ := crossing_places hread
  rw [Nearest, crossing_names hload] at h
  refine h.eq_of_forall_lt List.mem_cons_self fun other hother hne => ?_
  obtain rfl : other = "b" := by simpa [hne] using hother
  rw [ha, hb]
  exact Real.sqrt_lt_sqrt (by norm_num [sumOfSquares]) (by norm_num [sumOfSquares])

theorem crossing_nearest_north
    (hload : loadGraphFromFile (signNumerals ℝ) .insertion 4 crossing = .ok graph)
    (hread : readNodes (signNumerals ℝ) crossing = .ok parsed)
    (h : Nearest graph parsed.toIGraph.positionOf [0, 0, -((100000 : ℕ) : ℝ)] name) :
    name = "b" := by
  obtain ⟨ha, hb⟩ := crossing_places hread
  rw [Nearest, crossing_names hload] at h
  refine h.eq_of_forall_lt (by simp) fun other hother hne => ?_
  obtain rfl : other = "a" := by simpa [hne] using hother
  rw [ha, hb]
  exact Real.sqrt_lt_sqrt (by norm_num [sumOfSquares]) (by norm_num [sumOfSquares])

theorem map_routes_crossing :
    ∃ parsed graph, readNodes (signNumerals ℝ) crossing = .ok parsed ∧
      loadGraphFromFile (signNumerals ℝ) .insertion 4 crossing = .ok graph ∧
      (∃ loop, (AStar.default Real.sqrt).loop graph.toIGraph "b" "a" = .ok loop ∧
        Terminates loop.step loop.initial) ∧
      ∀ ending, graph.toRoutingGraph.PathEnds ⊤ belowInfinity
        (fun source target => graph.toRoutingGraph.Ends source target
          ((AStar.default Real.sqrt).loop graph.toIGraph source target))
        [0, 0, -((100000 : ℕ) : ℝ)] [((100000 : ℕ) : ℝ), 0, 0] ending →
        ∃ positions, ending = .returned positions ∧
          ShortestRoute crossing parsed.toIGraph.positionOf "b" "a" positions := by
  have hparse : Parsable (signNumerals ℝ) crossing := by
    refine ⟨?_, ?_⟩ <;> decide
  obtain ⟨parsed, graph, hread, hload, hroutes⟩ := map_routes (signNumerals ℝ) .insertion hparse
    (by decide) (by decide) (by decide) 4 (by decide)
  obtain ⟨source, target, hsource, htarget, hends⟩ := hroutes (AStar.default Real.sqrt)
    (.inl rfl) [0, 0, -((100000 : ℕ) : ℝ)] [((100000 : ℕ) : ℝ), 0, 0]
  obtain rfl := crossing_nearest_north hload hread hsource
  obtain rfl := crossing_nearest_east hload hread htarget
  exact ⟨parsed, graph, hread, hload, hends⟩

end Crossing

end UmnProjects.Osm
