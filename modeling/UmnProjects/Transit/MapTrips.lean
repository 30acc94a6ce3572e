import UmnProjects.Osm.MapRoutes
import UmnProjects.Routing.Endings
import UmnProjects.Transit.Deliveries

/-!
Trips over a map, from its document to the robots that were brought away. The simulation asks the
router for its routes, the router answers on the graph that was loaded from the document.
-/
namespace UmnProjects.Transit

open Tables Routing Runs Osm OsmParser

/-- A point as the router takes it. -/
def Vector3.toList {K : Type} (v : Vector3 K) : List K := [v.x, v.y, v.z]

/-! ### The router -/

/-- What the router's strategies can end with. -/
def RoutingStrategy.pathing (graph : OSMGraph ℝ) :
    RoutingStrategy → String → String → Ending (List String) → Prop
  | .astar, source, target => graph.toRoutingGraph.Ends source target
      ((AStar.default Real.sqrt).loop graph.toIGraph source target)
  | .dfs, source, target => graph.toRoutingGraph.Ends source target
      (DepthFirstSearch.loop graph.toIGraph source target)
  | .dijkstra, source, target => graph.toRoutingGraph.Ends source target
      ((Dijkstra Real.sqrt).loop graph.toIGraph source target)

/-- The routes of the simulation are answers of the router. -/
def World.RoutesOn (world : World ℝ) (graph : OSMGraph ℝ) : Prop :=
  ∀ strategy start finish, graph.toRoutingGraph.PathEnds ⊤ belowInfinity
    (strategy.pathing graph) start.toList finish.toList
    (.returned ((world.getPath strategy start finish).map Vector3.toList))

section Routes

variable {doc : XmlDocument} {parsed graph : OSMGraph ℝ} {world : World ℝ}

theorem rebuild_returned {P K : Type} {graph : RoutingGraph P K} {startNode endNode : P}
    {ending : Ending (List String)} {positions : List (List K)}
    (h : graph.rebuild startNode endNode ending = .returned positions) :
    ∃ between, positions =
      graph.getPosition startNode :: between ++ [graph.getPosition endNode] := by
  cases ending with
  | returned path =>
      simp only [RoutingGraph.rebuild] at h
      split at h
      · cases h
      · next between _ =>
          cases h
          exact ⟨between, rfl⟩
  | thrown _ | undefined => cases h

/-- A route ends at the place that is nearest to where it is to lead. -/
theorem World.RoutesOn.getLast? (h : world.RoutesOn graph) (hmap : MapOf doc parsed graph)
    (hnodes : graph.names ≠ []) (strategy : RoutingStrategy) (start finish : Vector3 ℝ) :
    ∃ last name, (world.getPath strategy start finish).getLast? = some last ∧
      Nearest graph parsed.toIGraph.positionOf finish.toList name ∧
      parsed.toIGraph.positionOf name = last.toList := by
  obtain ⟨i, hnearest, hfound, hmem, hfirst⟩ := exists_nearest hmap hnodes finish.toList
  have hends := h strategy start finish
  generalize hpositions : (world.getPath strategy start finish).map Vector3.toList = positions
    at hends
  generalize hreturned : Ending.returned positions = ending at hends
  cases hends with
  | noNode _ => cases hreturned
  | search hs he hpathing =>
      cases hnearest.symm.trans he
      obtain ⟨between, hbetween⟩ := rebuild_returned hreturned.symm
      have hlast : ((world.getPath strategy start finish).getLast?).map Vector3.toList =
          some (graph.toIGraph.getPosition i) := by
        rw [← List.getLast?_map, hpositions, hbetween, List.getLast?_concat]
        rfl
      obtain ⟨last, hlast, hposition⟩ := Option.map_eq_some_iff.mp hlast
      refine ⟨last, _, hlast, hfirst, ?_⟩
      rw [← hmap.placed _ hmem, IGraph.positionOf_eq hfound, hposition]

theorem World.RoutesOn.getPath_ne_nil (h : world.RoutesOn graph) (hmap : MapOf doc parsed graph)
    (hnodes : graph.names ≠ []) (strategy : RoutingStrategy) (start finish : Vector3 ℝ) :
    world.getPath strategy start finish ≠ [] := by
  obtain ⟨last, _, hlast, _⟩ := h.getLast? hmap hnodes strategy start finish
  intro hnil
  rw [hnil] at hlast
  cases hlast

/-- Every place of a graph is a point. -/
theorem exists_toList {i : ℕ} (hi : i ∈ graph.toIGraph.getNodes) :
    ∃ v : Vector3 ℝ, v.toList = graph.toIGraph.getPosition i := by
  have hlt : i < graph.nodes.length := List.mem_range.mp hi
  refine ⟨⟨graph.nodes[i].loc.x, graph.nodes[i].loc.y, graph.nodes[i].loc.z⟩, ?_⟩
  simp [OSMGraph.toIGraph, hlt, Point3.toVec, Vector3.toList]

theorem exists_points {names : List String}
    (h : ∀ name ∈ names, (graph.toIGraph.getNode name).isSome) :
    ∃ points : List (Vector3 ℝ),
      points.map Vector3.toList = names.map graph.toIGraph.positionOf := by
  induction names with
  | nil => exact ⟨[], rfl⟩
  | cons name names ih =>
      obtain ⟨hname, hrest⟩ := List.forall_mem_cons.mp h
      obtain ⟨points, hpoints⟩ := ih hrest
      obtain ⟨i, hi⟩ := Option.isSome_iff_exists.mp hname
      obtain ⟨v, hv⟩ := exists_toList (graph.toIGraph_ownsNodes.listed hi)
      refine ⟨v :: points, ?_⟩
      rw [List.map_cons, List.map_cons, hpoints, hv, IGraph.positionOf_eq hi]

/-- A search that can go on to its target has a path to return, and the path has positions. -/
theorem exists_path {S A : Type} {source target : String} {Leads : Prop}
    {search : Except String (Loop S A)}
    (h : Searches graph.toIGraph source target search Leads) (hleads : Leads)
    (hsource : (graph.toIGraph.getNode source).isSome)
    (htarget : (graph.toIGraph.getNode target).isSome) :
    ∃ path, graph.toRoutingGraph.Ends source target search (.returned path) ∧
      ∃ points : List (Vector3 ℝ), graph.toRoutingGraph.positionPath path =
        some (points.map Vector3.toList) := by
  have hdefined : Defined graph.toRoutingGraph source target Leads :=
    ⟨⟨rfl, fun _ => rfl⟩, fun _ _ => hleads⟩
  obtain ⟨path, hends⟩ := Searches.exists_returned h hdefined hsource htarget
  refine ⟨path, hends, ?_⟩
  have hfound : ∀ name ∈ path, (graph.toIGraph.getNode name).isSome := by
    cases hends with
    | returned _ hsearch hrun _ hresult =>
        exact IGraph.isSome_of_walk (h.walk _ _ _ hsearch hrun hresult) htarget
  obtain ⟨points, hpoints⟩ := exists_points hfound
  refine ⟨points, ?_⟩
  rw [hpoints]
  exact RoutingGraph.positionPath_eq hfound

/-- Each strategy finds a path between two nodes of a map on which every node has a neighbour. -/
theorem exists_pathing (hmap : MapOf doc parsed graph)
    (hedges : ∀ x ∈ graph.names, ∃ y ∈ graph.names, graph.toIGraph.Edge x y)
    {source target : String} (hs : source ∈ graph.names) (ht : target ∈ graph.names)
    (hsource : (graph.toIGraph.getNode source).isSome)
    (htarget : (graph.toIGraph.getNode target).isSome) (strategy : RoutingStrategy) :
    ∃ path, strategy.pathing graph source target (.returned path) ∧
      ∃ points : List (Vector3 ℝ), graph.toRoutingGraph.positionPath path =
        some (points.map Vector3.toList) := by
  have hreach := hmap.connected source hs target ht
  cases strategy with
  | astar =>
      exact exists_path ((AStar.default Real.sqrt).searches graph.toRoutingGraph.finite
        source target) hreach hsource htarget
  | dijkstra =>
      exact exists_path ((Dijkstra Real.sqrt).searches graph.toRoutingGraph.finite
        source target) hreach hsource htarget
  | dfs =>
      -- The search does not stop at its source, so a way back to it is needed.
      obtain ⟨y, hy, hedge⟩ := hedges source hs
      exact exists_path (DepthFirstSearch.searches graph.toRoutingGraph.finite source target)
        (Relation.TransGen.head' hedge (hmap.connected y hy target ht)) hsource htarget

/-- On such a map there is an answer to every question. -/
theorem exists_getPath (hmap : MapOf doc parsed graph) (hnodes : graph.names ≠ [])
    (hedges : ∀ x ∈ graph.names, ∃ y ∈ graph.names, graph.toIGraph.Edge x y)
    (strategy : RoutingStrategy) (start finish : Vector3 ℝ) :
    ∃ points : List (Vector3 ℝ), graph.toRoutingGraph.PathEnds ⊤ belowInfinity
      (strategy.pathing graph) start.toList finish.toList
      (.returned (points.map Vector3.toList)) := by
  obtain ⟨i, hi, hfound, hmem, _⟩ := exists_nearest hmap hnodes start.toList
  obtain ⟨j, hj, hfound', hmem', _⟩ := exists_nearest hmap hnodes finish.toList
  obtain ⟨path, hpathing, points, hpoints⟩ := exists_pathing hmap hedges hmem hmem'
    (by rw [hfound]; rfl) (by rw [hfound']; rfl) strategy
  obtain ⟨first, hfirst⟩ := exists_toList (graph.toIGraph_ownsNodes.listed hfound)
  obtain ⟨last, hlast⟩ := exists_toList (graph.toIGraph_ownsNodes.listed hfound')
  refine ⟨first :: points ++ [last], ?_⟩
  have hrebuild : graph.toRoutingGraph.rebuild i j (.returned path) =
      .returned ((first :: points ++ [last]).map Vector3.toList) := by
    rw [RoutingGraph.rebuild, hpoints, List.map_append, List.map_cons, hfirst, List.map_cons,
      List.map_nil, hlast]
    rfl
  rw [← hrebuild]
  exact .search hi hj hpathing

theorem exists_routesOn (hmap : MapOf doc parsed graph) (hnodes : graph.names ≠ [])
    (hedges : ∀ x ∈ graph.names, ∃ y ∈ graph.names, graph.toIGraph.Edge x y)
    (world : World ℝ) : ∃ getPath, { world with getPath }.RoutesOn graph :=
  ⟨fun strategy start finish => (exists_getPath hmap hnodes hedges strategy start finish).choose,
    fun strategy start finish =>
      (exists_getPath hmap hnodes hedges strategy start finish).choose_spec⟩

end Routes

/-! ### Trips -/

/-- Nearer than 4, but for the height. -/
def Beside (goal : List ℝ) (pos : Vector3 ℝ) : Prop :=
  ∃ x y z, goal = [x, y, z] ∧
    (x - pos.x) * (x - pos.x) + (z - pos.z) * (z - pos.z) < ((16 : ℕ) : ℝ)

theorem realDistance_lt {a b : Vector3 ℝ} (h : @Scalar.less ℝ realScalar
    (@Vector3.distance ℝ realScalar a b) (@Scalar.ofInt ℝ realScalar 4) = true) :
    a.realDistance b < ((4 : ℕ) : ℝ) := by
  have hless : a.realDistance b < ((4 : ℤ) : ℝ) := of_decide_eq_true h
  exact_mod_cast hless

theorem beside_of_above {goal pos : Vector3 ℝ} (h : @Vector3.Above ℝ realScalar goal pos) :
    Beside goal.toList pos := by
  obtain ⟨y, hless⟩ := h
  refine ⟨goal.x, goal.y, goal.z, rfl, ?_⟩
  have hdistance := realDistance_lt hless
  change Real.sqrt ((goal.x - pos.x) * (goal.x - pos.x) + (goal.y - y) * (goal.y - y) +
    (goal.z - pos.z) * (goal.z - pos.z)) < _ at hdistance
  rw [Real.sqrt_lt' (by norm_num)] at hdistance
  have hheight := mul_self_nonneg (goal.y - y)
  push_cast at hdistance ⊢
  linarith

/-- Where a trip of the robot may end on a map: at the place nearest to its destination, or for a
beeline at the destination itself, or at the place nearest to where the robot was made and has
waited, if that was near the destination. -/
def EndsOn (graph : OSMGraph ℝ) (place : String → List ℝ) (m : TripMessage ℝ)
    (robot : Robot ℝ) : Prop :=
  m.search = "beeline" ∧ Beside m.finish.toList robot.position ∨
    ∃ point name, (point = m.finish ∨ m.search = "beeline" ∧ point = robot.details.position ∧
        point.realDistance m.finish < ((4 : ℕ) : ℝ)) ∧
      Nearest graph place point.toList name ∧ Beside (place name) robot.position

section Trips

variable {doc : XmlDocument} {parsed graph : OSMGraph ℝ} {world : World ℝ}

theorem endsOn_of_near (h : world.RoutesOn graph) (hmap : MapOf doc parsed graph)
    (hnodes : graph.names ≠ []) {m : TripMessage ℝ} {robot : Robot ℝ}
    (hnear : @World.Near ℝ realScalar world m.search robot.details.position m.finish
      robot.position) : EndsOn graph parsed.toIGraph.positionOf m robot := by
  obtain ⟨hsearch, habove⟩ | ⟨point, hpoint, strategy, start, last, hlast, habove⟩ := hnear
  · exact .inl ⟨hsearch, beside_of_above habove⟩
  · obtain ⟨last', name, hlast', hnearest, hplace⟩ := h.getLast? hmap hnodes strategy start point
    cases hlast.symm.trans hlast'
    refine .inr ⟨point, name, ?_, hnearest, hplace ▸ beside_of_above habove⟩
    obtain heq | ⟨hsearch, rfl, hless⟩ := hpoint
    · exact .inl heq
    · exact .inr ⟨hsearch, rfl, realDistance_lt hless⟩

/-- From the document of a map to the robots: where the router answers on the map whatever it is
asked, a fleet that is left to itself carries out every trip that was accepted and that there is a
kind of drone for, and the robot of the trip then stands and stays where its last trip may end. -/
theorem trips_carried_out (num : Numerals ℝ) (hash : HashOrder) (hparse : Parsable num doc)
    (hids : (parsedIds doc).Nodup)
    (hways : ((highwayElements doc).map (fun wayNode => wayNode.value "id")).Nodup)
    (hnode : parsedIds doc ≠ []) (bound : ℕ) (hbound : (parsedIds doc).length < bound) :
    ∃ parsed graph, readNodes num doc = .ok parsed ∧
      loadGraphFromFile num hash bound doc = .ok graph ∧
      ∀ world : World ℝ, world.RoutesOn graph → ∀ (s : SimulationModel ℝ) (dt : ℝ), 0 < dt →
        Run (@step ℝ realScalar world) SimulationModel.KnownSearch (.init ℝ) s →
        (∀ id d, s.objects id = some (.drone d) → 0 < d.speed ∧ d.speed * dt < 8) →
        ∃ n, ∀ k, n ≤ k → ∀ r m, .scheduled r m ∈ s.journal →
          (∃ e ∈ s.entities, e.travelType = r.travelType ∧
            ∃ d, s.objects e.getId = some (.drone d)) →
          ∃ trip robot, lastTrip r.getId s.journal = some trip ∧
            ((@SimulationModel.update ℝ realScalar world dt)^[k] s).objects r.getId =
              some (.robot robot) ∧
            EndsOn graph parsed.toIGraph.positionOf trip robot := by
  obtain ⟨parsed, graph, hread, hload, hnodes, hmap⟩ :=
    loadGraphFromFile_mapOf hash hparse hids hways hnode bound hbound
  refine ⟨parsed, graph, hread, hload, ?_⟩
  intro world hroutes s dt hdt hrun hspeed
  let scalar := realScalar
  obtain ⟨n, hn⟩ := SimulationModel.rests world hdt hrun hspeed
  refine ⟨n, fun k hk r m hm hdrone => ?_⟩
  obtain ⟨hrun', hrest⟩ := hn k hk
  have hsteady := SimulationModel.steady_updates world dt s k
  have htrips := SimulationModel.lastTrip_updates world dt s k r.getId
  generalize (SimulationModel.update world dt)^[k] s = u at hrun' hrest hsteady htrips ⊢
  have hdeliveries := SimulationModel.Deliveries.of_run celebrationsLast
    (hroutes.getPath_ne_nil hmap hnodes) hrun'
  have hpaired := hdeliveries.paired
  have hlisted : r ∈ u.scheduler := by
    rw [hsteady.scheduler]
    exact (SimulationModel.Logged.of_run world hrun).2.scheduled r m hm
  obtain ⟨robot, hrobot⟩ := SimulationModel.Paired.robot_of_scheduler hpaired.wellFormed hlisted
  obtain ⟨trip, htrip, horder⟩ :=
    (SimulationModel.Logged.of_run world hrun').2.trip_of_listed hpaired hlisted
  refine ⟨trip, robot, htrips ▸ htrip, hrobot, ?_⟩
  -- The drone that there is for the trip is still there.
  obtain ⟨e, he, htype, d, hd⟩ := hdrone
  obtain ⟨d', hd'⟩ := SimulationModel.drone_of_profile (hsteady.profile e.getId).symm hd
  exact endsOn_of_near hroutes hmap hnodes (hdeliveries.near_of_atRest hrest
    (hsteady.entities.symm ▸ he) hd' htype hlisted hrobot horder)

/-- A drone, and a robot that it is to bring away along the roads. -/
noncomputable def roadErrand : List (Command ℝ) :=
  [.createEntity ⟨"drone", "Drone", ⟨0, 0, 0⟩, ⟨1, 0, 0⟩, (30 : ℕ)⟩,
    .createEntity ⟨"robot", "Robot", ⟨(50 : ℕ), 0, 0⟩, ⟨1, 0, 0⟩, (30 : ℕ)⟩,
    .scheduleTrip ⟨"Robot", "standard", ⟨(100000 : ℕ), 0, 0⟩, "astar"⟩]

theorem crossing_edges {parsed graph : OSMGraph ℝ}
    (hload : loadGraphFromFile (signNumerals ℝ) .insertion 4 crossing = .ok graph)
    (hmap : MapOf crossing parsed graph) :
    ∀ x ∈ graph.names, ∃ y ∈ graph.names, graph.toIGraph.Edge x y := by
  have hnames := crossing_names hload
  have hother (x y : String) (hx : x ∈ graph.names) (hy : y ∈ graph.names) (hxy : x ≠ y) :
      ∃ z ∈ graph.names, graph.toIGraph.Edge x z := by
    obtain heq | ⟨z, hedge, _⟩ := Relation.ReflTransGen.cases_head (hmap.connected x hx y hy)
    · exact absurd heq hxy
    · exact ⟨z, hmap.closed x z hx ((hmap.edges x z hx).mp hedge), hedge⟩
  intro x hx
  rw [hnames, List.mem_cons, List.mem_singleton] at hx
  obtain rfl | rfl := hx
  · exact hother "a" "b" (by simp [hnames]) (by simp [hnames]) (by decide)
  · exact hother "b" "a" (by simp [hnames]) (by simp [hnames]) (by decide)

theorem trips_carried_out_crossing :
    ∃ graph world s, loadGraphFromFile (signNumerals ℝ) .insertion 4 crossing = .ok graph ∧
      world.RoutesOn graph ∧
      perform (@step ℝ realScalar world) (.init ℝ) roadErrand = some s ∧
      ∃ n, ∀ k, n ≤ k → ∃ robot,
        ((@SimulationModel.update ℝ realScalar world (1 / 100))^[k] s).objects 2 =
          some (.robot robot) ∧
        Beside [((1001879 : ℕ) : ℝ) / (9 : ℕ), (264 : ℕ), 0] robot.position := by
  have hparse : Parsable (signNumerals ℝ) crossing := by
    refine ⟨?_, ?_⟩ <;> decide
  obtain ⟨parsed, graph, hread, hload, hnodes, hmap⟩ := loadGraphFromFile_mapOf .insertion hparse
    (by decide) (by decide) (by decide) 4 (by decide)
  obtain ⟨getPath, hroutes⟩ :=
    exists_routesOn hmap hnodes (crossing_edges hload hmap) SimulationModel.calmWorld
  obtain ⟨parsed', graph', hread', hload', htrips⟩ := trips_carried_out (signNumerals ℝ)
    .insertion hparse (by decide) (by decide) (by decide) 4 (by decide)
  cases hread.symm.trans hread'
  cases hload.symm.trans hload'
  generalize { SimulationModel.calmWorld with getPath } = world at hroutes
  obtain ⟨s, hs⟩ : ∃ s, perform (@step ℝ realScalar world) (.init ℝ) roadErrand = some s :=
    ⟨_, rfl⟩
  have hknown : ∀ c ∈ roadErrand, ∀ s : SimulationModel ℝ, SimulationModel.KnownSearch s c := by
    simp [roadErrand, SimulationModel.KnownSearch, strategyNames]
  have hspeed : ∀ id d, s.objects id = some (.drone d) → d.speed = (30 : ℕ) := by
    intro id d hd
    cases hs
    obtain _ | _ | _ | id := id
    · cases hd
      rfl
    all_goals cases hd
  refine ⟨graph, world, s, hload, hroutes, hs, ?_⟩
  obtain ⟨n, hn⟩ := htrips world hroutes s (1 / 100) (by norm_num) (run_of_perform hs hknown)
    (fun id d hd => by rw [hspeed id d hd]; norm_num)
  obtain ⟨r, e, es, d, hjournal, hid, hentities, htype, hd⟩ : ∃ r e es d,
      s.journal = [.scheduled r ⟨"Robot", "standard", ⟨(100000 : ℕ), 0, 0⟩, "astar"⟩] ∧
      r.getId = 2 ∧ s.entities = e :: es ∧
      e.travelType = r.travelType ∧ s.objects e.getId = some (.drone d) := by
    cases hs
    exact ⟨_, _, _, _, rfl, rfl, rfl, rfl, rfl⟩
  refine ⟨n, fun k hk => ?_⟩
  obtain ⟨trip, robot, htrip, hrobot, hends⟩ := hn k hk r _ (hjournal ▸ List.mem_cons_self)
    ⟨e, hentities ▸ List.mem_cons_self, htype, d, hd⟩
  refine ⟨robot, hid ▸ hrobot, ?_⟩
  -- The one trip is the last one, and it is no beeline.
  have hlast : lastTrip r.getId s.journal =
      some ⟨"Robot", "standard", ⟨(100000 : ℕ), 0, 0⟩, "astar"⟩ := by
    rw [hjournal]
    exact History.latest_append_some [] (if_pos rfl)
  cases hlast.symm.trans htrip
  obtain ⟨hsearch, _⟩ | ⟨point, name, rfl | ⟨hsearch, _⟩, hnearest, hbeside⟩ := hends
  · exact absurd hsearch (by decide)
  · obtain rfl := crossing_nearest_east hload hread hnearest
    exact (crossing_places hread).1 ▸ hbeside
  · exact absurd hsearch (by decide)

end Trips

end UmnProjects.Transit
