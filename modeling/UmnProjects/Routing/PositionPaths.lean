import UmnProjects.Routing.GraphBase
import UmnProjects.Routing.ShortestPath

/-!
`GraphBase::GetPath` with A* and Dijkstra in exact arithmetic. In a strongly connected graph it
returns the positions along a shortest path between the nodes nearest to the two points, the
first and the last of them twice.
-/
namespace UmnProjects.Routing
open BestFirst Runs

/-! ### The nearest node -/

section Nearest

variable {P D : Type} [LinearOrder D]

/-- The first node of the list with the least distance. -/
def FirstLeast (f : P → D) (nodes : List P) (node : P) : Prop :=
  ∃ before after, nodes = before ++ node :: after ∧ (∀ p ∈ before, f node < f p) ∧
    ∀ p ∈ after, f node ≤ f p

/-- The scan ends with what it began with, unless some node is strictly nearer. -/
theorem closest_cases (f : P → D) (nodes : List P) (closest : Option P × D) :
    (nodes.foldl (fun closest node => if f node < closest.2 then (some node, f node) else closest)
        closest = closest ∧ ∀ p ∈ nodes, closest.2 ≤ f p) ∨
    ∃ node, nodes.foldl
        (fun closest node => if f node < closest.2 then (some node, f node) else closest)
        closest = (some node, f node) ∧ f node < closest.2 ∧ FirstLeast f nodes node := by
  induction nodes generalizing closest with
  | nil => exact .inl ⟨rfl, nofun⟩
  | cons p nodes ih =>
      rw [List.foldl_cons]
      split
      · case isTrue hlt =>
          right
          obtain ⟨heq, hleast⟩ | ⟨node, heq, hnode, before, after, rfl, hbefore, hafter⟩ :=
            ih (some p, f p)
          · exact ⟨p, heq, hlt, [], nodes, rfl, nofun, hleast⟩
          · exact ⟨node, heq, hnode.trans hlt, p :: before, after, rfl,
              List.forall_mem_cons.mpr ⟨hnode, hbefore⟩, hafter⟩
      · case isFalse hlt =>
          have hle := not_lt.mp hlt
          obtain ⟨heq, hleast⟩ | ⟨node, heq, hnode, before, after, rfl, hbefore, hafter⟩ :=
            ih closest
          · exact .inl ⟨heq, List.forall_mem_cons.mpr ⟨hle, hleast⟩⟩
          · exact .inr ⟨node, heq, hnode, p :: before, after, rfl,
              List.forall_mem_cons.mpr ⟨hnode.trans_le hle, hbefore⟩, hafter⟩

variable {K : Type} [LinearOrder K]

/-- No distance is infinite, so that a graph with nodes has a nearest one. -/
theorem RoutingGraph.nearestNode_firstLeast {graph : RoutingGraph P K}
    (distance : DistanceFunction K) (point : List K) (hnodes : graph.getNodes ≠ []) :
    ∃ node, graph.nearestNode (⊤ : WithTop K) (fun a b => (distance a b : WithTop K)) point =
        some node ∧
      FirstLeast (fun p => distance (graph.getPosition p) point) graph.getNodes node := by
  obtain ⟨_, hleast⟩ | ⟨node, heq, _, before, after, hsplit, hbefore, hafter⟩ := closest_cases
    (fun p => (distance (graph.getPosition p) point : WithTop K)) graph.getNodes (none, ⊤)
  · obtain ⟨p, hp⟩ := List.exists_mem_of_ne_nil _ hnodes
    exact absurd (hleast p hp) (not_le.mpr (WithTop.coe_lt_top _))
  · refine ⟨node, congrArg Prod.fst heq, before, after, hsplit, ?_, ?_⟩
    · exact fun p hp => WithTop.coe_lt_coe.mp (hbefore p hp)
    · exact fun p hp => WithTop.coe_le_coe.mp (hafter p hp)

theorem RoutingGraph.mem_of_nearestNode {graph : RoutingGraph P K}
    {distance : DistanceFunction K} {point : List K} {node : P}
    (h : graph.nearestNode (⊤ : WithTop K) (fun a b => (distance a b : WithTop K)) point =
      some node) : node ∈ graph.getNodes := by
  by_cases hnodes : graph.getNodes = []
  · rw [RoutingGraph.nearestNode, hnodes] at h
    cases h
  · obtain ⟨node', hnearest, before, after, hsplit, _⟩ :=
      nearestNode_firstLeast distance point hnodes
    cases h.symm.trans hnearest
    rw [hsplit]
    exact List.mem_append_right _ List.mem_cons_self

theorem FirstLeast.mem {f : P → D} {nodes : List P} {node : P} (h : FirstLeast f nodes node) :
    node ∈ nodes := by
  obtain ⟨before, after, rfl, _⟩ := h
  simp

theorem FirstLeast.eq_of_forall_lt {f : P → D} {nodes : List P} {node p : P}
    (h : FirstLeast f nodes node) (hp : p ∈ nodes) (hless : ∀ q ∈ nodes, q ≠ p → f p < f q) :
    node = p := by
  by_contra hne
  have hlt := hless node h.mem hne
  obtain ⟨before, after, rfl, hbefore, hafter⟩ := h
  obtain hp | hp := List.mem_append.mp hp
  · exact hlt.not_gt (hbefore p hp)
  · obtain rfl | hp := List.mem_cons.mp hp
    · exact hne rfl
    · exact hlt.not_ge (hafter p hp)

end Nearest

/-! ### Positions along a path -/

section Positions

variable {P : Type}

theorem euclideanDistance_self (a : List ℝ) : euclideanDistance Real.sqrt a a = 0 := by
  obtain ⟨n, hn⟩ : ∃ n, a.length = n := ⟨_, rfl⟩
  obtain ⟨f, rfl⟩ := exists_ofFn hn
  rw [euclideanDistance_ofFn, dist_self]

/-- The distance as the scan of the nodes compares it with the infinity that it starts from. -/
noncomputable def belowInfinity (a b : List ℝ) : WithTop ℝ :=
  ((euclideanDistance Real.sqrt a b : ℝ) : WithTop ℝ)

/-- The length of an edge between two names. -/
noncomputable def edgeLength (graph : IGraph P ℝ) (u v : String) : ℝ :=
  euclideanDistance Real.sqrt (graph.positionOf u) (graph.positionOf v)

/-- The first and the last position may stand there twice. -/
theorem walkCost_ends {a b : List ℝ} {l : List (List ℝ)} (ha : l.head? = some a)
    (hb : l.getLast? = some b) :
    walkCost (euclideanDistance Real.sqrt) (a :: l ++ [b]) =
      walkCost (euclideanDistance Real.sqrt) l := by
  have hlast : (a :: l).getLast? = some b := by
    rw [List.getLast?_cons, hb]
    rfl
  rw [walkCost_snoc hlast, euclideanDistance_self, add_zero]
  cases l with
  | nil => cases ha
  | cons c l =>
      obtain rfl := Option.some.inj ha
      rw [walkCost, euclideanDistance_self, zero_add]

/-- Equal, or the positions of a node and a neighbour of it. -/
def Adjoins (graph : IGraph P ℝ) (a b : List ℝ) : Prop :=
  a = b ∨ ∃ p ∈ graph.getNodes, ∃ q ∈ graph.getNeighbors p,
    graph.getPosition p = a ∧ graph.getPosition q = b

structure ShortestPositions (graph : IGraph P ℝ) (startNode endNode : P)
    (positions : List (List ℝ)) : Prop where
  head : positions.head? = some (graph.getPosition startNode)
  last : positions.getLast? = some (graph.getPosition endNode)
  steps : positions.IsChain (Adjoins graph)
  length : Least graph.Edge (edgeLength graph) (graph.getName startNode) (graph.getName endNode)
    (walkCost (euclideanDistance Real.sqrt) positions)

variable {graph : IGraph P ℝ}

theorem IGraph.OwnsNodes.adjoins (hown : graph.OwnsNodes) {u v : String}
    (hedge : graph.Edge u v) : Adjoins graph (graph.positionOf u) (graph.positionOf v) := by
  obtain ⟨p, hp, q, hq, rfl⟩ := hedge
  refine .inr ⟨p, hown.listed hp, q, hq, ?_, ?_⟩
  · rw [IGraph.positionOf_eq hp]
  · rw [hown.positionOf_neighbor hp hq]

/-- The positions of the two nodes around those of a walk between them. -/
theorem adjoins_of_walk (hown : graph.OwnsNodes) {startNode endNode : P}
    (hstart : graph.getNode (graph.getName startNode) = some startNode)
    (hend : graph.getNode (graph.getName endNode) = some endNode) {path : List String}
    (hwalk : IsWalk graph.Edge (graph.getName startNode) (graph.getName endNode) path) :
    (path.map graph.positionOf).head? = some (graph.getPosition startNode) ∧
      (path.map graph.positionOf).getLast? = some (graph.getPosition endNode) ∧
      (graph.getPosition startNode :: path.map graph.positionOf ++
        [graph.getPosition endNode]).IsChain (Adjoins graph) := by
  have hhead : (path.map graph.positionOf).head? = some (graph.getPosition startNode) := by
    rw [List.head?_map, hwalk.head, Option.map_some, IGraph.positionOf_eq hstart]
  have hlast : (path.map graph.positionOf).getLast? = some (graph.getPosition endNode) := by
    rw [List.getLast?_map, hwalk.last, Option.map_some, IGraph.positionOf_eq hend]
  have hsteps : (path.map graph.positionOf).IsChain (Adjoins graph) := by
    rw [List.isChain_map]
    exact hwalk.chain.imp fun u v hedge => hown.adjoins hedge
  refine ⟨hhead, hlast, (List.IsChain.cons hsteps ?_).append (.singleton _) ?_⟩
  · intro a ha
    rw [hhead] at ha
    exact .inl (Option.some.inj ha)
  · intro a ha b hb
    rw [List.getLast?_cons, hlast] at ha
    exact .inl ((Option.some.inj ha).symm.trans (Option.some.inj hb))

theorem shortestPositions_of_walk (hown : graph.OwnsNodes) {startNode endNode : P}
    (hstart : graph.getNode (graph.getName startNode) = some startNode)
    (hend : graph.getNode (graph.getName endNode) = some endNode) {path : List String}
    (hwalk : IsWalk graph.Edge (graph.getName startNode) (graph.getName endNode) path)
    (hleast : ∀ walk, IsWalk graph.Edge (graph.getName startNode) (graph.getName endNode) walk →
      walkCost (edgeLength graph) path ≤ walkCost (edgeLength graph) walk) :
    ShortestPositions graph startNode endNode
      (graph.getPosition startNode :: path.map graph.positionOf ++
        [graph.getPosition endNode]) := by
  obtain ⟨hhead, hlast, hsteps⟩ := adjoins_of_walk hown hstart hend hwalk
  refine ⟨rfl, List.getLast?_concat, hsteps, ?_⟩
  rw [walkCost_ends hhead hlast, walkCost_map]
  exact ⟨⟨path, hwalk, rfl⟩, hleast⟩

end Positions

/-! ### The whole call -/

section Calls

variable {P K : Type}

/-- Following neighbour pointers from a node that is found leads to nodes that are found. -/
theorem IGraph.OwnsNodes.found_of_pointers {graph : IGraph P K} (hown : graph.OwnsNodes) {p q : P}
    (hp : graph.getNode (graph.getName p) = some p)
    (hpq : Relation.ReflTransGen (fun p q => q ∈ graph.getNeighbors p) p q) :
    graph.getNode (graph.getName q) = some q ∧
      graph.Reachable (graph.getName p) (graph.getName q) := by
  induction hpq with
  | refl => exact ⟨hp, .refl⟩
  | tail _ hedge ih => exact ⟨hown.own ih.1 _ hedge, ih.2.tail ⟨_, ih.1, _, hedge, rfl⟩⟩

variable [AddCommGroup K] [LinearOrder K] [IsOrderedAddMonoid K]

/-- A search between connected names returns, and returns a shortest walk. -/
theorem AStar.ends_shortest {strategy : AStar K} {graph : RoutingGraph P K}
    {source target : String} {start terminal : P} (hown : graph.OwnsNodes)
    (hstart : graph.getNode source = some start)
    (hterminal : graph.getNode target = some terminal)
    (hcons : Consistent graph.Edge (strategy.edgeCost graph.toIGraph)
      (strategy.estimateOf graph.toIGraph terminal))
    (hreach : graph.Reachable source target) {ending : Ending (List String)}
    (hends : graph.Ends source target (strategy.loop graph.toIGraph source target) ending) :
    ∃ path, ending = .returned path ∧ IsWalk graph.Edge source target path ∧
      ∀ walk, IsWalk graph.Edge source target walk →
        walkCost (strategy.edgeCost graph.toIGraph) path ≤
          walkCost (strategy.edgeCost graph.toIGraph) walk := by
  have hsearch := shortestPathSearch hown hstart hterminal hcons
  have hloop : strategy.loop graph.toIGraph source target =
      .ok ⟨strategy.step graph.toIGraph target terminal, .initial source, fun s => s.result⟩ := by
    rw [loop, hsearch.enters]
  rw [hloop] at hends
  cases hends with
  | unanswered hno =>
      exact absurd ⟨graph.found hstart, fun _ => graph.found hterminal⟩ hno
  | thrown _ herror => cases herror
  | returned _ heq hrun _ hresult =>
      cases heq
      obtain ⟨hwalk, _, hleast⟩ := hsearch.shortest _ _ hrun hresult
      exact ⟨_, rfl, hwalk, hleast⟩
  | fellOff _ heq hrun hfinal hresult =>
      cases heq
      have hsome := (hsearch.returns_iff _ hrun hfinal).mpr hreach
      have hnone : Search.result _ = none := hresult
      rw [hnone] at hsome
      cases hsome

end Calls

/-- With either strategy and for any two points, the call ends, and it can only end by
returning the positions of a shortest walk between the nodes nearest to the points, the first
such nodes in the order of `getNodes`. The graph is not empty (some node is found under its
name), and following pointers leads from every node to every other one. -/
theorem getPath_positions (P : Type) (graph : RoutingGraph P ℝ) (strategy : AStar ℝ)
    (hstrategy : strategy = AStar.default Real.sqrt ∨ strategy = Dijkstra Real.sqrt)
    (hown : graph.OwnsNodes) (hdim : graph.SameDimension)
    (hsome : ∃ p, graph.getNode (graph.getName p) = some p)
    (hconnected : ∀ p ∈ graph.getNodes, ∀ q ∈ graph.getNodes,
      Relation.ReflTransGen (fun p q => q ∈ graph.getNeighbors p) p q) (src dest : List ℝ) :
    ∃ startNode endNode,
      FirstLeast (fun p => euclideanDistance Real.sqrt (graph.getPosition p) src) graph.getNodes
        startNode ∧
      FirstLeast (fun p => euclideanDistance Real.sqrt (graph.getPosition p) dest) graph.getNodes
        endNode ∧
      (∃ loop, strategy.loop graph.toIGraph (graph.getName startNode) (graph.getName endNode) =
        .ok loop ∧ Terminates loop.step loop.initial) ∧
      ∀ ending, graph.PathEnds ⊤ belowInfinity
        (fun source target => graph.Ends source target (strategy.loop graph.toIGraph source target))
        src dest ending →
          ∃ positions, ending = .returned positions ∧
            ShortestPositions graph.toIGraph startNode endNode positions := by
  obtain ⟨p, hp⟩ := hsome
  have hlisted := hown.listed hp
  have hnodes : graph.getNodes ≠ [] := List.ne_nil_of_mem hlisted
  have hnearby : ∀ point, ∃ node, graph.nearestNode ⊤ belowInfinity point = some node ∧
      FirstLeast (fun p => euclideanDistance Real.sqrt (graph.getPosition p) point)
        graph.getNodes node :=
    fun point => RoutingGraph.nearestNode_firstLeast (euclideanDistance Real.sqrt) point hnodes
  obtain ⟨startNode, hnearest, hfirst⟩ := hnearby src
  obtain ⟨endNode, hnearest', hfirst'⟩ := hnearby dest
  have hstart := (hown.found_of_pointers hp (hconnected p hlisted _ hfirst.mem)).1
  obtain ⟨hend, hreach⟩ :=
    hown.found_of_pointers hstart (hconnected _ hfirst.mem _ hfirst'.mem)
  have hcons : Consistent graph.Edge (strategy.edgeCost graph.toIGraph)
      (strategy.estimateOf graph.toIGraph endNode) := by
    obtain rfl | rfl := hstrategy
    · exact consistent_default hown hdim hend
    · exact consistent_dijkstra graph.toIGraph endNode
  have hcost : strategy.edgeCost graph.toIGraph = edgeLength graph.toIGraph := by
    obtain rfl | rfl := hstrategy <;> rfl
  have hsearch := AStar.shortestPathSearch hown hstart hend hcons
  refine ⟨startNode, endNode, hfirst, hfirst', ⟨_, by rw [AStar.loop, hsearch.enters],
    hsearch.terminates⟩, ?_⟩
  intro ending hends
  cases hends with
  | noNode hnone =>
      obtain hnone | hnone := hnone
      · exact absurd (hnearest.symm.trans hnone) nofun
      · exact absurd (hnearest'.symm.trans hnone) nofun
  | search hs he hpathing =>
      cases hnearest.symm.trans hs
      cases hnearest'.symm.trans he
      obtain ⟨path, rfl, hwalk, hleast⟩ :=
        AStar.ends_shortest hown hstart hend hcons hreach hpathing
      have hfound : ∀ u ∈ path, (graph.getNode u).isSome :=
        IGraph.isSome_of_walk hwalk (by rw [hend]; rfl)
      rw [hcost] at hleast
      refine ⟨_, ?_, shortestPositions_of_walk hown hstart hend hwalk hleast⟩
      rw [RoutingGraph.rebuild, RoutingGraph.positionPath_eq hfound]

section Segment

/-- Two neighbours. -/
def segment (K : Type) [Zero K] [One K] : RoutingGraph (Fin 2) K where
  getNode name := (List.finRange 2).find? (fun p => ["A", "B"].get p == name)
  getNodes := List.finRange 2
  getName p := ["A", "B"].get p
  getNeighbors p := [[1], [0]].get p
  getPosition p := [[0], [1]].get p
  answers _ := true
  finite := Set.toFinite _
  found := fun _ => rfl
  neighbors := fun _ _ _ => rfl

theorem segment_ownsNodes (K : Type) [Zero K] [One K] : (segment K).OwnsNodes := by
  have hown : ∀ p : Fin 2, ∀ q ∈ [[1], [0]].get p,
      (List.finRange 2).find? (fun r => ["A", "B"].get r == ["A", "B"].get q) = some q := by
    decide
  exact ⟨fun _ => List.mem_finRange _, fun _ q hq => hown _ q hq⟩

theorem segment_connected (K : Type) [Zero K] [One K] (p q : Fin 2) :
    Relation.ReflTransGen (fun p q => q ∈ (segment K).getNeighbors p) p q := by
  have hnext : ∀ p q : Fin 2, p = q ∨ q ∈ [[1], [0]].get p := by decide
  obtain rfl | hq := hnext p q
  · exact .refl
  · exact .single hq

theorem getPath_positions_segment : ∃ startNode endNode,
    ∀ ending, (segment ℝ).PathEnds ⊤ belowInfinity
      (fun source target => (segment ℝ).Ends source target
        ((AStar.default Real.sqrt).loop (segment ℝ).toIGraph source target)) [0] [1] ending →
      ∃ positions, ending = .returned positions ∧
        ShortestPositions (segment ℝ).toIGraph startNode endNode positions := by
  have hlength : ∀ p : Fin 2, ((segment ℝ).getPosition p).length = 1 := by
    intro p
    fin_cases p <;> rfl
  obtain ⟨startNode, endNode, _, _, _, h⟩ := getPath_positions (Fin 2) (segment ℝ)
    (AStar.default Real.sqrt) (.inl rfl) (segment_ownsNodes ℝ) ⟨1, fun _ => hlength _⟩
    ⟨0, rfl⟩ (fun p _ q _ => segment_connected ℝ p q) [0] [1]
  exact ⟨startNode, endNode, h⟩

end Segment

end UmnProjects.Routing
