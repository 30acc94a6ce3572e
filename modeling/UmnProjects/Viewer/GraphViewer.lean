import UmnProjects.Routing.Endings
import UmnProjects.Routing.PositionPaths
import UmnProjects.Viewer.BoundingBox
import UmnProjects.Viewer.DrawLine

/-!
`graph_viewer` up to the file that it saves: the edges and the three routes that it draws. The
image covers the bounding box, so a node on the upper border lies behind the last pixel.
-/
namespace UmnProjects.Viewer
open Routing BestFirst

variable {P : Type}

/-- The box of a graph and the size of the image that is made for it. -/
structure Canvas where
  bb : BoundingBox ℝ
  width : ℤ
  height : ℤ

noncomputable def Canvas.of (graph : IGraph P ℝ) : Canvas :=
  let bb := getBoundingBox (graph.getNodes.map graph.getPosition)
  let aspectRatio := (bb.max.getD 2 0 - bb.min.getD 2 0) / (bb.max.getD 0 0 - bb.min.getD 0 0)
  let resolution : ℤ := 1024
  { bb := bb, width := resolution, height := truncate (resolution * aspectRatio) }

namespace Canvas

noncomputable def pixelOf (canvas : Canvas) (pos : List ℝ) : Pixel :=
  let normalized := canvas.bb.normalize pos
  (truncate (normalized.getD 0 0 * canvas.width), truncate (normalized.getD 2 0 * canvas.height))

/-- A line from every position of the path to the next one. -/
noncomputable def drawPath (canvas : Canvas) : List (List ℝ) → List Pixel
  | lastPos :: pos :: path =>
      drawLine (canvas.pixelOf lastPos) (canvas.pixelOf pos) ++ canvas.drawPath (pos :: path)
  | _ => []

noncomputable def drawEdges (canvas : Canvas) (graph : IGraph P ℝ) : List Pixel :=
  graph.getNodes.flatMap fun node => (graph.getNeighbors node).flatMap fun neighbor =>
    drawLine (canvas.pixelOf (graph.getPosition node)) (canvas.pixelOf (graph.getPosition neighbor))

end Canvas

/-- The positions of the nodes nearest to two corners of the box. -/
def Corners (graph : RoutingGraph P ℝ) (start stop : List ℝ) : Prop :=
  let bb := (Canvas.of graph.toIGraph).bb
  ∃ p q, graph.nearestNode ⊤ belowInfinity bb.min = some p ∧
    graph.nearestNode ⊤ belowInfinity bb.max = some q ∧
    graph.getPosition p = start ∧ graph.getPosition q = stop

/-- `GetPath` can return these positions. -/
def Finds {S A : Type} (graph : RoutingGraph P ℝ)
    (search : String → String → Except String (Loop S A)) (start stop : List ℝ)
    (path : List (List ℝ)) : Prop :=
  graph.PathEnds ⊤ belowInfinity (fun source target => graph.Ends source target
    (search source target)) start stop (.returned path)

/-- Both ends are moved half way between them along the third axis. -/
noncomputable def halfWay (start stop : List ℝ) : ℝ :=
  start.getD 2 0 + (stop.getD 2 0 - start.getD 2 0) * (1 / (2 : ℕ))

/-- The routes that are drawn by the end of each part of `main`; a search that does not return
leaves it at those before. -/
inductive Routes (graph : RoutingGraph P ℝ) : List (List (List ℝ)) → Prop where
  | none : Routes graph []
  | depthFirst {start stop : List ℝ} {path : List (List ℝ)} (hcorners : Corners graph start stop)
      (hpath : Finds graph (DepthFirstSearch.loop graph.toIGraph) start stop path) :
      Routes graph [path]
  | aStar {start stop : List ℝ} {path path' : List (List ℝ)} (hcorners : Corners graph start stop)
      (hpath : Finds graph (DepthFirstSearch.loop graph.toIGraph) start stop path)
      (hpath' : Finds graph ((AStar.default Real.sqrt).loop graph.toIGraph) start stop path') :
      Routes graph [path, path']
  | dijkstra {start stop : List ℝ} {path path' path'' : List (List ℝ)}
      (hcorners : Corners graph start stop)
      (hpath : Finds graph (DepthFirstSearch.loop graph.toIGraph) start stop path)
      (hpath' : Finds graph ((AStar.default Real.sqrt).loop graph.toIGraph) start stop path')
      (hpath'' : Finds graph ((Dijkstra Real.sqrt).loop graph.toIGraph)
        (start.set 2 (halfWay start stop)) (stop.set 2 (halfWay start stop)) path'') :
      Routes graph [path, path', path'']

/-- The `SetPixel` calls for the edges and these routes. -/
noncomputable def setPixelCalls (graph : IGraph P ℝ) (routes : List (List (List ℝ))) : List Pixel :=
  (Canvas.of graph).drawEdges graph ++ routes.flatMap (Canvas.of graph).drawPath

/-! ### What is on the image -/

/-- What the loaders guarantee: names and pointers lead to nodes of the graph, and nodes lie in
space. -/
structure Loaded (graph : IGraph P ℝ) : Prop where
  named : ∀ p ∈ graph.getNodes, graph.getNode (graph.getName p) = some p
  listed : ∀ {name p}, graph.getNode name = some p → p ∈ graph.getNodes
  neighbors : ∀ p ∈ graph.getNodes, ∀ q ∈ graph.getNeighbors p, q ∈ graph.getNodes
  space : ∀ p ∈ graph.getNodes, (graph.getPosition p).length = 3

/-- The cell of the raster of the image that a position falls into. -/
noncomputable def Canvas.cell (canvas : Canvas) (pos : List ℝ) : ℤ × ℤ :=
  let relative := fun i => share (canvas.bb.min.getD i 0) (canvas.bb.max.getD i 0) (pos.getD i 0)
  (⌊relative 0 * canvas.width⌋, ⌊relative 2 * canvas.height⌋)

/-- The position is not on the upper border of the box, along the axes that are drawn. -/
def BoundingBox.Below (bb : BoundingBox ℝ) (pos : List ℝ) : Prop :=
  ∀ i ∈ [0, 2], bb.max.getD i 0 - bb.min.getD i 0 < 1 / (100000 : ℕ) ∨
    pos.getD i 0 < bb.max.getD i 0

variable {graph : IGraph P ℝ} {pos : List ℝ} {p q : P}

theorem Loaded.ownsNodes (h : Loaded graph) : graph.OwnsNodes where
  listed := h.listed
  own := fun hp q hq => h.named q (h.neighbors _ (h.listed hp) q hq)

theorem Loaded.holds (h : Loaded graph) (hp : p ∈ graph.getNodes) :
    (Canvas.of graph).bb.Holds (graph.getPosition p) := by
  refine holds_getBoundingBox (n := 3) ?_ _ (List.mem_map_of_mem hp)
  intro pos hpos
  obtain ⟨q, hq, rfl⟩ := List.mem_map.mp hpos
  exact h.space q hq

theorem Loaded.height_nonneg (h : Loaded graph) (hp : p ∈ graph.getNodes) :
    0 ≤ (Canvas.of graph).height := by
  have hextent : ∀ i, (Canvas.of graph).bb.min.getD i 0 ≤ (Canvas.of graph).bb.max.getD i 0 :=
    fun i => (h.holds hp i).1.trans (h.holds hp i).2
  refine truncate_nonneg (mul_nonneg (by norm_num) (div_nonneg ?_ ?_))
  · exact sub_nonneg.mpr (hextent 2)
  · exact sub_nonneg.mpr (hextent 0)

/-- A relative coordinate, scaled to the size of the image. -/
theorem truncate_share {r : ℝ} {n : ℤ} (hr : 0 ≤ r) (hr' : r ≤ 1) (hn : 0 ≤ n) :
    truncate (r * n) = ⌊r * n⌋ ∧ (0 ≤ truncate (r * n) ∧ truncate (r * n) ≤ n) ∧
      (truncate (r * n) < n ↔ 0 < n ∧ r < 1) := by
  have hn' : (0 : ℝ) ≤ n := Int.cast_nonneg hn
  have hnonneg : 0 ≤ r * n := mul_nonneg hr hn'
  refine ⟨if_pos hnonneg, ⟨truncate_nonneg hnonneg, truncate_le hnonneg ?_⟩, ?_⟩
  · exact mul_le_of_le_one_left hn' hr'
  · rw [truncate_lt_iff hnonneg]
    constructor
    · intro hlt
      have hpos : (0 : ℝ) < n := hnonneg.trans_lt hlt
      exact ⟨Int.cast_pos.mp hpos, (mul_lt_iff_lt_one_left hpos).mp hlt⟩
    · intro h
      exact (mul_lt_iff_lt_one_left (Int.cast_pos.mpr h.1)).mpr h.2

/-- Where a node lies on the image. -/
structure OnCanvas (canvas : Canvas) (pos : List ℝ) : Prop where
  cell : canvas.pixelOf pos = canvas.cell pos
  touches : Touches canvas.width canvas.height (canvas.pixelOf pos)
  inside_iff : Inside canvas.width canvas.height (canvas.pixelOf pos) ↔
    0 < canvas.height ∧ canvas.bb.Below pos

theorem Loaded.onCanvas (h : Loaded graph) (hp : p ∈ graph.getNodes) :
    OnCanvas (Canvas.of graph) (graph.getPosition p) := by
  have hholds := h.holds hp
  have hlength := h.space p hp
  have hwidth : (0 : ℤ) < (Canvas.of graph).width := by
    change (0 : ℤ) < 1024
    norm_num
  have hx := truncate_share (share_nonneg (hholds 0).1) (share_le_one (hholds 0).2) hwidth.le
  have hz := truncate_share (share_nonneg (hholds 2).1) (share_le_one (hholds 2).2)
    (h.height_nonneg hp)
  have hpixel : (Canvas.of graph).pixelOf (graph.getPosition p) =
      (truncate (share ((Canvas.of graph).bb.min.getD 0 0) ((Canvas.of graph).bb.max.getD 0 0)
          ((graph.getPosition p).getD 0 0) * (Canvas.of graph).width),
        truncate (share ((Canvas.of graph).bb.min.getD 2 0) ((Canvas.of graph).bb.max.getD 2 0)
          ((graph.getPosition p).getD 2 0) * (Canvas.of graph).height)) := by
    simp only [Canvas.pixelOf]
    rw [getD_normalize _ (by omega), getD_normalize _ (by omega)]
  refine ⟨?_, ?_, ?_⟩
  · rw [hpixel, hx.1, hz.1]
    rfl
  · rw [hpixel]
    exact ⟨hx.2.1, hz.2.1⟩
  · rw [hpixel, Inside, hx.2.2, hz.2.2, share_lt_one_iff, share_lt_one_iff, BoundingBox.Below,
      List.forall_mem_cons, List.forall_mem_singleton]
    constructor
    · intro hinside
      exact ⟨hinside.2.2.1, hinside.1.2.2, hinside.2.2.2⟩
    · intro hbelow
      exact ⟨⟨hx.2.1.1, hwidth, hbelow.2.1⟩, hz.2.1.1, hbelow.1, hbelow.2.2⟩

/-- The line between two nodes is drawn inside. -/
def LineInside (graph : IGraph P ℝ) (start stop : List ℝ) : Prop :=
  ∀ pixel ∈ drawLine ((Canvas.of graph).pixelOf start) ((Canvas.of graph).pixelOf stop),
    Inside (Canvas.of graph).width (Canvas.of graph).height pixel

theorem Loaded.lineInside_iff (h : Loaded graph) (hp : p ∈ graph.getNodes)
    (hq : q ∈ graph.getNodes) :
    LineInside graph (graph.getPosition p) (graph.getPosition q) ↔
      ((Canvas.of graph).cell (graph.getPosition p) ≠ (Canvas.of graph).cell (graph.getPosition q) →
        0 < (Canvas.of graph).height ∧ (Canvas.of graph).bb.Below (graph.getPosition p)) := by
  have hstart := h.onCanvas hp
  have hstop := h.onCanvas hq
  rw [LineInside, drawLine_inside_iff hstop.touches, hstart.inside_iff, hstart.cell, hstop.cell]

theorem forall_mem_drawEdges {canvas : Canvas} {I : Pixel → Prop} :
    (∀ pixel ∈ canvas.drawEdges graph, I pixel) ↔
      ∀ p ∈ graph.getNodes, ∀ q ∈ graph.getNeighbors p,
        ∀ pixel ∈ drawLine (canvas.pixelOf (graph.getPosition p))
          (canvas.pixelOf (graph.getPosition q)), I pixel := by
  simp only [Canvas.drawEdges, List.mem_flatMap]
  constructor
  · intro h p hp q hq pixel hpixel
    exact h pixel ⟨p, hp, q, hq, hpixel⟩
  · intro h pixel hpixel
    obtain ⟨p, hp, q, hq, hmem⟩ := hpixel
    exact h p hp q hq pixel hmem

/-! ### Routes -/

/-- The route is drawn inside. -/
def RouteInside (graph : IGraph P ℝ) (path : List (List ℝ)) : Prop :=
  ∀ pixel ∈ (Canvas.of graph).drawPath path,
    Inside (Canvas.of graph).width (Canvas.of graph).height pixel

/-- A route is drawn inside if all its lines are, by induction on the positions to go. -/
theorem routeInside_of_lines {path : List (List ℝ)} (h : path.IsChain (LineInside graph)) :
    RouteInside graph path := by
  induction path with
  | nil => simp [RouteInside, Canvas.drawPath]
  | cons first path ih =>
      cases path with
      | nil => simp [RouteInside, Canvas.drawPath]
      | cons second path =>
          rw [List.isChain_cons_cons] at h
          intro pixel hpixel
          rw [Canvas.drawPath, List.mem_append] at hpixel
          cases hpixel with
          | inl hline => exact h.1 pixel hline
          | inr hrest => exact ih h.2 pixel hrest

/-- Whatever the search, the positions that `GetPath` returns follow the edges. -/
theorem adjoins_of_finds {S A : Type} {graph : RoutingGraph P ℝ} (h : Loaded graph.toIGraph)
    {search : String → String → Except String (Loop S A)} {Leads : String → String → Prop}
    (hsearch : ∀ source target, Searches graph.toIGraph source target (search source target)
      (Leads source target)) {start stop : List ℝ} {path : List (List ℝ)}
    (hfinds : Finds graph search start stop path) : path.IsChain (Adjoins graph.toIGraph) := by
  rw [Finds] at hfinds
  generalize hending : Ending.returned path = ending at hfinds
  cases hfinds with
  | noNode _ => cases hending
  | @search startNode endNode ending hstart hstop hends =>
      cases ending with
      | thrown message => cases hending
      | undefined => cases hending
      | returned names =>
          have hmap := (hsearch _ _).positionPath_eq hends
          rw [RoutingGraph.rebuild, hmap] at hending
          cases hending
          have hwalk : IsWalk graph.Edge (graph.getName startNode) (graph.getName endNode)
              names := by
            cases hends with
            | returned _ hloop hrun _ hresult => exact (hsearch _ _).walk _ _ _ hloop hrun hresult
          exact (adjoins_of_walk h.ownsNodes (h.named _ (RoutingGraph.mem_of_nearestNode hstart))
            (h.named _ (RoutingGraph.mem_of_nearestNode hstop)) hwalk).2.2

/-- With the edges drawn inside, a route that is found is so too. -/
theorem routeInside_of_finds {S A : Type} {graph : RoutingGraph P ℝ} (h : Loaded graph.toIGraph)
    (hedges : ∀ p ∈ graph.getNodes, ∀ q ∈ graph.getNeighbors p,
      LineInside graph.toIGraph (graph.getPosition p) (graph.getPosition q))
    {search : String → String → Except String (Loop S A)} {Leads : String → String → Prop}
    (hsearch : ∀ source target, Searches graph.toIGraph source target (search source target)
      (Leads source target)) {start stop : List ℝ} {path : List (List ℝ)}
    (hfinds : Finds graph search start stop path) : RouteInside graph.toIGraph path := by
  refine routeInside_of_lines ((adjoins_of_finds h hsearch hfinds).imp fun a b hab => ?_)
  cases hab with
  | inl heq =>
      rw [heq, LineInside, drawLine_self]
      exact fun pixel hpixel => absurd hpixel List.not_mem_nil
  | inr hedge =>
      obtain ⟨p, hp, q, hq, rfl, rfl⟩ := hedge
      exact hedges p hp q hq

theorem routeInside_of_routes {graph : RoutingGraph P ℝ} (h : Loaded graph.toIGraph)
    (hedges : ∀ p ∈ graph.getNodes, ∀ q ∈ graph.getNeighbors p,
      LineInside graph.toIGraph (graph.getPosition p) (graph.getPosition q))
    {routes : List (List (List ℝ))} (hroutes : Routes graph routes) :
    ∀ path ∈ routes, RouteInside graph.toIGraph path := by
  have hdepth := DepthFirstSearch.searches graph.finite
  have hstar := AStar.searches (AStar.default Real.sqrt) graph.finite
  have hdijkstra := AStar.searches (Dijkstra Real.sqrt) graph.finite
  cases hroutes with
  | none => simp
  | depthFirst _ hpath =>
      rw [List.forall_mem_singleton]
      exact routeInside_of_finds h hedges hdepth hpath
  | aStar _ hpath hpath' =>
      rw [List.forall_mem_cons, List.forall_mem_singleton]
      exact ⟨routeInside_of_finds h hedges hdepth hpath,
        routeInside_of_finds h hedges hstar hpath'⟩
  | dijkstra _ hpath hpath' hpath'' =>
      rw [List.forall_mem_cons, List.forall_mem_cons, List.forall_mem_singleton]
      exact ⟨routeInside_of_finds h hedges hdepth hpath,
        routeInside_of_finds h hedges hstar hpath',
        routeInside_of_finds h hedges hdijkstra hpath''⟩

section Diagonal

/-- Three nodes on the diagonal of their box, with neighbours of one's choice. -/
def diagonal (neighbors : Fin 3 → List (Fin 3)) : RoutingGraph (Fin 3) ℝ where
  getNode name := (List.finRange 3).find? fun p => ["1", "2", "3"].get p == name
  getNodes := List.finRange 3
  getName p := ["1", "2", "3"].get p
  getNeighbors := neighbors
  getPosition p := [(p.val : ℝ), 0, (p.val : ℝ)]
  answers _ := true
  finite := Set.toFinite _
  found := fun _ => rfl
  neighbors := fun _ _ _ => rfl

variable (neighbors : Fin 3 → List (Fin 3))

theorem diagonal_loaded : Loaded (diagonal neighbors).toIGraph := by
  have hnamed : ∀ p : Fin 3, (List.finRange 3).find? (fun q => ["1", "2", "3"].get q ==
      ["1", "2", "3"].get p) = some p := by
    decide
  exact ⟨fun p _ => hnamed p, fun _ => List.mem_finRange _, fun _ _ _ _ => List.mem_finRange _,
    fun _ _ => rfl⟩

theorem diagonal_canvas : (Canvas.of (diagonal neighbors).toIGraph).bb = ⟨[0, 0, 0], [2, 0, 2]⟩ ∧
    (Canvas.of (diagonal neighbors).toIGraph).height = 1024 := by
  have hbb : (Canvas.of (diagonal neighbors).toIGraph).bb = ⟨[0, 0, 0], [2, 0, 2]⟩ := by
    norm_num [Canvas.of, diagonal, List.finRange_succ, getBoundingBox, BoundingBox.extend]
  refine ⟨hbb, ?_⟩
  have hheight (canvas : Canvas) (h : canvas = Canvas.of (diagonal neighbors).toIGraph) :
      canvas.height = truncate ((1024 : ℤ) *
        ((canvas.bb.max.getD 2 0 - canvas.bb.min.getD 2 0) /
          (canvas.bb.max.getD 0 0 - canvas.bb.min.getD 0 0))) := by
    rw [h]
    rfl
  rw [hheight _ rfl, hbb]
  have hratio : (([2, 0, 2] : List ℝ).getD 2 0 - ([0, 0, 0] : List ℝ).getD 2 0) /
      (([2, 0, 2] : List ℝ).getD 0 0 - ([0, 0, 0] : List ℝ).getD 0 0) = 1 := by
    norm_num
  rw [hratio, mul_one, truncate_intCast]

theorem diagonal_below_iff (p : Fin 3) :
    (Canvas.of (diagonal neighbors).toIGraph).bb.Below
      ((diagonal neighbors).getPosition p) ↔ p.val < 2 := by
  rw [(diagonal_canvas neighbors).1, BoundingBox.Below, List.forall_mem_cons,
    List.forall_mem_singleton]
  have hextent : ¬ ((2 : ℝ) - 0 < 1 / (100000 : ℕ)) := by norm_num
  have hcast : (p.val : ℝ) < 2 ↔ p.val < 2 := Nat.cast_lt_ofNat
  simp only [diagonal, List.getD_cons_zero, List.getD_cons_succ, hextent, hcast, false_or, and_self]

end Diagonal

end UmnProjects.Viewer
