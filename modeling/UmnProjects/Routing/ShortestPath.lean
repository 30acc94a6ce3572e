import UmnProjects.Routing.SearchInvariant
import UmnProjects.Routing.Euclidean

/-!
Optimality of A*. Under a consistent heuristic the settled names and the queue form a
best-first frontier, so the first candidate popped for a name is a cheapest walk to it,
however many stale candidates the queue holds and whichever of equal ones is on top.
-/
namespace UmnProjects.Routing

open BestFirst Runs

namespace AStar

variable {P K : Type}

theorem estimateOf_eq {strategy : AStar K} {graph : IGraph P K} {terminal : P}
    (hown : graph.OwnsNodes) {u : String} {node next : P}
    (hnode : graph.getNode u = some node) (hnext : next ∈ graph.getNeighbors node) :
    strategy.heuristic (graph.getPosition next) (graph.getPosition terminal) =
      strategy.estimateOf graph terminal (graph.getName next) := by
  rw [estimateOf, hown.positionOf_neighbor hnode hnext]

variable [AddCommGroup K] [LinearOrder K]

/-- The queue offers the distance `d` for the name `y`. -/
def Offers (paths : List (CandidatePath K)) (y : String) (d : K) : Prop :=
  ∃ c ∈ paths, c.path.top = y ∧ c.distance = d

structure SearchOptimal (strategy : AStar K) (graph : IGraph P K) (source target : String)
    (terminal : P) (s : Search K) : Prop where
  costs : ∀ c ∈ s.possiblePaths, walkCost (strategy.edgeCost graph) c.path.toList = c.distance
  frontier : source ∈ s.visited → s.result = none →
    Frontier graph.Edge (strategy.edgeCost graph) source (fun x => x ∈ s.visited)
      (Offers s.possiblePaths)
  estimates : source ∈ s.visited →
    ∀ c ∈ s.possiblePaths, c.estimate = strategy.estimateOf graph terminal c.path.top
  result : ∀ path, s.result = some path → Least graph.Edge (strategy.edgeCost graph)
    source target (walkCost (strategy.edgeCost graph) path)

variable {strategy : AStar K} {graph : IGraph P K} {source target : String} {terminal : P}
variable {s t : Search K} {i : Nat} {candidate : CandidatePath K} {rest : List (CandidatePath K)}

theorem searchOptimal_initial :
    SearchOptimal strategy graph source target terminal (.initial source) := by
  refine ⟨?_, ?_, ?_, ?_⟩
  · intro c hc
    obtain rfl := List.mem_singleton.mp hc
    rfl
  · intro hsource
    exact absurd hsource List.not_mem_nil
  · intro hsource
    exact absurd hsource List.not_mem_nil
  · intro path hpath
    cases hpath

/-- Estimates are those of the heuristic as soon as the source is settled. -/
theorem SearchOptimal.estimates_rest (h : SearchOptimal strategy graph source target terminal s)
    (hvalid : SearchValid graph source target s)
    (hperm : s.possiblePaths.Perm (candidate :: rest)) {c : CandidatePath K} (hc : c ∈ rest) :
    c.estimate = strategy.estimateOf graph terminal c.path.top := by
  obtain hsource | ⟨_, _, hrest⟩ := hvalid.source_or_top hperm
  · exact h.estimates hsource c (hperm.mem_iff.mpr (List.mem_cons_of_mem _ hc))
  · rw [hrest] at hc
    exact absurd hc List.not_mem_nil

variable [IsOrderedAddMonoid K]

/-- The popped candidate of an unsettled name is exact. -/
theorem SearchOptimal.least_popped (h : SearchOptimal strategy graph source target terminal s)
    (hvalid : SearchValid graph source target s) (hresult : s.result = none)
    (hcons : Consistent graph.Edge (strategy.edgeCost graph) (strategy.estimateOf graph terminal))
    (hperm : s.possiblePaths.Perm (candidate :: rest))
    (htop : ∀ c ∈ s.possiblePaths, compareCandidatePaths candidate c = false)
    (hunsettled : candidate.path.top ∉ s.visited) :
    Least graph.Edge (strategy.edgeCost graph) source candidate.path.top candidate.distance := by
  have hmem : candidate ∈ s.possiblePaths := hperm.mem_iff.mpr List.mem_cons_self
  obtain hsource | ⟨_, hfirst, _⟩ := hvalid.source_or_top hperm
  · have hwalk := hvalid.candidates candidate hmem
    refine (h.frontier hsource hresult).least_of_smallest hcons hunsettled
      ⟨_, hwalk.walk, h.costs candidate hmem⟩ ?_
    intro y d hy
    obtain ⟨c, hc, hctop, hcdist⟩ := hy
    have hle : candidate.distance + candidate.estimate ≤ c.distance + c.estimate := by
      simpa [compareCandidatePaths] using htop c hc
    rwa [h.estimates hsource candidate hmem, h.estimates hsource c hc, hctop, hcdist] at hle
  · rw [hfirst]
    exact hcons.least_self source

/-- Settling the popped name and pushing its successors keeps the frontier. -/
theorem SearchOptimal.settle (h : SearchOptimal strategy graph source target terminal s)
    (hvalid : SearchValid graph source target s) (hresult : s.result = none)
    (hcons : Consistent graph.Edge (strategy.edgeCost graph) (strategy.estimateOf graph terminal))
    (hperm : s.possiblePaths.Perm (candidate :: rest))
    (hleast : Least graph.Edge (strategy.edgeCost graph) source candidate.path.top
      candidate.distance)
    {pushed : List (CandidatePath K)}
    (hpushed : ∀ y, graph.Edge candidate.path.top y →
      Offers pushed y (candidate.distance + strategy.edgeCost graph candidate.path.top y)) :
    Frontier graph.Edge (strategy.edgeCost graph) source
      (fun x => x ∈ s.visited ++ [candidate.path.top]) (Offers (rest ++ pushed)) := by
  have hnew : ∀ y d, Offers pushed y d → Offers (rest ++ pushed) y d := by
    intro y d hy
    obtain ⟨c, hc, hcy⟩ := hy
    exact ⟨c, List.mem_append_right _ hc, hcy⟩
  obtain hsource | ⟨hinit, hfirst, _⟩ := hvalid.source_or_top hperm
  · have hsettled : (fun x => x ∈ s.visited ++ [candidate.path.top]) =
        fun x => x ∈ s.visited ∨ x = candidate.path.top := by
      funext x
      simp
    rw [hsettled]
    refine (h.frontier hsource hresult).settle hleast (fun y hy => hnew _ _ (hpushed y hy)) ?_
    intro y d hy _ hold
    obtain ⟨c, hc, hctop, hcdist⟩ := hold
    obtain heq | hrest := List.mem_cons.mp (hperm.mem_iff.mp hc)
    · exact absurd (by rw [← hctop, heq]) hy
    · exact ⟨c, List.mem_append_left _ hrest, hctop, hcdist⟩
  · have hsettled : (fun x => x ∈ s.visited ++ [candidate.path.top]) = fun x => x = source := by
      funext x
      simp [hinit, hfirst, Search.initial, FStack.top]
    rw [hsettled]
    refine Frontier.start hcons ?_
    intro y hy
    have hoffer := hpushed y (by rw [hfirst]; exact hy)
    simp only [hfirst, FStack.top, zero_add] at hoffer
    exact hnew y _ hoffer

theorem SearchOptimal.round (h : SearchOptimal strategy graph source target terminal s)
    (hvalid : SearchValid graph source target s) (hresult : s.result = none)
    (hown : graph.OwnsNodes)
    (hcons : Consistent graph.Edge (strategy.edgeCost graph) (strategy.estimateOf graph terminal))
    (hperm : s.possiblePaths.Perm (candidate :: rest))
    (htop : ∀ c ∈ s.possiblePaths, compareCandidatePaths candidate c = false)
    (hround : Round strategy graph target terminal s candidate rest t) :
    SearchOptimal strategy graph source target terminal t := by
  have hrest : ∀ c ∈ rest, c.estimate = strategy.estimateOf graph terminal c.path.top :=
    fun c hc => h.estimates_rest hvalid hperm hc
  have hcosts : ∀ c ∈ rest, walkCost (strategy.edgeCost graph) c.path.toList = c.distance :=
    fun c hc => h.costs c (hperm.mem_iff.mpr (List.mem_cons_of_mem _ hc))
  have hcost := h.costs candidate (hperm.mem_iff.mpr List.mem_cons_self)
  have hleast := h.least_popped hvalid hresult hcons hperm htop
  cases hround with
  | stale hvisited =>
      refine ⟨hcosts, ?_, fun _ => hrest, h.result⟩
      intro hsource _
      refine (h.frontier hsource hresult).mono ?_
      intro y d hy hold
      obtain ⟨c, hc, hctop, hcdist⟩ := hold
      obtain heq | hc := List.mem_cons.mp (hperm.mem_iff.mp hc)
      · exact absurd (hctop ▸ heq ▸ hvisited) hy
      · exact ⟨c, hc, hctop, hcdist⟩
  | found hvisited htarget =>
      refine ⟨hcosts, ?_, fun _ => hrest, ?_⟩
      · intro _ hnone
        cases hnone
      · intro path hpath
        cases hpath
        rw [hcost, ← htarget]
        exact hleast hvisited
  | missing hvisited _ hnode =>
      refine ⟨hcosts, ?_, fun _ => hrest, h.result⟩
      intro _ _
      have hpushed : ∀ y, graph.Edge candidate.path.top y →
          Offers [] y (candidate.distance + strategy.edgeCost graph candidate.path.top y) :=
        fun y hy => absurd hy (IGraph.not_edge hnode y)
      simpa only [List.append_nil] using
        h.settle hvalid hresult hcons hperm (hleast hvisited) hpushed
  | expand node hvisited _ hnode =>
      refine ⟨?_, fun _ _ => h.settle hvalid hresult hcons hperm (hleast hvisited) ?_, ?_,
        h.result⟩
      · intro c hc
        obtain hc | hc := List.mem_append.mp hc
        · exact hcosts c hc
        · obtain ⟨next, hnext, rfl⟩ := List.mem_map.mp hc
          simp only [AStar.extend, FStack.toList]
          rw [walkCost_snoc candidate.path.getLast?_toList, hcost, edgeCost,
            IGraph.positionOf_eq hnode, hown.positionOf_neighbor hnode hnext]
      · intro y hy
        obtain ⟨q, hq, hname⟩ := (IGraph.edge_iff hnode y).mp hy
        refine ⟨_, List.mem_map_of_mem hq, hname, ?_⟩
        rw [edgeCost, ← hname, IGraph.positionOf_eq hnode, hown.positionOf_neighbor hnode hq]
        rfl
      · intro _ c hc
        obtain hc | hc := List.mem_append.mp hc
        · exact hrest c hc
        · obtain ⟨next, hnext, hc⟩ := List.mem_map.mp hc
          rw [← hc]
          exact estimateOf_eq hown hnode hnext

theorem searchOptimal_of_reaches (hown : graph.OwnsNodes)
    (hcons : Consistent graph.Edge (strategy.edgeCost graph) (strategy.estimateOf graph terminal))
    (hrun : Reaches (strategy.step graph target terminal) (.initial source) s) :
    SearchOptimal strategy graph source target terminal s := by
  have hboth := hrun.invariant
    (I := fun s => SearchValid graph source target s ∧
      SearchOptimal strategy graph source target terminal s) ?_
    ⟨searchValid_initial, searchOptimal_initial⟩
  · exact hboth.2
  · intro s i t _ hstep hs
    obtain ⟨candidate, rest, hresult, hperm, htop, hround⟩ := round_of_step hstep
    exact ⟨hs.1.step hstep, hs.2.round hs.1 hresult hown hcons hperm htop hround⟩

/-- The search for a path between two names of the graph. -/
structure ShortestPathSearch (strategy : AStar K) (graph : IGraph P K) (source target : String)
    (terminal : P) : Prop where
  enters : enter graph source target = .ok (terminal, .initial source)
  terminates : Terminates (strategy.step graph target terminal) (.initial source)
  expanded_once : ∀ s, Reaches (strategy.step graph target terminal) (.initial source) s →
    s.expanded.Nodup
  returns_iff : ∀ s, Reaches (strategy.step graph target terminal) (.initial source) s →
    Final (strategy.step graph target terminal) s →
    (s.result.isSome ↔ graph.Reachable source target)
  shortest : ∀ s path, Reaches (strategy.step graph target terminal) (.initial source) s →
    s.result = some path → IsWalk graph.Edge source target path ∧ path.Nodup ∧
      ∀ walk, IsWalk graph.Edge source target walk →
        walkCost (strategy.edgeCost graph) path ≤ walkCost (strategy.edgeCost graph) walk

theorem shortestPathSearch (hown : graph.OwnsNodes) {start : P}
    (hstart : graph.getNode source = some start)
    (hterminal : graph.getNode target = some terminal)
    (hcons : Consistent graph.Edge (strategy.edgeCost graph)
      (strategy.estimateOf graph terminal)) :
    ShortestPathSearch strategy graph source target terminal := by
  refine ⟨?_, terminates_initial strategy target terminal hown.finiteNodes, ?_, ?_, ?_⟩
  · simp only [enter, hstart, hterminal]
  · intro s hrun
    have hvalid := SearchValid.of_reaches hrun
    exact hvalid.expanded.nodup hvalid.visited
  · intro s hrun hfinal
    exact (SearchValid.of_reaches hrun).returned_iff hfinal
  · intro s path hrun hpath
    have hresult := (SearchValid.of_reaches hrun).result path hpath
    have hleast := (searchOptimal_of_reaches hown hcons hrun).result path hpath
    exact ⟨hresult.1, hresult.2, hleast.least⟩

end AStar

/-- `GetPath` under every consistent heuristic, whatever the costs, and for the two
strategies of the library. -/
theorem getPath_shortest :
    (∀ (P K : Type) [AddCommGroup K] [LinearOrder K] [IsOrderedAddMonoid K]
      (strategy : AStar K) (graph : IGraph P K) (source target : String) (start terminal : P),
      graph.OwnsNodes → graph.getNode source = some start →
      graph.getNode target = some terminal →
      Consistent graph.Edge (strategy.edgeCost graph) (strategy.estimateOf graph terminal) →
      strategy.ShortestPathSearch graph source target terminal) ∧
    ∀ (P : Type) (graph : IGraph P ℝ) (source target : String) (start terminal : P),
      graph.OwnsNodes → graph.SameDimension → graph.getNode source = some start →
      graph.getNode target = some terminal →
      (AStar.default Real.sqrt).ShortestPathSearch graph source target terminal ∧
        (Dijkstra Real.sqrt).ShortestPathSearch graph source target terminal := by
  refine ⟨?_, ?_⟩
  · intro P K _ _ _ strategy graph source target start terminal hown hstart hterminal hcons
    exact AStar.shortestPathSearch hown hstart hterminal hcons
  · intro P graph source target start terminal hown hdim hstart hterminal
    exact ⟨AStar.shortestPathSearch hown hstart hterminal
        (consistent_default hown hdim hterminal),
      AStar.shortestPathSearch hown hstart hterminal (consistent_dijkstra graph terminal)⟩

section Square

def manhattan : DistanceFunction ℤ := fun a b => ((a.zip b).map (fun p => |p.2 - p.1|)).sum

/-- Two ways round a square, and a neighbour pointer back to its first corner. -/
def square (K : Type) [Zero K] [One K] : IGraph (Fin 4) K where
  getNode name := (List.finRange 4).find? (fun p => ["A", "B", "C", "D"].get p == name)
  getNodes := List.finRange 4
  getName p := ["A", "B", "C", "D"].get p
  getNeighbors p := [[1, 2], [3, 0], [3], []].get p
  getPosition p := [[0, 0], [1, 0], [0, 1], [1, 1]].get p

theorem square_ownsNodes (K : Type) [Zero K] [One K] : (square K).OwnsNodes := by
  have hown : ∀ p : Fin 4, ∀ q ∈ [[1, 2], [3, 0], [3], []].get p,
      (List.finRange 4).find? (fun r => ["A", "B", "C", "D"].get r ==
        ["A", "B", "C", "D"].get q) = some q := by
    decide
  exact ⟨fun _ => List.mem_finRange _, fun _ q hq => hown _ q hq⟩

theorem square_sameDimension : (square ℝ).SameDimension := by
  have hlength : ∀ p, ((square ℝ).getPosition p).length = 2 := by
    intro p
    fin_cases p <;> rfl
  exact ⟨2, fun _ => hlength _⟩

theorem square_consistent :
    Consistent (square ℤ).Edge ((AStar.mk manhattan manhattan).edgeCost (square ℤ))
      ((AStar.mk manhattan manhattan).estimateOf (square ℤ) 3) := by
  have hall : ∀ p, ∀ q ∈ (square ℤ).getNeighbors p,
      manhattan ((square ℤ).getPosition p) ((square ℤ).getPosition 3) ≤
        manhattan ((square ℤ).getPosition p) ((square ℤ).getPosition q) +
          manhattan ((square ℤ).getPosition q) ((square ℤ).getPosition 3) := by
    decide
  intro u v hedge
  obtain ⟨p, hp, q, hq, hname⟩ := hedge
  have hv := (square_ownsNodes ℤ).own hp q hq
  rw [hname] at hv
  simp only [AStar.edgeCost, AStar.estimateOf, IGraph.positionOf_eq hp, IGraph.positionOf_eq hv]
  exact hall p q hq

theorem getPath_shortest_square :
    (AStar.mk manhattan manhattan).ShortestPathSearch (square ℤ) "A" "D" 3 ∧
      (∃ s, perform ((AStar.mk manhattan manhattan).step (square ℤ) "D" 3) (.initial "A")
        [0, 1, 1] = some s ∧ s.result = some ["A", "C", "D"]) ∧
      (Dijkstra Real.sqrt).ShortestPathSearch (square ℝ) "A" "D" 3 :=
  ⟨getPath_shortest.1 (Fin 4) ℤ ⟨manhattan, manhattan⟩ (square ℤ) "A" "D" 0 3
      (square_ownsNodes ℤ) (by decide) (by decide) square_consistent,
    ⟨_, rfl, rfl⟩,
    (getPath_shortest.2 (Fin 4) (square ℝ) "A" "D" 0 3 (square_ownsNodes ℝ)
      square_sameDimension rfl rfl).2⟩

end Square

end UmnProjects.Routing
