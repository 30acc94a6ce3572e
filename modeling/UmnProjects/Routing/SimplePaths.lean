import UmnProjects.Routing.DepthFirstSearch
import UmnProjects.Routing.ShortestPath

/-!
Paths without a repeated node. A* tests for the goal when a candidate is popped, the first
one included; the other search tests the neighbours of what it pops, so that it leaves the
start before it can recognise it.
-/
namespace UmnProjects.Routing
open BestFirst Runs

/-- Every run of the loop ends, and at a return statement with a path from the source to the
target that visits no node twice and is the one node where the two are equal. -/
structure ReturnsSimplePath {S A : Type} (step : S → A → Option S) (initial : S)
    (result : S → Option (List String)) (edge : String → String → Prop)
    (source target : String) : Prop where
  terminates : Terminates step initial
  returns : ∀ s, Reaches step initial s → Final step s →
    ∃ path, result s = some path ∧ IsWalk edge source target path ∧ path.Nodup ∧
      (source = target → path = [source])

variable {P K : Type} {graph : IGraph P K} {source target : String} {start terminal : P}

section

variable [Zero K] [Add K] [LinearOrder K]

theorem AStar.returnsSimplePath (strategy : AStar K) (terminal : P) (hfin : graph.FiniteNodes)
    (hreach : graph.Reachable source target) :
    ReturnsSimplePath (strategy.step graph target terminal) (.initial source)
      (fun s => s.result) graph.Edge source target := by
  refine ⟨terminates_initial strategy target terminal hfin, ?_⟩
  intro s hrun hfinal
  have hvalid := SearchValid.of_reaches hrun
  obtain ⟨path, hpath⟩ := Option.isSome_iff_exists.mp ((hvalid.returned_iff hfinal).mpr hreach)
  obtain ⟨hwalk, hnodup⟩ := hvalid.result path hpath
  refine ⟨path, hpath, hwalk, hnodup, ?_⟩
  rintro rfl
  exact hwalk.eq_single_of_nodup hnodup

end

section

variable [Zero K]

open DepthFirstSearch in
theorem DepthFirstSearch.returnsSimplePath_iff (hfin : graph.FiniteNodes)
    (hreach : graph.Reachable source target) :
    ReturnsSimplePath (step graph target) (.initial source : Traversal K)
      (fun s => s.result) graph.Edge source target ↔ source ≠ target := by
  constructor
  · rintro ⟨hterminates, hreturns⟩ rfl
    obtain ⟨s, hrun, hfinal⟩ := hterminates.exists_final
    obtain ⟨path, hpath, _, _, hsingle⟩ := hreturns s hrun hfinal
    obtain ⟨v, front, hfront, hwalk, _⟩ := (TraversalValid.of_reaches hrun).result path hpath
    rw [hsingle rfl] at hfront
    -- the walk in front of the goal has a node of its own
    cases front with
    | nil => cases hwalk.head
    | cons x front => cases front <;> cases hfront
  · intro hne
    refine ⟨terminates_initial target hfin, ?_⟩
    intro s hrun hfinal
    have hvalid := TraversalValid.of_reaches hrun
    have hmore : Relation.TransGen graph.Edge source target :=
      (Relation.reflTransGen_iff_eq_or_transGen.mp hreach).resolve_left fun h => hne h.symm
    obtain ⟨path, hpath⟩ := Option.isSome_iff_exists.mp ((hvalid.returned_iff hfinal).mpr hmore)
    obtain ⟨v, front, _, _, _, hfewest⟩ := hvalid.result path hpath
    exact ⟨path, hpath, (hfewest hne).1.walk, (hfewest hne).2, fun h => absurd h hne⟩

end

/-- In every finite graph, between two of its names: both searches are entered, and both
return a simple path exactly if the names differ. -/
theorem getPath_simple_iff (P K : Type) [Zero K] [Add K] [LinearOrder K] (strategy : AStar K)
    (graph : IGraph P K) (source target : String) (start terminal : P)
    (hfin : graph.FiniteNodes) (hstart : graph.getNode source = some start)
    (hterminal : graph.getNode target = some terminal)
    (hreach : graph.Reachable source target) :
    (AStar.enter graph source target = .ok (terminal, .initial source) ∧
      DepthFirstSearch.enter graph source target = .ok (.initial source)) ∧
    (ReturnsSimplePath (strategy.step graph target terminal) (.initial source)
        (fun s => s.result) graph.Edge source target ∧
      ReturnsSimplePath (DepthFirstSearch.step graph target) (.initial source)
        (fun s => s.result) graph.Edge source target ↔ source ≠ target) := by
  refine ⟨⟨?_, ?_⟩, ?_⟩
  · simp only [AStar.enter, hstart, hterminal]
  · simp only [DepthFirstSearch.enter, hstart, hterminal]
  · rw [DepthFirstSearch.returnsSimplePath_iff hfin hreach]
    exact and_iff_right (strategy.returnsSimplePath terminal hfin hreach)

/-- From the second corner of the square to the fourth. -/
theorem getPath_simple_square :
    ReturnsSimplePath ((AStar.mk manhattan manhattan).step (square ℤ) "D" 3) (.initial "B")
        (fun s => s.result) (square ℤ).Edge "B" "D" ∧
      ReturnsSimplePath (DepthFirstSearch.step (square ℤ) "D") (.initial "B")
        (fun s => s.result) (square ℤ).Edge "B" "D" := by
  have hedge : (square ℤ).Edge "B" "D" := ⟨1, rfl, 3, by decide, rfl⟩
  exact (getPath_simple_iff (Fin 4) ℤ ⟨manhattan, manhattan⟩ (square ℤ) "B" "D" 1 3
    (square_ownsNodes ℤ).finiteNodes rfl rfl (.single hedge)).2.mpr (by decide)

/-- From the first corner of the square to itself the search goes round. -/
theorem getPath_corner_twice :
    (∃ s, perform (DepthFirstSearch.step (square ℤ) "A") (.initial "A") [(), ()] = some s ∧
        s.result = some ["A", "B", "A"]) ∧
      ¬ ReturnsSimplePath (DepthFirstSearch.step (square ℤ) "A") (.initial "A")
        (fun s => s.result) (square ℤ).Edge "A" "A" := by
  refine ⟨⟨_, rfl, rfl⟩, ?_⟩
  intro h
  have hne := (DepthFirstSearch.returnsSimplePath_iff (square_ownsNodes ℤ).finiteNodes .refl).mp h
  exact hne rfl

end UmnProjects.Routing
