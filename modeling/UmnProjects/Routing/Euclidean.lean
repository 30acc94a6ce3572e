import UmnProjects.Routing.Pathing
import Mathlib.Analysis.InnerProductSpace.PiL2

/-!
The distance functions in exact arithmetic. Between points with the same number of
coordinates the Euclidean distance obeys the triangle inequality, so both pairs of cost
and heuristic that the library ships are consistent.
-/
namespace UmnProjects.Routing

open BestFirst

theorem sumOfSquares_eq_sum (a b : List ℝ) :
    sumOfSquares a b = ((a.zip b).map (fun p => (p.2 - p.1) * (p.2 - p.1))).sum := by
  rw [sumOfSquares, List.sum_eq_foldl, List.foldl_map]

theorem sumOfSquares_ofFn {n : ℕ} (f g : Fin n → ℝ) :
    sumOfSquares (List.ofFn f) (List.ofFn g) = ∑ i, (g i - f i) * (g i - f i) := by
  have hzip : (List.ofFn f).zip (List.ofFn g) = List.ofFn (fun i => (f i, g i)) := by
    refine List.ext_getElem (by simp) ?_
    intro i _ _
    simp
  rw [sumOfSquares_eq_sum, hzip, List.map_ofFn, List.sum_ofFn]
  rfl

theorem euclideanDistance_ofFn {n : ℕ} (f g : Fin n → ℝ) :
    euclideanDistance Real.sqrt (List.ofFn f) (List.ofFn g) =
      dist (WithLp.toLp 2 f) (WithLp.toLp 2 g) := by
  rw [euclideanDistance, sumOfSquares_ofFn, EuclideanSpace.dist_eq]
  congr 1
  refine Finset.sum_congr rfl ?_
  intro i _
  rw [Real.dist_eq, sq_abs]
  ring

theorem exists_ofFn {l : List ℝ} {n : ℕ} (h : l.length = n) : ∃ f : Fin n → ℝ, l = List.ofFn f := by
  subst h
  exact ⟨l.get, (List.ofFn_get l).symm⟩

theorem euclideanDistance_triangle {a b c : List ℝ} (hab : a.length = b.length)
    (hbc : b.length = c.length) :
    euclideanDistance Real.sqrt a c ≤
      euclideanDistance Real.sqrt a b + euclideanDistance Real.sqrt b c := by
  obtain ⟨f, hf⟩ := exists_ofFn (hab.trans hbc)
  obtain ⟨g, hg⟩ := exists_ofFn hbc
  obtain ⟨k, hk⟩ := exists_ofFn (rfl : c.length = c.length)
  generalize c.length = n at f g k hf hg hk
  subst hf hg hk
  rw [euclideanDistance_ofFn, euclideanDistance_ofFn, euclideanDistance_ofFn]
  exact dist_triangle _ _ _

/-- All positions have the same number of coordinates. -/
def IGraph.SameDimension {P K : Type} (graph : IGraph P K) : Prop :=
  ∃ n, ∀ {name p}, graph.getNode name = some p → (graph.getPosition p).length = n

section Consistency

variable {P : Type} {graph : IGraph P ℝ} {target : String} {terminal : P}

theorem consistent_default (hown : graph.OwnsNodes) (hdim : graph.SameDimension)
    (hterminal : graph.getNode target = some terminal) :
    Consistent graph.Edge ((AStar.default Real.sqrt).edgeCost graph)
      ((AStar.default Real.sqrt).estimateOf graph terminal) := by
  intro u v hedge
  obtain ⟨n, hn⟩ := hdim
  obtain ⟨p, hp, q, hq, hname⟩ := hedge
  have hv : graph.getNode v = some q := hname ▸ hown.own hp q hq
  simp only [AStar.edgeCost, AStar.estimateOf, AStar.default, IGraph.positionOf_eq hp,
    IGraph.positionOf_eq hv]
  exact euclideanDistance_triangle ((hn hp).trans (hn hv).symm)
    ((hn hv).trans (hn hterminal).symm)

theorem consistent_dijkstra (graph : IGraph P ℝ) (terminal : P) :
    Consistent graph.Edge ((Dijkstra Real.sqrt).edgeCost graph)
      ((Dijkstra Real.sqrt).estimateOf graph terminal) := by
  intro u v _
  simp [AStar.edgeCost, AStar.estimateOf, Dijkstra, zeroDistance, euclideanDistance]

end Consistency

end UmnProjects.Routing
