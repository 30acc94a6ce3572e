import Mathlib.Algebra.Order.Group.Defs
import Mathlib.Data.List.Chain
import Mathlib.Logic.Relation

/-!
Walks in a weighted directed graph and the frontier of a best-first search.

A search keeps a set of settled vertices and a collection of open entries, each of
which offers a distance for a vertex. The frontier facts below do not depend on how the
entries are stored, on entries that are out of date, or on how ties are broken.
-/
namespace UmnProjects.BestFirst

variable {V R : Type} {edge : V → V → Prop} {a b c : V} {l : List V}

/-- `l` lists the vertices of a walk from `a` to `b`, both included. -/
structure IsWalk (edge : V → V → Prop) (a b : V) (l : List V) : Prop where
  head : l.head? = some a
  last : l.getLast? = some b
  chain : l.IsChain edge

namespace IsWalk

theorem single (a : V) : IsWalk edge a a [a] := ⟨rfl, rfl, .singleton a⟩

theorem cons (h : edge a b) (hw : IsWalk edge b c l) : IsWalk edge a c (a :: l) := by
  cases l with
  | nil => exact absurd hw.head (by simp)
  | cons x l =>
      have hx : x = b := by simpa using hw.head
      subst hx
      refine ⟨rfl, ?_, hw.chain.cons_cons h⟩
      simpa using hw.last

theorem snoc (hw : IsWalk edge a b l) (h : edge b c) : IsWalk edge a c (l ++ [c]) := by
  refine ⟨?_, by simp, ?_⟩
  · rw [List.head?_append, hw.head]
    rfl
  · refine List.IsChain.append hw.chain (.singleton c) ?_
    intro x hx y hy
    have hxb : x = b := by simpa [hw.last] using hx.symm
    have hyc : y = c := by simpa using hy.symm
    rw [hxb, hyc]
    exact h

/-- A walk is one vertex, or an edge and a walk from its end. -/
theorem cases_cons (hw : IsWalk edge a c l) :
    (l = [a] ∧ a = c) ∨ ∃ b l', l = a :: l' ∧ edge a b ∧ IsWalk edge b c l' := by
  match l, hw with
  | [], hw => exact absurd hw.head (by simp)
  | [x], hw =>
      have hx : x = a := by simpa using hw.head
      have hc : x = c := by simpa using hw.last
      exact .inl ⟨by rw [hx], by rw [← hx, hc]⟩
  | x :: y :: l, hw =>
      have hx : x = a := by simpa using hw.head
      have hchain := List.isChain_cons_cons.mp hw.chain
      subst hx
      exact .inr ⟨y, y :: l, rfl, hchain.1, rfl, by simpa using hw.last, hchain.2⟩

theorem reachable (hw : IsWalk edge a b l) : Relation.ReflTransGen edge a b := by
  induction l generalizing a with
  | nil => exact absurd hw.head (by simp)
  | cons x l ih =>
      obtain ⟨_, hab⟩ | ⟨y, l', hl, hedge, hrest⟩ := hw.cases_cons
      · exact hab ▸ .refl
      · have htail : l = l' := (List.cons.inj hl).2
        subst htail
        exact .head hedge (ih hrest)

/-- A closed walk without a repeated vertex does not move. -/
theorem eq_single_of_nodup (hw : IsWalk edge a a l) (hl : l.Nodup) : l = [a] := by
  obtain ⟨heq, _⟩ | ⟨b, l', rfl, _, hrest⟩ := hw.cases_cons
  · exact heq
  · exact absurd (List.mem_of_getLast? hrest.last) (List.nodup_cons.mp hl).1

end IsWalk

/-- Settled vertices lead to settled or open ones only. -/
def Spread (edge : V → V → Prop) (settled opened : V → Prop) : Prop :=
  ∀ x y, settled x → edge x y → settled y ∨ opened y

/-- Once nothing is open, the settled vertices are closed under reachability. -/
theorem Spread.settled_of_reachable {settled opened : V → Prop}
    (h : Spread edge settled opened) (hopen : ∀ y, ¬ opened y) (ha : settled a)
    (hab : Relation.ReflTransGen edge a b) : settled b := by
  induction hab with
  | refl => exact ha
  | tail _ hedge ih => exact (h _ _ ih hedge).resolve_right (hopen _)

section Costs

variable [AddMonoid R] {weight : V → V → R}

def walkCost (weight : V → V → R) : List V → R
  | u :: v :: rest => weight u v + walkCost weight (v :: rest)
  | _ => 0

theorem walkCost_cons (hw : IsWalk edge b c l) :
    walkCost weight (a :: l) = weight a b + walkCost weight l := by
  cases l with
  | nil => exact absurd hw.head (by simp)
  | cons x l =>
      have hx : x = b := by simpa using hw.head
      rw [walkCost, hx]

theorem walkCost_map {W : Type} (f : W → V) (l : List W) :
    walkCost weight (l.map f) = walkCost (fun u v => weight (f u) (f v)) l := by
  induction l with
  | nil => rfl
  | cons u l ih =>
      cases l with
      | nil => rfl
      | cons v l =>
          simp only [List.map_cons, walkCost] at ih ⊢
          rw [ih]

theorem walkCost_snoc (hl : l.getLast? = some b) :
    walkCost weight (l ++ [c]) = walkCost weight l + weight b c := by
  induction l with
  | nil => exact absurd hl (by simp)
  | cons x l ih =>
      cases l with
      | nil =>
          have hx : x = b := by simpa using hl
          simp [walkCost, hx]
      | cons y l =>
          have hrest := ih (by simpa using hl)
          simp only [List.cons_append] at hrest ⊢
          rw [walkCost, hrest, walkCost, add_assoc]

end Costs

section Estimates

variable [AddCommGroup R] [LinearOrder R]
variable {weight : V → V → R} {h : V → R}

/-- No edge lowers the estimate by more than its weight. -/
def Consistent (edge : V → V → Prop) (weight : V → V → R) (h : V → R) : Prop :=
  ∀ u v, edge u v → h u ≤ weight u v + h v

/-- `d` is the cost of a cheapest walk from `a` to `b`. -/
structure Least (edge : V → V → Prop) (weight : V → V → R) (a b : V) (d : R) : Prop where
  attained : ∃ l, IsWalk edge a b l ∧ walkCost weight l = d
  least : ∀ l, IsWalk edge a b l → d ≤ walkCost weight l

/-- Settled vertices have their least distance, and every edge that leaves them is
matched by an open entry. -/
structure Frontier (edge : V → V → Prop) (weight : V → V → R) (source : V)
    (settled : V → Prop) (opened : V → R → Prop) : Prop where
  root : settled source
  expanded : ∀ x, settled x → ∃ d, Least edge weight source x d ∧
    ∀ y, edge x y → ¬ settled y → ∃ d', opened y d' ∧ d' ≤ d + weight x y

variable {source u : V} {settled : V → Prop} {opened opened' : V → R → Prop} {d : R}

/-- Entries of settled vertices may be dropped and entries may be added. -/
theorem Frontier.mono (hf : Frontier edge weight source settled opened)
    (hopen : ∀ y d, ¬ settled y → opened y d → opened' y d) :
    Frontier edge weight source settled opened' := by
  refine ⟨hf.root, ?_⟩
  intro x hx
  obtain ⟨d, hd, hout⟩ := hf.expanded x hx
  refine ⟨d, hd, ?_⟩
  intro y hy hns
  obtain ⟨d', hd', hle⟩ := hout y hy hns
  exact ⟨d', hopen y d' hns hd', hle⟩

/-- Settling an exact vertex and opening its successors keeps the frontier. -/
theorem Frontier.settle (hf : Frontier edge weight source settled opened)
    (hu : Least edge weight source u d)
    (hout : ∀ y, edge u y → opened' y (d + weight u y))
    (hopen : ∀ y d, y ≠ u → ¬ settled y → opened y d → opened' y d) :
    Frontier edge weight source (fun x => settled x ∨ x = u) opened' := by
  refine ⟨.inl hf.root, ?_⟩
  intro x hx
  cases hx with
  | inl hx =>
      obtain ⟨dx, hdx, hleave⟩ := hf.expanded x hx
      refine ⟨dx, hdx, ?_⟩
      intro y hy hns
      obtain ⟨d', hd', hle⟩ := hleave y hy (fun h => hns (.inl h))
      exact ⟨d', hopen y d' (fun h => hns (.inr h)) (fun h => hns (.inl h)) hd', hle⟩
  | inr hx =>
      subst hx
      exact ⟨d, hu, fun y hy _ => ⟨_, hout y hy, le_refl _⟩⟩

variable [IsOrderedAddMonoid R]

theorem Consistent.walk (hcons : Consistent edge weight h) (hw : IsWalk edge a b l) :
    h a ≤ walkCost weight l + h b := by
  induction l generalizing a with
  | nil => exact absurd hw.head (by simp)
  | cons x l ih =>
      obtain ⟨hl, hab⟩ | ⟨y, l', hl, hedge, hrest⟩ := hw.cases_cons
      · rw [hl, hab]
        simp [walkCost]
      · obtain ⟨hx, htail⟩ := List.cons.inj hl
        subst hx htail
        have hstep := hcons _ _ hedge
        have htail := ih hrest
        rw [walkCost_cons hrest]
        grind

/-- Consistency leaves no room for a closed walk of negative cost. -/
theorem Consistent.least_self (hcons : Consistent edge weight h) (a : V) :
    Least edge weight a a 0 := by
  refine ⟨⟨[a], .single a, rfl⟩, ?_⟩
  intro l hl
  have hwalk := hcons.walk hl
  grind

/-- A walk that leaves the settled vertices does so past an open entry. -/
theorem Frontier.leaves (hf : Frontier edge weight source settled opened)
    (hcons : Consistent edge weight h) {x : V} {dx : R} (hx : settled x)
    (hleast : Least edge weight source x dx) (hu : ¬ settled u) (hw : IsWalk edge x u l) :
    ∃ y d', opened y d' ∧ d' + h y ≤ dx + walkCost weight l + h u := by
  induction l generalizing x dx with
  | nil => exact absurd hw.head (by simp)
  | cons z l ih =>
      obtain ⟨_, hxu⟩ | ⟨y, l', hl, hedge, hrest⟩ := hw.cases_cons
      · exact absurd (hxu ▸ hx) hu
      · obtain ⟨hz, htail⟩ := List.cons.inj hl
        subst hz htail
        rw [walkCost_cons hrest]
        obtain ⟨d, hd, hout⟩ := hf.expanded _ hx
        obtain ⟨lx, hlx, hcost⟩ := hleast.attained
        have hdx : d ≤ dx := hcost ▸ hd.least lx hlx
        by_cases hy : settled y
        · obtain ⟨dy, hdy, _⟩ := hf.expanded y hy
          have hstep : dy ≤ dx + weight z y := by
            have hle := hdy.least _ (hlx.snoc hedge)
            rwa [walkCost_snoc hlx.last, hcost] at hle
          obtain ⟨y', d', hopen, hle⟩ := ih hy hdy hrest
          exact ⟨y', d', hopen, by grind⟩
        · obtain ⟨d', hopen, hle⟩ := hout y hedge hy
          have hwalk := hcons.walk hrest
          exact ⟨y, d', hopen, by grind⟩

/-- An open entry that is attained and smallest under the estimates is exact. -/
theorem Frontier.least_of_smallest (hf : Frontier edge weight source settled opened)
    (hcons : Consistent edge weight h) (hu : ¬ settled u)
    (hwalk : ∃ l, IsWalk edge source u l ∧ walkCost weight l = d)
    (hsmall : ∀ y d', opened y d' → d + h u ≤ d' + h y) : Least edge weight source u d := by
  refine ⟨hwalk, ?_⟩
  intro l hl
  obtain ⟨y, d', hopen, hle⟩ := hf.leaves hcons hf.root (hcons.least_self source) hu hl
  have hmin := hsmall y d' hopen
  grind

/-- The frontier of a search that has settled its source only. -/
theorem Frontier.start (hcons : Consistent edge weight h)
    (hout : ∀ y, edge source y → opened y (weight source y)) :
    Frontier edge weight source (fun x => x = source) opened := by
  refine ⟨rfl, ?_⟩
  intro x hx
  subst hx
  exact ⟨0, hcons.least_self _, fun y hy _ => ⟨_, hout y hy, by simp⟩⟩

end Estimates

end UmnProjects.BestFirst
