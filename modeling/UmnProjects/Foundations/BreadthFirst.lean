import UmnProjects.Foundations.BestFirst

/-!
The queue of a breadth-first search that marks a vertex when it is pushed.

The queue holds walks from the source. Their ends are visited, they have as few edges as
possible, and no two of them differ by more than one edge; what is visited and not in the
queue leads to visited vertices only. Hence every unvisited vertex is farther away than
the end of the first walk.
-/
namespace UmnProjects.BreadthFirst
open BestFirst

variable {V : Type} {edge : V → V → Prop} {a b source u v : V} {l l' : List V}

/-- No walk between the same vertices has fewer edges. -/
structure Fewest (edge : V → V → Prop) (a b : V) (l : List V) : Prop where
  walk : IsWalk edge a b l
  fewest : ∀ l', IsWalk edge a b l' → l.length ≤ l'.length

theorem fewest_single (a : V) : Fewest edge a a [a] := by
  refine ⟨.single a, ?_⟩
  intro l hl
  cases l with
  | nil => cases hl.head
  | cons x l => exact Nat.succ_le_succ (Nat.zero_le _)

/-- A walk that ends outside a set it starts in leaves it along some edge. -/
theorem exists_leaving {visited : V → Prop} (hl : IsWalk edge a b l) (ha : visited a)
    (hb : ¬ visited b) : ∃ v w front, visited v ∧ ¬ visited w ∧ edge v w ∧
      IsWalk edge a v front ∧ front.length < l.length := by
  induction l generalizing a with
  | nil => cases hl.head
  | cons x l ih =>
      obtain ⟨_, hab⟩ | ⟨y, l', heq, hedge, hrest⟩ := hl.cases_cons
      · exact absurd (hab ▸ ha) hb
      · obtain ⟨rfl, rfl⟩ := List.cons.inj heq
        have hlong : 1 < (x :: l).length := by
          cases l with
          | nil => cases hrest.head
          | cons z l => simp
        by_cases hy : visited y
        · obtain ⟨v, w, front, hv, hw, hvw, hfront, hlt⟩ := ih hrest hy
          exact ⟨v, w, x :: front, hv, hw, hvw, hfront.cons hedge, Nat.succ_lt_succ hlt⟩
        · exact ⟨x, y, [x], ha, hy, hedge, .single x, hlong⟩

structure Layers (edge : V → V → Prop) (source : V) (visited : V → Prop)
    (queue : List (List V)) : Prop where
  root : visited source
  fewest : ∀ l ∈ queue, ∃ v, Fewest edge source v l
  sorted : queue.Pairwise fun l l' => l.length ≤ l'.length
  close : ∀ l ∈ queue, ∀ l' ∈ queue, l'.length ≤ l.length + 1
  closed : ∀ v, visited v → (∃ l ∈ queue, l.getLast? = some v) ∨ ∀ w, edge v w → visited w

namespace Layers

variable {visited visited' : V → Prop} {queue rest : List (List V)}

theorem start (source : V) : Layers edge source (fun v => v = source) [[source]] := by
  refine ⟨rfl, ?_, List.pairwise_singleton _ _, ?_, ?_⟩
  · intro l hl
    obtain rfl := List.mem_singleton.mp hl
    exact ⟨source, fewest_single source⟩
  · intro l hl l' hl'
    obtain rfl := List.mem_singleton.mp hl
    obtain rfl := List.mem_singleton.mp hl'
    exact Nat.le_succ _
  · rintro v rfl
    exact .inl ⟨[v], List.mem_singleton.mpr rfl, rfl⟩

theorem first_le (h : Layers edge source visited (l :: rest)) {l' : List V}
    (hl' : l' ∈ l :: rest) : l.length ≤ l'.length := by
  obtain rfl | hl' := List.mem_cons.mp hl'
  · exact Nat.le_refl _
  · exact List.rel_of_pairwise_cons h.sorted hl'

/-- Unvisited vertices are farther away than the end of the first walk. -/
theorem lt_of_unvisited (h : Layers edge source visited (l :: rest)) (hv : ¬ visited v)
    (hl' : IsWalk edge source v l') : l.length < l'.length := by
  obtain ⟨x, y, front, hx, hy, hxy, hfront, hlt⟩ := exists_leaving hl' h.root hv
  obtain ⟨m, hm, hlast⟩ | hclosed := h.closed x hx
  · obtain ⟨x', hfewest⟩ := h.fewest m hm
    obtain rfl : x' = x := Option.some.inj (hfewest.walk.last.symm.trans hlast)
    have hle := h.first_le hm
    have hle' := hfewest.fewest front hfront
    omega
  · exact absurd (hclosed y hxy) hy

/-- The walk to an unvisited successor of the first walk's end. -/
theorem fewest_next (h : Layers edge source visited (l :: rest)) (hl : IsWalk edge source u l)
    (hv : ¬ visited v) (hedge : edge u v) : Fewest edge source v (l ++ [v]) := by
  refine ⟨hl.snoc hedge, ?_⟩
  intro l' hl'
  have hlt := h.lt_of_unvisited hv hl'
  rw [List.length_append, List.length_singleton]
  exact hlt

/-- The first walk is replaced by its extensions to the vertices it discovers. -/
theorem expand (h : Layers edge source visited (l :: rest)) (hl : IsWalk edge source u l)
    (fresh : List V) (hfresh : ∀ w ∈ fresh, edge u w ∧ ¬ visited w)
    (hvisited : ∀ w, visited' w ↔ visited w ∨ w ∈ fresh)
    (hall : ∀ w, edge u w → visited' w) :
    Layers edge source visited' (rest ++ fresh.map fun w => l ++ [w]) := by
  have hlong : ∀ l' ∈ fresh.map fun w => l ++ [w], l'.length = l.length + 1 := by
    intro l' hl'
    obtain ⟨w, _, rfl⟩ := List.mem_map.mp hl'
    simp
  have hrest : ∀ l' ∈ rest, l.length ≤ l'.length ∧ l'.length ≤ l.length + 1 :=
    fun l' hl' => ⟨h.first_le (List.mem_cons_of_mem _ hl'),
      h.close l List.mem_cons_self l' (List.mem_cons_of_mem _ hl')⟩
  refine ⟨(hvisited source).mpr (.inl h.root), ?_, ?_, ?_, ?_⟩
  · intro l' hl'
    obtain hl' | hl' := List.mem_append.mp hl'
    · exact h.fewest l' (List.mem_cons_of_mem _ hl')
    · obtain ⟨w, hw, rfl⟩ := List.mem_map.mp hl'
      exact ⟨w, h.fewest_next hl (hfresh w hw).2 (hfresh w hw).1⟩
  · refine List.pairwise_append.mpr ⟨h.sorted.of_cons, ?_, ?_⟩
    · exact List.pairwise_of_forall_mem_list fun m hm m' hm' => by
        rw [hlong m hm, hlong m' hm']
    · intro m hm m' hm'
      rw [hlong m' hm']
      exact (hrest m hm).2
  · intro m hm m' hm'
    have hbounds : ∀ m ∈ rest ++ fresh.map fun w => l ++ [w],
        l.length ≤ m.length ∧ m.length ≤ l.length + 1 := by
      intro m hm
      obtain hm | hm := List.mem_append.mp hm
      · exact hrest m hm
      · have heq := hlong m hm
        omega
    have h1 := hbounds m hm
    have h2 := hbounds m' hm'
    omega
  · intro x hx
    obtain hx | hx := (hvisited x).mp hx
    · obtain ⟨m, hm, hlast⟩ | hclosed := h.closed x hx
      · obtain rfl | hm := List.mem_cons.mp hm
        · obtain rfl : u = x := Option.some.inj (hl.last.symm.trans hlast)
          exact .inr hall
        · exact .inl ⟨m, List.mem_append_left _ hm, hlast⟩
      · exact .inr fun y hxy => (hvisited y).mpr (.inl (hclosed y hxy))
    · refine .inl ⟨l ++ [x], List.mem_append_right _ ?_, List.getLast?_concat⟩
      exact List.mem_map.mpr ⟨x, hx, rfl⟩

/-- Once the queue is empty, everything reachable has been visited. -/
theorem visited_of_reachable (h : Layers edge source visited [])
    (hv : Relation.ReflTransGen edge source v) : visited v := by
  have hspread : Spread edge visited fun _ => False := by
    intro x y hx hxy
    obtain ⟨l, hl, _⟩ | hclosed := h.closed x hx
    · cases hl
    · exact .inl (hclosed y hxy)
  exact hspread.settled_of_reachable (fun _ => not_false) h.root hv

end Layers

end UmnProjects.BreadthFirst
