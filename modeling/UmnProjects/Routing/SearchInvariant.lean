import UmnProjects.Routing.Pathing
import Mathlib.Data.Finset.Max
import Mathlib.Data.Fintype.Basic
import Mathlib.Data.Prod.Lex
import Mathlib.Algebra.Order.Group.Defs

/-!
What a round of the A* loop can do, and the facts about the loop that need no property
of the distances and hold of every finite graph: every candidate is a walk over settled
nodes, the neighbours of a settled node are settled or in the queue, and the loop ends.
-/
namespace UmnProjects.Routing

open BestFirst Runs

variable {P K : Type}

namespace AStar

section Rounds

variable [Add K]

/-- A round of the loop, by the way the popped candidate is treated. -/
inductive Round (strategy : AStar K) (graph : IGraph P K) (target : String) (terminal : P)
    (s : Search K) (candidate : CandidatePath K) (rest : List (CandidatePath K)) :
    Search K → Prop where
  | stale : candidate.path.top ∈ s.visited →
      Round strategy graph target terminal s candidate rest { s with possiblePaths := rest }
  | found : candidate.path.top ∉ s.visited → candidate.path.top = target →
      Round strategy graph target terminal s candidate rest
        { s with
          visited := s.visited ++ [candidate.path.top], possiblePaths := rest,
          result := some candidate.path.toList }
  | missing : candidate.path.top ∉ s.visited → candidate.path.top ≠ target →
      graph.getNode candidate.path.top = none →
      Round strategy graph target terminal s candidate rest
        { s with visited := s.visited ++ [candidate.path.top], possiblePaths := rest }
  | expand (node : P) : candidate.path.top ∉ s.visited → candidate.path.top ≠ target →
      graph.getNode candidate.path.top = some node →
      Round strategy graph target terminal s candidate rest
        { s with
          visited := s.visited ++ [candidate.path.top]
          possiblePaths := rest ++
            (graph.getNeighbors node).map (strategy.extend graph terminal candidate node)
          expanded := s.expanded ++ [candidate.path.top] }

variable {strategy : AStar K} {graph : IGraph P K} {target : String} {terminal : P}
variable {s t : Search K} {i : Nat}

theorem round_visit (candidate : CandidatePath K) (rest : List (CandidatePath K)) :
    Round strategy graph target terminal s candidate rest
      (strategy.visit graph target terminal candidate { s with possiblePaths := rest }) := by
  simp only [visit]
  split
  · case isTrue hvisited => exact .stale hvisited
  · case isFalse hvisited =>
      split
      · case isTrue htarget => exact .found hvisited htarget
      · case isFalse htarget =>
          split
          · case h_1 hnode => exact .missing hvisited htarget hnode
          · case h_2 node hnode => exact .expand node hvisited htarget hnode

variable [LT K] [DecidableLT K]

/-- A round pops a candidate that no other one belongs before. -/
theorem round_of_step (h : strategy.step graph target terminal s i = some t) :
    ∃ candidate rest, s.result = none ∧ s.possiblePaths.Perm (candidate :: rest) ∧
      (∀ c ∈ s.possiblePaths, compareCandidatePaths candidate c = false) ∧
      Round strategy graph target terminal s candidate rest t := by
  unfold step at h
  split at h
  · case h_1 candidate hresult hcandidate =>
      split at h
      · cases h
      · case isFalse htop =>
          obtain ⟨hi, hget⟩ := List.getElem?_eq_some_iff.mp hcandidate
          refine ⟨candidate, s.possiblePaths.eraseIdx i, hresult, ?_, ?_, ?_⟩
          · have hperm := List.getElem_cons_eraseIdx_perm hi
            rw [hget] at hperm
            exact hperm.symm
          · intro c hc
            have hall := List.any_eq_false.mp (Bool.eq_false_iff.mpr htop) c hc
            exact Bool.eq_false_iff.mpr hall
          · cases h
            exact round_visit candidate _
  · cases h

end Rounds

/-- Some candidate belongs before every other one. -/
theorem exists_top [Add K] [LinearOrder K] (paths : List (CandidatePath K)) (hpaths : paths ≠ []) :
    ∃ (i : ℕ) (candidate : CandidatePath K), paths[i]? = some candidate ∧
      paths.any (compareCandidatePaths candidate) = false := by
  have hne : (Finset.univ : Finset (Fin paths.length)).Nonempty :=
    ⟨⟨0, List.length_pos_iff.mpr hpaths⟩, Finset.mem_univ _⟩
  obtain ⟨i, _, hleast⟩ := Finset.exists_min_image Finset.univ
    (fun i : Fin paths.length => paths[i].distance + paths[i].estimate) hne
  refine ⟨i, paths[i], List.getElem?_eq_getElem i.isLt, ?_⟩
  refine List.any_eq_false.mpr ?_
  intro c hc
  obtain ⟨j, hj, hget⟩ := List.mem_iff_getElem.mp hc
  have hle := hleast ⟨j, hj⟩ (Finset.mem_univ _)
  have hc' : paths[(⟨j, hj⟩ : Fin paths.length)] = c := hget
  rw [hc'] at hle
  simpa [compareCandidatePaths] using hle

/-- The loop can stop without a result only with an empty queue. -/
theorem queue_empty_of_final [Add K] [LinearOrder K] {strategy : AStar K}
    {graph : IGraph P K} {target : String} {terminal : P} {s : Search K}
    (hfinal : Final (strategy.step graph target terminal) s)
    (hresult : s.result = none) : s.possiblePaths = [] := by
  by_contra hne
  obtain ⟨i, candidate, hget, htop⟩ := exists_top s.possiblePaths hne
  have hnone := hfinal i
  simp [AStar.step, hresult, hget, htop] at hnone

/-- How many of the names are left to settle, and how many candidates to pop. -/
def remaining (names : Finset String) (s : Search K) : ℕ ×ₗ ℕ :=
  toLex ((names \ s.visited.toFinset).card, s.possiblePaths.length)

theorem remaining_settle {names : Finset String} {s t : Search K}
    {candidate : CandidatePath K} (hknown : candidate.path.top ∈ names)
    (hvisited : candidate.path.top ∉ s.visited)
    (ht : t.visited = s.visited ++ [candidate.path.top]) :
    remaining names t < remaining names s := by
  have hsub : names \ t.visited.toFinset ⊆ names \ s.visited.toFinset := by
    intro x hx
    simp only [ht, Finset.mem_sdiff, List.mem_toFinset, List.mem_append, not_or] at hx ⊢
    exact ⟨hx.1, hx.2.1⟩
  have hstrict : names \ t.visited.toFinset ⊂ names \ s.visited.toFinset := by
    refine (Finset.ssubset_iff_of_subset hsub).mpr ⟨candidate.path.top, ?_, ?_⟩
    · simp [hknown, hvisited]
    · simp [ht]
  exact Prod.Lex.toLex_lt_toLex.mpr (.inl (Finset.card_lt_card hstrict))

/-- The path is a walk that passes through settled nodes only and through none of them
twice. -/
structure SettledWalk (graph : IGraph P K) (source : String) (visited : List String)
    (path : FStack String) : Prop where
  walk : IsWalk graph.Edge source path.top path.toList
  front : ∃ front, path.toList = front ++ [path.top] ∧ front.Nodup ∧ ∀ x ∈ front, x ∈ visited

section Candidates

variable {graph : IGraph P K} {source : String}
variable {visited visited' : List String} {path : FStack String}

theorem settledWalk_base : SettledWalk graph source visited (.base source) :=
  ⟨.single source, [], rfl, List.nodup_nil, by simp⟩

theorem SettledWalk.mono (h : SettledWalk graph source visited path)
    (hsub : ∀ x ∈ visited, x ∈ visited') : SettledWalk graph source visited' path := by
  obtain ⟨front, hlist, hnodup, hfront⟩ := h.front
  exact ⟨h.walk, front, hlist, hnodup, fun x hx => hsub x (hfront x hx)⟩

theorem SettledWalk.nodup (h : SettledWalk graph source visited path)
    (htop : path.top ∉ visited) : path.toList.Nodup := by
  obtain ⟨front, hlist, hnodup, hfront⟩ := h.front
  rw [hlist]
  refine List.nodup_append.mpr ⟨hnodup, List.nodup_singleton _, ?_⟩
  intro x hx y hy hxy
  have hytop := List.mem_singleton.mp hy
  exact htop (hytop ▸ hxy ▸ hfront x hx)

/-- Extending a path whose end is being settled. -/
theorem SettledWalk.push (h : SettledWalk graph source visited path)
    (htop : path.top ∉ visited) {next : String} (hedge : graph.Edge path.top next) :
    SettledWalk graph source (visited ++ [path.top]) (.push next path) := by
  obtain ⟨front, hlist, hnodup, hfront⟩ := h.front
  refine ⟨h.walk.snoc hedge, path.toList, rfl, h.nodup htop, ?_⟩
  intro x hx
  rw [hlist] at hx
  obtain hx | hx := List.mem_append.mp hx
  · exact List.mem_append_left _ (hfront x hx)
  · exact List.mem_append_right _ hx

end Candidates

/-- What holds before every round. -/
structure SearchValid [Zero K] (graph : IGraph P K) (source target : String)
    (s : Search K) : Prop where
  visited : s.visited.Nodup
  expanded : s.expanded.Sublist s.visited
  candidates : ∀ c ∈ s.possiblePaths, SettledWalk graph source s.visited c.path
  origin : s = .initial source ∨ source ∈ s.visited
  goal : s.result = none → target ∉ s.visited
  spread : s.result = none → Spread graph.Edge (fun x => x ∈ s.visited)
    (fun y => ∃ c ∈ s.possiblePaths, c.path.top = y)
  result : ∀ path, s.result = some path → IsWalk graph.Edge source target path ∧ path.Nodup

section Invariant

variable [Zero K]
variable {strategy : AStar K} {graph : IGraph P K} {source target : String} {terminal : P}
variable {s t : Search K} {i : Nat} {candidate : CandidatePath K} {rest : List (CandidatePath K)}

theorem searchValid_initial : SearchValid graph source target (.initial source) := by
  refine ⟨List.nodup_nil, List.Sublist.slnil, ?_, .inl rfl, ?_, ?_, ?_⟩
  · intro c hc
    have hc' : c = ⟨.base source, 0, 0⟩ := List.mem_singleton.mp hc
    exact hc' ▸ settledWalk_base
  · intro _
    simp [Search.initial]
  · intro _ x y hx
    simp [Search.initial] at hx
  · intro path hpath
    simp [Search.initial] at hpath

/-- The first candidate ends at the source; afterwards the source is settled. -/
theorem SearchValid.source_or_top (h : SearchValid graph source target s)
    (hperm : s.possiblePaths.Perm (candidate :: rest)) :
    source ∈ s.visited ∨ (s = .initial source ∧ candidate = ⟨.base source, 0, 0⟩ ∧ rest = []) := by
  obtain hinit | hsource := h.origin
  · right
    subst hinit
    have hsingle := List.perm_singleton.mp hperm.symm
    exact ⟨rfl, List.cons.inj hsingle⟩
  · exact .inl hsource

/-- Settling the end of the popped candidate keeps the origin settled. -/
theorem SearchValid.source_settled (h : SearchValid graph source target s)
    (hperm : s.possiblePaths.Perm (candidate :: rest)) :
    source ∈ s.visited ++ [candidate.path.top] := by
  obtain hsource | ⟨_, hcandidate, _⟩ := h.source_or_top hperm
  · exact List.mem_append_left _ hsource
  · rw [hcandidate]
    exact List.mem_append_right _ (List.mem_singleton.mpr rfl)

theorem nodup_snoc {l : List String} {a : String} (hl : l.Nodup) (ha : a ∉ l) :
    (l ++ [a]).Nodup := by
  rw [← List.concat_eq_append]
  exact hl.concat ha

/-- A name that is not the target leaves the target unsettled. -/
theorem SearchValid.goal_snoc (h : SearchValid graph source target s)
    {u : String} (hu : u ≠ target) (hnone : s.result = none) : target ∉ s.visited ++ [u] := by
  intro hmem
  obtain hmem | hmem := List.mem_append.mp hmem
  · exact h.goal hnone hmem
  · exact hu (List.mem_singleton.mp hmem).symm

variable [Add K]

/-- One round keeps the facts. -/
theorem SearchValid.round (h : SearchValid graph source target s)
    (hperm : s.possiblePaths.Perm (candidate :: rest))
    (hround : Round strategy graph target terminal s candidate rest t) :
    SearchValid graph source target t := by
  have hcandidate := h.candidates candidate (hperm.mem_iff.mpr List.mem_cons_self)
  have hrest : ∀ c ∈ rest, SettledWalk graph source s.visited c.path :=
    fun c hc => h.candidates c (hperm.mem_iff.mpr (List.mem_cons_of_mem _ hc))
  have hgrow : ∀ x ∈ s.visited, x ∈ s.visited ++ [candidate.path.top] :=
    fun x hx => List.mem_append_left _ hx
  have hopen : ∀ y, (∃ c ∈ s.possiblePaths, c.path.top = y) →
      y = candidate.path.top ∨ ∃ c ∈ rest, c.path.top = y := by
    intro y hy
    obtain ⟨c, hc, hctop⟩ := hy
    obtain hc | hc := List.mem_cons.mp (hperm.mem_iff.mp hc)
    · exact .inl (by rw [← hctop, hc])
    · exact .inr ⟨c, hc, hctop⟩
  have hold : s.result = none → ∀ x y, x ∈ s.visited → graph.Edge x y →
      y ∈ s.visited ++ [candidate.path.top] ∨ ∃ c ∈ rest, c.path.top = y := by
    intro hnone x y hx hedge
    obtain hy | hy := h.spread hnone x y hx hedge
    · exact .inl (hgrow y hy)
    · obtain hy | hy := hopen y hy
      · exact .inl (List.mem_append_right _ (List.mem_singleton.mpr hy))
      · exact .inr hy
  cases hround with
  | stale hvisited =>
      refine ⟨h.visited, h.expanded, hrest, ?_, h.goal, ?_, h.result⟩
      · obtain hsource | ⟨hinit, _⟩ := h.source_or_top hperm
        · exact .inr hsource
        · rw [hinit] at hvisited
          exact absurd hvisited List.not_mem_nil
      · intro hnone x y hx hedge
        obtain hy | hy := hold hnone x y hx hedge
        · obtain hy | hy := List.mem_append.mp hy
          · exact .inl hy
          · exact .inl (List.mem_singleton.mp hy ▸ hvisited)
        · exact .inr hy
  | found hvisited htarget =>
      refine ⟨nodup_snoc h.visited hvisited, h.expanded.trans (List.sublist_append_left _ _),
        fun c hc => (hrest c hc).mono hgrow, .inr (h.source_settled hperm), ?_, ?_, ?_⟩
      · intro hnone
        cases hnone
      · intro hnone
        cases hnone
      · intro path hpath
        cases hpath
        exact ⟨htarget ▸ hcandidate.walk, hcandidate.nodup hvisited⟩
  | missing hvisited htarget hnode =>
      refine ⟨nodup_snoc h.visited hvisited, h.expanded.trans (List.sublist_append_left _ _),
        fun c hc => (hrest c hc).mono hgrow, .inr (h.source_settled hperm),
        h.goal_snoc htarget, ?_, h.result⟩
      · intro hnone x y hx hedge
        obtain hx | hx := List.mem_append.mp hx
        · exact hold hnone x y hx hedge
        · rw [List.mem_singleton.mp hx] at hedge
          exact absurd hedge (IGraph.not_edge hnode y)
  | expand node hvisited htarget hnode =>
      refine ⟨nodup_snoc h.visited hvisited, h.expanded.append (List.Sublist.refl _),
        ?_, .inr (h.source_settled hperm), h.goal_snoc htarget, ?_, h.result⟩
      · intro c hc
        obtain hc | hc := List.mem_append.mp hc
        · exact (hrest c hc).mono hgrow
        · obtain ⟨next, hnext, hc⟩ := List.mem_map.mp hc
          exact hc ▸ hcandidate.push hvisited ⟨node, hnode, next, hnext, rfl⟩
      · intro hnone x y hx hedge
        obtain hx | hx := List.mem_append.mp hx
        · obtain hy | ⟨c, hc, hctop⟩ := hold hnone x y hx hedge
          · exact .inl hy
          · exact .inr ⟨c, List.mem_append_left _ hc, hctop⟩
        · rw [List.mem_singleton.mp hx] at hedge
          obtain ⟨q, hq, hqy⟩ := (IGraph.edge_iff hnode y).mp hedge
          exact .inr ⟨_, List.mem_append_right _ (List.mem_map_of_mem hq), hqy⟩

section Runs

variable [LinearOrder K]

theorem SearchValid.step (h : SearchValid graph source target s)
    (hstep : strategy.step graph target terminal s i = some t) :
    SearchValid graph source target t := by
  obtain ⟨candidate, rest, _, hperm, _, hround⟩ := round_of_step hstep
  exact h.round hperm hround

theorem SearchValid.of_reaches
    (hrun : Reaches (strategy.step graph target terminal) (.initial source) s) :
    SearchValid graph source target s :=
  hrun.invariant (fun _ _ _ _ hstep h => h.step hstep) searchValid_initial

/-- The loop stops with a result exactly if the target is reachable. -/
theorem SearchValid.returned_iff (h : SearchValid graph source target s)
    (hfinal : Final (strategy.step graph target terminal) s) :
    s.result.isSome ↔ graph.Reachable source target := by
  constructor
  · intro hsome
    obtain ⟨path, hpath⟩ := Option.isSome_iff_exists.mp hsome
    exact (h.result path hpath).1.reachable
  · intro hreach
    cases hresult : s.result with
    | some path => rfl
    | none =>
        have hqueue := queue_empty_of_final hfinal hresult
        have hsource : source ∈ s.visited := by
          obtain hinit | hsource := h.origin
          · rw [hinit] at hqueue
            cases hqueue
          · exact hsource
        have hclosed : ∀ y, ¬ ∃ c ∈ s.possiblePaths, c.path.top = y := by
          intro y hy
          obtain ⟨c, hc, _⟩ := hy
          rw [hqueue] at hc
          exact List.not_mem_nil hc
        exact absurd ((h.spread hresult).settled_of_reachable hclosed hsource hreach)
          (h.goal hresult)

theorem SearchValid.remaining_lt (h : SearchValid graph source target s) {names : Finset String}
    (hnames : ∀ u, graph.Reachable source u → u ∈ names)
    (hstep : strategy.step graph target terminal s i = some t) :
    remaining names t < remaining names s := by
  obtain ⟨candidate, rest, _, hperm, _, hround⟩ := round_of_step hstep
  have hcandidate := h.candidates candidate (hperm.mem_iff.mpr List.mem_cons_self)
  have hknown := hnames _ hcandidate.walk.reachable
  cases hround with
  | stale _ =>
      refine Prod.Lex.toLex_lt_toLex.mpr (.inr ⟨rfl, ?_⟩)
      have hlength := hperm.length_eq
      simp only [List.length_cons] at hlength
      change rest.length < s.possiblePaths.length
      omega
  | found hvisited _ | missing hvisited _ _ | expand _ hvisited _ _ =>
      exact remaining_settle hknown hvisited rfl

theorem terminates_initial (strategy : AStar K) (target : String) (terminal : P)
    (hfin : graph.FiniteNodes) :
    Terminates (strategy.step graph target terminal) (.initial source) := by
  obtain ⟨names, hnames⟩ := hfin.exists_names source
  exact terminates_of_measure (I := SearchValid graph source target)
    wellFounded_lt (remaining names)
    (fun _ _ _ hstep h => h.step hstep)
    (fun _ _ _ hstep h => h.remaining_lt hnames hstep) searchValid_initial

/-- Every run ends, and it ends at the return statement. -/
structure AlwaysReturns (strategy : AStar K) (graph : IGraph P K) (source target : String)
    (terminal : P) : Prop where
  enters : enter graph source target = .ok (terminal, .initial source)
  terminates : Terminates (strategy.step graph target terminal) (.initial source)
  returns : ∀ s, Reaches (strategy.step graph target terminal) (.initial source) s →
    Final (strategy.step graph target terminal) s → s.result.isSome

theorem alwaysReturns (strategy : AStar K) (hfin : graph.FiniteNodes) {start : P}
    (hstart : graph.getNode source = some start)
    (hterminal : graph.getNode target = some terminal)
    (hreach : graph.Reachable source target) :
    AlwaysReturns strategy graph source target terminal := by
  refine ⟨?_, terminates_initial strategy target terminal hfin, ?_⟩
  · simp only [enter, hstart, hterminal]
  · intro s hrun hfinal
    exact ((SearchValid.of_reaches hrun).returned_iff hfinal).mpr hreach

end Runs

end Invariant

end AStar

end UmnProjects.Routing
