import Mathlib.Algebra.Ring.Int.Defs
import UmnProjects.Foundations.BreadthFirst
import UmnProjects.Routing.Pathing

/-!
`DepthFirstSearch::GetPath`, which is a breadth-first search: its candidates wait in a
queue. A name is marked as visited when it is pushed, and the goal is recognised among the
neighbours of the candidate at the front, before they are looked up among the visited.
-/
namespace UmnProjects.Routing
open BestFirst BreadthFirst Runs

namespace DepthFirstSearch

/-- The variables of the loop. -/
structure Traversal (K : Type) where
  visited : List String
  possiblePaths : List (CandidatePath K)
  result : Option (List String)
deriving DecidableEq

variable {P K : Type} [Zero K]

def Traversal.initial (source : String) : Traversal K where
  visited := [source]
  possiblePaths := [⟨.base source, 0, 0⟩]
  result := none

/-- `GetPath` up to its loop. -/
def enter (graph : IGraph P K) (source target : String) : Except String (Traversal K) :=
  match graph.getNode source, graph.getNode target with
  | none, _ => .error ("'from' node not found in graph: " ++ source)
  | some _, none => .error ("'to' node not found in graph: " ++ target)
  | some _, some _ => .ok (.initial source)

/-- The candidate that is pushed for a neighbour. -/
def extend (path : CandidatePath K) (nextName : String) : CandidatePath K :=
  ⟨.push nextName path.path, 0, 0⟩

/-- The loop over the neighbours of the node a path ends at. -/
def examine (graph : IGraph P K) (target : String) (path : CandidatePath K) :
    List P → Traversal K → Traversal K
  | [], s => s
  | next :: nextSteps, s =>
      let nextName := graph.getName next
      if nextName = target then { s with result := some (path.path.toList ++ [nextName]) }
      else if nextName ∈ s.visited then examine graph target path nextSteps s
      else examine graph target path nextSteps
        { s with
          visited := s.visited ++ [nextName]
          possiblePaths := s.possiblePaths ++ [extend path nextName] }

/-- One round of the loop. -/
def step (graph : IGraph P K) (target : String) (s : Traversal K) (_ : Unit) :
    Option (Traversal K) :=
  match s.result, s.possiblePaths with
  | none, path :: rest =>
      let s := { s with possiblePaths := rest }
      match graph.getNode path.path.top with
      | none => some s
      | some pathEndNode =>
          some (examine graph target path (graph.getNeighbors pathEndNode) s)
  | _, _ => none

variable {graph : IGraph P K} {source target : String} {s t : Traversal K}
variable {path : CandidatePath K} {rest : List (CandidatePath K)}

/-- The names of a list that are new, each of them once. -/
structure Fresh (visited names fresh : List String) : Prop where
  nodup : fresh.Nodup
  unvisited : ∀ w ∈ fresh, w ∉ visited
  listed : ∀ w ∈ fresh, w ∈ names

/-- What a round does with the candidate at the front. -/
inductive Round (graph : IGraph P K) (target : String) (s : Traversal K)
    (path : CandidatePath K) (rest : List (CandidatePath K)) : Traversal K → Prop where
  | missing : graph.getNode path.path.top = none →
      Round graph target s path rest { s with possiblePaths := rest }
  | found (node : P) (fresh : List String) : graph.getNode path.path.top = some node →
      Fresh s.visited ((graph.getNeighbors node).map graph.getName) fresh →
      target ∈ (graph.getNeighbors node).map graph.getName →
      Round graph target s path rest
        { visited := s.visited ++ fresh, possiblePaths := rest ++ fresh.map (extend path)
          result := some (path.path.toList ++ [target]) }
  | expand (node : P) (fresh : List String) : graph.getNode path.path.top = some node →
      Fresh s.visited ((graph.getNeighbors node).map graph.getName) fresh →
      (∀ w ∈ (graph.getNeighbors node).map graph.getName, w ∈ s.visited ++ fresh) →
      target ∉ (graph.getNeighbors node).map graph.getName →
      Round graph target s path rest
        { s with visited := s.visited ++ fresh, possiblePaths := rest ++ fresh.map (extend path) }

theorem fresh_nil (visited names : List String) : Fresh visited names [] :=
  ⟨List.nodup_nil, nofun, nofun⟩

theorem Fresh.skip {visited names fresh : List String} (h : Fresh visited names fresh)
    (w : String) : Fresh visited (w :: names) fresh :=
  ⟨h.nodup, h.unvisited, fun x hx => List.mem_cons_of_mem _ (h.listed x hx)⟩

theorem Fresh.cons {visited names fresh : List String} {w : String}
    (h : Fresh (visited ++ [w]) names fresh) (hw : w ∉ visited) :
    Fresh visited (w :: names) (w :: fresh) := by
  refine ⟨List.nodup_cons.mpr ⟨?_, h.nodup⟩, ?_, ?_⟩
  · intro hmem
    exact h.unvisited w hmem (List.mem_append_right _ (List.mem_singleton.mpr rfl))
  · intro x hx
    obtain rfl | hx := List.mem_cons.mp hx
    · exact hw
    · exact fun hmem => h.unvisited x hx (List.mem_append_left _ hmem)
  · intro x hx
    obtain rfl | hx := List.mem_cons.mp hx
    · exact List.mem_cons_self
    · exact List.mem_cons_of_mem _ (h.listed x hx)

/-- The loop over the neighbours stops at the target or pushes all that are new. -/
theorem examine_cases (graph : IGraph P K) (target : String) (path : CandidatePath K)
    (nextSteps : List P) (s : Traversal K) :
    ∃ fresh, Fresh s.visited (nextSteps.map graph.getName) fresh ∧
      (target ∈ nextSteps.map graph.getName ∧ examine graph target path nextSteps s =
          { visited := s.visited ++ fresh
            possiblePaths := s.possiblePaths ++ fresh.map (extend path)
            result := some (path.path.toList ++ [target]) } ∨
        target ∉ nextSteps.map graph.getName ∧
        (∀ w ∈ nextSteps.map graph.getName, w ∈ s.visited ++ fresh) ∧
        examine graph target path nextSteps s =
          { s with
            visited := s.visited ++ fresh
            possiblePaths := s.possiblePaths ++ fresh.map (extend path) }) := by
  induction nextSteps generalizing s with
  | nil => exact ⟨[], fresh_nil _ _, .inr ⟨nofun, nofun, by simp [examine]⟩⟩
  | cons next nextSteps ih =>
      simp only [examine, List.map_cons, List.mem_cons]
      split
      · case isTrue htarget =>
          exact ⟨[], fresh_nil _ _, .inl ⟨.inl htarget.symm, by simp [htarget]⟩⟩
      · case isFalse htarget =>
          have hne : target ≠ graph.getName next := fun h => htarget h.symm
          split
          · case isTrue hvisited =>
              obtain ⟨fresh, hfresh, hstop | ⟨hno, hall, heq⟩⟩ := ih s
              · exact ⟨fresh, hfresh.skip _, .inl ⟨.inr hstop.1, hstop.2⟩⟩
              · refine ⟨fresh, hfresh.skip _, .inr ⟨not_or.mpr ⟨hne, hno⟩, ?_, heq⟩⟩
                rintro w (rfl | hw)
                · exact List.mem_append_left _ hvisited
                · exact hall w hw
          · case isFalse hvisited =>
              obtain ⟨fresh, hfresh, hstop | ⟨hno, hall, heq⟩⟩ := ih
                { s with
                  visited := s.visited ++ [graph.getName next]
                  possiblePaths := s.possiblePaths ++ [extend path (graph.getName next)] }
              · refine ⟨_, hfresh.cons hvisited, .inl ⟨.inr hstop.1, ?_⟩⟩
                rw [hstop.2]
                simp
              · refine ⟨_, hfresh.cons hvisited, .inr ⟨not_or.mpr ⟨hne, hno⟩, ?_, ?_⟩⟩
                · rintro w (rfl | hw)
                  · simp
                  · simpa using hall w hw
                · rw [heq]
                  simp

theorem round_of_step (h : step graph target s () = some t) :
    ∃ path rest, s.result = none ∧ s.possiblePaths = path :: rest ∧
      Round graph target s path rest t := by
  unfold step at h
  split at h
  · case h_1 path rest hresult hpaths =>
      refine ⟨path, rest, hresult, hpaths, ?_⟩
      split at h
      · case h_1 hnode =>
          cases h
          exact .missing hnode
      · case h_2 node hnode =>
          cases h
          obtain ⟨fresh, hfresh, ⟨hmem, heq⟩ | ⟨hno, hall, heq⟩⟩ :=
            examine_cases graph target path (graph.getNeighbors node)
              { s with possiblePaths := rest }
          · rw [heq]
            exact .found node fresh hnode hfresh hmem
          · rw [heq]
            exact .expand node fresh hnode hfresh hall hno
  · cases h

/-! ### What holds before every round -/

structure TraversalValid (graph : IGraph P K) (source target : String) (s : Traversal K) :
    Prop where
  layers : s.result = none → Layers graph.Edge source (fun x => x ∈ s.visited)
    (s.possiblePaths.map fun c => c.path.toList)
  avoided : s.result = none → ∀ v ∈ s.visited,
    (∃ c ∈ s.possiblePaths, c.path.top = v) ∨ ¬ graph.Edge v target
  goal : source ≠ target → s.result = none → target ∉ s.visited
  candidates : ∀ c ∈ s.possiblePaths, IsWalk graph.Edge source c.path.top c.path.toList ∧
    c.path.toList.Nodup ∧ ∀ x ∈ c.path.toList, x ∈ s.visited
  result : ∀ path, s.result = some path → ∃ v front, path = front ++ [target] ∧
    IsWalk graph.Edge source v front ∧ graph.Edge v target ∧
    (source ≠ target → Fewest graph.Edge source target path ∧ path.Nodup)

theorem traversalValid_initial :
    TraversalValid graph source target (.initial source : Traversal K) := by
  refine ⟨?_, ?_, ?_, ?_, ?_⟩
  · intro _
    simpa [Traversal.initial, FStack.toList] using Layers.start source
  · intro _ v hv
    exact .inl ⟨_, List.mem_singleton.mpr rfl, (List.mem_singleton.mp hv).symm⟩
  · intro hne _ hmem
    exact hne (List.mem_singleton.mp hmem).symm
  · intro c hc
    obtain rfl := List.mem_singleton.mp hc
    exact ⟨.single source, List.nodup_singleton _, fun x hx => hx⟩
  · intro path hpath
    cases hpath

/-- The candidates that are pushed for the new names. -/
theorem TraversalValid.pushed (h : TraversalValid graph source target s)
    (hpath : path ∈ s.possiblePaths) {node : P} {fresh : List String}
    (hnode : graph.getNode path.path.top = some node)
    (hfresh : Fresh s.visited ((graph.getNeighbors node).map graph.getName) fresh)
    {c : CandidatePath K} (hc : c ∈ fresh.map (extend path)) :
    IsWalk graph.Edge source c.path.top c.path.toList ∧ c.path.toList.Nodup ∧
      ∀ x ∈ c.path.toList, x ∈ s.visited ++ fresh := by
  obtain ⟨hwalk, hnodup, hvisited⟩ := h.candidates path hpath
  obtain ⟨w, hw, rfl⟩ := List.mem_map.mp hc
  simp only [extend, FStack.top, FStack.toList]
  refine ⟨hwalk.snoc ((IGraph.mem_neighborNames_iff hnode).mp (hfresh.listed w hw)), ?_, ?_⟩
  · rw [← List.concat_eq_append]
    exact hnodup.concat fun hmem => hfresh.unvisited w hw (hvisited w hmem)
  · intro x hx
    obtain hx | hx := List.mem_append.mp hx
    · exact List.mem_append_left _ (hvisited x hx)
    · exact List.mem_append_right _ (List.mem_singleton.mp hx ▸ hw)

theorem TraversalValid.round (h : TraversalValid graph source target s)
    (hresult : s.result = none) (hpaths : s.possiblePaths = path :: rest)
    (hround : Round graph target s path rest t) : TraversalValid graph source target t := by
  have hpath : path ∈ s.possiblePaths := hpaths ▸ List.mem_cons_self
  have hrest : ∀ c ∈ rest, c ∈ s.possiblePaths := fun c hc => hpaths ▸ List.mem_cons_of_mem _ hc
  have hlayers := h.layers hresult
  rw [hpaths, List.map_cons] at hlayers
  obtain ⟨hwalk, hnodup, hvisited⟩ := h.candidates path hpath
  have hopen : ∀ v, (∃ c ∈ s.possiblePaths, c.path.top = v) →
      v = path.path.top ∨ ∃ c ∈ rest, c.path.top = v := by
    rintro v ⟨c, hc, rfl⟩
    rw [hpaths] at hc
    obtain rfl | hc := List.mem_cons.mp hc
    · exact .inl rfl
    · exact .inr ⟨c, hc, rfl⟩
  cases hround with
  | missing hnode =>
      have hno : ∀ w, ¬ graph.Edge path.path.top w := by
        rintro w ⟨p, hp, _⟩
        rw [hnode] at hp
        cases hp
      refine ⟨?_, ?_, h.goal, fun c hc => h.candidates c (hrest c hc), h.result⟩
      · intro _
        simpa using hlayers.expand hwalk [] nofun (fun w => by simp)
          fun w hw => absurd hw (hno w)
      · intro _ v hv
        obtain hc | hv := h.avoided hresult v hv
        · obtain rfl | hc := hopen v hc
          · exact .inr (hno target)
          · exact .inl hc
        · exact .inr hv
  | found node fresh hnode hfresh hmem =>
      refine ⟨nofun, nofun, nofun, ?_, ?_⟩
      · intro c hc
        obtain hc | hc := List.mem_append.mp hc
        · obtain ⟨hw, hn, hv⟩ := h.candidates c (hrest c hc)
          exact ⟨hw, hn, fun x hx => List.mem_append_left _ (hv x hx)⟩
        · exact h.pushed hpath hnode hfresh hc
      · intro found hfound
        cases hfound
        have hedge := (IGraph.mem_neighborNames_iff hnode).mp hmem
        refine ⟨path.path.top, path.path.toList, rfl, hwalk, hedge, ?_⟩
        intro hne
        have hgoal := h.goal hne hresult
        refine ⟨hlayers.fewest_next hwalk hgoal hedge, ?_⟩
        rw [← List.concat_eq_append]
        exact hnodup.concat fun hmem => hgoal (hvisited target hmem)
  | expand node fresh hnode hfresh hall hno =>
      refine ⟨?_, ?_, ?_, ?_, h.result⟩
      · intro _
        have hexpand := hlayers.expand hwalk fresh
          (fun w hw => ⟨(IGraph.mem_neighborNames_iff hnode).mp (hfresh.listed w hw),
            hfresh.unvisited w hw⟩)
          (fun w => List.mem_append)
          (fun w hw => hall w ((IGraph.mem_neighborNames_iff hnode).mpr hw))
        simpa [extend, FStack.toList, Function.comp_def] using hexpand
      · intro _ v hv
        obtain hv | hv := List.mem_append.mp hv
        · obtain hc | hv := h.avoided hresult v hv
          · obtain rfl | ⟨c, hc, hctop⟩ := hopen v hc
            · exact .inr fun hedge => hno ((IGraph.mem_neighborNames_iff hnode).mpr hedge)
            · exact .inl ⟨c, List.mem_append_left _ hc, hctop⟩
          · exact .inr hv
        · exact .inl ⟨_, List.mem_append_right _ (List.mem_map_of_mem hv), rfl⟩
      · intro hne _ hmem
        obtain hmem | hmem := List.mem_append.mp hmem
        · exact h.goal hne hresult hmem
        · exact hno (hfresh.listed target hmem)
      · intro c hc
        obtain hc | hc := List.mem_append.mp hc
        · obtain ⟨hw, hn, hv⟩ := h.candidates c (hrest c hc)
          exact ⟨hw, hn, fun x hx => List.mem_append_left _ (hv x hx)⟩
        · exact h.pushed hpath hnode hfresh hc

theorem TraversalValid.step (h : TraversalValid graph source target s) {u : Unit}
    (hstep : step graph target s u = some t) : TraversalValid graph source target t := by
  obtain ⟨path, rest, hresult, hpaths, hround⟩ := round_of_step hstep
  exact h.round hresult hpaths hround

theorem TraversalValid.of_reaches
    (hrun : Reaches (DepthFirstSearch.step graph target) (.initial source) s) :
    TraversalValid graph source target s :=
  hrun.invariant (fun _ _ _ _ hstep h => h.step hstep) traversalValid_initial

/-! ### The end of the loop -/

theorem queue_empty_of_final (hfinal : Final (step graph target) s) (hresult : s.result = none) :
    s.possiblePaths = [] := by
  cases hpaths : s.possiblePaths with
  | nil => rfl
  | cons path rest =>
      have hnone := hfinal ()
      simp only [DepthFirstSearch.step, hresult, hpaths] at hnone
      split at hnone <;> cases hnone

/-- The loop stops with a result exactly if some walk of one edge or more leads to the
target. -/
theorem TraversalValid.returned_iff (h : TraversalValid graph source target s)
    (hfinal : Final (DepthFirstSearch.step graph target) s) :
    s.result.isSome ↔ Relation.TransGen graph.Edge source target := by
  constructor
  · intro hsome
    obtain ⟨path, hpath⟩ := Option.isSome_iff_exists.mp hsome
    obtain ⟨v, front, _, hwalk, hedge, _⟩ := h.result path hpath
    exact .tail' hwalk.reachable hedge
  · intro hreach
    cases hresult : s.result with
    | some path => rfl
    | none =>
        have hqueue := queue_empty_of_final hfinal hresult
        have hlayers := h.layers hresult
        rw [hqueue] at hlayers
        obtain ⟨v, hv, hedge⟩ := Relation.TransGen.tail'_iff.mp hreach
        obtain ⟨c, hc, _⟩ | hno := h.avoided hresult v (hlayers.visited_of_reachable hv)
        · rw [hqueue] at hc
          cases hc
        · exact absurd hedge hno

/-- The names that are left to visit and the candidates in the queue. A name that is visited
is pushed once, so a round lowers their number by the candidate that it takes. -/
def remaining (names : Finset String) (s : Traversal K) : ℕ :=
  (names \ s.visited.toFinset).card + s.possiblePaths.length

theorem card_fresh {names : Finset String} {visited listed fresh : List String}
    (hfresh : Fresh visited listed fresh) (hknown : ∀ w ∈ fresh, w ∈ names) :
    (names \ (visited ++ fresh).toFinset).card + fresh.length =
      (names \ visited.toFinset).card := by
  have hsub : fresh.toFinset ⊆ names \ visited.toFinset := by
    intro w hw
    rw [List.mem_toFinset] at hw
    exact Finset.mem_sdiff.mpr ⟨hknown w hw, by simpa using hfresh.unvisited w hw⟩
  have hdiff : names \ (visited ++ fresh).toFinset =
      (names \ visited.toFinset) \ fresh.toFinset := by
    rw [List.toFinset_append, sdiff_sdiff_left]
    rfl
  rw [hdiff, ← List.toFinset_card_of_nodup hfresh.nodup]
  exact Finset.card_sdiff_add_card_eq_card hsub

theorem TraversalValid.remaining_lt (h : TraversalValid graph source target s)
    {names : Finset String} (hnames : ∀ u, graph.Reachable source u → u ∈ names) {u : Unit}
    (hstep : DepthFirstSearch.step graph target s u = some t) :
    remaining names t < remaining names s := by
  obtain ⟨path, rest, _, hpaths, hround⟩ := round_of_step hstep
  have hlength : s.possiblePaths.length = rest.length + 1 := by
    rw [hpaths, List.length_cons]
  have hreach := (h.candidates path (hpaths ▸ List.mem_cons_self)).1.reachable
  cases hround with
  | missing _ =>
      simp only [remaining, hlength]
      omega
  | found node fresh hnode hfresh _ | expand node fresh hnode hfresh _ _ =>
      have hknown : ∀ w ∈ fresh, w ∈ names := fun w hw =>
        hnames w (hreach.tail ((IGraph.mem_neighborNames_iff hnode).mp (hfresh.listed w hw)))
      have hcard := card_fresh hfresh hknown
      simp only [remaining, hlength, List.length_append, List.length_map]
      omega

theorem terminates_initial (target : String) (hfin : graph.FiniteNodes) :
    Terminates (step graph target) (.initial source : Traversal K) := by
  obtain ⟨names, hnames⟩ := hfin.exists_names source
  exact terminates_of_measure (I := TraversalValid graph source target)
    (Nat.lt_wfRel.wf) (remaining names) (fun _ _ _ hstep h => h.step hstep)
    (fun _ _ _ hstep h => h.remaining_lt hnames hstep) traversalValid_initial

/-- The search for a path between two different names of the graph. -/
structure FewestEdgesSearch (K : Type) [Zero K] (graph : IGraph P K) (source target : String) :
    Prop where
  enters : enter graph source target = .ok (.initial source : Traversal K)
  terminates : Terminates (step graph target) (.initial source : Traversal K)
  returns_iff : ∀ s : Traversal K, Reaches (step graph target) (.initial source) s →
    Final (step graph target) s → (s.result.isSome ↔ graph.Reachable source target)
  fewest : ∀ (s : Traversal K) path, Reaches (step graph target) (.initial source) s →
    s.result = some path → IsWalk graph.Edge source target path ∧
      ∀ walk, IsWalk graph.Edge source target walk → path.length ≤ walk.length

end DepthFirstSearch

open DepthFirstSearch in
/-- `GetPath` between two different names of any finite graph, whether or not its neighbour
pointers are its own nodes. -/
theorem getPath_fewestEdges (P K : Type) [Zero K] (graph : IGraph P K) (source target : String)
    (start terminal : P) (hfin : graph.FiniteNodes) (hstart : graph.getNode source = some start)
    (hterminal : graph.getNode target = some terminal) (hne : source ≠ target) :
    FewestEdgesSearch K graph source target := by
  refine ⟨?_, terminates_initial target hfin, ?_, ?_⟩
  · simp only [enter, hstart, hterminal]
  · intro s hrun hfinal
    rw [(TraversalValid.of_reaches hrun).returned_iff hfinal]
    exact (Relation.reflTransGen_iff_eq_or_transGen.trans (or_iff_right fun h => hne h.symm)).symm
  · intro s path hrun hpath
    obtain ⟨v, front, _, _, _, hfewest⟩ := (TraversalValid.of_reaches hrun).result path hpath
    exact ⟨(hfewest hne).1.walk, (hfewest hne).1.fewest⟩

/-- A loop at the first node and two edges to the second. -/
def parallel : IGraph (Fin 3) ℤ where
  getNode name := (List.finRange 3).find? (fun p => ["A", "B", "C"].get p == name)
  getNodes := List.finRange 3
  getName p := ["A", "B", "C"].get p
  getNeighbors p := [[0, 1, 1], [0, 2], []].get p
  getPosition p := [[0], [1], [2]].get p

theorem parallel_finiteNodes : parallel.FiniteNodes := Set.toFinite _

theorem getPath_fewestEdges_parallel :
    DepthFirstSearch.FewestEdgesSearch ℤ parallel "A" "C" ∧
      ∃ s, perform (DepthFirstSearch.step parallel "C") (.initial "A") [(), ()] = some s ∧
        s.result = some ["A", "B", "C"] :=
  ⟨getPath_fewestEdges (Fin 3) ℤ parallel "A" "C" 0 2 parallel_finiteNodes rfl rfl (by decide),
    ⟨_, rfl, rfl⟩⟩

end UmnProjects.Routing
