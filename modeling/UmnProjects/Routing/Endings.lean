import UmnProjects.Routing.ObjGraph
import UmnProjects.Routing.ShortestPath

/-!
When a path search ends in a defined way. Both searches throw for a missing end point, and
both have no return statement behind their loop.
-/
namespace UmnProjects.Routing
open BestFirst Runs

variable {P K S A : Type}

/-- Both names are in the graph and the second is reachable from the first. -/
structure Connected (graph : IGraph P K) (source target : String) : Prop where
  start : (graph.getNode source).isSome
  terminal : (graph.getNode target).isSome
  reachable : graph.Reachable source target

/-- A path where there is one, and otherwise a reported failure: an exception or the empty
path. -/
def Reports (graph : IGraph P K) (source target : String) : Ending (List String) → Prop
  | .returned path => Connected graph source target ∧ IsWalk graph.Edge source target path ∨
      ¬ Connected graph source target ∧ path = []
  | .thrown _ => ¬ Connected graph source target
  | .undefined => False

structure EndsDefined (graph : RoutingGraph P K) (source target : String)
    (search : Except String (Loop S A)) : Prop where
  terminates : ∀ loop, search = .ok loop → Terminates loop.step loop.initial
  reports : ∀ ending, graph.Ends source target search ending →
    Reports graph.toIGraph source target ending

/-- What is known of a search: it throws for a missing end point, its loop ends, and the loop
has a result in the end exactly if `Leads` holds. -/
structure Searches (graph : IGraph P K) (source target : String)
    (search : Except String (Loop S A)) (Leads : Prop) : Prop where
  throws : ∀ message, search = .error message →
    ¬ ((graph.getNode source).isSome ∧ (graph.getNode target).isSome)
  enters : ∀ loop, search = .ok loop →
    (graph.getNode source).isSome ∧ (graph.getNode target).isSome
  terminates : ∀ loop, search = .ok loop → Terminates loop.step loop.initial
  result_iff : ∀ loop s, search = .ok loop → Reaches loop.step loop.initial s →
    Final loop.step s → ((loop.result s).isSome ↔ Leads)
  walk : ∀ loop s path, search = .ok loop → Reaches loop.step loop.initial s →
    loop.result s = some path → IsWalk graph.Edge source target path

theorem searches_error {graph : IGraph P K} {source target message : String} {Leads : Prop}
    (h : ¬ ((graph.getNode source).isSome ∧ (graph.getNode target).isSome)) :
    Searches graph source target (.error message : Except String (Loop S A)) Leads :=
  ⟨fun _ _ => h, nofun, nofun, nofun, nofun⟩

/-- The names that the search asks for are answered, and where both are in the graph its loop
leads to a result. -/
structure Defined (graph : RoutingGraph P K) (source target : String) (Leads : Prop) : Prop where
  answered : graph.Answered source target
  leads : (graph.getNode source).isSome → (graph.getNode target).isSome → Leads

section Outcomes

variable {graph : RoutingGraph P K} {source target : String}
variable {search : Except String (Loop S A)} {Leads : Prop} {ending : Ending (List String)}

theorem Searches.ends_undefined_iff (h : Searches graph.toIGraph source target search Leads) :
    graph.Ends source target search .undefined ↔ ¬ Defined graph source target Leads := by
  constructor
  · rintro hends ⟨hanswered, hleads⟩
    cases hends with
    | unanswered hno => exact hno hanswered
    | fellOff _ hsearch hrun hfinal hresult =>
        obtain ⟨hsource, htarget⟩ := h.enters _ hsearch
        have hsome := (h.result_iff _ _ hsearch hrun hfinal).mpr (hleads hsource htarget)
        rw [hresult] at hsome
        cases hsome
  · intro hno
    by_cases hanswered : graph.Answered source target
    · cases hsearch : search with
      | error message =>
          refine absurd ⟨hanswered, ?_⟩ hno
          intro hsource htarget
          exact absurd ⟨hsource, htarget⟩ (h.throws message hsearch)
      | ok loop =>
          obtain ⟨s, hrun, hfinal⟩ := (h.terminates loop hsearch).exists_final
          cases hresult : loop.result s with
          | none => exact .fellOff hanswered rfl hrun hfinal hresult
          | some path =>
              have hleads := (h.result_iff loop s hsearch hrun hfinal).mp (by rw [hresult]; rfl)
              exact absurd ⟨hanswered, fun _ _ => hleads⟩ hno
    · exact .unanswered hanswered

/-- Every end that is defined is a right one. -/
theorem Searches.reports (h : Searches graph.toIGraph source target search Leads)
    (hends : graph.Ends source target search ending) (hdefined : ending ≠ .undefined) :
    Reports graph.toIGraph source target ending := by
  cases hends with
  | unanswered _ => exact hdefined rfl
  | thrown _ hsearch =>
      exact fun hconnected => h.throws _ hsearch ⟨hconnected.start, hconnected.terminal⟩
  | returned _ hsearch hrun _ hresult =>
      have hwalk := h.walk _ _ _ hsearch hrun hresult
      obtain ⟨hsource, htarget⟩ := h.enters _ hsearch
      exact .inl ⟨⟨hsource, htarget, hwalk.reachable⟩, hwalk⟩
  | fellOff _ _ _ _ _ => exact hdefined rfl

theorem Searches.endsDefined_iff (h : Searches graph.toIGraph source target search Leads) :
    EndsDefined graph source target search ↔ Defined graph source target Leads := by
  rw [← not_iff_not, ← h.ends_undefined_iff]
  constructor
  · intro hno
    by_contra hdefined
    refine hno ⟨h.terminates, fun ending hends => h.reports hends ?_⟩
    rintro rfl
    exact hdefined hends
  · exact fun hends hdefined => hdefined.reports _ hends

theorem Searches.exists_returned (h : Searches graph.toIGraph source target search Leads)
    (hdefined : Defined graph source target Leads) (hsource : (graph.getNode source).isSome)
    (htarget : (graph.getNode target).isSome) :
    ∃ path, graph.Ends source target search (.returned path) := by
  cases search with
  | error message => exact absurd ⟨hsource, htarget⟩ (h.throws message rfl)
  | ok loop =>
      obtain ⟨s, hrun, hfinal⟩ := (h.terminates loop rfl).exists_final
      have hsome := (h.result_iff loop s rfl hrun hfinal).mpr (hdefined.leads hsource htarget)
      obtain ⟨path, hpath⟩ := Option.isSome_iff_exists.mp hsome
      exact ⟨path, .returned hdefined.answered rfl hrun hfinal hpath⟩

/-- What a search returns can be turned into positions. -/
theorem Searches.positionPath_eq (h : Searches graph.toIGraph source target search Leads)
    {path : List String} (hends : graph.Ends source target search (.returned path)) :
    graph.positionPath path = some (path.map graph.positionOf) := by
  cases hends with
  | returned _ hsearch hrun _ hresult =>
      have hwalk := h.walk _ _ _ hsearch hrun hresult
      exact RoutingGraph.positionPath_eq (IGraph.isSome_of_walk hwalk (h.enters _ hsearch).2)

theorem Searches.rebuild_eq_undefined (h : Searches graph.toIGraph source target search Leads)
    (hends : graph.Ends source target search ending) (startNode endNode : P) :
    graph.rebuild startNode endNode ending = .undefined ↔ ending = .undefined := by
  cases ending with
  | returned path => simp [RoutingGraph.rebuild, h.positionPath_eq hends]
  | thrown message => simp [RoutingGraph.rebuild]
  | undefined => simp [RoutingGraph.rebuild]

end Outcomes

section Nearest

variable {D : Type} [LT D] [DecidableLT D] {graph : RoutingGraph P K} {infinity : D}
variable {distance : List K → List K → D} {src dest : List K}

/-- `GraphBase::GetPath` is safe if both points have a nearest node and the search between
these two nodes ends in a defined way. -/
theorem pathEnds_defined_iff {search : String → String → Except String (Loop S A)}
    {Leads : String → String → Prop}
    (h : ∀ source target, Searches graph.toIGraph source target (search source target)
      (Leads source target)) :
    (∀ ending, graph.PathEnds infinity distance
      (fun source target => graph.Ends source target (search source target)) src dest ending →
        ending ≠ .undefined) ↔
    ∃ startNode endNode, graph.nearestNode infinity distance src = some startNode ∧
      graph.nearestNode infinity distance dest = some endNode ∧
      Defined graph (graph.getName startNode) (graph.getName endNode)
        (Leads (graph.getName startNode) (graph.getName endNode)) := by
  constructor
  · intro hsafe
    cases hstart : graph.nearestNode infinity distance src with
    | none => exact absurd rfl (hsafe _ (.noNode (.inl hstart)))
    | some startNode =>
        cases hend : graph.nearestNode infinity distance dest with
        | none => exact absurd rfl (hsafe _ (.noNode (.inr hend)))
        | some endNode =>
            refine ⟨startNode, endNode, rfl, rfl, ?_⟩
            by_contra hno
            rw [← (h _ _).ends_undefined_iff] at hno
            exact hsafe (graph.rebuild startNode endNode .undefined) (.search hstart hend hno) rfl
  · rintro ⟨startNode, endNode, hstart, hend, hdefined⟩ ending hends
    cases hends with
    | noNode hnone =>
        obtain hnone | hnone := hnone
        · exact absurd (hstart.symm.trans hnone) nofun
        · exact absurd (hend.symm.trans hnone) nofun
    | @search startNode' endNode' ending hstart' hend' hsearch =>
        cases hstart.symm.trans hstart'
        cases hend.symm.trans hend'
        rw [ne_eq, (h _ _).rebuild_eq_undefined hsearch]
        rintro rfl
        exact (h _ _).ends_undefined_iff.mp hsearch hdefined

end Nearest

section Searches

variable [Zero K] {graph : IGraph P K} {source target : String}

theorem AStar.enter_cases (graph : IGraph P K) (source target : String) :
    (∃ message, AStar.enter graph source target = .error message ∧
      ¬ ((graph.getNode source).isSome ∧ (graph.getNode target).isSome)) ∨
    ∃ terminal, AStar.enter graph source target = .ok (terminal, .initial source) ∧
      (graph.getNode source).isSome ∧ (graph.getNode target).isSome := by
  cases hsource : graph.getNode source with
  | none => exact .inl ⟨_, by simp only [enter, hsource]; rfl, by simp⟩
  | some start =>
      cases htarget : graph.getNode target with
      | none => exact .inl ⟨_, by simp only [enter, hsource, htarget]; rfl, by simp⟩
      | some terminal =>
          exact .inr ⟨terminal, by simp only [enter, hsource, htarget], rfl, rfl⟩

/-- Both searches begin with the same two questions. -/
theorem DepthFirstSearch.enter_eq (graph : IGraph P K) (source target : String) :
    enter graph source target =
      (AStar.enter graph source target).map fun _ => Traversal.initial source := by
  unfold enter AStar.enter
  cases graph.getNode source with
  | none => rfl
  | some start => cases graph.getNode target <;> rfl

theorem DepthFirstSearch.searches (hfin : graph.FiniteNodes) (source target : String) :
    Searches graph source target (loop graph source target)
      (Relation.TransGen graph.Edge source target) := by
  obtain ⟨message, henter, hmissing⟩ | ⟨terminal, henter, hfound⟩ :=
    AStar.enter_cases graph source target
  · have hloop : loop graph source target = .error message := by
      rw [loop, enter_eq, henter]
      rfl
    rw [hloop]
    exact searches_error hmissing
  · have hloop : loop graph source target =
        .ok ⟨step graph target, .initial source, fun s => s.result⟩ := by
      rw [loop, enter_eq, henter]
      rfl
    rw [hloop]
    refine ⟨nofun, fun _ _ => hfound, ?_, ?_, ?_⟩
    · rintro l hl
      cases hl
      exact terminates_initial target hfin
    · rintro l s hl hrun hfinal
      cases hl
      exact (TraversalValid.of_reaches hrun).returned_iff hfinal
    · rintro l s path hl hrun hresult
      cases hl
      obtain ⟨v, front, rfl, hwalk, hedge, _⟩ :=
        (TraversalValid.of_reaches hrun).result path hresult
      exact hwalk.snoc hedge

theorem AStar.searches [Add K] [LinearOrder K] (strategy : AStar K) (hfin : graph.FiniteNodes)
    (source target : String) :
    Searches graph source target (strategy.loop graph source target)
      (graph.Reachable source target) := by
  obtain ⟨message, henter, hmissing⟩ | ⟨terminal, henter, hfound⟩ :=
    enter_cases graph source target
  · have hloop : strategy.loop graph source target = .error message := by
      rw [loop, henter]
    rw [hloop]
    exact searches_error hmissing
  · have hloop : strategy.loop graph source target =
        .ok ⟨strategy.step graph target terminal, .initial source, fun s => s.result⟩ := by
      rw [loop, henter]
    rw [hloop]
    refine ⟨nofun, fun _ _ => hfound, ?_, ?_, ?_⟩
    · rintro l hl
      cases hl
      exact terminates_initial strategy target terminal hfin
    · rintro l s hl hrun hfinal
      cases hl
      exact (SearchValid.of_reaches hrun).returned_iff hfinal
    · rintro l s path hl hrun hresult
      cases hl
      exact ((SearchValid.of_reaches hrun).result path hresult).1

end Searches

/-- When the two searches end in a defined way, and when `GraphBase::GetPath` does. -/
theorem getPath_defined_iff (P K D : Type) [Zero K] [Add K] [LinearOrder K] [LT D]
    [DecidableLT D] (graph : RoutingGraph P K) (strategy : AStar K) :
    (∀ source target,
      (EndsDefined graph source target (strategy.loop graph.toIGraph source target) ↔
        Defined graph source target (graph.Reachable source target)) ∧
      (EndsDefined graph source target (DepthFirstSearch.loop graph.toIGraph source target) ↔
        Defined graph source target (Relation.TransGen graph.Edge source target))) ∧
    ∀ (infinity : D) (distance : List K → List K → D) (src dest : List K),
      ((∀ ending, graph.PathEnds infinity distance (fun source target =>
          graph.Ends source target (strategy.loop graph.toIGraph source target)) src dest ending →
            ending ≠ .undefined) ↔
        ∃ startNode endNode, graph.nearestNode infinity distance src = some startNode ∧
          graph.nearestNode infinity distance dest = some endNode ∧
          Defined graph (graph.getName startNode) (graph.getName endNode)
            (graph.Reachable (graph.getName startNode) (graph.getName endNode))) ∧
      ((∀ ending, graph.PathEnds infinity distance (fun source target =>
          graph.Ends source target (DepthFirstSearch.loop graph.toIGraph source target))
          src dest ending → ending ≠ .undefined) ↔
        ∃ startNode endNode, graph.nearestNode infinity distance src = some startNode ∧
          graph.nearestNode infinity distance dest = some endNode ∧
          Defined graph (graph.getName startNode) (graph.getName endNode)
            (Relation.TransGen graph.Edge (graph.getName startNode)
              (graph.getName endNode))) := by
  refine ⟨?_, ?_⟩
  · intro source target
    exact ⟨(strategy.searches graph.finite source target).endsDefined_iff,
      (DepthFirstSearch.searches graph.finite source target).endsDefined_iff⟩
  · intro infinity distance src dest
    exact ⟨pathEnds_defined_iff fun source target =>
        strategy.searches graph.finite source target,
      pathEnds_defined_iff fun source target =>
        DepthFirstSearch.searches graph.finite source target⟩

section Disconnected

/-- The conversion of natural numbers without a sign. -/
def digits (text : List Char) : ℤ × Option (List Char) :=
  match text.takeWhile Char.isDigit with
  | [] => (0, none)
  | ds => (ds.foldl (fun n c => 10 * n + (c.toNat - 48 : ℤ)) 0, some (text.dropWhile Char.isDigit))

/-- Two vertices and no face. -/
def twoPoints : SimpleGraph ℤ :=
  (SimpleGraph.empty.addNode ⟨"1", [], [0, 0, 0]⟩).addNode ⟨"2", [], [1, 0, 0]⟩

theorem twoPoints_loaded :
    perform (ObjGraph.step digits) (.initial "v 0 0 0\nv 1 0 0\n".toList) [(), ()] =
      some ⟨some ['\n'], 2, some twoPoints⟩ := rfl

theorem twoPoints_whole : twoPoints.Whole :=
  ObjGraph.whole_of_reaches (run_of_perform twoPoints_loaded fun _ _ _ => trivial) rfl

def twoPointsGraph : RoutingGraph ℕ ℤ := twoPoints.toRoutingGraph twoPoints_whole

theorem twoPoints_no_edge (u v : String) : ¬ twoPointsGraph.Edge u v := by
  rintro ⟨p, _, q, hq, _⟩
  rcases p with _ | _ | p <;> cases hq

theorem twoPoints_not_defined {Leads : Prop}
    (h : Leads → Relation.TransGen twoPointsGraph.Edge "1" "2") :
    ¬ Defined twoPointsGraph "1" "2" Leads := by
  rintro ⟨_, hleads⟩
  obtain ⟨v, _, hedge⟩ := Relation.TransGen.tail'_iff.mp (h (hleads rfl rfl))
  exact twoPoints_no_edge v "2" hedge

/-- The file is read to its end, and there is no defined way from its first vertex to its
second, neither by name nor by position. -/
theorem twoPoints_getPath_undefined :
    (∃ s, perform (ObjGraph.step digits) (.initial "v 0 0 0\nv 1 0 0\n".toList) [(), ()] = some s ∧
      s.graph = some twoPoints ∧ ObjGraph.step digits s () = none) ∧
    ¬ EndsDefined twoPointsGraph "1" "2"
        ((AStar.mk manhattan manhattan).loop twoPointsGraph.toIGraph "1" "2") ∧
    ¬ EndsDefined twoPointsGraph "1" "2" (DepthFirstSearch.loop twoPointsGraph.toIGraph "1" "2") ∧
    twoPointsGraph.PathEnds (⊤ : WithTop ℤ) (fun a b => (manhattan a b : WithTop ℤ))
      (fun source target => twoPointsGraph.Ends source target
        ((AStar.mk manhattan manhattan).loop twoPointsGraph.toIGraph source target))
      [0, 0, 0] [1, 0, 0] .undefined := by
  have hastar := (AStar.mk manhattan manhattan).searches twoPointsGraph.finite "1" "2"
  have hother := DepthFirstSearch.searches twoPointsGraph.finite "1" "2"
  have hreach : twoPointsGraph.Reachable "1" "2" →
      Relation.TransGen twoPointsGraph.Edge "1" "2" := fun h =>
    (Relation.reflTransGen_iff_eq_or_transGen.mp h).resolve_left (by decide)
  refine ⟨⟨_, twoPoints_loaded, rfl, rfl⟩, ?_, ?_, ?_⟩
  · exact fun h => twoPoints_not_defined hreach (hastar.endsDefined_iff.mp h)
  · exact fun h => twoPoints_not_defined id (hother.endsDefined_iff.mp h)
  · have hstart : twoPointsGraph.nearestNode (⊤ : WithTop ℤ)
        (fun a b => (manhattan a b : WithTop ℤ)) [0, 0, 0] = some 0 := by decide
    have hend : twoPointsGraph.nearestNode (⊤ : WithTop ℤ)
        (fun a b => (manhattan a b : WithTop ℤ)) [1, 0, 0] = some 1 := by decide
    have hundefined := hastar.ends_undefined_iff.mpr (twoPoints_not_defined hreach)
    have hends : twoPointsGraph.PathEnds (⊤ : WithTop ℤ) (fun a b => (manhattan a b : WithTop ℤ))
        (fun source target => twoPointsGraph.Ends source target
          ((AStar.mk manhattan manhattan).loop twoPointsGraph.toIGraph source target))
        [0, 0, 0] [1, 0, 0] (twoPointsGraph.rebuild 0 1 .undefined) :=
      .search hstart hend hundefined
    exact hends

end Disconnected

end UmnProjects.Routing
