import UmnProjects.Foundations.Tables
import UmnProjects.Routing.Graph

/-!
`OSMGraph`. A pointer to a node is its place in `nodes`; the fields say that the lookup
table agrees with the nodes and that no neighbour pointer dangles.
-/
namespace UmnProjects.Osm

open Tables Routing

/-- The exceptions, and two outcomes that are none: a recursion deeper than the bound it
is run with, and a non-void function that ends without a value. -/
inductive LoadError where
  | invalidArgument (what : String)
  | logicError (what : String)
  | outOfRange
  | stod (text : String)
  | boundReached
  | noReturn
deriving DecidableEq

structure Point3 (K : Type) where
  x : K
  y : K
  z : K
deriving DecidableEq

def Point3.toVec {K : Type} (p : Point3 K) : List K := [p.x, p.y, p.z]

structure OSMNode (K : Type) where
  loc : Point3 K
  name : String
  neighbours : List Nat
deriving DecidableEq

structure OSMGraph (K : Type) where
  nodes : List (OSMNode K)
  lookup : Table String Nat
  lookup_iff : ∀ name i, lookup.lookup name = some i ↔ (nodes.map OSMNode.name)[i]? = some name
  neighbours_lt : ∀ node ∈ nodes, ∀ i ∈ node.neighbours, i < nodes.length

namespace OSMGraph

variable {K : Type}

def empty : OSMGraph K where
  nodes := []
  lookup := ∅
  lookup_iff name i := by simp
  neighbours_lt node h := by simp at h

def contains (graph : OSMGraph K) (name : String) : Bool := (graph.lookup.lookup name).isSome

def names (graph : OSMGraph K) : List String := graph.nodes.map OSMNode.name

theorem lookup_eq_some (graph : OSMGraph K) {name : String} {i : Nat} :
    graph.lookup.lookup name = some i ↔ graph.names[i]? = some name := graph.lookup_iff name i

theorem lookup_name (graph : OSMGraph K) {node : OSMNode K} {i : Nat}
    (h : graph.nodes[i]? = some node) : graph.lookup.lookup node.name = some i := by
  rw [lookup_eq_some, names, List.getElem?_map, h, Option.map_some]

theorem contains_iff (graph : OSMGraph K) {name : String} :
    graph.contains name ↔ name ∈ graph.names := by
  rw [contains, Option.isSome_iff_exists, List.mem_iff_getElem?]
  exact exists_congr (fun i => graph.lookup_eq_some)

theorem lookup_none_iff (graph : OSMGraph K) {name : String} :
    graph.lookup.lookup name = none ↔ name ∉ graph.names := by
  rw [← graph.contains_iff, contains]
  simp

theorem names_nodup (graph : OSMGraph K) : graph.names.Nodup := by
  rw [List.nodup_iff_injective_getElem]
  intro i j hij
  have hi := graph.lookup_eq_some.mpr (List.getElem?_eq_getElem i.isLt)
  have hj := graph.lookup_eq_some.mpr (List.getElem?_eq_getElem j.isLt)
  have hsame : graph.names[i.val] = graph.names[j.val] := hij
  rw [hsame, hj] at hi
  exact Fin.ext (Option.some.inj hi).symm

/-! ### Adding nodes -/

theorem getElem?_names_snoc (graph : OSMGraph K) {name : String} (hname : name ∉ graph.names)
    (x : String) (i : Nat) :
    (graph.lookup.insert name graph.nodes.length).lookup x = some i ↔
      (graph.names ++ [name])[i]? = some x := by
  have hlength : graph.names.length = graph.nodes.length := List.length_map _
  by_cases hx : x = name
  · rw [hx, AList.lookup_insert, Option.some.injEq]
    constructor
    · intro hi
      rw [← hi, ← hlength]
      simp
    · intro hi
      rw [List.getElem?_append] at hi
      split at hi
      · exact absurd (List.mem_of_getElem? hi) hname
      · obtain ⟨hlt, _⟩ := List.getElem?_eq_some_iff.mp hi
        simp only [List.length_singleton] at hlt
        omega
  · rw [AList.lookup_insert_ne hx, lookup_eq_some, List.getElem?_append]
    split
    · rfl
    · case isFalse hi =>
        rw [List.getElem?_eq_none (by omega)]
        simp only [List.getElem?_singleton]
        split <;> simp [Ne.symm hx]

/-- `AddNode(new OSMNode(loc, name))` -/
def addNode (graph : OSMGraph K) (loc : Point3 K) (name : String) :
    Except LoadError (OSMGraph K) :=
  if h : name ∈ graph.lookup then .error (.invalidArgument name)
  else .ok {
    nodes := graph.nodes ++ [⟨loc, name, []⟩]
    lookup := graph.lookup.insert name graph.nodes.length
    lookup_iff := by
      have hname : name ∉ graph.names := by
        rw [← lookup_none_iff]
        exact AList.lookup_eq_none.mpr h
      intro x i
      rw [List.map_append]
      exact graph.getElem?_names_snoc hname x i
    neighbours_lt := by
      intro node hnode i hi
      rw [List.length_append]
      obtain hnode | hnode := List.mem_append.mp hnode
      · have hlt := graph.neighbours_lt node hnode i hi
        omega
      · rw [List.mem_singleton.mp hnode] at hi
        exact absurd hi List.not_mem_nil }

/-! ### Adding edges -/

def addNeighbour (node : OSMNode K) (other : Nat) : OSMNode K :=
  { node with neighbours := node.neighbours ++ [other] }

/-- Data that a new neighbour does not touch. -/
theorem map_modify {A : Type} {f : OSMNode K → A} (hf : ∀ node j, f (addNeighbour node j) = f node)
    (nodes : List (OSMNode K)) (i j : Nat) :
    (nodes.modify i (fun node => addNeighbour node j)).map f = nodes.map f := by
  refine List.ext_getElem? ?_
  intro k
  rw [List.getElem?_map, List.getElem?_map, List.getElem?_modify]
  cases nodes[k]? with
  | none => rfl
  | some node =>
      split
      · exact congrArg some (hf node j)
      · rfl

/-- The node at place `i` has got the new neighbour, the others are as before. -/
theorem mem_modify {nodes : List (OSMNode K)} {i j : Nat} {node : OSMNode K} :
    node ∈ nodes.modify i (fun n => addNeighbour n j) ↔
      (∃ k, k ≠ i ∧ nodes[k]? = some node) ∨
        ∃ old, nodes[i]? = some old ∧ node = addNeighbour old j := by
  constructor
  · intro h
    obtain ⟨k, hk⟩ := List.mem_iff_getElem?.mp h
    rw [List.getElem?_modify] at hk
    obtain ⟨old, hold, heq⟩ := Option.map_eq_some_iff.mp hk
    by_cases hik : i = k
    · subst hik
      exact .inr ⟨old, hold, by simpa using heq.symm⟩
    · rw [if_neg hik] at heq
      exact .inl ⟨k, Ne.symm hik, heq ▸ hold⟩
  · intro h
    refine List.mem_iff_getElem?.mpr ?_
    obtain ⟨k, hki, hk⟩ | ⟨old, hold, hnode⟩ := h
    · exact ⟨k, by simp [hk, Ne.symm hki]⟩
    · exact ⟨i, by simp [hold, hnode]⟩

def addEdge (graph : OSMGraph K) (name1 name2 : String) : Except LoadError (OSMGraph K) :=
  match h1 : graph.lookup.lookup name1, h2 : graph.lookup.lookup name2 with
  | none, _ => .error (.invalidArgument name1)
  | some _, none => .error (.invalidArgument name2)
  | some node1, some node2 => .ok {
      nodes := graph.nodes.modify node1 (fun node => addNeighbour node node2)
      lookup := graph.lookup
      lookup_iff := by
        rw [map_modify (fun _ _ => rfl)]
        exact graph.lookup_iff
      neighbours_lt := by
        intro node hnode i hi
        rw [List.length_modify]
        obtain ⟨k, _, hk⟩ | ⟨old, hold, hnode⟩ := mem_modify.mp hnode
        · exact graph.neighbours_lt node (List.mem_of_getElem? hk) i hi
        · rw [hnode] at hi
          obtain hi | hi := List.mem_append.mp hi
          · exact graph.neighbours_lt old (List.mem_of_getElem? hold) i hi
          · obtain ⟨hlt, _⟩ := List.getElem?_eq_some_iff.mp (graph.lookup_eq_some.mp h2)
            rw [names, List.length_map] at hlt
            rw [List.mem_singleton.mp hi]
            exact hlt }

/-! ### The graph as the router sees it -/

/-- A place past the end stands for no node and answers with empty data. -/
def toIGraph (graph : OSMGraph K) : IGraph Nat K where
  getNode name := graph.lookup.lookup name
  getNodes := List.range graph.nodes.length
  getName i := (graph.nodes[i]?).elim "" OSMNode.name
  getNeighbors i := (graph.nodes[i]?).elim [] OSMNode.neighbours
  getPosition i := (graph.nodes[i]?).elim [] (fun node => node.loc.toVec)

theorem toIGraph_ownsNodes (graph : OSMGraph K) : graph.toIGraph.OwnsNodes := by
  refine ⟨?_, ?_⟩
  · intro name i hi
    obtain ⟨hlt, _⟩ := List.getElem?_eq_some_iff.mp (graph.lookup_eq_some.mp hi)
    rw [names, List.length_map] at hlt
    exact List.mem_range.mpr hlt
  · intro name i _ j hj
    cases hnode : graph.nodes[i]? with
    | none => simp [toIGraph, hnode] at hj
    | some node =>
        have hj' : j ∈ node.neighbours := by simpa [toIGraph, hnode] using hj
        have hlt := graph.neighbours_lt node (List.mem_of_getElem? hnode) j hj'
        refine graph.lookup_eq_some.mpr ?_
        simp [toIGraph, names, hlt]

/-- Edges between names, read off the nodes alone. -/
theorem edge_iff (graph : OSMGraph K) {u v : String} :
    graph.toIGraph.Edge u v ↔ ∃ node ∈ graph.nodes, node.name = u ∧
      ∃ j ∈ node.neighbours, graph.names[j]? = some v := by
  constructor
  · intro h
    obtain ⟨i, hi, j, hj, hname⟩ := h
    have hu := graph.lookup_eq_some.mp hi
    obtain ⟨node, hnode, hnodename⟩ :=
      Option.map_eq_some_iff.mp ((List.getElem?_map ..).symm.trans hu)
    have hj' : j ∈ node.neighbours := by simpa [toIGraph, hnode] using hj
    have hmem := List.mem_of_getElem? hnode
    have hlt := graph.neighbours_lt node hmem j hj'
    refine ⟨node, hmem, hnodename, j, hj', ?_⟩
    rw [← hname]
    simp [toIGraph, names, hlt]
  · intro h
    obtain ⟨node, hnode, hname, j, hj, hv⟩ := h
    obtain ⟨i, hi⟩ := List.mem_iff_getElem?.mp hnode
    refine ⟨i, hname ▸ graph.lookup_name hi, j, ?_, ?_⟩
    · simpa [toIGraph, hi] using hj
    · obtain ⟨other, hother, hothername⟩ :=
        Option.map_eq_some_iff.mp ((List.getElem?_map ..).symm.trans hv)
      simp [toIGraph, hother, hothername]

/-- Names with their places. -/
def places (graph : OSMGraph K) : List (String × Point3 K) :=
  graph.nodes.map (fun node => (node.name, node.loc))

theorem places_fst (graph : OSMGraph K) : graph.places.map Prod.fst = graph.names := by
  rw [places, List.map_map]
  rfl

theorem names_append {graph graph' : OSMGraph K} {p : String × Point3 K}
    (h : graph'.places = graph.places ++ [p]) : graph'.names = graph.names ++ [p.1] := by
  rw [← places_fst, h, List.map_append, places_fst]
  rfl

/-- The names behind the neighbour pointers of a node, in order. -/
def outNames (graph : OSMGraph K) (name : String) : List (Option String) :=
  match graph.lookup.lookup name with
  | none => []
  | some i => (graph.toIGraph.getNeighbors i).map fun j => graph.names[j]?

theorem outNames_of_mem (graph : OSMGraph K) {node : OSMNode K} (h : node ∈ graph.nodes) :
    graph.outNames node.name = node.neighbours.map fun j => graph.names[j]? := by
  obtain ⟨i, hi⟩ := List.mem_iff_getElem?.mp h
  have hneighbours : graph.toIGraph.getNeighbors i = node.neighbours := by
    change (graph.nodes[i]?).elim [] OSMNode.neighbours = node.neighbours
    rw [hi, Option.elim_some]
  simp only [outNames, graph.lookup_name hi, hneighbours]

theorem outNames_of_not_mem (graph : OSMGraph K) {name : String} (h : name ∉ graph.names) :
    graph.outNames name = [] := by
  simp only [outNames, graph.lookup_none_iff.mpr h]

theorem edge_iff_mem_outNames (graph : OSMGraph K) {u v : String} :
    graph.toIGraph.Edge u v ↔ some v ∈ graph.outNames u := by
  rw [edge_iff]
  constructor
  · intro hgiven
    obtain ⟨node, hnode, rfl, hv⟩ := hgiven
    rw [graph.outNames_of_mem hnode]
    exact List.mem_map.mpr hv
  · intro hv
    by_cases hu : u ∈ graph.names
    · obtain ⟨node, hnode, rfl⟩ := List.mem_map.mp hu
      rw [graph.outNames_of_mem hnode] at hv
      exact ⟨node, hnode, rfl, List.mem_map.mp hv⟩
    · rw [graph.outNames_of_not_mem hu] at hv
      exact absurd hv List.not_mem_nil

/-- The nodes of `graph`, and behind their neighbours those in `D`. -/
structure Appends (graph : OSMGraph K) (D : String → List String) (graph' : OSMGraph K) :
    Prop where
  places_eq : graph'.places = graph.places
  outNames_eq : ∀ u, graph'.outNames u = graph.outNames u ++ (D u).map some

namespace Appends

variable {graph graph' graph'' : OSMGraph K} {D D' : String → List String}

theorem names_eq (h : Appends graph D graph') : graph'.names = graph.names := by
  rw [← places_fst, h.places_eq, places_fst]

theorem refl (graph : OSMGraph K) (none : ∀ u, D u = []) : Appends graph D graph := by
  refine ⟨rfl, ?_⟩
  intro u
  rw [none, List.map_nil, List.append_nil]

theorem trans (h : Appends graph D graph') (h' : Appends graph' D' graph'') :
    Appends graph (fun u => D u ++ D' u) graph'' := by
  refine ⟨h'.places_eq.trans h.places_eq, ?_⟩
  intro u
  rw [h'.outNames_eq, h.outNames_eq, List.map_append, List.append_assoc]

theorem congr (h : Appends graph D graph') (same : ∀ u, D u = D' u) :
    Appends graph D' graph' := by
  refine ⟨h.places_eq, ?_⟩
  intro u
  rw [h.outNames_eq, same]

/-- A loop appends the neighbours of all its elements, if each round appends those of its own. -/
theorem foldlM {A : Type} {f : OSMGraph K → A → Except LoadError (OSMGraph K)}
    {D : A → String → List String} {l : List A} (graph : OSMGraph K)
    (step : ∀ a ∈ l, ∀ current : OSMGraph K, current.names = graph.names →
      ∃ next, f current a = .ok next ∧ Appends current (D a) next) :
    ∃ result, l.foldlM f graph = .ok result ∧
      Appends graph (fun u => l.flatMap fun a => D a u) result := by
  refine foldlM_invariant
    (fun done current => Appends graph (fun u => done.flatMap fun a => D a u) current)
    (refl graph fun _ => rfl) ?_
  intro done a rest current hsplit hcurrent
  have ha : a ∈ l := by
    rw [hsplit]
    exact List.mem_append_right _ List.mem_cons_self
  obtain ⟨next, hnext, happends⟩ := step a ha current hcurrent.names_eq
  refine ⟨next, hnext, (hcurrent.trans happends).congr ?_⟩
  intro u
  rw [List.flatMap_append, List.flatMap_singleton]

/-- A loop that appends to one node the names of its elements that pass a test. -/
theorem foldlM_filter {A : Type} {f : OSMGraph K → A → Except LoadError (OSMGraph K)} {l : List A}
    {source : String} {name : A → String} {test : String → Bool} (graph : OSMGraph K)
    (step : ∀ a ∈ l, ∀ current : OSMGraph K, current.names = graph.names →
      ∃ next, f current a = .ok next ∧
        Appends current (fun u => if u = source then [name a].filter test else []) next) :
    ∃ result, l.foldlM f graph = .ok result ∧
      Appends graph (fun u => if u = source then (l.map name).filter test else []) result := by
  obtain ⟨result, hfold, happends⟩ := foldlM graph step
  refine ⟨result, hfold, happends.congr ?_⟩
  intro u
  by_cases hu : u = source
  · simp only [if_pos hu]
    rw [List.map_eq_flatMap, List.filter_flatMap]
  · simp only [if_neg hu]
    exact List.flatMap_eq_nil_iff.mpr fun _ _ => rfl

end Appends

/-- The nodes of `graph`, its edges, and the edges in `D`. -/
structure Adds (graph : OSMGraph K) (D : String → String → Prop) (graph' : OSMGraph K) :
    Prop where
  places_eq : graph'.places = graph.places
  edge_iff : ∀ u v, graph'.toIGraph.Edge u v ↔ graph.toIGraph.Edge u v ∨ D u v

namespace Adds

variable {graph graph' : OSMGraph K} {D D' : String → String → Prop}

theorem names_eq (h : Adds graph D graph') : graph'.names = graph.names := by
  rw [← places_fst, h.places_eq, places_fst]

theorem congr (h : Adds graph D graph') (same : ∀ u v, D u v ↔ D' u v) :
    Adds graph D' graph' := by
  refine ⟨h.places_eq, ?_⟩
  intro u v
  rw [h.edge_iff, same]

theorem of_appends {E : String → List String} (h : Appends graph E graph') :
    Adds graph (fun u v => v ∈ E u) graph' := by
  refine ⟨h.places_eq, ?_⟩
  intro u v
  rw [edge_iff_mem_outNames, edge_iff_mem_outNames, h.outNames_eq, List.mem_append,
    List.mem_map_of_injective (Option.some_injective String)]

end Adds

/-! ### What the two operations do -/

theorem outNames_of_snoc {graph graph' : OSMGraph K} {loc : Point3 K} {name : String}
    (hnodes : graph'.nodes = graph.nodes ++ [⟨loc, name, []⟩]) (u : String) :
    graph'.outNames u = graph.outNames u := by
  have hnames : graph'.names = graph.names ++ [name] := by
    rw [names, hnodes, List.map_append]
    rfl
  by_cases hu : u ∈ graph.names
  · obtain ⟨node, hnode, rfl⟩ := List.mem_map.mp hu
    have hnode' : node ∈ graph'.nodes := by
      rw [hnodes]
      exact List.mem_append_left _ hnode
    rw [graph'.outNames_of_mem hnode', graph.outNames_of_mem hnode, hnames]
    refine List.map_congr_left fun j hj => List.getElem?_append_left ?_
    rw [names, List.length_map]
    exact graph.neighbours_lt node hnode j hj
  · rw [graph.outNames_of_not_mem hu]
    by_cases hname : u = name
    · have hnew : OSMNode.mk loc name [] ∈ graph'.nodes := by
        rw [hnodes]
        exact List.mem_append_right _ (List.mem_singleton.mpr rfl)
      rw [hname]
      exact graph'.outNames_of_mem hnew
    · refine graph'.outNames_of_not_mem ?_
      rw [hnames, List.mem_append, List.mem_singleton]
      exact fun hor => hor.elim hu hname

theorem addNode_outNames (graph : OSMGraph K) (loc : Point3 K) {name : String}
    (h : name ∉ graph.names) : ∃ graph', graph.addNode loc name = .ok graph' ∧
      graph'.places = graph.places ++ [(name, loc)] ∧
      ∀ u, graph'.outNames u = graph.outNames u := by
  have hmem : name ∉ graph.lookup := by
    rw [← AList.lookup_eq_none, lookup_none_iff]
    exact h
  refine ⟨_, dif_neg hmem, ?_, outNames_of_snoc rfl⟩
  rw [places, places, List.map_append]
  rfl

theorem addNode_ok (graph : OSMGraph K) (loc : Point3 K) {name : String}
    (h : name ∉ graph.names) : ∃ graph', graph.addNode loc name = .ok graph' ∧
      graph'.places = graph.places ++ [(name, loc)] ∧
      ∀ u v, graph'.toIGraph.Edge u v ↔ graph.toIGraph.Edge u v := by
  obtain ⟨graph', hadd, hplaces, hout⟩ := graph.addNode_outNames loc h
  refine ⟨graph', hadd, hplaces, ?_⟩
  intro u v
  rw [edge_iff_mem_outNames, edge_iff_mem_outNames, hout]

theorem places_addNode {graph graph' : OSMGraph K} {loc : Point3 K} {name : String}
    (h : graph.addNode loc name = .ok graph') :
    graph'.places = graph.places ++ [(name, loc)] := by
  rw [addNode] at h
  split at h
  · cases h
  · cases h
    rw [places, places, List.map_append]
    rfl

/-- The node at place `i` gets the node named `b` as its last neighbour. -/
theorem appends_of_modify {graph graph' : OSMGraph K} {i j : Nat} {node : OSMNode K} {b : String}
    (hnodes : graph'.nodes = graph.nodes.modify i fun node => addNeighbour node j)
    (hi : graph.nodes[i]? = some node) (hj : graph.names[j]? = some b) :
    Appends graph (fun u => if u = node.name then [b] else []) graph' := by
  have hnames : graph'.names = graph.names := by
    rw [names, hnodes]
    exact map_modify (fun _ _ => rfl) graph.nodes i j
  refine ⟨?_, ?_⟩
  · rw [places, hnodes]
    exact map_modify (fun _ _ => rfl) graph.nodes i j
  · intro u
    by_cases hu : u = node.name
    · have hnode' : addNeighbour node j ∈ graph'.nodes := by
        rw [hnodes]
        exact mem_modify.mpr (.inr ⟨node, hi, rfl⟩)
      rw [hu, if_pos rfl, graph.outNames_of_mem (List.mem_of_getElem? hi), List.map_singleton, ← hj,
        ← hnames]
      refine (graph'.outNames_of_mem hnode').trans ?_
      exact List.map_append
    · rw [if_neg hu, List.map_nil, List.append_nil]
      by_cases hmem : u ∈ graph.names
      · obtain ⟨other, hother, rfl⟩ := List.mem_map.mp hmem
        obtain ⟨k, hk⟩ := List.mem_iff_getElem?.mp hother
        have hki : k ≠ i := by
          intro hsame
          rw [hsame, hi] at hk
          exact hu (congrArg OSMNode.name (Option.some.inj hk).symm)
        have hother' : other ∈ graph'.nodes := by
          rw [hnodes]
          exact mem_modify.mpr (.inl ⟨k, hki, hk⟩)
        rw [graph'.outNames_of_mem hother', graph.outNames_of_mem hother, hnames]
      · rw [graph.outNames_of_not_mem hmem, graph'.outNames_of_not_mem (hnames ▸ hmem)]

theorem addEdge_appends (graph : OSMGraph K) {a b : String} (ha : a ∈ graph.names)
    (hb : b ∈ graph.names) : ∃ graph', graph.addEdge a b = .ok graph' ∧
      Appends graph (fun u => if u = a then [b] else []) graph' := by
  obtain ⟨node, hnode, rfl⟩ := List.mem_map.mp ha
  obtain ⟨i, hi⟩ := List.mem_iff_getElem?.mp hnode
  obtain ⟨j, hj⟩ := List.mem_iff_getElem?.mp hb
  have hli := graph.lookup_name hi
  have hlj := graph.lookup_eq_some.mpr hj
  unfold addEdge
  split
  · case h_1 h1 => rw [hli] at h1; cases h1
  · case h_2 h2 => rw [hlj] at h2; cases h2
  · case h_3 node1 node2 h1 h2 =>
      obtain rfl : i = node1 := Option.some.inj (hli.symm.trans h1)
      obtain rfl : j = node2 := Option.some.inj (hlj.symm.trans h2)
      exact ⟨_, rfl, appends_of_modify rfl hi hj⟩

theorem edge_empty (u v : String) : ¬ (empty : OSMGraph K).toIGraph.Edge u v := by
  intro h
  obtain ⟨node, hnode, _⟩ := (edge_iff _).mp h
  exact List.not_mem_nil hnode

/-- The position of a node is its place as a vector. -/
theorem positionOf_eq (graph : OSMGraph K) {name : String} {loc : Point3 K}
    (h : (name, loc) ∈ graph.places) : graph.toIGraph.positionOf name = loc.toVec := by
  obtain ⟨node, hnode, heq⟩ := List.mem_map.mp h
  obtain ⟨i, hi⟩ := List.mem_iff_getElem?.mp hnode
  obtain ⟨hname, hloc⟩ := Prod.mk.inj heq
  have hlookup : graph.lookup.lookup name = some i := hname ▸ graph.lookup_name hi
  rw [IGraph.positionOf_eq (p := i) hlookup]
  simp [toIGraph, hi, hloc]

end OSMGraph

end UmnProjects.Osm
