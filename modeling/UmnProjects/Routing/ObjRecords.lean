import UmnProjects.Routing.ObjGraph

/-!
The graph of a file. A file whose coordinates parse is a list of records; when the faces
name vertices that stand before them, the graph holds the vertices and the sides of the faces.
-/
namespace UmnProjects.Routing
open Runs

namespace ObjGraph

variable {K : Type}

/-! ### Records -/

inductive Record (K : Type) where
  | vertex (x y z : K)
  | face (a b c : String)
  | other (word : String)

/-- The text is read to its end as these records, and their coordinates parse. -/
inductive Records (numGet : List Char → K × Option (List Char)) :
    List Char → List (Record K) → Prop where
  | nil {text : List Char} {word : String} (h : readWord (some text) = (word, none)) :
      Records numGet text []
  | vertex {text r rx ry rz : List Char} {x y z : K} {records : List (Record K)}
      (hword : readWord (some text) = ("v", some r))
      (hx : readFloat numGet (some r) = (some x, some rx))
      (hy : readFloat numGet (some rx) = (some y, some ry))
      (hz : readFloat numGet (some ry) = (some z, some rz))
      (rest : Records numGet rz records) : Records numGet text (.vertex x y z :: records)
  | face {text r ra rb rc : List Char} {a b c : String} {records : List (Record K)}
      (hword : readWord (some text) = ("f", some r))
      (ha : readWord (some r) = (a, some ra)) (hb : readWord (some ra) = (b, some rb))
      (hc : readWord (some rb) = (c, some rc))
      (rest : Records numGet rc records) : Records numGet text (.face a b c :: records)
  | other {text r : List Char} {word : String} {records : List (Record K)}
      (hword : readWord (some text) = (word, some r)) (hv : word ≠ "v") (hf : word ≠ "f")
      (rest : Records numGet r records) : Records numGet text (.other word :: records)

def Record.vertices : Record K → List (K × K × K)
  | .vertex x y z => [(x, y, z)]
  | _ => []

def Record.sides : Record K → List (String × String)
  | .face a b c => [(a, b), (b, c), (c, a)]
  | _ => []

def vertices (records : List (Record K)) : List (K × K × K) := records.flatMap Record.vertices

def sides (records : List (Record K)) : List (String × String) := records.flatMap Record.sides

/-- The name of the node at place `i`, counted from one. -/
def nodeName (i : ℕ) : String := toString (i + 1)

/-- The faces name nodes that are there when they are read, the first `n` at the start. -/
def Declared : ℕ → List (Record K) → Prop
  | _, [] => True
  | n, .vertex _ _ _ :: records => Declared (n + 1) records
  | n, .face a b c :: records =>
      (∀ name ∈ [a, b, c], ∃ i, i < n ∧ name = nodeName i) ∧ Declared n records
  | n, .other _ :: records => Declared n records

/-- A side joins these two nodes, in one direction or the other. -/
def joins (a b : String) (side : String × String) : Bool := side = (a, b) ∨ side = (b, a)

/-- The graph has a node for each vertex, in their order, and each is as often a neighbour of
another as a side joins the two, where a side from a node to itself counts twice. -/
structure Built [Neg K] (records : List (Record K)) (graph : SimpleGraph K) : Prop where
  length : graph.nodes.length = (vertices records).length
  nodes : ∀ (i : ℕ) (x y z : K), (vertices records)[i]? = some (x, y, z) → ∃ node,
    graph.nodes[i]? = some node ∧ node.name = nodeName i ∧ node.position = [x, z, -y] ∧
      graph.nodeMap (nodeName i) = some (some i)
  neighbors : ∀ node ∈ graph.nodes, ∀ q ∈ node.neighbors, ∃ j, q = some j ∧ j < graph.nodes.length
  counted : ∀ i j a b, graph.nodes[i]? = some a → graph.nodes[j]? = some b →
    a.neighbors.count (some j) = b.neighbors.count (some i) ∧
    a.neighbors.count (some j) =
      (if i = j then 2 else 1) * (sides records).countP (joins (nodeName i) (nodeName j))

theorem nodeName_injective {i j : ℕ} (h : nodeName i = nodeName j) : i = j := by
  have hdigits : Nat.toDigits 10 (i + 1) = Nat.toDigits 10 (j + 1) := by
    have hrepr : Nat.repr (i + 1) = Nat.repr (j + 1) := h
    rw [Nat.repr_eq_ofList_toDigits, Nat.repr_eq_ofList_toDigits] at hrepr
    exact String.ofList_injective hrepr
  have hi := Nat.ofDigitChars_ten_toDigits (n := i + 1)
  rw [hdigits, Nat.ofDigitChars_ten_toDigits] at hi
  omega

/-! ### The graph of some vertices and edges -/

/-- The neighbours that directed edges give a node. -/
def neighborsOf (edges : List (ℕ × ℕ)) (i : ℕ) : List (Option ℕ) :=
  (edges.filter fun edge => edge.1 = i).map fun edge => some edge.2

/-- The graph holds these vertices, and these edges between them. -/
structure Holds [Neg K] (vs : List (K × K × K)) (edges : List (ℕ × ℕ)) (graph : SimpleGraph K) :
    Prop where
  length : graph.nodes.length = vs.length
  nodes : ∀ (i : ℕ) (x y z : K), vs[i]? = some (x, y, z) →
    graph.nodes[i]? = some ⟨nodeName i, neighborsOf edges i, [x, z, -y]⟩
  found : ∀ i, i < vs.length → graph.nodeMap (nodeName i) = some (some i)
  ends : ∀ edge ∈ edges, edge.1 < vs.length ∧ edge.2 < vs.length

variable [Neg K] {vs : List (K × K × K)} {edges : List (ℕ × ℕ)} {graph : SimpleGraph K} {p q : ℕ}

theorem neighborsOf_append (edges edges' : List (ℕ × ℕ)) (i : ℕ) :
    neighborsOf (edges ++ edges') i = neighborsOf edges i ++ neighborsOf edges' i := by
  rw [neighborsOf, List.filter_append, List.map_append]
  rfl

theorem count_neighborsOf (edges : List (ℕ × ℕ)) (i j : ℕ) :
    (neighborsOf edges i).count (some j) = edges.count (i, j) := by
  induction edges with
  | nil => rfl
  | cons edge edges ih =>
      rw [List.count_cons, ← ih, neighborsOf, List.filter_cons]
      by_cases hi : edge.1 = i
      · rw [if_pos (decide_eq_true hi), List.map_cons, List.count_cons]
        have hedge : (some edge.2 == some j) = (edge == (i, j)) := by
          rw [Bool.eq_iff_iff, beq_iff_eq, beq_iff_eq, Option.some.injEq, Prod.ext_iff, hi]
          exact (and_iff_right rfl).symm
        rw [hedge]
        rfl
      · have hedge : (edge == (i, j)) = false := by
          rw [beq_eq_false_iff_ne]
          exact fun heq => hi (congrArg Prod.fst heq)
        rw [if_neg (by simpa using hi), hedge]
        rfl

theorem Holds.vertex (h : Holds vs edges graph) (x y z : K) :
    Holds (vs ++ [(x, y, z)]) edges (graph.addNode ⟨nodeName vs.length, [], [x, z, -y]⟩) := by
  refine ⟨?_, ?_, ?_, ?_⟩
  · simp [SimpleGraph.addNode, h.length]
  · intro i x' y' z' hi
    by_cases hold : i < vs.length
    · rw [List.getElem?_append_left hold] at hi
      rw [SimpleGraph.addNode, List.getElem?_append_left (by rw [h.length]; exact hold)]
      exact h.nodes i x' y' z' hi
    · have hlt := (List.getElem?_eq_some_iff.mp hi).1
      rw [List.length_append, List.length_singleton] at hlt
      have hlast : i = vs.length := by omega
      -- no edge begins at the new node
      have hnone : neighborsOf edges vs.length = [] := by
        rw [neighborsOf, List.map_eq_nil_iff, List.filter_eq_nil_iff]
        intro edge hedge
        have hstart := (h.ends edge hedge).1
        simp only [decide_eq_true_eq]
        omega
      rw [hlast, List.getElem?_concat_length] at hi
      rw [hlast, hnone, SimpleGraph.addNode, ← h.length, List.getElem?_concat_length, h.length]
      cases hi
      rfl
  · intro i hi
    rw [List.length_append, List.length_singleton] at hi
    simp only [SimpleGraph.addNode, h.length]
    split
    · next hname => rw [nodeName_injective hname]
    · next hname =>
        refine h.found i ?_
        have hne : i ≠ vs.length := fun heq => hname (congrArg nodeName heq)
        omega
  · intro edge hedge
    rw [List.length_append, List.length_singleton]
    have hends := h.ends edge hedge
    omega

theorem Holds.edge (h : Holds vs edges graph) (hp : p < vs.length) (hq : q < vs.length) :
    ∃ graph', graph.addEdge (nodeName p) (nodeName q) = some graph' ∧
      Holds vs (edges ++ [(p, q)]) graph' := by
  have hfound := h.found p hp
  have hother := h.found q hq
  refine ⟨{ graph.touch (nodeName q) with
      nodes := graph.nodes.modify p (SimpleGraphNode.addNeighbor (some q)) }, ?_, ?_, ?_, ?_, ?_⟩
  · rw [SimpleGraph.addEdge, hfound, hother]
    rfl
  · rw [List.length_modify]
    exact h.length
  · intro i x y z hi
    rw [List.getElem?_modify, h.nodes i x y z hi, neighborsOf_append]
    by_cases hip : p = i
    · simp [hip, neighborsOf, SimpleGraphNode.addNeighbor]
    · simp [hip, neighborsOf]
  · intro i hi
    simp only [SimpleGraph.touch]
    split
    · next hname => rw [hother, Option.join_some, nodeName_injective hname]
    · exact h.found i hi
  · intro edge hedge
    cases List.mem_append.mp hedge with
    | inl hold => exact h.ends edge hold
    | inr hnew =>
        rw [List.mem_singleton.mp hnew]
        exact ⟨hp, hq⟩

/-! ### Sides -/

/-- The graph holds these vertices, and both edges of each of these sides. -/
def HoldsSides (vs : List (K × K × K)) (sides : List (String × String)) (graph : SimpleGraph K) :
    Prop :=
  ∃ edges, Holds vs edges graph ∧ ∀ i j, edges.count (i, j) =
    sides.count (nodeName i, nodeName j) + sides.count (nodeName j, nodeName i)

variable {ss : List (String × String)}

theorem HoldsSides.vertex (h : HoldsSides vs ss graph) (x y z : K) :
    HoldsSides (vs ++ [(x, y, z)]) ss (graph.addNode ⟨nodeName vs.length, [], [x, z, -y]⟩) := by
  obtain ⟨edges, hholds, hcount⟩ := h
  exact ⟨edges, hholds.vertex x y z, hcount⟩

/-- The two edges of a side are added one after the other. -/
theorem HoldsSides.side (h : HoldsSides vs ss graph) (hp : p < vs.length) (hq : q < vs.length) :
    ∃ graph' graph'', graph.addEdge (nodeName p) (nodeName q) = some graph' ∧
      graph'.addEdge (nodeName q) (nodeName p) = some graph'' ∧
      HoldsSides vs (ss ++ [(nodeName p, nodeName q)]) graph'' := by
  obtain ⟨edges, hholds, hcount⟩ := h
  obtain ⟨graph', hthere, hholds'⟩ := hholds.edge hp hq
  obtain ⟨graph'', hback, hholds''⟩ := hholds'.edge hq hp
  refine ⟨graph', graph'', hthere, hback, _, hholds'', fun i j => ?_⟩
  have hname : ∀ k l : ℕ, nodeName k = nodeName l ↔ k = l := fun k l =>
    ⟨nodeName_injective, congrArg nodeName⟩
  simp only [List.count_append, List.count_singleton, hcount, Prod.mk.injEq, beq_iff_eq, hname,
    and_comm (a := q = i)]
  omega

theorem HoldsSides.face (h : HoldsSides vs ss graph) {a b c : String}
    (hnames : ∀ name ∈ [a, b, c], ∃ i, i < vs.length ∧ name = nodeName i) (numNodes : ℕ)
    {stream ra rb rc : Stream} (ha : readWord stream = (a, ra)) (hb : readWord ra = (b, rb))
    (hc : readWord rb = (c, rc)) :
    ∃ graph', readFace stream numNodes graph = ⟨rc, numNodes, some graph'⟩ ∧
      HoldsSides vs (ss ++ [(a, b), (b, c), (c, a)]) graph' := by
  obtain ⟨p, hp, rfl⟩ := hnames a (by simp)
  obtain ⟨q, hq, rfl⟩ := hnames b (by simp)
  obtain ⟨r, hr, rfl⟩ := hnames c (by simp)
  obtain ⟨g1, g2, h1, h2, hfirst⟩ := h.side hp hq
  obtain ⟨g3, g4, h3, h4, hsecond⟩ := hfirst.side hq hr
  obtain ⟨g5, g6, h5, h6, hthird⟩ := hsecond.side hr hp
  refine ⟨g6, ?_, ?_⟩
  · simp only [readFace, ha, hb, hc, h1, h2, h3, h4, h5, h6, Option.bind_eq_bind,
      Option.bind_some]
  · simpa using hthird

/-- The sides that join two nodes, counted edge by edge. -/
theorem countP_joins (ss : List (String × String)) (i j : ℕ) :
    (if i = j then 2 else 1) * ss.countP (joins (nodeName i) (nodeName j)) =
      ss.count (nodeName i, nodeName j) + ss.count (nodeName j, nodeName i) := by
  induction ss with
  | nil => simp
  | cons side ss ih =>
      rw [List.countP_cons, List.count_cons, List.count_cons, Nat.mul_add, ih]
      by_cases hij : i = j
      · simp only [hij, joins, or_self, if_true, beq_iff_eq, decide_eq_true_eq]
        split <;> omega
      · have hname : ¬ (side = (nodeName i, nodeName j) ∧ side = (nodeName j, nodeName i)) := by
          intro hboth
          have hswap := hboth.1.symm.trans hboth.2
          exact hij (nodeName_injective (congrArg Prod.fst hswap))
        simp only [hij, joins, if_false, beq_iff_eq, decide_eq_true_eq]
        grind

theorem HoldsSides.built {records : List (Record K)}
    (h : HoldsSides (vertices records) (sides records) graph) : Built records graph := by
  obtain ⟨edges, hholds, hcount⟩ := h
  have hneighbors : ∀ i node, graph.nodes[i]? = some node →
      node.neighbors = neighborsOf edges i := by
    intro i node hnode
    have hlt := (List.getElem?_eq_some_iff.mp hnode).1
    rw [hholds.length] at hlt
    have hplace := hholds.nodes i _ _ _ (List.getElem?_eq_getElem hlt)
    rw [hnode] at hplace
    exact congrArg SimpleGraphNode.neighbors (Option.some.inj hplace)
  refine ⟨hholds.length, ?_, ?_, ?_⟩
  · intro i x y z hi
    have hlt := (List.getElem?_eq_some_iff.mp hi).1
    exact ⟨_, hholds.nodes i x y z hi, rfl, rfl, hholds.found i hlt⟩
  · intro node hnode q hq
    obtain ⟨i, hi⟩ := List.mem_iff_getElem?.mp hnode
    rw [hneighbors i node hi] at hq
    obtain ⟨edge, hedge, hqe⟩ := List.mem_map.mp hq
    refine ⟨edge.2, hqe.symm, ?_⟩
    rw [hholds.length]
    exact (hholds.ends edge (List.mem_filter.mp hedge).1).2
  · intro i j a b ha hb
    rw [hneighbors i a ha, hneighbors j b hb, count_neighborsOf, count_neighborsOf, hcount, hcount,
      countP_joins]
    exact ⟨Nat.add_comm _ _, rfl⟩

/-! ### The run -/

/-- What is read so far is in the graph; the run to the end by induction on the records. -/
theorem reaches_of_records {numGet : List Char → K × Option (List Char)} {text : List Char}
    {records : List (Record K)} (h : Records numGet text records) {done : List (Record K)}
    (hdeclared : Declared (vertices done).length records)
    (hgraph : HoldsSides (vertices done) (sides done) graph) :
    ∃ s graph', Reaches (step numGet) ⟨some text, (vertices done).length, some graph⟩ s ∧
      Final (step numGet) s ∧ s.graph = some graph' ∧
      HoldsSides (vertices (done ++ records)) (sides (done ++ records)) graph' := by
  induction h generalizing done graph with
  | nil hword =>
      refine ⟨_, graph, .refl, ?_, rfl, ?_⟩
      · intro _
        simp only [step, hword]
      · rwa [List.append_nil]
  | @vertex text r rx ry rz x y z records hword hx hy hz _ ih =>
      have hlength : (vertices (done ++ [.vertex x y z])).length = (vertices done).length + 1 := by
        simp [vertices, Record.vertices]
      have hnext : HoldsSides (vertices (done ++ [.vertex x y z])) (sides (done ++ [.vertex x y z]))
          (graph.addNode ⟨nodeName (vertices done).length, [], [x, z, -y]⟩) := by
        simpa [vertices, sides, Record.vertices, Record.sides] using hgraph.vertex x y z
      have hstep : step numGet ⟨some text, (vertices done).length, some graph⟩ () = some
          ⟨some rz, (vertices (done ++ [.vertex x y z])).length,
            some (graph.addNode ⟨nodeName (vertices done).length, [], [x, z, -y]⟩)⟩ := by
        rw [hlength]
        simp only [step, hword, if_true, readVertex, hx, hy, hz]
        rfl
      obtain ⟨s, graph', hrun, hfinal, hs, hholds⟩ := ih (by rw [hlength]; exact hdeclared) hnext
      refine ⟨s, graph', hrun.head trivial hstep, hfinal, hs, ?_⟩
      simpa using hholds
  | @face text r ra rb rc a b c records hword ha hb hc _ ih =>
      obtain ⟨graph₁, hface, hnext⟩ := hgraph.face hdeclared.1 (vertices done).length ha hb hc
      have hlength : vertices (done ++ [.face a b c]) = vertices done := by
        simp [vertices, Record.vertices]
      have hsides : sides (done ++ [.face a b c]) = sides done ++ [(a, b), (b, c), (c, a)] := by
        simp [sides, Record.sides]
      have hstep : step numGet ⟨some text, (vertices done).length, some graph⟩ () =
          some ⟨some rc, (vertices done).length, some graph₁⟩ := by
        have hne : ("f" : String) ≠ "v" := by decide
        simp only [step, hword, if_neg hne, if_true, hface]
      rw [← hlength, ← hsides] at hnext
      obtain ⟨s, graph', hrun, hfinal, hs, hholds⟩ := ih (by rw [hlength]; exact hdeclared.2) hnext
      rw [hlength] at hrun
      refine ⟨s, graph', hrun.head trivial hstep, hfinal, hs, ?_⟩
      simpa using hholds
  | @other text r word records hword hv hf _ ih =>
      have hsame : vertices (done ++ [.other word]) = vertices done ∧
          sides (done ++ [.other word]) = sides done := by
        simp [vertices, sides, Record.vertices, Record.sides]
      have hstep : step numGet ⟨some text, (vertices done).length, some graph⟩ () =
          some ⟨some r, (vertices done).length, some graph⟩ := by
        simp only [step, hword, if_neg hv, if_neg hf]
      rw [← hsame.1, ← hsame.2] at hgraph
      obtain ⟨s, graph', hrun, hfinal, hs, hholds⟩ := ih (by rw [hsame.1]; exact hdeclared) hgraph
      rw [hsame.1] at hrun
      refine ⟨s, graph', hrun.head trivial hstep, hfinal, hs, ?_⟩
      simpa using hholds

/-- A file whose coordinates parse and whose faces name vertices before them is read to its
end, and the graph that is left is the one of its records. -/
theorem built_of_records (numGet : List Char → K × Option (List Char)) (text : List Char)
    (records : List (Record K)) (h : Records numGet text records) (hdeclared : Declared 0 records) :
    (∃ s, Reaches (step numGet) (.initial text) s ∧ Final (step numGet) s) ∧
    ∀ s, Reaches (step numGet) (.initial text) s → Final (step numGet) s →
      ∃ graph, s.graph = some graph ∧ Built records graph := by
  have hempty : HoldsSides (vertices ([] : List (Record K))) (sides ([] : List (Record K)))
      SimpleGraph.empty := by
    refine ⟨[], ⟨rfl, ?_, ?_, ?_⟩, fun _ _ => rfl⟩
    · intro i x y z hi
      cases hi
    · intro i hi
      cases hi
    · intro edge hedge
      cases hedge
  have hstart : Declared (vertices ([] : List (Record K))).length records := hdeclared
  obtain ⟨t, graph, hrun, hfinal, hgraph, hholds⟩ := reaches_of_records h hstart hempty
  refine ⟨⟨t, hrun, hfinal⟩, fun s hs hfinal' => ?_⟩
  rw [← hrun.final_unique hfinal hs hfinal']
  exact ⟨graph, hgraph, hholds.built⟩

/-- The conversion of whole numbers without a sign. -/
def wholeNumGet (text : List Char) : ℤ × Option (List Char) :=
  match text.takeWhile Char.isDigit with
  | [] => (0, none)
  | digits => ((Nat.ofDigitChars 10 digits 0 : ℕ), some (text.dropWhile Char.isDigit))

/-- Three vertices, a triangle and a face with two corners in one place. -/
def triangle : List Char := "v 0 1 2\nv 3 4 5\nvn 1\nv 6 7 8\nf 1 2 3\nf 1 1 2".toList

def triangleRecords : List (Record ℤ) :=
  [.vertex 0 1 2, .vertex 3 4 5, .other "vn", .other "1", .vertex 6 7 8, .face "1" "2" "3",
    .face "1" "1" "2"]

theorem triangle_records : Records wholeNumGet triangle triangleRecords := by
  refine .vertex rfl rfl rfl rfl ?_
  refine .vertex rfl rfl rfl rfl ?_
  refine .other rfl (by decide) (by decide) ?_
  refine .other rfl (by decide) (by decide) ?_
  refine .vertex rfl rfl rfl rfl ?_
  refine .face rfl rfl rfl rfl ?_
  refine .face rfl rfl rfl rfl ?_
  exact .nil rfl

theorem triangle_declared : Declared 0 triangleRecords := by
  refine ⟨?_, ?_, trivial⟩ <;> decide

theorem built_of_records_triangle :
    ∃ s, Reaches (step wholeNumGet) (.initial triangle) s ∧ Final (step wholeNumGet) s ∧
      ∃ graph, s.graph = some graph ∧ Built triangleRecords graph := by
  have h := built_of_records wholeNumGet triangle triangleRecords triangle_records
    triangle_declared
  obtain ⟨s, hrun, hfinal⟩ := h.1
  exact ⟨s, hrun, hfinal, h.2 s hrun hfinal⟩

end ObjGraph

end UmnProjects.Routing
