import UmnProjects.Osm.OSMGraph
import UmnProjects.Osm.Xml
import Mathlib.Algebra.Field.Defs
import Mathlib.Data.List.Sort

/-!
`OsmParser` and `GraphUtils`: from the document tree to the largest connected component
of the graph of its highways. Hash tables are iterated in the order of `hash`, numbers
are those of a field, with the parser and the cosine of the standard library as `num`.
-/
namespace UmnProjects.Osm

open Tables Routing

structure Numerals (K : Type) where
  stod : String → Option K
  cos : K → K

def Numerals.read {K : Type} (num : Numerals K) (text : String) : Except LoadError K :=
  match num.stod text with
  | some x => .ok x
  | none => .error (.stod text)

namespace OsmParser

/-! ### Nodes -/

section Nodes

variable {K : Type} [Field K] (num : Numerals K)

def asRadians (degrees : K) : K := degrees * (314159 / 100000) / 180

def getLon (_lat lon centerLat centerLon : K) : K :=
  let deltaLongitude := lon - centerLon
  let latitudeCircumference := 40075160 * num.cos (asRadians centerLat)
  deltaLongitude * latitudeCircumference / 360

/-- An element without id, lat or lon is skipped with a message. -/
def readNode (centerLat centerLon : K) (graph : OSMGraph K) (wayNode : XmlNode) :
    Except LoadError (OSMGraph K) :=
  match wayNode.attributeNamed "id", wayNode.attributeNamed "lat",
      wayNode.attributeNamed "lon" with
  | some id, some lat, some lon => do
      let latitude ← num.read lat
      let longitude ← num.read lon
      let x := getLon num latitude longitude centerLat centerLon
      let z := -(latitude - centerLat) * 40008000 / 360
      graph.addNode ⟨x, 264, z⟩ id
  | _, _, _ => .ok graph

def readNodes (doc : XmlDocument) : Except LoadError (OSMGraph K) := do
  let parentOfNodes := doc.firstChild
  let bounds := parentOfNodes.child "bounds"
  let minlat ← num.read (bounds.value "minlat")
  let minlon ← num.read (bounds.value "minlon")
  let maxlat ← num.read (bounds.value "maxlat")
  let maxlon ← num.read (bounds.value "maxlon")
  let centerLat := minlat + (maxlat - minlat) / 2
  let centerLon := minlon + (maxlon - minlon) / 2
  (parentOfNodes.childrenNamed "node").foldlM (readNode num centerLat centerLon) .empty

end Nodes

/-! ### Adjacencies -/

section Adjacencies

variable (hash : HashOrder)

def isHighway (wayNode : XmlNode) : Bool :=
  (wayNode.childrenNamed "tag").any (fun tagNode => tagNode.value "k" == "highway")

/-- Every sibling from the first way on is looked at, whatever its name. -/
def highwayWayNodes (parentOfNodes : XmlNode) : Table String XmlNode :=
  (parentOfNodes.childrenFrom "way").foldl
    (fun ways wayNode =>
      if isHighway wayNode then ways.emplace (wayNode.value "id") wayNode else ways) ∅

def addNodeIds (ids : List String) (wayNode : XmlNode) : List String :=
  (wayNode.childrenFrom "nd").foldl
    (fun ids child => if child.name == "nd" then ids.insert (child.value "ref") else ids) ids

/-- `std::set::insert`; the set is the ascending list of its elements. -/
def insertSorted (x : String) (set : List String) : List String :=
  if x ∈ set then set else set.orderedInsert (· ≤ ·) x

/-- `adjacency_list[u].insert(v)` -/
def link (adjacencies : Table String (List String)) (u v : String) : Table String (List String) :=
  adjacencies.insert u (insertSorted v ((adjacencies.lookup u).getD []))

def connectSiblings : Table String (List String) → List XmlNode → Table String (List String)
  | adjacencies, first :: second :: rest =>
      let u := first.value "ref"
      let v := second.value "ref"
      if first.name == "nd" && second.name == "nd" then
        connectSiblings (link (link adjacencies u v) v u) (second :: rest)
      else connectSiblings adjacencies (second :: rest)
  | adjacencies, _ => adjacencies

def getAdjacencyListFromFile (doc : XmlDocument) : Table String (List String) :=
  let ways := hash.order (highwayWayNodes doc.firstChild).entries
  let ids := ways.foldl (fun ids way => addNodeIds ids way.2) []
  let initialized := (hash.order ids).foldl (fun adjacencies id => adjacencies.emplace id []) ∅
  ways.foldl (fun adjacencies way => connectSiblings adjacencies (way.2.childrenFrom "nd"))
    initialized

variable {K : Type}

def addEdgesFrom (source : String) (graph : OSMGraph K) (others : List String) :
    Except LoadError (OSMGraph K) :=
  others.foldlM
    (fun graph target => if graph.contains target then graph.addEdge source target else .ok graph)
    graph

def readAdjacenciesTo (graph : OSMGraph K) (doc : XmlDocument) : Except LoadError (OSMGraph K) :=
  (hash.order (getAdjacencyListFromFile hash doc).entries).foldlM
    (fun graph it =>
      if graph.contains it.1 then addEdgesFrom it.1 graph it.2 else .ok graph) graph

end Adjacencies

end OsmParser

/-! ### Components -/

namespace GraphUtils

variable {P K : Type} (hash : HashOrder)

def dfsVisit (graph : IGraph P K) (index : ℕ) :
    ℕ → Table String ℕ → P → Except LoadError (Table String ℕ)
  | 0, _, _ => .error .boundReached
  | bound + 1, record, n =>
      if graph.getName n ∈ record then .ok record
      else (graph.getNeighbors n).foldlM (dfsVisit graph index bound)
        (record.insert (graph.getName n) index)

/-- One round of the loop over the nodes, on the record and the next index. -/
def visitNode (graph : IGraph P K) (bound : ℕ) (visited : Table String ℕ × ℕ) (node : P) :
    Except LoadError (Table String ℕ × ℕ) :=
  if graph.getName node ∈ visited.1 then .ok visited
  else do
    let record ← dfsVisit graph visited.2 bound visited.1 node
    .ok (record, visited.2 + 1)

def connectedComponents (graph : IGraph P K) (bound : ℕ) : Except LoadError (Table String ℕ) := do
  let visited ← graph.getNodes.foldlM (visitNode graph bound) (∅, 0)
  .ok visited.1

def countValueOccurrences (toCount : Table String ℕ) : Table ℕ ℤ :=
  (hash.order toCount.entries).foldl
    (fun result kv =>
      match result.lookup kv.2 with
      | none => result.insert kv.2 1
      | some count => result.insert kv.2 (count + 1)) ∅

def intMin : ℤ := -2147483648

/-- The first loop of `argmax`. -/
def maxValue (entries : List (Sigma fun _ : ℕ => ℤ)) : ℤ :=
  entries.foldl (fun max kv => if kv.2 > max then kv.2 else max) intMin

/-- The first key that has the largest value. -/
def argmax (mapping : Table ℕ ℤ) : Except LoadError ℕ :=
  let entries := hash.order mapping.entries
  match entries.find? (fun kv => kv.2 == maxValue entries) with
  | some kv => .ok kv.1
  | none => .error .noReturn

def whereEqual (mapping : Table String ℕ) (equalTo : ℕ) : Table String Bool :=
  (hash.order mapping.entries).foldl (fun result kv => result.emplace kv.1 (kv.2 == equalTo)) ∅

/-- The first loop of `Filter` on one entry of the filter. -/
def copyNode (original : IGraph P K) (filteredGraph : OSMGraph K) (name : String)
    (included : Bool) : Except LoadError (OSMGraph K) :=
  if included then
    match original.getNode name with
    | none => .error (.logicError name)
    | some existingNode =>
        match original.getPosition existingNode with
        | x :: y :: z :: _ => filteredGraph.addNode ⟨x, y, z⟩ (original.getName existingNode)
        | _ => .error .outOfRange
  else .ok filteredGraph

/-- The inner loop of `Filter` on one neighbour of a node that is kept. -/
def copyEdge (original : IGraph P K) (filter : Table String Bool) (name : String)
    (filteredGraph : OSMGraph K) (other : P) : Except LoadError (OSMGraph K) :=
  match filter.lookup (original.getName other) with
  | none => .error (.invalidArgument name)
  | some false => .ok filteredGraph
  | some true => filteredGraph.addEdge name (original.getName other)

/-- The second loop of `Filter` on one node of the original graph. -/
def copyEdges (original : IGraph P K) (filter : Table String Bool) (filteredGraph : OSMGraph K)
    (node : P) : Except LoadError (OSMGraph K) :=
  let name := original.getName node
  match filter.lookup name with
  | none => .error (.invalidArgument name)
  | some false => .ok filteredGraph
  | some true =>
      (original.getNeighbors node).foldlM (copyEdge original filter name) filteredGraph

def filter (original : IGraph P K) (filter : Table String Bool) :
    Except LoadError (OSMGraph K) := do
  let copied ← (hash.order filter.entries).foldlM
    (fun filteredGraph kv => copyNode original filteredGraph kv.1 kv.2) .empty
  original.getNodes.foldlM (copyEdges original filter) copied

def filterToLargestConnectedComponent (original : IGraph P K) (bound : ℕ) :
    Except LoadError (OSMGraph K) := do
  let ccMapping ← connectedComponents original bound
  let ccSizes := countValueOccurrences hash ccMapping
  let largestSubgraphIdx ← argmax hash ccSizes
  filter hash original (whereEqual hash ccMapping largestSubgraphIdx)

end GraphUtils

/-- `bound` limits the depth of the recursion of `dfs_visit`. -/
def OsmParser.loadGraphFromFile {K : Type} [Field K] (num : Numerals K) (hash : HashOrder)
    (bound : ℕ) (doc : XmlDocument) : Except LoadError (OSMGraph K) := do
  let nodes ← readNodes num doc
  let geazy ← readAdjacenciesTo hash nodes doc
  GraphUtils.filterToLargestConnectedComponent hash geazy.toIGraph bound

end UmnProjects.Osm
