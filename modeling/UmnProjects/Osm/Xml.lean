/-!
The part of pugixml that the OSM parser uses. A null handle answers like a node with
an empty name, no attributes and no children, so it is represented by such a node.
-/
namespace UmnProjects.Osm

/-- A node of the document tree; text and comments have the empty name. -/
inductive XmlNode where
  | mk (name : String) (attributes : List (String × String)) (children : List XmlNode)

namespace XmlNode

def name : XmlNode → String
  | .mk name _ _ => name

def attributes : XmlNode → List (String × String)
  | .mk _ attributes _ => attributes

def children : XmlNode → List XmlNode
  | .mk _ _ children => children

def null : XmlNode := .mk "" [] []

def attributeNamed (node : XmlNode) (name : String) : Option String :=
  (node.attributes.find? (fun a => a.1 == name)).map (fun a => a.2)

/-- `attribute(name).value()` -/
def value (node : XmlNode) (name : String) : String := (node.attributeNamed name).getD ""

def child (node : XmlNode) (name : String) : XmlNode :=
  (node.children.find? (fun c => c.name == name)).getD null

/-- What a loop visits that starts at `child(name)` and moves by `next_sibling(name)`. -/
def childrenNamed (node : XmlNode) (name : String) : List XmlNode :=
  node.children.filter (fun c => c.name == name)

/-- What a loop visits that starts at `child(name)` and moves by `next_sibling()`. -/
def childrenFrom (node : XmlNode) (name : String) : List XmlNode :=
  node.children.dropWhile (fun c => c.name != name)

end XmlNode

structure XmlDocument where
  children : List XmlNode

def XmlDocument.firstChild (doc : XmlDocument) : XmlNode := doc.children.headD .null

end UmnProjects.Osm
