import BoxDiagram.Geometry
import BoxDiagram.Kind
import BoxDiagram.NodeId
import BoxDiagram.PropertyMap
import BoxDiagram.Span

/-!
The graph of a diagram: nodes in the order of their declaration, each with the path of the node
around it, and edges between them. Rank, position, size and the back-edge flags are written by the
layout and empty before it.

Nodes can only be added behind the node around them, so going out from a node means going back in
the order of declaration.
-/

namespace BoxDiagram

variable {α : Type}

structure Node (α : Type) where
  id : NodeId
  kind : NodeKind
  /-- The path of the node around this one. -/
  parent : Option String
  properties : PropertyMap
  span : Span
  rank : Option Nat
  /-- The upper left corner. -/
  position : Option (Point α)
  size : Size α
  deriving DecidableEq

structure Edge where
  source : String
  target : String
  kind : EdgeKind
  label : Option String
  span : Span
  /-- Whether the ranking left the edge out to break a cycle. -/
  isBackEdge : Bool := false
  deriving DecidableEq, Inhabited

structure Graph (α : Type) where
  title : Option String := none
  nodes : List (Node α) := []
  edges : List Edge := []
  deriving DecidableEq, Inhabited

inductive GraphError where
  | duplicateNode (path : String)
  | unknownParent (node parent : String)
  | unknownEndpoint (path : String)
  deriving DecidableEq, Repr

def GraphError.message : GraphError → String
  | .duplicateNode path => "node `" ++ path ++ "` already exists"
  | .unknownParent node parent =>
    "parent `" ++ parent ++ "` of node `" ++ node ++ "` does not exist"
  | .unknownEndpoint path => "edge endpoint `" ++ path ++ "` does not exist"

namespace Node

def path (node : Node α) : String := node.id.path

def isContainer (node : Node α) : Bool := node.kind = .container

def labelKey : String := "label"

def label (node : Node α) : String :=
  (node.properties.get? labelKey).getD node.id.readableName

def mergeProperties (node : Node α) (later : PropertyMap) : Node α :=
  { node with properties := node.properties.merge later }

variable [Scalar α]

def defaultSize : NodeKind → Size α
  | .leaf => ⟨Scalar.ofNat 200, Scalar.ofNat 120⟩
  | .container => ⟨Scalar.ofNat 360, Scalar.ofNat 240⟩

def declared (id : NodeId) (kind : NodeKind) (parent : Option String)
    (properties : PropertyMap) (span : Span) : Node α where
  id; kind; parent; properties; span
  rank := none
  position := none
  size := defaultSize kind

def bounds (node : Node α) : Option (Bounds α) :=
  node.position.map fun corner => .ofCorner corner node.size

def clear (node : Node α) : Node α :=
  { node with rank := none, position := none, size := defaultSize node.kind }

end Node

namespace Graph

def empty : Graph α := {}

def isEmpty (graph : Graph α) : Bool := graph.nodes.isEmpty

def node? (graph : Graph α) (path : String) : Option (Node α) :=
  graph.nodes.find? (·.path = path)

def contains (graph : Graph α) (path : String) : Bool := graph.nodes.any (·.path = path)

def index? (graph : Graph α) (path : String) : Option Nat :=
  graph.nodes.findIdx? (·.path = path)

def addNode (graph : Graph α) (node : Node α) : Except GraphError (Graph α) :=
  if graph.contains node.path then .error (.duplicateNode node.path)
  else match node.parent with
    | some parent =>
      if graph.contains parent then .ok { graph with nodes := graph.nodes ++ [node] }
      else .error (.unknownParent node.path parent)
    | none => .ok { graph with nodes := graph.nodes ++ [node] }

def addEdge (graph : Graph α) (edge : Edge) : Except GraphError (Graph α) :=
  if !graph.contains edge.source then .error (.unknownEndpoint edge.source)
  else if !graph.contains edge.target then .error (.unknownEndpoint edge.target)
  else .ok { graph with edges := graph.edges ++ [edge] }

def setTitle (graph : Graph α) (title : Option String) : Graph α := { graph with title }

def modifyNode (graph : Graph α) (path : String) (change : Node α → Node α) : Graph α :=
  { graph with nodes := graph.nodes.map fun node => if node.path = path then change node else node }

def mergeProperties (graph : Graph α) (path : String) (later : PropertyMap) : Graph α :=
  graph.modifyNode path (·.mergeProperties later)

def setRank (graph : Graph α) (path : String) (rank : Option Nat) : Graph α :=
  graph.modifyNode path ({ · with rank })

def setPosition (graph : Graph α) (path : String) (position : Option (Point α)) : Graph α :=
  graph.modifyNode path ({ · with position })

def setSize (graph : Graph α) (path : String) (size : Size α) : Graph α :=
  graph.modifyNode path ({ · with size })

def setBackEdge (graph : Graph α) (index : Nat) (isBackEdge : Bool) : Graph α :=
  { graph with edges := graph.edges.modify index ({ · with isBackEdge }) }

def children (graph : Graph α) (path : String) : List (Node α) :=
  graph.nodes.filter (·.parent = some path)

def roots (graph : Graph α) : List (Node α) := graph.nodes.filter (·.parent = none)

def members (graph : Graph α) (parent : Option String) : List (Node α) :=
  graph.nodes.filter (·.parent = parent)

def withLocalName (graph : Graph α) (name : String) : List (Node α) :=
  graph.nodes.filter (·.id.localName = name)

/-- The nodes around a node whose parent is given, innermost first, among nodes that are listed
latest first. -/
def outward : List (Node α) → Option String → List (Node α)
  | _, none => []
  | [], some _ => []
  | node :: earlier, some parent =>
    if node.path = parent then node :: outward earlier node.parent
    else outward earlier (some parent)

def ancestors (graph : Graph α) (path : String) : List (Node α) :=
  match graph.node? path with
  | none => []
  | some node => outward graph.nodes.reverse node.parent

def lineage (graph : Graph α) (path : String) : List (Node α) :=
  (graph.node? path).toList ++ graph.ancestors path

def isAncestor (graph : Graph α) (outer inner : String) : Bool :=
  (graph.ancestors inner).any (·.path = outer)

def depth (graph : Graph α) (path : String) : Nat := (graph.ancestors path).length

variable [Scalar α]

def relativePosition (graph : Graph α) (path : String) : Option (Point α) := do
  let node ← graph.node? path
  let position ← node.position
  match node.parent.bind graph.node? with
  | some parent => parent.position.map position.sub
  | none => some position

/-- The box around all nodes that are inside no other and have a position. -/
def bounds (graph : Graph α) : Option (Bounds α) :=
  Bounds.mergeAll (graph.roots.filterMap Node.bounds)

def clearLayout (graph : Graph α) : Graph α where
  title := graph.title
  nodes := graph.nodes.map Node.clear
  edges := graph.edges.map ({ · with isBackEdge := false })

end Graph

end BoxDiagram
