import BoxDiagram.Graph

/-!
Scopes: the nodes that share a parent. There is one for the outermost nodes and one for every
container with members; a node inside a leaf is in no scope. Scopes are listed from the inside out,
so that what is known of one is known before the scope around it.
-/

namespace BoxDiagram

/-- The members of a container, or the outermost nodes, in the order of declaration. -/
structure Scope where
  container : Option String
  members : List String
  deriving DecidableEq, Inhabited

namespace Graph

variable {α : Type}

def scope (graph : Graph α) (container : Option String) : Scope :=
  ⟨container, (graph.members container).map Node.path⟩

def isFilled (graph : Graph α) (node : Node α) : Bool :=
  node.isContainer && !(graph.members (some node.path)).isEmpty

def filledAt (graph : Graph α) (depth : Nat) : List (Node α) :=
  graph.nodes.filter fun node => graph.isFilled node && graph.depth node.path = depth

def depths (graph : Graph α) : List Nat :=
  (List.range ((graph.nodes.map fun node => graph.depth node.path).foldl max 0 + 1)).reverse

/-- The scopes of the containers, deepest first, then the scope of the outermost nodes. -/
def scopes (graph : Graph α) : List Scope :=
  graph.depths.flatMap (fun depth =>
    (graph.filledAt depth).map fun container => graph.scope (some container.path)) ++
    if graph.roots.isEmpty then [] else [graph.scope none]

/-- The member of the scope of `container` that is the node at a path or around it. -/
def lift (graph : Graph α) (container : Option String) (path : String) : Option String :=
  ((graph.lineage path).find? (·.parent = container)).map Node.path

end Graph

end BoxDiagram
