/-!
Kinds of nodes and of edges.
-/

namespace BoxDiagram

inductive NodeKind where
  | leaf
  | container
  deriving DecidableEq, Inhabited, Repr

def NodeKind.text : NodeKind → String
  | .leaf => "leaf"
  | .container => "container"

inductive EdgeKind where
  | directed
  | bidirectional
  deriving DecidableEq, Inhabited, Repr

def EdgeKind.text : EdgeKind → String
  | .directed => "directed"
  | .bidirectional => "bidirectional"

end BoxDiagram
