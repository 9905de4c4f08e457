import BoxDiagram.Placement

/-!
The layout of a graph: ranks, then layers, then boxes, all written into the graph.
-/

namespace BoxDiagram.Graph

variable {α : Type} [Scalar α]

def writeNode (ranking : Ranking) (placement : Placement α) (node : Node α) : Node α :=
  let ranked := { node with rank := ranking.rank? node.path }
  match placement.bounds? node.path with
  | some box => { ranked with size := box.size, position := some box.corner }
  | none => ranked

def writeLayout (graph : Graph α) (ranking : Ranking) (placement : Placement α) : Graph α where
  title := graph.title
  nodes := graph.nodes.map (writeNode ranking placement)
  edges := graph.edges.zipIdx.map fun (edge, index) =>
    { edge with isBackEdge := ranking.isBackEdge index }

def ownPlacement (graph : Graph α) (settings : Settings α) : Placement α :=
  let ranking := graph.ranking
  graph.placement ranking (graph.layering ranking settings.orderingSweeps) settings

/-- Lays a graph out; what an earlier layout left is cleared first. Also gives a finding for every
edge that was left out of the ranking. -/
def layout (graph : Graph α) (settings : Settings α) : Graph α × List Diagnostic :=
  let cleared := graph.clearLayout
  let ranking := cleared.ranking
  (cleared.writeLayout ranking (cleared.ownPlacement settings), ranking.diagnostics)

end BoxDiagram.Graph
