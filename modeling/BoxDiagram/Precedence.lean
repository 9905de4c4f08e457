import BoxDiagram.Graph

/-!
Precedence between atoms, the nodes that get a rank of their own: leaves, and containers without
members. An edge asks every atom of its source to come before every atom of its target. A depth
first search in the order of declaration finds the edges that close a cycle; without these the
constraints have no cycle.
-/

namespace BoxDiagram

/-- One atom has to come before another because of an edge, which is given by its index. -/
structure Constraint where
  source : String
  target : String
  edge : Nat
  deriving DecidableEq, Inhabited

namespace Graph

variable {α : Type}

def isAtom (graph : Graph α) (node : Node α) : Bool :=
  !node.isContainer || (graph.children node.path).isEmpty

def atoms (graph : Graph α) : List String := (graph.nodes.filter graph.isAtom).map Node.path

def atomLineages (graph : Graph α) : List (String × List String) :=
  graph.atoms.map fun atom => (atom, (graph.lineage atom).map Node.path)

def atomsWithin (lineages : List (String × List String)) (path : String) : List String :=
  (lineages.filter (·.2.contains path)).map Prod.fst

def atomsBelow (graph : Graph α) (path : String) : List String :=
  atomsWithin graph.atomLineages path

/-- The constraints of an edge. There are none when its ends share an atom. -/
def constraintsOf (lineages : List (String × List String)) (edge : Edge) (index : Nat) :
    List Constraint :=
  let sources := atomsWithin lineages edge.source
  let targets := atomsWithin lineages edge.target
  if sources.any targets.contains then []
  else sources.flatMap fun source => targets.map fun target => ⟨source, target, index⟩

def constraints (graph : Graph α) : List Constraint :=
  let lineages := graph.atomLineages
  graph.edges.zipIdx.flatMap fun (edge, index) => constraintsOf lineages edge index

end Graph

/-- What a search has found: the atoms it is done with, last one first, and the edges with a
constraint that leads back to an atom on the path of the search. -/
structure Search where
  done : List String := []
  flagged : List Nat := []
  deriving DecidableEq, Inhabited

namespace Search

/-- Searches from an atom that is not done. The path holds the atoms that the search came through,
last one first. The fuel bounds the length of the path, which holds no atom twice. -/
def visit (constraints : List Constraint) : Nat → List String → String → Search → Search
  | 0, _, _, search => search
  | fuel + 1, path, atom, search =>
    let after := (constraints.filter (·.source = atom)).foldl (fun search constraint =>
      if search.done.contains constraint.target then search
      else if (atom :: path).contains constraint.target then
        { search with flagged := constraint.edge :: search.flagged }
      else visit constraints fuel (atom :: path) constraint.target search) search
    { after with done := atom :: after.done }

def visitAll (constraints : List Constraint) (atoms : List String) : Search :=
  atoms.foldl (fun search atom =>
    if search.done.contains atom then search
    else visit constraints atoms.length [] atom search) {}

end Search

namespace Graph

variable {α : Type}

def backEdges (graph : Graph α) : List Nat :=
  let search := Search.visitAll graph.constraints graph.atoms
  (List.range graph.edges.length).filter search.flagged.contains

def keptConstraints (graph : Graph α) : List Constraint :=
  let backEdges := graph.backEdges
  graph.constraints.filter fun constraint => !backEdges.contains constraint.edge

end Graph

end BoxDiagram
