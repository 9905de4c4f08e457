import BoxDiagram.Diagnostic.Catalog
import BoxDiagram.Precedence

/-!
Ranks. The rank of an atom is the length of the longest chain of constraints that leads to it; a
container has the least rank of its atoms.
-/

namespace BoxDiagram

/-- The ranks of nodes by their paths, the edges left out of the ranking, and a finding for each
of these. -/
structure Ranking where
  ranks : List (String × Nat)
  backEdges : List Nat
  diagnostics : List Diagnostic
  deriving DecidableEq

namespace Ranking

def rank? (ranking : Ranking) (path : String) : Option Nat := ranking.ranks.lookup path

def rankOf (ranking : Ranking) (path : String) : Nat := (ranking.rank? path).getD 0

def isBackEdge (ranking : Ranking) (edge : Nat) : Bool := ranking.backEdges.contains edge

def highest (ranking : Ranking) : Option Nat := (ranking.ranks.map Prod.snd).max?

def entry (table : List (String × Nat)) (atom : String) : Nat := (table.lookup atom).getD 0

/-- Puts every atom one behind the greatest of the atoms that must come before it. -/
def advance (before : List (String × List String)) (table : List (String × Nat)) :
    List (String × Nat) :=
  before.map fun (atom, sources) =>
    (atom, (sources.map fun source => entry table source + 1).foldl max 0)

def settle {β : Type} [DecidableEq β] (step : β → β) : Nat → β → β
  | 0, value => value
  | fuel + 1, value => if step value = value then value else settle step fuel (step value)

/-- The ranks of atoms under constraints without a cycle. A chain of constraints is shorter than
the number of atoms, so as many steps reach the end of every chain. -/
def ofConstraints (constraints : List Constraint) (atoms : List String) : List (String × Nat) :=
  let before := atoms.map fun atom =>
    (atom, (constraints.filter (·.target = atom)).map (·.source))
  settle (advance before) atoms.length (atoms.map fun atom => (atom, 0))

end Ranking

namespace Graph

variable {α : Type}

def atomRanks (graph : Graph α) : List (String × Nat) :=
  Ranking.ofConstraints graph.keptConstraints graph.atoms

def leastRank (table : List (String × Nat)) (atoms : List String) : Nat :=
  ((atoms.map (Ranking.entry table)).min?).getD 0

def cycleDiagnostic (edge : Edge) : Diagnostic := .brokenCycle edge.source edge.target edge.span

def ranking (graph : Graph α) : Ranking :=
  let lineages := graph.atomLineages
  let table := graph.atomRanks
  let backEdges := graph.backEdges
  { ranks := graph.nodes.map fun node =>
      (node.path, leastRank table (atomsWithin lineages node.path))
    backEdges
    diagnostics := backEdges.filterMap fun index => (graph.edges[index]?).map cycleDiagnostic }

end Graph

end BoxDiagram
