import BoxDiagram.Graph.Assembly

/-!
Reading a diagram. It never fails: what cannot be read is left out and reported.
-/

namespace BoxDiagram

/-- A graph with what was found on the way: findings in the order of the lines, then bodies that
are still open, then endpoints. -/
structure Parsed (α : Type) where
  graph : Graph α
  diagnostics : List Diagnostic

variable {α : Type} [Scalar α]

def assemble (source : String) : Assembly α := .ofLines (Line.ofSource source)

def parse (source : String) : Parsed α :=
  let assembly := assemble source
  ⟨assembly.graph, assembly.diagnostics⟩

end BoxDiagram
