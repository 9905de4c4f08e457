import BoxDiagram.Diagnostic
import BoxDiagram.Kind

/-!
What a logical line of a diagram says.
-/

namespace BoxDiagram

structure Declaration where
  name : Located String
  properties : Option (Located String)
  deriving DecidableEq, Inhabited

structure Hop where
  source : Located String
  target : Located String
  kind : EdgeKind
  label : Option String
  deriving DecidableEq, Inhabited

def Hop.span (hop : Hop) : Span := hop.source.span.union hop.target.span

inductive Statement where
  | containerOpen (declaration : Declaration)
  | leaf (declaration : Declaration)
  | blockOpen
  | containerClose
  | connection (hops : List Hop)
  | title (text : String)
  | comment
  | malformed (diagnostic : Diagnostic)
  /-- Text that means nothing and is not worth a warning. -/
  | ignorable
  deriving DecidableEq, Inhabited

/-- Whether a statement neither says anything nor ends the wait of a declaration for its brace. -/
def Statement.isIgnorable : Statement → Bool
  | .comment | .ignorable => true
  | _ => false

def Located.shift {α : Type} (distance : Nat) (located : Located α) : Located α :=
  { located with span := located.span.shift distance }

def Declaration.shift (distance : Nat) (declaration : Declaration) : Declaration where
  name := declaration.name.shift distance
  properties := declaration.properties.map (Located.shift distance)

def Hop.shift (distance : Nat) (hop : Hop) : Hop :=
  { hop with source := hop.source.shift distance, target := hop.target.shift distance }

def Statement.shift (distance : Nat) : Statement → Statement
  | .containerOpen declaration => .containerOpen (declaration.shift distance)
  | .leaf declaration => .leaf (declaration.shift distance)
  | .connection hops => .connection (hops.map (Hop.shift distance))
  | .malformed diagnostic => .malformed (diagnostic.shift distance)
  | statement => statement

end BoxDiagram
