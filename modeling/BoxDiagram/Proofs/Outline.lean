import BoxDiagram.Parse
import BoxDiagram.Proofs.Names
import BoxDiagram.Proofs.QuotedLists

/-!
Diagrams as they are meant: declarations inside one another and links between them. An outline has one
text, a line for each declaration, closing brace and link, and one graph, but for the places in the
text where its nodes and edges were declared.
-/

namespace BoxDiagram

structure Heading where
  name : Name
  properties : PropertyMap
  writable : properties.Writable

inductive Forest where
  | empty
  | leaf (heading : Heading) (rest : Forest)
  | container (heading : Heading) (members rest : Forest)

structure Sketch where
  id : NodeId
  kind : NodeKind
  properties : PropertyMap

namespace Forest

def sketches (outer : Option String) : Forest → List Sketch
  | empty => []
  | leaf heading rest =>
    ⟨⟨outer, heading.name.text⟩, .leaf, heading.properties⟩ :: rest.sketches outer
  | container heading members rest =>
    let id : NodeId := ⟨outer, heading.name.text⟩
    ⟨id, .container, heading.properties⟩ :: members.sketches (some id.path) ++ rest.sketches outer

def paths (outer : Option String) (forest : Forest) : List String :=
  (forest.sketches outer).map (·.id.path)

end Forest

structure Link where
  source : String
  target : String
  kind : EdgeKind
  label : Option String

structure Outline where
  forest : Forest
  links : List Link
  distinct : (forest.paths none).Nodup
  endpoints : ∀ link ∈ links, link.source ∈ forest.paths none ∧ link.target ∈ forest.paths none
  labels : ∀ link ∈ links, ∀ label, link.label = some label → label ≠ "" ∧ IsQuotable label

section Text

def Heading.text (heading : Heading) : List Char :=
  heading.name.text.toList ++ (' ' :: '[' :: PropertyList.write heading.properties ++ [']'])

def Forest.lines : Forest → List (List Char)
  | empty => []
  | leaf heading rest => heading.text :: rest.lines
  | container heading members rest =>
    (heading.text ++ [' ', '{']) :: members.lines ++ ['}'] :: rest.lines

def arrowText : EdgeKind → List Char
  | .directed => ['-', '>']
  | .bidirectional => ['<', '-', '>']

def labelText : Option String → List Char
  | none => []
  | some label => ':' :: ' ' :: '"' :: label.toList ++ ['"']

def Link.text (link : Link) : List Char :=
  link.source.toList ++ ' ' :: (arrowText link.kind ++ ' ' ::
    (link.target.toList ++ labelText link.label))

def Outline.lines (outline : Outline) : List (List Char) :=
  outline.forest.lines ++ outline.links.map Link.text

/-- The declarations first, then the links, each line with a newline behind it. -/
def Outline.text (outline : Outline) : String :=
  String.ofList (outline.lines.flatMap (· ++ ['\n']))

end Text

section Graph

variable {α : Type}

def Node.unplaced (node : Node α) : Node α := { node with span := .zero }

def Edge.unplaced (edge : Edge) : Edge := { edge with span := .zero }

def Graph.unplaced (graph : Graph α) : Graph α where
  title := graph.title
  nodes := graph.nodes.map Node.unplaced
  edges := graph.edges.map Edge.unplaced

def Link.edge (link : Link) : Edge :=
  { source := link.source, target := link.target, kind := link.kind, label := link.label, span := .zero }

variable [Scalar α]

def Sketch.node (sketch : Sketch) : Node α :=
  .declared sketch.id sketch.kind sketch.id.outer sketch.properties .zero

def Outline.graph (outline : Outline) : Graph α where
  nodes := (outline.forest.sketches none).map Sketch.node
  edges := outline.links.map Link.edge

end Graph

end BoxDiagram
