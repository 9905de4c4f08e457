import BoxDiagram.Graph
import BoxDiagram.Line
import BoxDiagram.PropertyList

/-!
Puts a graph together from logical lines. Declarations become nodes at once, inside the innermost
open body that has a node. Connections are kept back and resolved when all nodes are known, so a
connection may name a node that is declared further down.
-/

namespace BoxDiagram

structure OpenBody where
  /-- The path of the node whose body it is; a stray brace has none, nor has the body of a
  container that was first declared as a leaf. -/
  owner : Option String
  span : Span
  deriving DecidableEq, Inhabited

inductive Event where
  | ignored (line : String)
  | keyless (entry : String)
  | reported (diagnostic : Diagnostic)
  deriving DecidableEq

def Event.diagnostic? : Event → Option Diagnostic
  | .reported diagnostic => some diagnostic
  | _ => none

structure Assembly (α : Type) where
  graph : Graph α := {}
  /-- Innermost first. -/
  bodies : List OpenBody := []
  /-- A leaf that is kept back by one line in case its brace follows. -/
  pending : Option (Declaration × Span) := none
  hops : List Hop := []
  events : List Event := []
  opened : Nat := 0
  closed : Nat := 0

namespace Assembly

variable {α : Type}

def diagnostics (assembly : Assembly α) : List Diagnostic :=
  assembly.events.filterMap Event.diagnostic?

def note (assembly : Assembly α) (event : Event) : Assembly α :=
  { assembly with events := assembly.events ++ [event] }

def report (assembly : Assembly α) (diagnostic : Diagnostic) : Assembly α :=
  assembly.note (.reported diagnostic)

@[simp] theorem diagnostics_report (assembly : Assembly α) (diagnostic : Diagnostic) :
    (assembly.report diagnostic).diagnostics = assembly.diagnostics ++ [diagnostic] := by
  simp [diagnostics, report, note, Event.diagnostic?]

def enclosing (assembly : Assembly α) : Option String :=
  assembly.bodies.findSome? (·.owner)

def push (assembly : Assembly α) (owner : Option String) (span : Span) : Assembly α :=
  { assembly with
    bodies := ⟨owner, span⟩ :: assembly.bodies
    opened := assembly.opened + 1 }

def close (assembly : Assembly α) (brace : Span) : Assembly α :=
  match assembly.bodies with
  | [] => assembly.report (.unmatchedClose brace)
  | _ :: bodies => { assembly with bodies, closed := assembly.closed + 1 }

def idOf (assembly : Assembly α) (name : String) : NodeId :=
  match assembly.enclosing with
  | some outer => .within outer name
  | none => .ofName name

variable [Scalar α]

/-- Makes the node of a declaration, or merges the declaration into an earlier one of the same
path. Also gives the node that a body of this declaration belongs to. -/
def declare (assembly : Assembly α) (declaration : Declaration) (kind : NodeKind) (span : Span) :
    Option String × Assembly α :=
  let list := (declaration.properties.map (·.value)).getD ""
  let properties := PropertyList.read list
  let assembly :=
    { assembly with events := assembly.events ++ (PropertyList.keyless list).map Event.keyless }
  let id := assembly.idOf declaration.name.value
  match assembly.graph.node? id.path with
  | some existing =>
    let losesBody := existing.kind = .leaf && kind = .container
    let merged := { assembly with graph := assembly.graph.mergeProperties id.path properties }
    (if losesBody then none else some id.path,
      merged.report (.redeclared id.path declaration.name.span existing.span losesBody))
  | none =>
    match assembly.graph.addNode (.declared id kind assembly.enclosing properties span) with
    | .ok graph => (some id.path, { assembly with graph })
    | .error _ => (none, assembly)

def flush (assembly : Assembly α) : Assembly α :=
  match assembly.pending with
  | none => assembly
  | some (declaration, span) =>
    (Assembly.declare { assembly with pending := none } declaration .leaf span).2

def openContainer (assembly : Assembly α) (declaration : Declaration) (span : Span) :
    Assembly α :=
  let (owner, declared) := assembly.declare declaration .container span
  declared.push owner span

def process (assembly : Assembly α) (line : Line) : Assembly α :=
  match line.statement with
  | .blockOpen =>
    match assembly.pending with
    | some (declaration, span) =>
      openContainer { assembly with pending := none } declaration (span.union line.span)
    | none => (assembly.report (.strayBlock line.span)).push none line.span
  | .comment | .ignorable => assembly.note (.ignored line.text)
  | .containerOpen declaration => assembly.flush.openContainer declaration line.span
  | .leaf declaration => { assembly.flush with pending := some (declaration, line.span) }
  | .containerClose => assembly.flush.close line.span
  | .connection hops =>
    let flushed := assembly.flush
    { flushed with hops := flushed.hops ++ hops }
  | .title text =>
    let flushed := assembly.flush
    { flushed with graph := flushed.graph.setTitle (some text) }
  | .malformed diagnostic => assembly.flush.report diagnostic

/-- Reports the bodies that are still open, outermost first, and closes them. -/
def reportOpen (assembly : Assembly α) : Assembly α :=
  { assembly with
    bodies := []
    events := assembly.events ++ assembly.bodies.reverse.map fun body =>
      .reported (.neverClosed body.owner body.span) }

/-- The node that an endpoint names: the one at that path, else the only one with that own name. -/
def resolve (graph : Graph α) (endpoint : Located String) : Except Diagnostic String :=
  let name := Text.normalize endpoint.value
  if graph.contains name then .ok name
  else match graph.withLocalName name with
    | [] => .error (.unresolvedEndpoint name endpoint.span)
    | [node] => .ok node.path
    | nodes =>
      .error (.ambiguousEndpoint name endpoint.span (nodes.map fun node => (node.path, node.span)))

def connect (assembly : Assembly α) (hop : Hop) : Assembly α :=
  match resolve assembly.graph hop.source, resolve assembly.graph hop.target with
  | .ok source, .ok target =>
    match assembly.graph.addEdge
        { source, target, kind := hop.kind, label := hop.label, span := hop.span } with
    | .ok graph => { assembly with graph }
    | .error _ => assembly
  | .error source, .error target => (assembly.report source).report target
  | .error source, .ok _ => assembly.report source
  | .ok _, .error target => assembly.report target

def connectAll (assembly : Assembly α) : Assembly α :=
  assembly.hops.foldl connect { assembly with hops := [] }

def finish (assembly : Assembly α) : Assembly α := assembly.flush.reportOpen.connectAll

def ofLines (lines : List Line) : Assembly α := (lines.foldl process {}).finish

end Assembly

end BoxDiagram
