import BoxDiagram.Failure
import BoxDiagram.Graph
import BoxDiagram.Json

/-!
The document that a graph is handed on as, and the sinks that it is written to.
-/

namespace BoxDiagram

namespace Graph

variable {α : Type}

def pointJson (number : α → Json) (point : Point α) : Json :=
  .object [("x", number point.x), ("y", number point.y)]

def sizeJson (number : α → Json) (size : Size α) : Json :=
  .object [("width", number size.width), ("height", number size.height)]

def nodeJson (number : α → Json) (node : Node α) : Json :=
  .object [
    ("id", .string node.path),
    ("label", .string node.label),
    ("kind", .string node.kind.text),
    ("parent", .ofOption .string node.parent),
    ("properties", .object (node.properties.entries.map fun (key, value) => (key, .string value))),
    ("rank", .ofOption .ofNat node.rank),
    ("position", .ofOption (pointJson number) node.position),
    ("size", sizeJson number node.size)]

def edgeJson (edge : Edge) : Json :=
  .object [
    ("source", .string edge.source),
    ("target", .string edge.target),
    ("kind", .string edge.kind.text),
    ("label", .ofOption .string edge.label),
    ("back_edge", .bool edge.isBackEdge)]

def documentWith (number : α → Json) (graph : Graph α) : Json :=
  .object [
    ("title", .ofOption .string graph.title),
    ("nodes", .array (graph.nodes.map (nodeJson number))),
    ("edges", .array (graph.edges.map edgeJson))]

/-- The text of a coordinate in a document; there is none for one that is not finite. -/
def coordinateText? (value : Float32) : Option String :=
  match Decimal.Single.ofBits value.toBits.toNat with
  | .finite isNegative magnitude =>
    some (Decimal.Style.document.single (.finite isNegative magnitude))
  | .infinite _ | .undefined => none

def coordinateJson (value : Float32) : Json := .ofOption .number (coordinateText? value)

def document (graph : Graph Float32) : Json := graph.documentWith coordinateJson

end Graph

structure Sink where
  content : String := ""
  /-- The most bytes the sink takes in, if there is a limit. -/
  capacity : Option Nat := none
  failsToFlush : Bool := false
  deriving DecidableEq, Inhabited

namespace Sink

/-- Takes in a chunk, all of it or nothing. -/
def write (sink : Sink) (chunk : String) : Except IoFault Sink :=
  let content := sink.content ++ chunk
  match sink.capacity with
  | some capacity =>
    if content.utf8ByteSize ≤ capacity then .ok { sink with content } else .error .diskFull
  | none => .ok { sink with content }

/-- Writes chunks until one is refused. Also gives the fault of that one. -/
def writeAll (sink : Sink) : List String → Sink × Option IoFault
  | [] => (sink, none)
  | chunk :: rest =>
    match sink.write chunk with
    | .ok sink => sink.writeAll rest
    | .error fault => (sink, some fault)

def flush (sink : Sink) : Except IoFault Unit :=
  if sink.failsToFlush then .error .flushFailed else .ok ()

def exportChunks (sink : Sink) (chunks : List String) : Sink × Option Failure :=
  match sink.writeAll chunks with
  | (sink, some fault) => (sink, some (.document fault))
  | (sink, none) =>
    match sink.write "\n" with
    | .error fault => (sink, some (.io fault))
    | .ok sink =>
      match sink.flush with
      | .error fault => (sink, some (.io fault))
      | .ok () => (sink, none)

end Sink

namespace Graph

def documentChunks (graph : Graph Float32) (isPretty : Bool) : List String :=
  if isPretty then graph.document.prettyChunks 0 else graph.document.chunks

def exportTo (graph : Graph Float32) (isPretty : Bool) (sink : Sink) : Sink × Option Failure :=
  sink.exportChunks (graph.documentChunks isPretty)

end Graph

end BoxDiagram
