import BoxDiagram.Diagram
import BoxDiagram.Json

/-!
The journal of a run: what each stage has done, in order, at two levels of detail.
-/

namespace BoxDiagram.Journal

inductive Level where
  | info
  | debug
  deriving DecidableEq, Repr

def Level.text : Level → String
  | .info => "info"
  | .debug => "debug"

/-- Whether a journal that is kept at the first level has entries of the second. -/
def Level.covers : Level → Level → Bool
  | .info, .debug => false
  | _, _ => true

structure Entry where
  level : Level
  message : String
  values : List (String × String) := []
  deriving DecidableEq, Repr

def Entry.line (entry : Entry) : String :=
  entry.values.foldl (fun line (name, value) => line ++ " " ++ name ++ "=" ++ value)
    (entry.level.text ++ ": " ++ entry.message)

def count (name : String) (value : Nat) : String × String := (name, toString value)

def ofDiagnostic (diagnostic : Diagnostic) : Entry :=
  ⟨.debug, "Diagnostic emitted", [("diagnostic", diagnostic.summary)]⟩

def ofEvent : Event → Entry
  | .ignored line => ⟨.debug, "Ignoring line", [("line", line)]⟩
  | .keyless entry => ⟨.debug, "Skipping property without a key", [("segment", entry)]⟩
  | .reported diagnostic => ofDiagnostic diagnostic

def ofParse (source : String) : List Entry :=
  let assembly : Assembly Float32 := assemble source
  let nodes := count "nodes" assembly.graph.nodes.length
  let edges := count "edges" assembly.graph.edges.length
  ⟨.info, "Parsing diagram source", [count "bytes" source.utf8ByteSize]⟩ ::
    assembly.events.map ofEvent ++
    [⟨.debug, "Graph built",
        [nodes, edges, count "opened" assembly.opened, count "closed" assembly.closed]⟩,
      ⟨.info, "Parsing complete",
        [nodes, edges, count "diagnostics" assembly.diagnostics.length]⟩]

def ofLayout (graph : Graph Float32) (settings : Settings Float32) : List Entry :=
  let ranking := graph.ranking
  let layering := graph.layering ranking settings.orderingSweeps
  let placement := graph.placement ranking layering settings
  ⟨.info, "Laying out graph",
      [count "nodes" graph.nodes.length, count "edges" graph.edges.length]⟩ ::
    ranking.diagnostics.map ofDiagnostic ++
    [⟨.debug, "Ranks assigned",
        [count "atoms" graph.atoms.length, count "constraints" graph.constraints.length,
          count "back_edges" ranking.backEdges.length]⟩,
      ⟨.debug, "Scopes ordered", [count "scopes" (layering.containers.length + 1)]⟩,
      ⟨.debug, "Coordinates assigned", [count "placed" placement.boxes.length]⟩,
      ⟨.info, "Layout complete", []⟩]

def ofOutcome : Except Failure (Diagram Float32) → List Entry
  | .ok diagram =>
    [⟨.info, "Diagram built",
      [count "nodes" diagram.graph.nodes.length,
        count "diagnostics" diagram.diagnostics.length]⟩]
  | .error (.strict diagnostics _) =>
    [⟨.info, "Rejecting diagram in strict mode", [count "diagnostics" diagnostics.length]⟩]
  | .error _ => []

def ofBuild (settings : Settings Float32) (isStrict : Bool) (source : String) : List Entry :=
  ofParse source ++ ofLayout (parse source).graph settings ++
    ofOutcome (Diagram.build settings isStrict source)

def ofExport (graph : Graph Float32) (isPretty : Bool) : Entry :=
  ⟨.debug, "Graph exported as JSON",
    [count "nodes" graph.nodes.length, ("pretty", Json.boolText isPretty)]⟩

def ofBuildAndExport (settings : Settings Float32) (isStrict isPretty : Bool) (source : String) :
    List Entry :=
  ofBuild settings isStrict source ++
    match Diagram.build settings isStrict source with
    | .ok diagram => [ofExport diagram.graph isPretty]
    | .error _ => []

def keep (level : Level) (entries : List Entry) : List Entry :=
  entries.filter (level.covers ·.level)

end BoxDiagram.Journal
