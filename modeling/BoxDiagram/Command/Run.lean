import BoxDiagram.Command.Arguments
import BoxDiagram.Diagram
import BoxDiagram.Document
import BoxDiagram.FileTree
import BoxDiagram.Settings.Decode

/-!
A run of the command: settings, input, diagram, output, in this order. Nothing is written before
the diagram is there.
-/

namespace BoxDiagram.Command

structure Summary where
  source : String
  diagnostics : List Diagnostic
  deriving DecidableEq

structure Outcome where
  result : Except Failure Summary
  files : FileTree
  printed : String

def projectSettings : String := "trellis/config.toml"

def readSettings (files : FileTree) (path : String) : Except Failure (Settings Float32) :=
  if files.isPresent path then
    match files.readText path with
    | .error fault => .error (.io fault)
    | .ok text =>
      match Settings.ofToml? text with
      | some settings => .ok settings
      | none => .error (.settings (.unreadable path))
  else .error (.settings (.missingFile path))

/-- The settings file that is read: the one asked for, else the first that there is of the
project's and the user's. -/
def chosenSettings (files : FileTree) (asked : Option String) (user : Option String) :
    Option String :=
  match asked with
  | some path => some path
  | none => (projectSettings :: user.toList).find? files.isPresent

def loadSettings (files : FileTree) (asked : Option String) (user : Option String) :
    Except Failure (Settings Float32) := do
  let settings ← match chosenSettings files asked user with
    | some path => readSettings files path
    | none => .ok .default
  match settings.validate with
  | .ok () => .ok settings
  | .error error => .error (.settings (.invalid error))

structure Prepared where
  source : String
  diagram : Diagram Float32

def prepare (files : FileTree) (user : Option String) (arguments : Arguments) :
    Except Failure Prepared := do
  let settings ← loadSettings files arguments.config user
  let source ← match files.readText arguments.input with
    | .ok source => .ok source
    | .error fault => .error (.io fault)
  let diagram ← Diagram.build settings arguments.isStrict source
  .ok ⟨source, diagram⟩

def Prepared.summary (prepared : Prepared) : Summary :=
  ⟨prepared.source, prepared.diagram.diagnostics⟩

def Prepared.document (prepared : Prepared) : Sink × Option Failure :=
  prepared.diagram.graph.exportTo true {}

def write (files : FileTree) (output : Option String) (prepared : Prepared) : Outcome :=
  let (sink, failure) := prepared.document
  let result := match failure with
    | some failure => .error failure
    | none => .ok prepared.summary
  match output with
  | none => ⟨result, files, sink.content⟩
  | some path =>
    match files.writable path with
    | .error fault => ⟨.error (.io fault), files, ""⟩
    | .ok place => ⟨result, files.put place (.file sink.content.toUTF8), ""⟩

/-- Runs the command. The user's settings file is looked for at a path of its own, if at all. -/
def run (files : FileTree) (user : Option String) (arguments : Arguments) : Outcome :=
  match prepare files user arguments with
  | .error failure => ⟨.error failure, files, ""⟩
  | .ok prepared => write files arguments.output prepared

end BoxDiagram.Command
