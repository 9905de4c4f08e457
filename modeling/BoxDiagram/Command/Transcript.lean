import BoxDiagram.Command.Run
import BoxDiagram.Journal
import BoxDiagram.Report

/-!
What a run says beside its output: the journal and the reports, as far as is asked for.
-/

namespace BoxDiagram.Command

inductive Verbosity where
  | off
  | error
  | warn
  | info
  | debug
  | trace
  deriving DecidableEq, Repr

namespace Verbosity

def all : List Verbosity := [.off, .error, .warn, .info, .debug, .trace]

def text : Verbosity → String
  | .off => "off"
  | .error => "error"
  | .warn => "warn"
  | .info => "info"
  | .debug => "debug"
  | .trace => "trace"

def ofText? (text : String) : Option Verbosity :=
  all.find? fun verbosity => verbosity.text.toList = text.toList.map Char.toLower

theorem ofText?_text (verbosity : Verbosity) : ofText? verbosity.text = some verbosity := by
  cases verbosity <;> decide

def journalLevel : Verbosity → Option Journal.Level
  | .off | .error | .warn => none
  | .info => some .info
  | .debug | .trace => some .debug

end Verbosity

def journal (files : FileTree) (user : Option String) (arguments : Arguments) :
    List Journal.Entry :=
  match loadSettings files arguments.config user, files.readText arguments.input with
  | .ok settings, .ok source =>
    Journal.ofBuildAndExport settings arguments.isStrict true source
  | _, _ => []

def reports (verbosity : Verbosity) : Except Failure Summary → List Report
  | .error failure => if verbosity = .off then [] else Report.allOfFailure failure
  | .ok summary =>
    if verbosity = .off ∨ verbosity = .error then []
    else summary.diagnostics.map Report.ofDiagnostic

def transcript (files : FileTree) (user : Option String) (arguments : Arguments)
    (result : Except Failure Summary) : List String :=
  let (note, verbosity) := match Verbosity.ofText? arguments.logLevel with
    | some verbosity => ([], verbosity)
    | none => (["unknown log level: " ++ arguments.logLevel ++ ", warn is taken"], .warn)
  let entries := match verbosity.journalLevel with
    | some level => Journal.keep level (journal files user arguments)
    | none => []
  note ++ entries.map Journal.Entry.line ++ (reports verbosity result).flatMap Report.lines

end BoxDiagram.Command
