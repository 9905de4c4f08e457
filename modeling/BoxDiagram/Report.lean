import BoxDiagram.Failure

/-!
What is shown to the user for a finding or a failure, before it is drawn.
-/

namespace BoxDiagram

structure Remark where
  offset : Nat
  length : Nat
  text : String
  isPrimary : Bool
  deriving DecidableEq, Inhabited

structure Report where
  text : String
  code : Option String
  severity : Option Severity
  help : Option String
  hasSource : Bool
  remarks : List Remark
  deriving DecidableEq

namespace Report

def remarkOf (label : Label) : Remark :=
  ⟨label.span.start, label.span.length, label.text, label.isPrimary⟩

def ofDiagnostic (diagnostic : Diagnostic) : Report where
  text := diagnostic.message
  code := diagnostic.code.map Code.text
  severity := some diagnostic.severity
  help := diagnostic.help
  hasSource := true
  remarks := diagnostic.labels.map remarkOf

def failureCode : Failure → String
  | .io _ => "trellis::io"
  | .settings _ => "trellis::config"
  | .strict .. => "trellis::strict"
  | .document _ => "trellis::export"

def failureHelp : Failure → Option String
  | .strict .. => some "rerun without --strict to keep the warnings non-fatal"
  | _ => none

def ofFailure (failure : Failure) : Report where
  text := failure.message
  code := some (failureCode failure)
  severity := none
  help := failureHelp failure
  hasSource := false
  remarks := []

def lines (report : Report) : List String :=
  let severity := (report.severity.getD .error).text
  let code := match report.code with
    | none => ""
    | some code => "[" ++ code ++ "]"
  let place (remark : Remark) : String :=
    "  at " ++ toString remark.offset ++ "+" ++ toString remark.length ++ ": " ++ remark.text
  (severity ++ code ++ ": " ++ report.text) :: report.remarks.map place ++
    (report.help.toList.map fun help => "  help: " ++ help)

/-- A failure, and behind a strict one the findings that caused it. -/
def allOfFailure (failure : Failure) : List Report :=
  ofFailure failure ::
    match failure with
    | .strict diagnostics _ => diagnostics.map ofDiagnostic
    | _ => []

end Report

end BoxDiagram
