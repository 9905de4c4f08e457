import BoxDiagram.Span

/-!
Diagnostics: what was found in a text, where, and what to do about it.
-/

namespace BoxDiagram

inductive Severity where
  | error
  | warning
  deriving DecidableEq, Repr

def Severity.text : Severity → String
  | .error => "error"
  | .warning => "warning"

inductive Category where
  | textual
  | structural
  deriving DecidableEq, Repr

def Category.text : Category → String
  | .textual => "syntax"
  | .structural => "structural"

inductive Code where
  | malformedList
  | missingName
  | unmatchedClose
  | unclosedContainer
  | duplicateNode
  | unresolvedEndpoint
  | ambiguousEndpoint
  | malformedConnection
  | brokenCycle
  deriving DecidableEq, Repr

namespace Code

def all : List Code :=
  [.malformedList, .missingName, .unmatchedClose, .unclosedContainer, .duplicateNode,
    .unresolvedEndpoint, .ambiguousEndpoint, .malformedConnection, .brokenCycle]

def text : Code → String
  | .malformedList => "W001"
  | .missingName => "W002"
  | .unmatchedClose => "W003"
  | .unclosedContainer => "W004"
  | .duplicateNode => "W005"
  | .unresolvedEndpoint => "W006"
  | .ambiguousEndpoint => "W007"
  | .malformedConnection => "W008"
  | .brokenCycle => "W100"

def ofText? (text : String) : Option Code := all.find? (·.text = text)

theorem ofText?_text (code : Code) : ofText? code.text = some code := by
  cases code <;> decide

def description : Code → String
  | .malformedList => "malformed property list"
  | .missingName => "missing identifier"
  | .unmatchedClose => "unmatched closing brace"
  | .unclosedContainer => "unclosed container"
  | .duplicateNode => "duplicate node"
  | .unresolvedEndpoint => "unresolved connection endpoint"
  | .ambiguousEndpoint => "ambiguous connection endpoint"
  | .malformedConnection => "malformed connection"
  | .brokenCycle => "cycle broken during ranking"

def category : Code → Category
  | .brokenCycle => .structural
  | _ => .textual

end Code

structure Label where
  span : Span
  text : String
  isPrimary : Bool
  deriving DecidableEq, Inhabited

structure Diagnostic where
  severity : Severity
  code : Option Code := none
  message : String
  labels : List Label := []
  help : Option String := none
  deriving DecidableEq

namespace Diagnostic

def ofMessage (severity : Severity) (message : String) : Diagnostic := { severity, message }

def withCode (diagnostic : Diagnostic) (code : Code) : Diagnostic :=
  { diagnostic with code := some code }

def withLabel (diagnostic : Diagnostic) (span : Span) (text : String) : Diagnostic :=
  { diagnostic with labels := diagnostic.labels ++ [⟨span, text, true⟩] }

def withSecondaryLabel (diagnostic : Diagnostic) (span : Span) (text : String) : Diagnostic :=
  { diagnostic with labels := diagnostic.labels ++ [⟨span, text, false⟩] }

def withHelp (diagnostic : Diagnostic) (help : String) : Diagnostic :=
  { diagnostic with help := some help }

def escalate (diagnostic : Diagnostic) : Diagnostic := { diagnostic with severity := .error }

def isError (diagnostic : Diagnostic) : Bool := diagnostic.severity = .error

def isWarning (diagnostic : Diagnostic) : Bool := diagnostic.severity = .warning

def category (diagnostic : Diagnostic) : Option Category := diagnostic.code.map Code.category

def primarySpan (diagnostic : Diagnostic) : Option Span :=
  (diagnostic.labels.find? (·.isPrimary)).map (·.span)

def summary (diagnostic : Diagnostic) : String :=
  let code := match diagnostic.code with
    | none => ""
    | some code => "[" ++ code.text ++ "]"
  diagnostic.severity.text ++ code ++ ": " ++ diagnostic.message

def shift (distance : Nat) (diagnostic : Diagnostic) : Diagnostic :=
  { diagnostic with
    labels := diagnostic.labels.map fun label =>
      { label with span := label.span.shift distance } }

end Diagnostic

end BoxDiagram
