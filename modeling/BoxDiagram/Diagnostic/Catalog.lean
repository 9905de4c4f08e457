import BoxDiagram.Diagnostic

/-!
The findings that the program reports, one constructor for each, with its wording.
-/

namespace BoxDiagram.Diagnostic

private def warning (code : Code) (message : String) : Diagnostic :=
  { severity := .warning, code := some code, message }

def missingName (line : Span) : Diagnostic :=
  (warning .missingName "declaration is missing a node name").withLabel line
    "no name before this" |>.withHelp "write the node name before `[` or `\x7b`"

def strayBlock (brace : Span) : Diagnostic :=
  (warning .missingName "`\x7b` does not follow a node declaration").withLabel brace
    "no name before this" |>.withHelp "write the node name before `\x7b`"

def malformedConnection (line arrow : Span) : Diagnostic :=
  (warning .malformedConnection "malformed connection").withLabel line
    "could not read this connection" |>.withSecondaryLabel arrow "arrow here"
    |>.withHelp "name a node on both sides of every arrow"

/-- A line with a bracket, counted from there, that is not a declaration. -/
def malformedList (list : Span) : Diagnostic :=
  (warning .malformedList "malformed property list").withLabel list
    "could not read this list"
    |>.withHelp "close the list with `]` and terminate every quoted value"

def unmatchedClose (brace : Span) : Diagnostic :=
  (warning .unmatchedClose "unmatched `\x7d`").withLabel brace "no open container"
    |>.withHelp "remove the extra brace"

def neverClosed (node : Option String) (opened : Span) : Diagnostic :=
  let message := match node with
    | some path => "container `" ++ path ++ "` is never closed"
    | none => "block is never closed"
  (warning .unclosedContainer message).withLabel opened "opened here"
    |>.withHelp "add a matching `\x7d`"

/-- A second declaration of a node; `losesBody` when it opens a body for what was first declared
as a leaf. -/
def redeclared (path : String) (name first : Span) (losesBody : Bool) : Diagnostic :=
  (warning .duplicateNode ("node `" ++ path ++ "` is declared more than once")).withLabel name
    "duplicate declaration" |>.withSecondaryLabel first "first declared here"
    |>.withHelp (if losesBody then
        "the first declaration is a leaf, so this body's nodes stay in the enclosing scope"
      else "properties are merged into the first declaration")

def unresolvedEndpoint (name : String) (endpoint : Span) : Diagnostic :=
  (warning .unresolvedEndpoint ("connection endpoint `" ++ name ++ "` is not declared")).withLabel
    endpoint "unknown node" |>.withHelp ("declare `" ++ name ++ "` or fix the spelling")

def ambiguousEndpoint (name : String) (endpoint : Span) (candidates : List (String × Span)) :
    Diagnostic :=
  let choices := ", ".intercalate (candidates.map fun candidate => "`" ++ candidate.1 ++ "`")
  let base := (warning .ambiguousEndpoint
    ("connection endpoint `" ++ name ++ "` matches several nodes")).withLabel
    endpoint "ambiguous name" |>.withHelp ("use a qualified name: " ++ choices)
  candidates.foldl (fun diagnostic candidate =>
    diagnostic.withSecondaryLabel candidate.2 "candidate") base

def brokenCycle (source target : String) (edge : Span) : Diagnostic :=
  (warning .brokenCycle
    ("edge `" ++ source ++ " -> " ++ target ++ "` closes a cycle and is ignored for ranking")).withLabel
    edge "back-edge"
    |>.withHelp "the edge is still drawn; reverse it if the flow should run the other way"

end BoxDiagram.Diagnostic
