import BoxDiagram.Line.Split
import BoxDiagram.Statement.Classify

/-!
The logical lines of a source: each physical line is cut into pieces, and the statements among
them that are not blank are kept without the blanks around them.
-/

namespace BoxDiagram

open Text

structure Line where
  text : String
  span : Span
  statement : Statement
  deriving DecidableEq, Inhabited

namespace Line

def shift (distance : Nat) (line : Line) : Line where
  text := line.text
  span := line.span.shift distance
  statement := line.statement.shift distance

def ofText? (start : Nat) (text : List Char) : Option Line :=
  let body := trim text
  if body = [] then none
  else
    let first := start + byteLength (leadingBlanks text)
    some ⟨String.ofList body, Span.ofLength first (byteLength body),
      Statement.classify body first⟩

def ofPieces (start : Nat) : List Piece → List Line
  | [] => []
  | piece :: rest =>
    let more := ofPieces (start + byteLength piece.text) rest
    match piece with
    | .statement text => (ofText? start text).toList ++ more
    | .separator | .remark _ => more

def ofPhysicalLines (start : Nat) : List (List Char) → List Line
  | [] => []
  | physical :: rest =>
    ofPieces start (pieces physical) ++ ofPhysicalLines (start + byteLength physical + 1) rest

def ofSource (source : String) : List Line :=
  ofPhysicalLines 0 (physicalLines source.toList)

end Line

end BoxDiagram
