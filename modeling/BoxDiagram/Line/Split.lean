import BoxDiagram.Text.Blank

/-!
Cuts a physical line into statements. A line is cut behind each opening brace, around each closing
brace and at each semicolon, except inside double quotes, brackets and unquoted labels. A comment
mark at the start of a statement makes the rest of the line a comment; behind a statement it ends
the line. The pieces of a line, put together again, are the line.
-/

namespace BoxDiagram.Line

open Text

inductive Piece where
  | statement (text : List Char)
  | separator
  | remark (text : List Char)
  deriving DecidableEq, Repr

def Piece.text : Piece → List Char
  | .statement text => text
  | .separator => [';']
  | .remark text => text

structure Scan where
  /-- The statement so far, last character first. -/
  seen : List Char := []
  quoted : Bool := false
  depth : Nat := 0
  arrowSeen : Bool := false
  /-- Whether an unquoted label has begun, which runs to the end of the line. -/
  inLabel : Bool := false
  deriving DecidableEq, Repr

inductive Step where
  | carry (scan : Scan)
  /-- It ends the statement, and a new one begins behind it. -/
  | cut (pieces : List Piece)
  /-- It makes the rest of the line a comment. -/
  | finish (pieces : List Piece)

def Scan.text (scan : Scan) : List Char := scan.seen.reverse

def Scan.isBlank (scan : Scan) : Bool := scan.seen.all Text.isBlank

def Scan.admitsRemark (scan : Scan) : Bool :=
  match scan.seen with
  | [] => true
  | previous :: _ => isAsciiBlank previous

def startsUnquoted (rest : List Char) : Bool :=
  (rest.dropWhile isInlineSpace).head? != some '"'

/-- What the character `char` does to a scan when `rest` follows on the line. -/
def Scan.step (scan : Scan) (char : Char) (rest : List Char) : Step :=
  let onward := { scan with seen := char :: scan.seen }
  if char = '"' then .carry { onward with quoted := !scan.quoted }
  else if scan.quoted then .carry onward
  else if char = '[' then .carry { onward with depth := scan.depth + 1 }
  else if 0 < scan.depth then
    .carry (if char = ']' then { onward with depth := scan.depth - 1 } else onward)
  else if char = '-' && rest.head? == some '>' then .carry { onward with arrowSeen := true }
  else if char = ':' && scan.arrowSeen && !scan.inLabel then
    .carry { onward with inLabel := startsUnquoted rest }
  else if char = '{' && !scan.inLabel then .cut [.statement onward.text]
  else if char = '}' && !scan.inLabel then .cut [.statement scan.text, .statement [char]]
  else if char = ';' && !scan.inLabel then .cut [.statement scan.text, .separator]
  else if char = '#' && scan.isBlank then .finish [.statement (scan.text ++ char :: rest)]
  else if char = '/' && rest.head? == some '/' && scan.admitsRemark then
    if scan.isBlank then .finish [.statement (scan.text ++ char :: rest)]
    else .finish [.statement scan.text, .remark (char :: rest)]
  else .carry onward

def Scan.pieces (scan : Scan) : List Char → List Piece
  | [] => [.statement scan.text]
  | char :: rest =>
    match scan.step char rest with
    | .carry next => next.pieces rest
    | .cut pieces => pieces ++ Scan.pieces {} rest
    | .finish pieces => pieces

def pieces (line : List Char) : List Piece := Scan.pieces {} line

end BoxDiagram.Line
