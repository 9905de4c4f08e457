import BoxDiagram.Text.Blank
import BoxDiagram.Text.Digit

/-!
The smallest parts of a TOML document, numbers and moments apart: blanks, comments, strings and
keys. A reader gives what it has read and the text behind it.
-/

namespace BoxDiagram.Toml

open Text

def isControl (char : Char) : Bool := (char.toNat < 0x20 && char != '\t') || char.toNat = 0x7f

def skipBlanks (text : List Char) : List Char := text.dropWhile isInlineSpace

/-- Drops blanks, line breaks and comments; begins inside a comment if asked to. A control
character inside a comment is left standing, and nothing begins with one. -/
def skipGaps : Bool → List Char → List Char
  | _, '\n' :: rest => skipGaps false rest
  | _, '\r' :: '\n' :: rest => skipGaps false rest
  | true, char :: rest => if isControl char then char :: rest else skipGaps true rest
  | false, '#' :: rest => skipGaps true rest
  | false, char :: rest => if isInlineSpace char then skipGaps false rest else char :: rest
  | _, [] => []

def lineEnd? (text : List Char) : Option (List Char) :=
  let rest := match skipBlanks text with
    | '#' :: comment => comment.dropWhile (!isControl ·)
    | rest => rest
  match rest with
  | [] => some []
  | '\n' :: rest => some rest
  | '\r' :: '\n' :: rest => some rest
  | _ => none

def after (char : Option Char) (tail : Option (List Char × List Char)) :
    Option (List Char × List Char) := do
  let char ← char
  let (text, rest) ← tail
  some (char :: text, rest)

def unescape? : Char → Option Char
  | '"' => some '"'
  | '\\' => some '\\'
  | 'b' => some '\x08'
  | 'e' => some '\x1b'
  | 'f' => some '\x0c'
  | 'n' => some '\n'
  | 'r' => some '\r'
  | 't' => some '\t'
  | _ => none

def literalTail? : List Char → Option (List Char × List Char)
  | [] => none
  | '\'' :: rest => some ([], rest)
  | char :: rest => if isControl char then none else after char (literalTail? rest)

def basicTail? : List Char → Option (List Char × List Char)
  | [] => none
  | '"' :: rest => some ([], rest)
  | '\\' :: 'x' :: a :: b :: rest => after (charOfHex? [a, b]) (basicTail? rest)
  | '\\' :: 'u' :: a :: b :: c :: d :: rest => after (charOfHex? [a, b, c, d]) (basicTail? rest)
  | '\\' :: 'U' :: a :: b :: c :: d :: e :: f :: g :: h :: rest =>
    after (charOfHex? [a, b, c, d, e, f, g, h]) (basicTail? rest)
  | '\\' :: letter :: rest => after (unescape? letter) (basicTail? rest)
  | char :: rest => if isControl char || char = '\\' then none else after char (basicTail? rest)
termination_by structural text => text

/-- The end of a string in three quotes at the front of a text: up to two quotes may stand before
the closing ones. -/
def longEnd? (quote : Char) (text : List Char) : Option (List Char × List Char) :=
  let run := min 5 (text.takeWhile (· = quote)).length
  if 3 ≤ run then some (List.replicate (run - 3) quote, text.drop run) else none

def startsLine : List Char → Bool
  | '\n' :: _ => true
  | '\r' :: '\n' :: _ => true
  | _ => false

def longLiteralTail? : List Char → Option (List Char × List Char)
  | [] => none
  | '\r' :: '\n' :: rest => after '\n' (longLiteralTail? rest)
  | char :: rest =>
    match longEnd? '\'' (char :: rest) with
    | some found => some found
    | none => if isControl char && char != '\n' then none else after char (longLiteralTail? rest)
termination_by structural text => text

/-- A string in three double quotes up to the closing ones. A backslash at the end of a line joins
it to the next character that is not blank. -/
def longBasicTail? : Bool → List Char → Option (List Char × List Char)
  | _, [] => none
  | true, '\r' :: '\n' :: rest => longBasicTail? true rest
  | false, '\r' :: '\n' :: rest => after '\n' (longBasicTail? false rest)
  | _, '\\' :: 'x' :: a :: b :: rest => after (charOfHex? [a, b]) (longBasicTail? false rest)
  | _, '\\' :: 'u' :: a :: b :: c :: d :: rest =>
    after (charOfHex? [a, b, c, d]) (longBasicTail? false rest)
  | _, '\\' :: 'U' :: a :: b :: c :: d :: e :: f :: g :: h :: rest =>
    after (charOfHex? [a, b, c, d, e, f, g, h]) (longBasicTail? false rest)
  | _, '\\' :: letter :: rest =>
    if startsLine (skipBlanks (letter :: rest)) then longBasicTail? true (letter :: rest)
    else after (unescape? letter) (longBasicTail? false rest)
  | isJoining, char :: rest =>
    match longEnd? '"' (char :: rest) with
    | some found => some found
    | none =>
      if isJoining && (isInlineSpace char || char = '\n') then longBasicTail? true rest
      else if char = '\\' || (isControl char && char != '\n') then none
      else after char (longBasicTail? false rest)
termination_by structural _ text => text

def skipFirstBreak : List Char → List Char
  | '\n' :: rest => rest
  | '\r' :: '\n' :: rest => rest
  | text => text

def string? : List Char → Option (List Char × List Char)
  | '"' :: '"' :: '"' :: rest => longBasicTail? false (skipFirstBreak rest)
  | '\'' :: '\'' :: '\'' :: rest => longLiteralTail? (skipFirstBreak rest)
  | '"' :: rest => basicTail? rest
  | '\'' :: rest => literalTail? rest
  | _ => none

def isBare (char : Char) : Bool := char.isAlphanum || char = '_' || char = '-'

def keyPart? : List Char → Option (String × List Char)
  | '"' :: rest => (basicTail? rest).map fun (key, rest) => (String.ofList key, rest)
  | '\'' :: rest => (literalTail? rest).map fun (key, rest) => (String.ofList key, rest)
  | text =>
    match text.takeWhile isBare with
    | [] => none
    | key => some (String.ofList key, text.dropWhile isBare)

/-- A key: parts with dots between them, and blanks around these. The fuel bounds the number of
parts. -/
def key? : Nat → List Char → Option (List String × List Char)
  | 0, _ => none
  | fuel + 1, text => do
    let (part, rest) ← keyPart? (skipBlanks text)
    match skipBlanks rest with
    | '.' :: rest => (key? fuel rest).map fun (parts, rest) => (part :: parts, rest)
    | rest => some ([part], rest)

end BoxDiagram.Toml
