import BoxDiagram.Json
import BoxDiagram.Text.Digit

/-!
Reading JSON. The fuel of the reader bounds the nesting and the number of items together; the
length of the text is always enough.
-/

namespace BoxDiagram.Json

open Text

def isSpace (char : Char) : Bool :=
  char == ' ' || char == '\n' || char == '\r' || char == '\t'

def skipSpace (text : List Char) : List Char := text.dropWhile isSpace

def unit? (first second third fourth : Char) : Option Nat :=
  let digits := [first, second, third, fourth]
  if digits.all (isDigitOf 16) then some (ofDigits 16 digits) else none

def unescape? : Char → Option Char
  | '"' => some '"'
  | '\\' => some '\\'
  | '/' => some '/'
  | 'b' => some '\x08'
  | 'f' => some '\x0c'
  | 'n' => some '\n'
  | 'r' => some '\r'
  | 't' => some '\t'
  | _ => none

def isHighSurrogate (unit : Nat) : Bool := 0xD800 ≤ unit && unit < 0xDC00

def surrogatePair? (high low : Nat) : Option Char :=
  if 0xDC00 ≤ low ∧ low < 0xE000 then
    some (Char.ofNat (0x10000 + (high - 0xD800) * 0x400 + (low - 0xDC00)))
  else none

/-- The text of a string up to its closing quote, and what follows that. -/
def stringTail? : List Char → Option (List Char × List Char)
  | [] => none
  | '"' :: rest => some ([], rest)
  | '\\' :: 'u' :: a :: b :: c :: d :: rest => do
    let unit ← unit? a b c d
    if isHighSurrogate unit then
      match rest with
      | '\\' :: 'u' :: e :: f :: g :: h :: rest => do
        let char ← (unit? e f g h).bind (surrogatePair? unit)
        let (text, left) ← stringTail? rest
        some (char :: text, left)
      | _ => none
    else if unit.isValidChar then
      let (text, left) ← stringTail? rest
      some (Char.ofNat unit :: text, left)
    else none
  | '\\' :: letter :: rest => do
    let char ← unescape? letter
    let (text, left) ← stringTail? rest
    some (char :: text, left)
  | char :: rest =>
    if char = '\\' ∨ char.toNat < 0x20 then none
    else (stringTail? rest).map fun (text, left) => (char :: text, left)
termination_by structural text => text

def isNumberChar (char : Char) : Bool :=
  char.isDigit || char == '-' || char == '+' || char == '.' || char == 'e' || char == 'E'

def dropDigits? (text : List Char) : Option (List Char) :=
  match text with
  | digit :: rest => if digit.isDigit then some (rest.dropWhile Char.isDigit) else none
  | [] => none

def dropSign : List Char → List Char
  | '-' :: rest => rest
  | text => text

def dropWhole? : List Char → Option (List Char)
  | '0' :: rest => some rest
  | text => dropDigits? text

def dropFraction? : List Char → Option (List Char)
  | '.' :: rest => dropDigits? rest
  | text => some text

def dropExponentSign : List Char → List Char
  | '+' :: rest | '-' :: rest => rest
  | text => text

def dropExponent? : List Char → Option (List Char)
  | [] => some []
  | mark :: rest => if mark = 'e' ∨ mark = 'E' then dropDigits? (dropExponentSign rest) else none

def isNumber (text : List Char) : Bool :=
  ((dropWhole? (dropSign text)).bind dropFraction?).bind dropExponent? == some []

mutual

def value? : Nat → List Char → Option (Json × List Char)
  | 0, _ => none
  | fuel + 1, text =>
    match skipSpace text with
    | 'n' :: 'u' :: 'l' :: 'l' :: rest => some (.null, rest)
    | 't' :: 'r' :: 'u' :: 'e' :: rest => some (.bool true, rest)
    | 'f' :: 'a' :: 'l' :: 's' :: 'e' :: rest => some (.bool false, rest)
    | '"' :: rest => (stringTail? rest).map fun (text, left) => (.string (String.ofList text), left)
    | '[' :: rest =>
      match skipSpace rest with
      | ']' :: left => some (.array [], left)
      | rest => (items? fuel rest).map fun (items, left) => (.array items, left)
    | '{' :: rest =>
      match skipSpace rest with
      | '}' :: left => some (.object [], left)
      | rest => (fields? fuel rest).map fun (fields, left) => (.object fields, left)
    | rest =>
      let number := rest.takeWhile isNumberChar
      if isNumber number then
        some (.number (String.ofList number), rest.dropWhile isNumberChar)
      else none

def items? : Nat → List Char → Option (List Json × List Char)
  | 0, _ => none
  | fuel + 1, text => do
    let (item, rest) ← value? fuel text
    match skipSpace rest with
    | ']' :: left => some ([item], left)
    | ',' :: rest => (items? fuel rest).map fun (items, left) => (item :: items, left)
    | _ => none

def fields? : Nat → List Char → Option (List (String × Json) × List Char)
  | 0, _ => none
  | fuel + 1, text =>
    match skipSpace text with
    | '"' :: rest => do
      let (key, rest) ← stringTail? rest
      match skipSpace rest with
      | ':' :: rest => do
        let (value, rest) ← value? fuel rest
        let field := (String.ofList key, value)
        match skipSpace rest with
        | '}' :: left => some ([field], left)
        | ',' :: rest => (fields? fuel rest).map fun (fields, left) => (field :: fields, left)
        | _ => none
      | _ => none
    | _ => none

end

def ofChars? (text : List Char) : Option Json :=
  match value? (text.length + 1) text with
  | some (json, rest) => if (skipSpace rest).isEmpty then some json else none
  | none => none

def read? (text : String) : Option Json := ofChars? text.toList

end BoxDiagram.Json
