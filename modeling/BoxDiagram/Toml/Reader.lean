import BoxDiagram.Toml.Lexeme
import BoxDiagram.Toml.Moment
import BoxDiagram.Toml.Number
import BoxDiagram.Toml.Table

/-!
Reading TOML documents. The fuel of the reader bounds the nesting and the number of items together;
the length of the text is always enough. Apart from that there is a bound on the nesting of
brackets, and the same on the parts of a key.
-/

namespace BoxDiagram.Toml

open Settings

/-- The greatest number of brackets around a value, and of parts of a key. -/
def maxDepth : Nat := 80

def endsScalar (char : Char) : Bool :=
  ['=', ',', '[', ']', '{', '}', '#', ' ', '\t', '\r', '\n'].contains char

def isScalarChar (char : Char) : Bool := !endsScalar char

/-- Cuts off the scalar at the front of a text. A blank may stand between a date and a time. -/
def splitScalar (text : List Char) : List Char × List Char :=
  let front := text.takeWhile isScalarChar
  match text.dropWhile isScalarChar with
  | ' ' :: digit :: rest =>
    if afterDate? front = some [] && digit.isDigit then
      (front ++ ' ' :: (digit :: rest).takeWhile isScalarChar,
        (digit :: rest).dropWhile isScalarChar)
    else (front, ' ' :: digit :: rest)
  | rest => (front, rest)

def scalar? (text : List Char) : Option Value :=
  if text = ['t', 'r', 'u', 'e'] then some (.bool true)
  else if text = ['f', 'a', 'l', 's', 'e'] then some (.bool false)
  else if isMoment text then some .moment
  else number? text

mutual

/-- A value at the front of a text, with so many brackets in it at most. -/
def value? : Nat → Nat → List Char → Option (Value × List Char)
  | 0, _, _ => none
  | fuel + 1, depth, text =>
    match depth, text with
    | 0, '[' :: _ | 0, '{' :: _ => none
    | depth + 1, '[' :: rest =>
      (items? fuel depth rest).map fun (items, rest) => (.list items, rest)
    | depth + 1, '{' :: rest => do
      let (pairs, rest) ← pairs? fuel depth rest
      some (← ofPairs? pairs, rest)
    | _, text =>
      match string? text with
      | some (string, rest) => some (.text (String.ofList string), rest)
      | none =>
        let (scalar, rest) := splitScalar text
        (scalar? scalar).map fun value => (value, rest)

/-- The items of an array up to its closing bracket; a comma may follow the last one. -/
def items? : Nat → Nat → List Char → Option (List Value × List Char)
  | 0, _, _ => none
  | fuel + 1, depth, text =>
    match skipGaps false text with
    | ']' :: rest => some ([], rest)
    | text => do
      let (item, rest) ← value? fuel depth text
      match skipGaps false rest with
      | ']' :: rest => some ([item], rest)
      | ',' :: rest =>
        (items? fuel depth rest).map fun (items, rest) => (item :: items, rest)
      | _ => none

def pairs? : Nat → Nat → List Char → Option (List (List String × Value) × List Char)
  | 0, _, _ => none
  | fuel + 1, depth, text =>
    match skipGaps false text with
    | '}' :: rest => some ([], rest)
    | text => do
      let (key, rest) ← key? maxDepth text
      let '=' :: rest := skipGaps false rest | none
      let (value, rest) ← value? fuel depth (skipGaps false rest)
      match skipGaps false rest with
      | '}' :: rest => some ([(key, value)], rest)
      | ',' :: rest =>
        (pairs? fuel depth rest).map fun (pairs, rest) => ((key, value) :: pairs, rest)
      | _ => none

end

inductive Entry where
  | header (path : List String)
  | item (path : List String)
  | pair (key : List String) (value : Value)

def entryAt? (text : List Char) : Option (Entry × List Char) :=
  match text with
  | '[' :: '[' :: rest => do
    let (path, rest) ← key? maxDepth rest
    let ']' :: ']' :: rest := rest | none
    some (.item path, ← lineEnd? rest)
  | '[' :: rest => do
    let (path, rest) ← key? maxDepth rest
    let ']' :: rest := rest | none
    some (.header path, ← lineEnd? rest)
  | text => do
    let (key, rest) ← key? maxDepth text
    let '=' :: rest := rest | none
    let (value, rest) ← value? (rest.length + 1) maxDepth (skipBlanks rest)
    some (.pair key value, ← lineEnd? rest)

def entries? : Nat → List Char → Option (List Entry)
  | 0, _ => none
  | fuel + 1, text =>
    match skipGaps false text with
    | [] => some []
    | text => do
      let (entry, rest) ← entryAt? text
      let entries ← entries? fuel rest
      some (entry :: entries)

structure Draft where
  entries : Entries := []
  path : List String := []

def Draft.open? (opening : String → Entries → Option Entries) (draft : Draft)
    (path : List String) : Option Draft := do
  let key ← path.getLast?
  some ⟨← changeAt? (opening key) draft.entries path.dropLast, path⟩

def Draft.add? (draft : Draft) : Entry → Option Draft
  | .header path => draft.open? openTable? path
  | .item path => draft.open? openItem? path
  | .pair key value =>
    (changeAt? (insertAt? value · key) draft.entries draft.path).map fun entries =>
      { draft with entries }

def skipByteOrderMark : List Char → List Char
  | '\ufeff' :: rest => rest
  | text => text

def read? (text : String) : Option Value := do
  let text := skipByteOrderMark text.toList
  let draft ← (← entries? (text.length + 1) text).foldlM Draft.add? {}
  some (.table (toEntries draft.entries))

end BoxDiagram.Toml
