import BoxDiagram.Decimal.Read
import BoxDiagram.Json

/-!
The values that settings are read from, whatever kind of file they stand in.
-/

namespace BoxDiagram.Settings

inductive Value where
  | null
  | bool (value : Bool)
  | integer (value : Int)
  | real (value : Float32)
  /-- A number that no type can hold. It is refused where it is looked at, even if only to pass it
  over. -/
  | unreadable
  /-- A date or a time of day, which is not looked into: no setting takes one. -/
  | moment
  | text (value : String)
  | list (items : List Value)
  | table (entries : List (String × Value))
  deriving Inhabited

namespace Value

/-- The integers that a setting can be given by: those of 64 bits, with a sign or without. -/
def isWordSized (value : Int) : Bool := -Int.pow 2 63 ≤ value && value < Int.pow 2 64

/-- A number of a JSON document. A minus sign before a zero is kept, which only a real can do. -/
def ofNumber (lexeme : String) : Value :=
  let chars := lexeme.toList
  let decimal := Decimal.Signed.ofChars chars
  let whole : Int := if decimal.isNegative then -decimal.coefficient else decimal.coefficient
  let isMinusZero := decimal.isNegative && decimal.coefficient = 0
  if Decimal.isWhole chars && isWordSized whole && !isMinusZero then .integer whole
  else .real (Decimal.singleOfChars chars)

mutual

def isReadable : Value → Bool
  | .unreadable => false
  | .list items => areReadable items
  | .table entries => haveReadable entries
  | _ => true

def areReadable : List Value → Bool
  | [] => true
  | item :: rest => item.isReadable && areReadable rest

def haveReadable : List (String × Value) → Bool
  | [] => true
  | (_, value) :: rest => value.isReadable && haveReadable rest

end

mutual

def ofJson : Json → Value
  | .null => .null
  | .bool value => .bool value
  | .number lexeme => ofNumber lexeme
  | .string value => .text value
  | .array items => .list (ofItems items)
  | .object fields => .table (ofFields fields)

def ofItems : List Json → List Value
  | [] => []
  | item :: rest => ofJson item :: ofItems rest

def ofFields : List (String × Json) → List (String × Value)
  | [] => []
  | (key, value) :: rest => (key, ofJson value) :: ofFields rest

end

end Value

end BoxDiagram.Settings
