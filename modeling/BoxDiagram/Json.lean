import BoxDiagram.Text.Basic

/-!
JSON values and how they are written. A number is kept as its text, so nothing is lost on the way
in or out, and the fields of an object keep their order. A document is written as a list of chunks,
in the order in which they go out.
-/

namespace BoxDiagram

inductive Json where
  | null
  | bool (value : Bool)
  | number (text : String)
  | string (value : String)
  | array (items : List Json)
  | object (fields : List (String × Json))
  deriving Inhabited

namespace Json

def hexDigit (value : Nat) : Char := Nat.digitChar value

/-- How a character is written inside a string: quotes, backslashes and control characters are
escaped, everything else stands for itself. -/
def escape (char : Char) : List Char :=
  if char = '"' then ['\\', '"']
  else if char = '\\' then ['\\', '\\']
  else if char = '\x08' then ['\\', 'b']
  else if char = '\x0c' then ['\\', 'f']
  else if char = '\n' then ['\\', 'n']
  else if char = '\r' then ['\\', 'r']
  else if char = '\t' then ['\\', 't']
  else if char.toNat < 0x20 then
    ['\\', 'u', '0', '0', hexDigit (char.toNat / 16), hexDigit (char.toNat % 16)]
  else [char]

def quote (text : String) : String :=
  String.ofList ('"' :: text.toList.flatMap escape ++ ['"'])

def boolText (value : Bool) : String := if value then "true" else "false"

mutual

def chunks : Json → List String
  | .null => ["null"]
  | .bool value => [boolText value]
  | .number text => [text]
  | .string value => [quote value]
  | .array items => "[" :: itemChunks items ++ ["]"]
  | .object fields => "\x7b" :: fieldChunks fields ++ ["\x7d"]

def itemChunks : List Json → List String
  | [] => []
  | [item] => item.chunks
  | item :: rest => item.chunks ++ "," :: itemChunks rest

def fieldChunks : List (String × Json) → List String
  | [] => []
  | [(key, value)] => quote key :: ":" :: value.chunks
  | (key, value) :: rest => quote key :: ":" :: value.chunks ++ "," :: fieldChunks rest

end

def lineBreak (depth : Nat) : String :=
  String.ofList ('\n' :: List.replicate (2 * depth) ' ')

mutual

/-- The chunks of a value with each item and field on a line of its own. -/
def prettyChunks (depth : Nat) : Json → List String
  | .null => ["null"]
  | .bool value => [boolText value]
  | .number text => [text]
  | .string value => [quote value]
  | .array [] => ["[]"]
  | .array items => "[" :: prettyItemChunks (depth + 1) items ++ [lineBreak depth, "]"]
  | .object [] => ["\x7b\x7d"]
  | .object fields =>
    "\x7b" :: prettyFieldChunks (depth + 1) fields ++ [lineBreak depth, "\x7d"]

def prettyItemChunks (depth : Nat) : List Json → List String
  | [] => []
  | [item] => lineBreak depth :: prettyChunks depth item
  | item :: rest => lineBreak depth :: prettyChunks depth item ++ "," :: prettyItemChunks depth rest

def prettyFieldChunks (depth : Nat) : List (String × Json) → List String
  | [] => []
  | [(key, value)] => lineBreak depth :: quote key :: ": " :: prettyChunks depth value
  | (key, value) :: rest =>
    lineBreak depth :: quote key :: ": " :: prettyChunks depth value ++
      "," :: prettyFieldChunks depth rest

end

def compact (json : Json) : String := String.join json.chunks

def pretty (json : Json) : String := String.join (prettyChunks 0 json)

def ofNat (value : Nat) : Json := .number (toString value)

def ofOption {β : Type} (encode : β → Json) : Option β → Json
  | none => .null
  | some value => encode value

def field? (key : String) : Json → Option Json
  | .object fields => fields.lookup key
  | _ => none

def string? : Json → Option String
  | .string value => some value
  | _ => none

def bool? : Json → Option Bool
  | .bool value => some value
  | _ => none

def array? : Json → Option (List Json)
  | .array items => some items
  | _ => none

def object? : Json → Option (List (String × Json))
  | .object fields => some fields
  | _ => none

end Json

end BoxDiagram
