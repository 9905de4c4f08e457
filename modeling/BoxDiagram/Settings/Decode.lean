import BoxDiagram.Settings
import BoxDiagram.Toml.Reader

/-!
Settings from values. A record is a table of its fields, of which none may be unknown, or a list of
them in order; a field that is left out has its default. The settings stand in a record with one
field.
-/

namespace BoxDiagram.Settings

inductive Dialect where
  | json
  | toml
  deriving DecidableEq, Repr

def Dialect.isNothing : Dialect → Value → Bool
  | .json, .null => true
  | .toml, .list [] => true
  | .toml, .table [] => true
  | _, _ => false

def Dialect.allowsExcess : Dialect → Bool
  | .json => false
  | .toml => true

def fields? (dialect : Dialect) (names : List String) : Value → Option (List (String × Value))
  | .table entries => if entries.all (names.contains ·.1) then some entries else none
  | .list items =>
    if items.length ≤ names.length || dialect.allowsExcess then some (names.zip items) else none
  | _ => none

def field? {β : Type} (fields : List (String × Value)) (name : String) (default : β)
    (decode : Value → Option β) : Option β :=
  match fields.lookup name with
  | none => some default
  | some value => decode value

def number? : Value → Option Float32
  | .integer value =>
    if Value.isWordSized value then some (Decimal.singleOfInt value) else none
  | .real value => some value
  | _ => none

/-- A size needs both sides; other entries of its table mean nothing, but must be readable. -/
def size? (dialect : Dialect) : Value → Option (Size Float32)
  | .table entries => do
    let width ← (entries.lookup "width").bind number?
    let height ← (entries.lookup "height").bind number?
    if Value.haveReadable entries then some ⟨width, height⟩ else none
  | .list (width :: height :: rest) => do
    let width ← number? width
    let height ← number? height
    if rest.isEmpty || dialect.allowsExcess then some ⟨width, height⟩ else none
  | _ => none

/-- An orientation is named by its text, or by a table with the text before nothing. -/
def orientation? (dialect : Dialect) : Value → Option Orientation
  | .text text => Orientation.ofText? text
  | .table [(text, value)] => if dialect.isNothing value then Orientation.ofText? text else none
  | _ => none

def count? : Value → Option Nat
  | .integer (.ofNat count) => if Value.isWordSized count then some count else none
  | _ => none

def fieldNames : List String :=
  ["rank_spacing", "node_spacing", "container_padding", "container_header", "margin",
    "orientation", "leaf_size", "container_size", "ordering_sweeps"]

def ofValue? (dialect : Dialect) (value : Value) : Option (Settings Float32) := do
  let fields ← fields? dialect fieldNames value
  let standard : Settings Float32 := .default
  let rankSpacing ← field? fields "rank_spacing" standard.rankSpacing number?
  let nodeSpacing ← field? fields "node_spacing" standard.nodeSpacing number?
  let containerPadding ← field? fields "container_padding" standard.containerPadding number?
  let containerHeader ← field? fields "container_header" standard.containerHeader number?
  let margin ← field? fields "margin" standard.margin number?
  let orientation ← field? fields "orientation" standard.orientation (orientation? dialect)
  let leafSize ← field? fields "leaf_size" standard.leafSize (size? dialect)
  let containerSize ← field? fields "container_size" standard.containerSize (size? dialect)
  let orderingSweeps ← field? fields "ordering_sweeps" standard.orderingSweeps count?
  some { rankSpacing, nodeSpacing, containerPadding, containerHeader, margin, orientation,
         leafSize, containerSize, orderingSweeps }

def ofDocument? (dialect : Dialect) (document : Value) : Option (Settings Float32) := do
  let fields ← fields? dialect ["layout"] document
  field? fields "layout" .default (ofValue? dialect)

def ofJson? (document : Json) : Option (Settings Float32) := ofDocument? .json (.ofJson document)

def ofToml? (text : String) : Option (Settings Float32) :=
  (Toml.read? text).bind (ofDocument? .toml)

end BoxDiagram.Settings
