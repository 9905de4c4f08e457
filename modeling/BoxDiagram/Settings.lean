import BoxDiagram.Decimal.Written
import BoxDiagram.Geometry

/-!
What a layout can be asked for: the gaps and sizes of boxes, the direction in which ranks go on, and
how long crossings are fought.
-/

namespace BoxDiagram

inductive Orientation where
  | leftToRight
  | topToBottom
  deriving DecidableEq, Inhabited, Repr

def Orientation.text : Orientation → String
  | .leftToRight => "left-to-right"
  | .topToBottom => "top-to-bottom"

def Orientation.ofText? (text : String) : Option Orientation :=
  [Orientation.leftToRight, .topToBottom].find? (·.text = text)

theorem Orientation.ofText?_text (orientation : Orientation) :
    ofText? orientation.text = some orientation := by
  cases orientation <;> decide

structure Settings (α : Type) where
  rankSpacing : α
  nodeSpacing : α
  containerPadding : α
  /-- More space above the members of a container, for its name. -/
  containerHeader : α
  margin : α
  orientation : Orientation
  leafSize : Size α
  /-- The size of a container without members. -/
  containerSize : Size α
  orderingSweeps : Nat
  deriving DecidableEq

inductive SettingsError (α : Type) where
  | length (field : String) (value : α)
  | size (field : String)
  deriving DecidableEq

namespace Settings

variable {α : Type} [Scalar α]

def defaultSweeps : Nat := 24

def default : Settings α where
  rankSpacing := Scalar.ofNat 80
  nodeSpacing := Scalar.ofNat 50
  containerPadding := Scalar.ofNat 30
  containerHeader := Scalar.ofNat 30
  margin := Scalar.ofNat 50
  orientation := .leftToRight
  leafSize := ⟨Scalar.ofNat 200, Scalar.ofNat 120⟩
  containerSize := ⟨Scalar.ofNat 360, Scalar.ofNat 240⟩
  orderingSweeps := defaultSweeps

def lengths (settings : Settings α) : List (String × α) :=
  [("rank_spacing", settings.rankSpacing), ("node_spacing", settings.nodeSpacing),
    ("container_padding", settings.containerPadding),
    ("container_header", settings.containerHeader), ("margin", settings.margin)]

def sizes (settings : Settings α) : List (String × Size α) :=
  [("leaf_size", settings.leafSize), ("container_size", settings.containerSize)]

def isLength (value : α) : Bool := Scalar.isFinite value && !decide (value < Scalar.ofNat 0)

def isSide (value : α) : Bool := Scalar.isFinite value && decide (Scalar.ofNat 0 < value)

/-- The first field that cannot be laid out with, lengths before sizes. -/
def fault? (settings : Settings α) : Option (SettingsError α) :=
  match settings.lengths.find? fun field => !isLength field.2 with
  | some (field, value) => some (.length field value)
  | none =>
    (settings.sizes.find? fun field => !(isSide field.2.width && isSide field.2.height)).map
      fun field => .size field.1

def validate (settings : Settings α) : Except (SettingsError α) Unit :=
  match settings.fault? with
  | some error => .error error
  | none => .ok ()

end Settings

def SettingsError.message : SettingsError Float32 → String
  | .length field value =>
    "`layout." ++ field ++ "` must be a finite, non-negative number, got " ++
      Decimal.Style.plain.text value
  | .size field => "`layout." ++ field ++ "` must have a positive width and height"

end BoxDiagram
