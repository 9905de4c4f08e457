import BoxDiagram.Scalar

/-!
Points, sizes, rectangles and the space around them. The origin is the upper left corner; `y` grows
downward. A rectangle is kept by its least and greatest coordinates.
-/

namespace BoxDiagram

structure Point (α : Type) where
  x : α
  y : α
  deriving DecidableEq

structure Size (α : Type) where
  width : α
  height : α
  deriving DecidableEq

structure Bounds (α : Type) where
  minX : α
  minY : α
  maxX : α
  maxY : α
  deriving DecidableEq

structure Insets (α : Type) where
  top : α
  right : α
  bottom : α
  left : α
  deriving DecidableEq

variable {α : Type}

def Point.swap (point : Point α) : Point α := ⟨point.y, point.x⟩

def Size.transpose (size : Size α) : Size α := ⟨size.height, size.width⟩

def Bounds.transpose (bounds : Bounds α) : Bounds α :=
  ⟨bounds.minY, bounds.minX, bounds.maxY, bounds.maxX⟩

def Bounds.corner (bounds : Bounds α) : Point α := ⟨bounds.minX, bounds.minY⟩

def Insets.uniform (side : α) : Insets α := ⟨side, side, side, side⟩

def Insets.withTop (insets : Insets α) (top : α) : Insets α := { insets with top }

def Insets.origin (insets : Insets α) : Point α := ⟨insets.left, insets.top⟩

variable [Scalar α]

open Scalar

def Point.zero : Point α := ⟨ofNat 0, ofNat 0⟩

def Point.add (left right : Point α) : Point α := ⟨left.x + right.x, left.y + right.y⟩

def Point.sub (left right : Point α) : Point α := ⟨left.x - right.x, left.y - right.y⟩

def Insets.horizontal (insets : Insets α) : α := insets.left + insets.right

def Insets.vertical (insets : Insets α) : α := insets.top + insets.bottom

def Size.zero : Size α := ⟨ofNat 0, ofNat 0⟩

def Size.pad (size : Size α) (insets : Insets α) : Size α :=
  ⟨size.width + insets.horizontal, size.height + insets.vertical⟩

namespace Bounds

def ofCorner (corner : Point α) (size : Size α) : Bounds α :=
  ⟨corner.x, corner.y, corner.x + size.width, corner.y + size.height⟩

def width (bounds : Bounds α) : α := bounds.maxX - bounds.minX

def height (bounds : Bounds α) : α := bounds.maxY - bounds.minY

def size (bounds : Bounds α) : Size α := ⟨bounds.width, bounds.height⟩

def merge (left right : Bounds α) : Bounds α where
  minX := smaller left.minX right.minX
  minY := smaller left.minY right.minY
  maxX := larger left.maxX right.maxX
  maxY := larger left.maxY right.maxY

def mergeAll : List (Bounds α) → Option (Bounds α)
  | [] => none
  | first :: rest => some (rest.foldl merge first)

def translate (bounds : Bounds α) (offset : Point α) : Bounds α where
  minX := bounds.minX + offset.x
  minY := bounds.minY + offset.y
  maxX := bounds.maxX + offset.x
  maxY := bounds.maxY + offset.y

def grow (bounds : Bounds α) (insets : Insets α) : Bounds α where
  minX := bounds.minX - insets.left
  minY := bounds.minY - insets.top
  maxX := bounds.maxX + insets.right
  maxY := bounds.maxY + insets.bottom

def tolerance : α := ofNat 1 / ofNat 100

/-- Whether the inner rectangle lies in the outer one, up to the tolerance. -/
def contains (outer inner : Bounds α) : Bool :=
  outer.minX - tolerance ≤ inner.minX && outer.minY - tolerance ≤ inner.minY &&
    inner.maxX ≤ outer.maxX + tolerance && inner.maxY ≤ outer.maxY + tolerance

/-- Whether the interiors overlap. -/
def intersects (left right : Bounds α) : Bool :=
  left.minX < right.maxX && right.minX < left.maxX &&
    left.minY < right.maxY && right.minY < left.maxY

end Bounds

end BoxDiagram
