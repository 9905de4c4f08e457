/-!
The arithmetic that geometry and placement ask of a coordinate. The program computes with single
precision numbers; nothing in the definitions depends on that choice, so the same definitions can
be read over exact numbers.
-/

namespace BoxDiagram

/-- A number type that coordinates can be computed in. -/
class Scalar (α : Type) extends Add α, Sub α, Mul α, Div α, LT α, LE α where
  ofNat : Nat → α
  /-- The larger of two coordinates; the second of two equal ones. -/
  larger : α → α → α
  /-- The smaller of two coordinates; the second of two equal ones. -/
  smaller : α → α → α
  isFinite : α → Bool
  decidableLT : DecidableLT α
  decidableLE : DecidableLE α

attribute [reducible, instance] Scalar.decidableLT Scalar.decidableLE

/-- Single precision. An undefined operand of `larger` and `smaller` is ignored. -/
instance : Scalar Float32 where
  ofNat count := (UInt64.ofNat count).toFloat32
  larger left right := if left.isNaN then right else if left ≤ right then right else left
  smaller left right := if left.isNaN then right else if right ≤ left then right else left
  isFinite := Float32.isFinite
  decidableLT := inferInstance
  decidableLE := inferInstance

namespace Scalar

variable {α : Type} [Scalar α]

def half (value : α) : α := value / ofNat 2

def sum : List α → α
  | [] => ofNat 0
  | first :: rest => rest.foldl (· + ·) first

def largest (values : List α) : α := values.foldl larger (ofNat 0)

end Scalar

end BoxDiagram
