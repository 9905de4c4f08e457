/-!
The shortest decimal that reads back as a given single precision number. The number is taken apart
into `significand * 2 ^ exponent`; the decimals that read back as it are those between the middle
points to its two neighbours, these points included when the significand is even. The first decimal
grid with a point in between has one next to the number, on one side or the other.
-/

namespace BoxDiagram.Decimal

/-- A positive binary number `significand * 2 ^ exponent`, with the distance to the neighbour
below it halved when `isLowerGapHalved`. -/
structure Binary where
  significand : Nat
  exponent : Int
  isLowerGapHalved : Bool
  deriving DecidableEq, Repr

structure Digits where
  coefficient : Nat
  exponent : Int
  deriving DecidableEq, Repr

inductive Single where
  | undefined
  | infinite (isNegative : Bool)
  | finite (isNegative : Bool) (magnitude : Option Binary)
  deriving DecidableEq, Repr

def Single.ofBits (bits : Nat) : Single :=
  let isNegative := bits / Nat.pow 2 31 % 2 == 1
  let biased : Nat := bits / Nat.pow 2 23 % Nat.pow 2 8
  let fraction : Nat := bits % Nat.pow 2 23
  if biased = 255 then
    if fraction = 0 then .infinite isNegative else .undefined
  else if biased = 0 then
    if fraction = 0 then .finite isNegative none
    else .finite isNegative (some ⟨fraction, -149, false⟩)
  else
    .finite isNegative (some ⟨Nat.pow 2 23 + fraction, (biased : Int) - 150,
      fraction = 0 && 1 < biased⟩)

/-- Which of two equally near decimals of the same length is taken. -/
inductive Tie where
  | up
  | toEven
  deriving DecidableEq, Repr

/-- The rational `numerator * 2 ^ two * 10 ^ ten` as a quotient of natural numbers. -/
def scaled (numerator : Nat) (two ten : Int) : Nat × Nat :=
  (numerator * Nat.pow 2 two.toNat * Nat.pow 10 ten.toNat,
    Nat.pow 2 (-two).toNat * Nat.pow 10 (-ten).toNat)

/-- Whether `coefficient * 10 ^ exponent` reads back as the number: its distance to the number is
within half of the gap on its side. Distances are compared in quarters of `2 ^ exponent`. -/
def Binary.readsBack (number : Binary) (coefficient : Nat) (exponent : Int) : Bool :=
  let (numerator, denominator) := scaled (4 * coefficient) (-number.exponent) exponent
  let low := 4 * number.significand - (if number.isLowerGapHalved then 1 else 2)
  let high := 4 * number.significand + 2
  if number.significand % 2 = 0 then
    low * denominator ≤ numerator && numerator ≤ high * denominator
  else
    low * denominator < numerator && numerator < high * denominator

def digitCount (value : Nat) : Nat := (Nat.toDigits 10 value).length

def Binary.leadingExponent (number : Binary) : Int :=
  let (numerator, denominator) := scaled number.significand number.exponent 60
  (digitCount (numerator / denominator) : Int) - 61

/-- The nearest decimal with `count` digits that reads back as the number, if one does. -/
def Binary.digitsOfLength? (number : Binary) (tie : Tie) (count : Nat) : Option Digits :=
  let exponent := number.leadingExponent - count + 1
  let (numerator, denominator) := scaled number.significand number.exponent (-exponent)
  let below := numerator / denominator
  let rest := numerator % denominator
  let isUpNearer := denominator < 2 * rest ||
    (2 * rest == denominator && (tie == .up || below % 2 == 1))
  match number.readsBack below exponent, number.readsBack (below + 1) exponent with
  | true, true => some ⟨if isUpNearer then below + 1 else below, exponent⟩
  | true, false => some ⟨below, exponent⟩
  | false, true => some ⟨below + 1, exponent⟩
  | false, false => none

def Digits.stripZeros (digits : Digits) : Digits :=
  let rec strip : Nat → Nat → Int → Digits
    | 0, coefficient, exponent => ⟨coefficient, exponent⟩
    | fuel + 1, coefficient, exponent =>
      if coefficient % 10 = 0 && coefficient != 0 then strip fuel (coefficient / 10) (exponent + 1)
      else ⟨coefficient, exponent⟩
  strip (digitCount digits.coefficient) digits.coefficient digits.exponent

/-- The shortest decimal that reads back as the number. Nine digits always do. -/
def Binary.shortest (number : Binary) (tie : Tie) : Digits :=
  match ((List.range 9).map (· + 1)).findSome? (number.digitsOfLength? tie) with
  | some digits => digits.stripZeros
  | none => ⟨0, 0⟩

end BoxDiagram.Decimal
