import BoxDiagram.Scalar
import BoxDiagram.Text.Digit

/-!
Reading decimals: an optional sign, digits, an optional fraction and an optional exponent. A number
is first rounded to double precision and from there to single precision.
-/

namespace BoxDiagram.Decimal

open Text

/-- A decimal `± coefficient * 10 ^ exponent`. -/
structure Signed where
  isNegative : Bool
  coefficient : Nat
  exponent : Int
  deriving DecidableEq, Repr

def takeSign : List Char → Bool × List Char
  | '-' :: rest => (true, rest)
  | '+' :: rest => (false, rest)
  | text => (false, text)

/-- The decimal that a number text stands for; the text is taken to be well formed. -/
def Signed.ofChars (text : List Char) : Signed :=
  let (isNegative, text) := takeSign text
  let whole := text.takeWhile Char.isDigit
  let text := text.dropWhile Char.isDigit
  let (fraction, text) := match text with
    | '.' :: rest => (rest.takeWhile Char.isDigit, rest.dropWhile Char.isDigit)
    | rest => ([], rest)
  let exponent : Int := match text with
    | _ :: rest =>
      let (isNegative, digits) := takeSign rest
      if isNegative then -(ofDigits 10 digits : Int) else ofDigits 10 digits
    | [] => 0
  ⟨isNegative, ofDigits 10 (whole ++ fraction), exponent - fraction.length⟩

/-- The nearest double precision number. Exponents beyond its range are cut off first, as they
would take long to multiply out. -/
def Signed.toFloat (decimal : Signed) : Float :=
  let size := (Nat.toDigits 10 decimal.coefficient).length + decimal.exponent
  let magnitude : Float :=
    if decimal.coefficient = 0 || size < -400 then 0.0
    else if 400 < size then 1.0 / 0.0
    else Float.ofScientific decimal.coefficient (decimal.exponent < 0) decimal.exponent.natAbs
  if decimal.isNegative then -magnitude else magnitude

def isWhole (text : List Char) : Bool :=
  text.all fun char => char.isDigit || char == '-' || char == '+'

def singleOfChars (text : List Char) : Float32 := (Signed.ofChars text).toFloat.toFloat32

def singleOfInt (value : Int) : Float32 :=
  let magnitude := (UInt64.ofNat value.natAbs).toFloat32
  if value < 0 then -magnitude else magnitude

end BoxDiagram.Decimal
