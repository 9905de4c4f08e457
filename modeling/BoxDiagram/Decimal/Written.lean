import BoxDiagram.Decimal.Shortest

/-!
How a decimal is spelled. One layout record holds what a format decides for itself: which
exponents are written out in positions, what a whole number ends in, and the texts of the values
that have no digits.
-/

namespace BoxDiagram.Decimal

structure Style where
  tie : Tie
  /-- Whether a number whose first digit has this power of ten is written out in positions. -/
  isPositional : Int → Bool
  /-- What is written after the digits of a whole number in positions. -/
  wholeSuffix : String
  positiveMark : String
  undefined : String
  infinite : Bool → String

/-- Answers and messages write every digit in its position and no point after a whole number. -/
def Style.plain : Style where
  tie := .up
  isPositional _ := true
  wholeSuffix := ""
  positiveMark := "e+"
  undefined := "NaN"
  infinite isNegative := if isNegative then "-inf" else "inf"

/-- Documents write out the powers -6 to 12, keep one digit after the point, and have no text for
a number that is not finite. -/
def Style.document : Style where
  tie := .toEven
  isPositional power := -6 ≤ power && power ≤ 12
  wholeSuffix := ".0"
  positiveMark := "e+"
  undefined := "null"
  infinite _ := "null"

def zeros (count : Nat) : String := String.ofList (List.replicate count '0')

def Digits.positional (digits : Digits) (wholeSuffix : String) : String :=
  let text := Nat.toDigits 10 digits.coefficient
  let point := (text.length : Int) + digits.exponent
  if 0 ≤ digits.exponent then
    String.ofList text ++ zeros digits.exponent.toNat ++ wholeSuffix
  else if 0 < point then
    String.ofList (text.take point.toNat) ++ "." ++ String.ofList (text.drop point.toNat)
  else
    "0." ++ zeros (-point).toNat ++ String.ofList text

def Digits.exponential (digits : Digits) (positiveMark : String) : String :=
  let text := Nat.toDigits 10 digits.coefficient
  let power := (text.length : Int) - 1 + digits.exponent
  let exponent := if power < 0 then "e-" ++ toString power.natAbs
    else positiveMark ++ toString power.natAbs
  match text with
  | [] => exponent
  | first :: [] => String.singleton first ++ exponent
  | first :: rest => String.singleton first ++ "." ++ String.ofList rest ++ exponent

def Style.digits (style : Style) (digits : Digits) : String :=
  let power := (digitCount digits.coefficient : Int) - 1 + digits.exponent
  if style.isPositional power then digits.positional style.wholeSuffix
  else digits.exponential style.positiveMark

def Style.single (style : Style) : Single → String
  | .undefined => style.undefined
  | .infinite isNegative => style.infinite isNegative
  | .finite isNegative magnitude =>
    let text := match magnitude with
      | none => style.digits ⟨0, 0⟩
      | some number => style.digits (number.shortest style.tie)
    if isNegative then "-" ++ text else text

def Style.text (style : Style) (value : Float32) : String :=
  style.single (Single.ofBits value.toBits.toNat)

end BoxDiagram.Decimal
