/-!
Digits and the numbers that they stand for.
-/

namespace BoxDiagram.Text

def hexValue? (char : Char) : Option Nat :=
  if '0' ≤ char ∧ char ≤ '9' then some (char.toNat - '0'.toNat)
  else if 'a' ≤ char ∧ char ≤ 'f' then some (char.toNat - 'a'.toNat + 10)
  else if 'A' ≤ char ∧ char ≤ 'F' then some (char.toNat - 'A'.toNat + 10)
  else none

def isDigitOf (base : Nat) (char : Char) : Bool :=
  match hexValue? char with
  | some value => value < base
  | none => false

def ofDigits (base : Nat) (digits : List Char) : Nat :=
  digits.foldl (fun value digit => base * value + (hexValue? digit).getD 0) 0

theorem ofDigits_append (base : Nat) (digits : List Char) (digit : Char) :
    ofDigits base (digits ++ [digit]) = base * ofDigits base digits + (hexValue? digit).getD 0 := by
  simp [ofDigits]

def charOfHex? (digits : List Char) : Option Char :=
  let number := ofDigits 16 digits
  if digits.all (isDigitOf 16) && decide number.isValidChar then some (Char.ofNat number) else none

end BoxDiagram.Text
