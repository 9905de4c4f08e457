import BoxDiagram.Settings.Value

/-!
The numbers of a TOML document. What stands for a number is looser than what can be read as one: a
base may be named without a digit behind it, letters of base sixteen may stand behind the first
underscore, and there is no bound on the size. Such a number is unreadable, which matters only
where it is read.
-/

namespace BoxDiagram.Toml

open Text Settings

/-- Whether an underscore may stand between two groups of characters: behind a digit, or a sign
alone, and before a digit. -/
def canJoin (isDigit : Char → Bool) (left right : List Char) : Bool :=
  (left = ['+'] || left = ['-'] || left.getLast?.any isDigit) && right.head?.any isDigit

def joined? (isDigit : Char → Bool) (text : List Char) : Option (List Char) :=
  let groups := splitOn (· = '_') text
  if (groups.zip (groups.drop 1)).all fun (left, right) => canJoin isDigit left right then
    some groups.flatten
  else none

/-- An integer as a value; one of more than 128 bits cannot be read. -/
def ofInteger (value : Int) : Value :=
  if -Int.pow 2 127 ≤ value && value < Int.pow 2 128 then .integer value else .unreadable

def based? (base : Nat) (text : List Char) : Option Value := do
  let digits ← joined? (isDigitOf base) text
  if digits = [] then some .unreadable
  else if digits.all (isDigitOf base) then some (ofInteger (ofDigits base digits))
  else none

def ofWhole (text : List Char) : Value :=
  let (isNegative, digits) := Decimal.takeSign text
  let value : Int := ofDigits 10 digits
  if digits.all Char.isDigit then ofInteger (if isNegative then -value else value)
  else .unreadable

def isExponent : List Char → Bool
  | [] => true
  | mark :: rest =>
    let digits := (Decimal.takeSign rest).2
    (mark = 'e' || mark = 'E') && digits ≠ [] && digits.all Char.isDigit

def isDecimalTail : List Char → Bool
  | '.' :: rest => rest.takeWhile Char.isDigit ≠ [] && isExponent (rest.dropWhile Char.isDigit)
  | text => isExponent text

/-- A decimal; one beyond double precision cannot be read. -/
def decimal? (text : List Char) : Option Value :=
  let unsigned := (Decimal.takeSign text).2
  if unsigned.takeWhile Char.isDigit ≠ [] ∧ isDecimalTail (unsigned.dropWhile Char.isDigit) then
    let value := (Decimal.Signed.ofChars text).toFloat
    some (if value.isInf then .unreadable else .real value.toFloat32)
  else none

def hasNeedlessZero : List Char → Bool
  | '0' :: next :: _ => next.isDigit || next = '_'
  | _ => false

def isDecimalMark (char : Char) : Bool := char = '.' || char = 'e' || char = 'E'

def digital? : List Char → Option Value
  | '0' :: 'x' :: rest => based? 16 rest
  | '0' :: 'o' :: rest => based? 8 rest
  | '0' :: 'b' :: rest => based? 2 rest
  | text =>
    let unsigned := (Decimal.takeSign text).2
    let rest := unsigned.dropWhile Char.isDigit
    if unsigned = [] || hasNeedlessZero unsigned then none
    else if rest.any isDecimalMark then (joined? Char.isDigit text).bind decimal?
    else if rest = [] || rest.head? = some '_' then (joined? (isDigitOf 16) text).map ofWhole
    else none

def number? (text : List Char) : Option Value :=
  match Decimal.takeSign text with
  | (isNegative, ['i', 'n', 'f']) => some (.real (if isNegative then -1.0 / 0.0 else 1.0 / 0.0))
  | (_, ['n', 'a', 'n']) => some (.real (0.0 / 0.0))
  | _ => digital? text

end BoxDiagram.Toml
