import BoxDiagram.Text.Digit

/-!
Dates and times of day in a TOML document. No setting takes one, so it is only looked at whether a
text is one.
-/

namespace BoxDiagram.Toml

open Text

def isLeapYear (year : Nat) : Bool := year % 4 = 0 && (year % 100 ≠ 0 || year % 400 = 0)

def daysOf (year month : Nat) : Nat :=
  if month = 2 then if isLeapYear year then 29 else 28
  else if [4, 6, 9, 11].contains month then 30
  else 31

def afterDate? : List Char → Option (List Char)
  | a :: b :: c :: d :: '-' :: e :: f :: '-' :: g :: h :: rest =>
    let month := ofDigits 10 [e, f]
    let day := ofDigits 10 [g, h]
    if [a, b, c, d, e, f, g, h].all Char.isDigit && 1 ≤ month && month ≤ 12 && 1 ≤ day
        && day ≤ daysOf (ofDigits 10 [a, b, c, d]) month then some rest
    else none
  | _ => none

def afterFraction? : List Char → Option (List Char)
  | '.' :: rest =>
    if rest.takeWhile Char.isDigit = [] then none else some (rest.dropWhile Char.isDigit)
  | text => some text

/-- What stands behind the seconds, which may be left out; a leap second is the sixtieth. -/
def afterSeconds? : List Char → Option (List Char)
  | ':' :: a :: b :: rest =>
    if [a, b].all Char.isDigit && ofDigits 10 [a, b] ≤ 60 then afterFraction? rest else none
  | text => some text

def afterMinutes? : List Char → Option (List Char)
  | a :: b :: ':' :: c :: d :: rest =>
    if [a, b, c, d].all Char.isDigit && ofDigits 10 [a, b] < 24 && ofDigits 10 [c, d] < 60 then
      some rest
    else none
  | _ => none

def afterTime? (text : List Char) : Option (List Char) := (afterMinutes? text).bind afterSeconds?

def isOffset : List Char → Bool
  | [] | ['Z'] | ['z'] => true
  | '+' :: rest | '-' :: rest => afterMinutes? rest = some []
  | _ => false

def isMoment (text : List Char) : Bool :=
  match afterDate? text with
  | some [] => true
  | some (mark :: time) => ['T', 't', ' '].contains mark && (afterTime? time).any isOffset
  | none => afterTime? text = some []

end BoxDiagram.Toml
