import BoxDiagram.Json.Reader
import Mathlib.Data.List.DropRight

/-!
The grammar of JSON. A text spells a value when the rules below derive it: blanks may stand around every
value, key and bracket, and in a string every character stands for itself or is escaped. Blanks, numbers
and strings are what the reader takes them for.
-/

namespace BoxDiagram.Json

def Blank (text : List Char) : Prop := ∀ char ∈ text, isSpace char = true

def DigitRun (text : List Char) : Prop := text ≠ [] ∧ ∀ char ∈ text, char.isDigit = true

def Whole (text : List Char) : Prop := text = ['0'] ∨ DigitRun text ∧ text.head? ≠ some '0'

def Fraction (text : List Char) : Prop := text = [] ∨ ∃ digits, DigitRun digits ∧ text = '.' :: digits

def Exponent (text : List Char) : Prop :=
  text = [] ∨ ∃ mark sign digits, (mark = 'e' ∨ mark = 'E') ∧ (sign = [] ∨ sign = ['+'] ∨ sign = ['-']) ∧
    DigitRun digits ∧ text = mark :: (sign ++ digits)

def Unsigned (text : List Char) : Prop :=
  ∃ whole fraction exponent, Whole whole ∧ Fraction fraction ∧ Exponent exponent ∧
    text = whole ++ (fraction ++ exponent)

def Number (text : List Char) : Prop :=
  ∃ sign unsigned, (sign = [] ∨ sign = ['-']) ∧ Unsigned unsigned ∧ text = sign ++ unsigned

inductive SpellsChar : List Char → Char → Prop
  | plain {char : Char} (quote : char ≠ '"') (backslash : char ≠ '\\') (printed : 0x20 ≤ char.toNat) :
      SpellsChar [char] char
  | letter {letter char : Char} (named : unescape? letter = some char) : SpellsChar ['\\', letter] char
  | unit {a b c d : Char} {unit : Nat} (number : unit? a b c d = some unit) (valid : unit.isValidChar) :
      SpellsChar ['\\', 'u', a, b, c, d] (Char.ofNat unit)
  | pair {a b c d e f g h char : Char} {high low : Nat} (first : unit? a b c d = some high)
      (isHigh : isHighSurrogate high = true) (second : unit? e f g h = some low)
      (joined : surrogatePair? high low = some char) :
      SpellsChar ['\\', 'u', a, b, c, d, '\\', 'u', e, f, g, h] char

inductive SpellsText : List Char → List Char → Prop
  | nil : SpellsText [] []
  | cons {spelled rest text : List Char} {char : Char} (first : SpellsChar spelled char)
      (later : SpellsText rest text) : SpellsText (spelled ++ rest) (char :: text)

inductive SpellsKey : List Char → String → Prop
  | quoted {before spelled text after : List Char} (blankBefore : Blank before)
      (inside : SpellsText spelled text) (blankAfter : Blank after) :
      SpellsKey (before ++ '"' :: (spelled ++ '"' :: after)) (String.ofList text)

structure Entry where
  keyText : List Char
  key : String
  valueText : List Char
  value : Json

namespace Entry

def text (entry : Entry) : List Char := entry.keyText ++ ':' :: entry.valueText

def field (entry : Entry) : String × Json := (entry.key, entry.value)

end Entry

inductive Spells : List Char → Json → Prop
  | null : Spells ['n', 'u', 'l', 'l'] .null
  | true : Spells ['t', 'r', 'u', 'e'] (.bool true)
  | false : Spells ['f', 'a', 'l', 's', 'e'] (.bool false)
  | number {text : List Char} (number : Number text) : Spells text (.number (String.ofList text))
  | string {spelled text : List Char} (inside : SpellsText spelled text) :
      Spells ('"' :: (spelled ++ ['"'])) (.string (String.ofList text))
  | array {items : List (List Char × Json)} {blanks : List Char}
      (each : ∀ item ∈ items, Spells item.1 item.2) (blank : Blank blanks) :
      Spells ('[' :: ([','].intercalate (items.map Prod.fst) ++ (blanks ++ [']'])))
        (.array (items.map Prod.snd))
  | object {entries : List Entry} {blanks : List Char}
      (keys : ∀ entry ∈ entries, SpellsKey entry.keyText entry.key)
      (values : ∀ entry ∈ entries, Spells entry.valueText entry.value) (blank : Blank blanks) :
      Spells ('\x7b' :: ([','].intercalate (entries.map Entry.text) ++ (blanks ++ ['\x7d'])))
        (.object (entries.map Entry.field))
  | spaced {before text after : List Char} {json : Json} (blankBefore : Blank before)
      (spells : Spells text json) (blankAfter : Blank after) : Spells (before ++ (text ++ after)) json

section Blanks

theorem blank_nil : Blank [] := fun _ inside => nomatch inside

theorem skipSpace_append {blanks : List Char} (blank : Blank blanks) (rest : List Char) :
    skipSpace (blanks ++ rest) = skipSpace rest := by
  rw [skipSpace, List.dropWhile_append_of_pos blank, skipSpace]

theorem skipSpace_cons {char : Char} (printed : isSpace char = false) (rest : List Char) :
    skipSpace (char :: rest) = char :: rest := by
  rw [skipSpace, List.dropWhile_cons_of_neg (by simp [printed])]

theorem skipSpace_skipSpace (text : List Char) : skipSpace (skipSpace text) = skipSpace text :=
  List.dropWhile_idempotent isSpace text

def Ends (text : List Char) : Prop := ∀ char rest, text = char :: rest → isNumberChar char = false

theorem Ends.cons {char : Char} (apart : isNumberChar char = false) (rest : List Char) :
    Ends (char :: rest) := by
  rintro _ _ ⟨⟩
  exact apart

theorem ends_comma (rest : List Char) : Ends (',' :: rest) := Ends.cons rfl rest

theorem Ends.append {blanks rest : List Char} (blank : Blank blanks) (ends : Ends rest) :
    Ends (blanks ++ rest) := by
  cases blanks with
  | nil => exact ends
  | cons first others =>
    have space : isSpace first = true := blank first List.mem_cons_self
    simp only [isSpace, Bool.or_eq_true, beq_iff_eq] at space
    apply Ends.cons
    rcases space with ((rfl | rfl) | rfl) | rfl <;> rfl

end Blanks

section Numbers

def EndsDigits (text : List Char) : Prop := ∀ char rest, text = char :: rest → char.isDigit = false

theorem dropDigits?_append {digits rest : List Char} (spelled : DigitRun digits)
    (ends : EndsDigits rest) : dropDigits? (digits ++ rest) = some rest := by
  obtain ⟨some, all⟩ := spelled
  cases digits with
  | nil => exact absurd rfl some
  | cons first others =>
    obtain ⟨digit, later⟩ := List.forall_mem_cons.mp all
    have stops : rest.dropWhile Char.isDigit = rest := by
      cases rest with
      | nil => rfl
      | cons char more => exact List.dropWhile_cons_of_neg (by simp [ends char more rfl])
    rw [List.cons_append, dropDigits?, if_pos digit, List.dropWhile_append_of_pos later, stops]

theorem DigitRun.exists_cons {digits : List Char} (spelled : DigitRun digits) :
    ∃ first rest, digits = first :: rest ∧ first.isDigit = true := by
  obtain ⟨some, all⟩ := spelled
  cases digits with
  | nil => exact absurd rfl some
  | cons first rest => exact ⟨first, rest, rfl, all first List.mem_cons_self⟩

theorem Whole.exists_cons {whole : List Char} (spelled : Whole whole) :
    ∃ first rest, whole = first :: rest ∧ first.isDigit = true := by
  rcases spelled with rfl | ⟨digits, -⟩
  · exact ⟨'0', [], rfl, rfl⟩
  · exact digits.exists_cons

theorem Fraction.endsDigits {fraction rest : List Char} (spelled : Fraction fraction)
    (ends : EndsDigits rest) : EndsDigits (fraction ++ rest) := by
  rcases spelled with rfl | ⟨digits, -, rfl⟩
  · exact ends
  · rintro _ _ ⟨⟩
    rfl

theorem Exponent.endsDigits {exponent : List Char} (spelled : Exponent exponent) :
    EndsDigits exponent := by
  rcases spelled with rfl | ⟨mark, sign, digits, marks, -, -, rfl⟩
  · rintro _ _ ⟨⟩
  · rintro _ _ ⟨⟩
    rcases marks with rfl | rfl <;> rfl

theorem dropWhole?_append {whole rest : List Char} (spelled : Whole whole) (ends : EndsDigits rest) :
    dropWhole? (whole ++ rest) = some rest := by
  rcases spelled with rfl | ⟨digits, plain⟩
  · rfl
  · rw [← dropDigits?_append digits ends]
    obtain ⟨first, others, rfl, -⟩ := digits.exists_cons
    unfold dropWhole?
    split
    next zero => simp_all
    next => rfl

theorem dropFraction?_append {fraction exponent : List Char} (spelled : Fraction fraction)
    (follows : Exponent exponent) : dropFraction? (fraction ++ exponent) = some exponent := by
  rcases spelled with rfl | ⟨digits, spelled, rfl⟩
  · rcases follows with rfl | ⟨mark, sign, digits, marks, -, -, rfl⟩
    · rfl
    · rcases marks with rfl | rfl <;> rfl
  · exact dropDigits?_append spelled follows.endsDigits

theorem dropExponent?_eq {exponent : List Char} (spelled : Exponent exponent) :
    dropExponent? exponent = some [] := by
  rcases spelled with rfl | ⟨mark, sign, digits, marks, signs, spelled, rfl⟩
  · rfl
  · have unsigned : dropExponentSign (sign ++ digits) = digits := by
      rcases signs with rfl | rfl | rfl
      · obtain ⟨first, others, rfl, digit⟩ := spelled.exists_cons
        unfold dropExponentSign
        split
        next same => simp_all
        next same => simp_all
        next => rfl
      · rfl
      · rfl
    have ends : EndsDigits [] := by rintro _ _ ⟨⟩
    have dropped := dropDigits?_append spelled ends
    rw [List.append_nil] at dropped
    rw [dropExponent?, if_pos marks, unsigned, dropped]

theorem isNumber_of_number {text : List Char} (number : Number text) : isNumber text = true := by
  obtain ⟨sign, _, signs, ⟨whole, fraction, exponent, wholeText, fractionText, exponentText, rfl⟩, rfl⟩ :=
    number
  have unsigned : dropSign (sign ++ (whole ++ (fraction ++ exponent))) =
      whole ++ (fraction ++ exponent) := by
    rcases signs with rfl | rfl
    · obtain ⟨first, others, rfl, digit⟩ := wholeText.exists_cons
      unfold dropSign
      split
      next same => simp_all
      next => rfl
    · rfl
  rw [isNumber, unsigned, dropWhole?_append wholeText (fractionText.endsDigits exponentText.endsDigits),
    Option.bind_some, dropFraction?_append fractionText exponentText, Option.bind_some,
    dropExponent?_eq exponentText]
  rfl

theorem isNumberChar_of_isDigit {char : Char} (digit : char.isDigit = true) : isNumberChar char = true := by
  simp [isNumberChar, digit]

theorem Number.chars {text : List Char} (number : Number text) : ∀ char ∈ text, isNumberChar char = true := by
  obtain ⟨sign, _, signs, ⟨whole, fraction, exponent, wholeText, fractionText, exponentText, rfl⟩, rfl⟩ :=
    number
  simp only [List.forall_mem_append]
  refine ⟨?_, ?_, ?_, ?_⟩
  · rcases signs with rfl | rfl <;> simp [isNumberChar]
  · rcases wholeText with rfl | ⟨digits, -⟩
    · simp [isNumberChar]
    · exact fun char listed => isNumberChar_of_isDigit (digits.2 char listed)
  · rcases fractionText with rfl | ⟨digits, spelled, rfl⟩
    · simp
    · exact List.forall_mem_cons.mpr
        ⟨rfl, fun char listed => isNumberChar_of_isDigit (spelled.2 char listed)⟩
  · rcases exponentText with rfl | ⟨mark, sign, digits, marks, signs, spelled, rfl⟩
    · simp
    · rw [List.forall_mem_cons, List.forall_mem_append]
      refine ⟨?_, ?_, fun char listed => isNumberChar_of_isDigit (spelled.2 char listed)⟩
      · rcases marks with rfl | rfl <;> rfl
      · rcases signs with rfl | rfl | rfl <;> simp [isNumberChar]

theorem Number.exists_cons {text : List Char} (number : Number text) : ∃ first rest, text = first :: rest := by
  obtain ⟨sign, _, signs, ⟨whole, fraction, exponent, wholeText, -, -, rfl⟩, rfl⟩ := number
  obtain ⟨first, others, rfl, -⟩ := wholeText.exists_cons
  rcases signs with rfl | rfl
  · exact ⟨_, _, rfl⟩
  · exact ⟨_, _, rfl⟩

end Numbers

section Strings

theorem stringTail?_char {spelled : List Char} {char : Char} (spells : SpellsChar spelled char)
    (rest : List Char) :
    stringTail? (spelled ++ rest) = (stringTail? rest).map fun (text, left) => (char :: text, left) := by
  cases spells with
  | plain quote backslash printed =>
    have apart : ¬(char = '\\' ∨ char.toNat < 0x20) := by
      rintro (same | less)
      · exact backslash same
      · exact absurd less (Nat.not_lt.mpr printed)
    rw [List.singleton_append, stringTail?, if_neg apart]
    all_goals simp_all
  | letter named =>
    rename_i letter
    have short : letter ≠ 'u' := by
      rintro rfl
      cases named
    rw [List.cons_append, List.singleton_append, stringTail?]
    · simp only [named]
      cases stringTail? rest <;> rfl
    · simp_all
  | unit number valid =>
    have low : ∀ unit : Nat, unit.isValidChar → isHighSurrogate unit = false := by
      intro unit valid
      simp only [isHighSurrogate, Bool.and_eq_false_iff, decide_eq_false_iff_not]
      rcases valid with below | ⟨above, -⟩ <;> omega
    simp only [List.cons_append, List.nil_append, stringTail?, number, Option.bind_eq_bind,
      Option.bind_some, low _ valid, if_pos valid, Bool.false_eq_true, if_false]
    cases stringTail? rest <;> rfl
  | pair first isHigh second joined =>
    rw [List.cons_append, List.cons_append]
    simp only [List.cons_append, List.nil_append]
    rw [stringTail?]
    simp only [first, second, joined, Option.bind_eq_bind, Option.bind_some, isHigh, if_true]
    cases stringTail? rest <;> rfl

theorem stringTail?_of_spells {spelled text : List Char} (spells : SpellsText spelled text)
    (rest : List Char) : stringTail? (spelled ++ '"' :: rest) = some (text, rest) := by
  induction spells with
  | nil => rfl
  | cons first later ih => rw [List.append_assoc, stringTail?_char first, ih, Option.map_some]

end Strings

end BoxDiagram.Json
