/-!
Parsers that move on in a text. One that finds something else than it looks for leaves the choice to
another one. A repetition ends where nothing more is found. A round that takes nothing could go on for
ever, so a repetition that comes upon one fails for good.
-/

namespace BoxDiagram.Text

inductive Parser.Failure where
  /-- Something else stands here. Another parser may be tried. -/
  | mismatch
  /-- A round of a repetition has taken nothing. -/
  | stuck
  deriving DecidableEq, Repr

/-- A parser gives a value or fails. Either way it leaves the text from the place on that it has come to,
and it never moves back. -/
structure Parser (α : Type) where
  run : List Char → Except Parser.Failure α × List Char
  onward (text : List Char) : (run text).2 <:+ text

namespace Parser

variable {α β : Type}

def Takes (parser : Parser α) : Prop :=
  ∀ text rest value, parser.run text = (.ok value, rest) → rest.length < text.length

def char (expected : Char) : Parser Unit where
  run
    | [] => (.error .mismatch, [])
    | char :: rest => if char = expected then (.ok (), rest) else (.error .mismatch, char :: rest)
  onward text := by
    cases text with
    | nil => exact List.suffix_rfl
    | cons char rest =>
      dsimp only
      split
      · exact List.suffix_cons char rest
      · exact List.suffix_rfl

theorem run_char (expected : Char) (rest : List Char) :
    (char expected).run (expected :: rest) = (.ok (), rest) :=
  if_pos rfl

theorem run_char_of_ne {expected : Char} {text : List Char} (other : text.head? ≠ some expected) :
    (char expected).run text = (.error .mismatch, text) := by
  cases text with
  | nil => rfl
  | cons char rest => exact if_neg (by simpa using other)

theorem takes_char (expected : Char) : (char expected).Takes := by
  intro text rest value found
  cases text with
  | nil => simp [char] at found
  | cons char left =>
    simp only [Parser.char] at found
    split at found
    · cases found
      exact Nat.lt_succ_self _
    · cases found

def skipWhile (test : Char → Bool) : Parser Unit where
  run text := (.ok (), text.dropWhile test)
  onward _ := List.dropWhile_suffix test

def skipSome (test : Char → Bool) : Parser Unit where
  run
    | [] => (.error .mismatch, [])
    | char :: rest =>
      if test char then (.ok (), rest.dropWhile test) else (.error .mismatch, char :: rest)
  onward text := by
    cases text with
    | nil => exact List.suffix_rfl
    | cons char rest =>
      dsimp only
      split
      · exact (List.dropWhile_suffix test).trans (List.suffix_cons char rest)
      · exact List.suffix_rfl

theorem takes_skipSome (test : Char → Bool) : (skipSome test).Takes := by
  intro text rest value found
  cases text with
  | nil => simp [skipSome] at found
  | cons char left =>
    simp only [skipSome] at found
    split at found
    · cases found
      exact Nat.lt_succ_of_le (List.dropWhile_suffix test).length_le
    · cases found

def andThen (first : Parser α) (second : Parser β) : Parser β where
  run text :=
    match first.run text with
    | (.ok _, rest) => second.run rest
    | (.error failure, rest) => (.error failure, rest)
  onward text := by
    have before := first.onward text
    split
    next value rest found =>
      rw [found] at before
      exact (second.onward rest).trans before
    next failure rest found => simpa only [found] using before

/-- The second parser at the same place if the first one finds something else. -/
def orElse (first second : Parser α) : Parser α where
  run text :=
    match first.run text with
    | (.error .mismatch, _) => second.run text
    | outcome => outcome
  onward text := by
    split
    · exact second.onward text
    · exact first.onward text

theorem Takes.orElse {first second : Parser α} (before : first.Takes) (behind : second.Takes) :
    (first.orElse second).Takes := by
  intro text rest value found
  simp only [Parser.orElse] at found
  split at found
  · exact behind text rest value found
  · exact before text rest value found

def optional (parser : Parser Unit) : Parser Unit where
  run text :=
    match parser.run text with
    | (.error .mismatch, _) => (.ok (), text)
    | outcome => outcome
  onward text := by
    split
    · exact List.suffix_rfl
    · exact parser.onward text

def taken (parser : Parser α) : Parser (List Char) where
  run text :=
    let (outcome, rest) := parser.run text
    (outcome.map fun _ => text.take (text.length - rest.length), rest)
  onward text := parser.onward text

theorem run_taken {parser : Parser α} {part rest : List Char} {value : α}
    (found : parser.run (part ++ rest) = (.ok value, rest)) :
    parser.taken.run (part ++ rest) = (.ok part, rest) := by
  simp [taken, found, Except.map]

/-- Fails for good where the parser gives a value and takes nothing. -/
def consuming (parser : Parser α) : Parser α where
  run text :=
    match parser.run text with
    | (.ok value, rest) =>
      if rest.length = text.length then (.error .stuck, rest) else (.ok value, rest)
    | outcome => outcome
  onward text := by
    have before := parser.onward text
    split
    next value rest found =>
      rw [found] at before
      split <;> exact before
    next => exact before

theorem takes_consuming (parser : Parser α) : parser.consuming.Takes := by
  intro text rest value found
  have before := (parser.onward text).length_le
  simp only [consuming] at found
  split at found
  next other left given =>
    rw [given] at before
    split at found
    next => cases found
    next some =>
      cases found
      exact Nat.lt_of_le_of_ne before some
  next other =>
    rw [found] at other
    exact absurd rfl (other value rest)

theorem Takes.run_consuming {parser : Parser α} (takes : parser.Takes) (text : List Char) :
    parser.consuming.run text = parser.run text := by
  simp only [consuming]
  split
  next value rest found => rw [if_neg (Nat.ne_of_lt (takes text rest value found)), found]
  next => rfl

theorem Takes.andThen {first : Parser α} (takes : first.Takes) (second : Parser β) :
    (first.andThen second).Takes := by
  intro text rest value found
  simp only [Parser.andThen] at found
  split at found
  next _ middle given =>
    have behind := (second.onward middle).length_le
    rw [found] at behind
    exact Nat.lt_of_le_of_lt behind (takes text middle _ given)
  next => cases found

def rounds (parser : Parser α) (takes : parser.Takes) (text : List Char) :
    Except Failure (List α) × List Char :=
  match found : parser.run text with
  | (.error .mismatch, _) => (.ok [], text)
  | (.error .stuck, rest) => (.error .stuck, rest)
  | (.ok value, rest) =>
    have : rest.length < text.length := takes text rest value found
    let (outcome, last) := rounds parser takes rest
    (outcome.map (value :: ·), last)
termination_by text.length

theorem rounds_of_mismatch {parser : Parser α} (takes : parser.Takes) {text : List Char}
    (ended : (parser.run text).1 = .error .mismatch) : rounds parser takes text = (.ok [], text) := by
  rw [rounds]
  split
  next => rfl
  next found => simp [found] at ended
  next found => simp [found] at ended

theorem rounds_of_ok {parser : Parser α} (takes : parser.Takes) {text rest : List Char} {value : α}
    (found : parser.run text = (.ok value, rest)) :
    rounds parser takes text =
      ((rounds parser takes rest).1.map (value :: ·), (rounds parser takes rest).2) := by
  rw [rounds]
  split
  next given => simp [found] at given
  next given => simp [found] at given
  next given =>
    cases found.symm.trans given
    rfl

theorem rounds_suffix {parser : Parser α} (takes : parser.Takes) (text : List Char) :
    (rounds parser takes text).2 <:+ text := by
  have before := parser.onward text
  fun_induction rounds parser takes text with
  | case1 => exact List.suffix_rfl
  | case2 text rest found => simpa only [found] using before
  | case3 text value rest found _ outcome last later ih =>
    rw [found] at before
    rw [later] at ih
    exact (ih (parser.onward rest)).trans before

def many (parser : Parser α) : Parser (List α) where
  run := rounds parser.consuming parser.takes_consuming
  onward := rounds_suffix parser.takes_consuming

/-- Items with separators between neighbours, none if there is no first one. A separator that no item
follows is left in the text. -/
def separated (item : Parser α) (separator : Parser β) : Parser (List α) where
  run text :=
    match item.run text with
    | (.error .mismatch, _) => (.ok [], text)
    | (.error .stuck, rest) => (.error .stuck, rest)
    | (.ok value, rest) =>
      let (outcome, last) :=
        rounds (separator.consuming.andThen item) (separator.takes_consuming.andThen item) rest
      (outcome.map (value :: ·), last)
  onward text := by
    have before := item.onward text
    split
    next => exact List.suffix_rfl
    next rest found => simpa only [found] using before
    next value rest found =>
      rw [found] at before
      exact (rounds_suffix (separator.takes_consuming.andThen item) rest).trans before

end Parser

end BoxDiagram.Text
