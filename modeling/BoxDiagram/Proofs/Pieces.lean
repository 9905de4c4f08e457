import BoxDiagram.Proofs.Stops

/-!
How the pieces of a physical line come about. A line is made of parts that were carried from a fresh
scan up to a place where it was stopped, and each piece is known with the brace, if any, that ended it.
-/

namespace BoxDiagram.Line

open Text

namespace Scan

/-- All characters of a text belong to the statement when `rest` follows on the line. -/
inductive Carried : Scan → List Char → List Char → Scan → Prop where
  | nil {scan : Scan} {rest : List Char} : Carried scan [] rest scan
  | cons {scan last : Scan} {char : Char} {text rest : List Char}
      (goes : scan.stops char (text ++ rest) = false)
      (further : Carried (scan.advance char (text ++ rest)) text rest last) :
      Carried scan (char :: text) rest last

namespace Carried

variable {scan middle last : Scan} {first second text rest : List Char}

theorem text_eq (carried : Carried scan text rest last) : last.text = scan.text ++ text := by
  induction carried with
  | nil => rw [List.append_nil]
  | cons goes further ih =>
    rw [ih]
    simp [Scan.text_advance]

theorem append (before : Carried scan first (second ++ rest) middle)
    (behind : Carried middle second rest last) : Carried scan (first ++ second) rest last := by
  induction first generalizing scan with
  | nil =>
    cases before
    exact behind
  | cons char first ih =>
    cases before with
    | cons goes further =>
      rw [← List.append_assoc] at goes further
      exact .cons goes (ih further)

theorem split (carried : Carried scan (first ++ second) rest last) :
    ∃ middle, Carried scan first (second ++ rest) middle ∧ Carried middle second rest last := by
  induction first generalizing scan with
  | nil => exact ⟨scan, .nil, carried⟩
  | cons char first ih =>
    rw [List.cons_append] at carried
    cases carried with
    | cons goes further =>
      obtain ⟨middle, before, behind⟩ := ih further
      rw [List.append_assoc] at goes before
      exact ⟨middle, .cons goes before, behind⟩

theorem unique {other : Scan} (carried : Carried scan text rest last)
    (again : Carried scan text rest other) : other = last := by
  induction carried with
  | nil =>
    cases again
    rfl
  | cons goes further ih =>
    cases again with
    | cons _ further => exact ih further

theorem ahead {ahead other : List Char} (carried : Carried scan text ahead last)
    (same : SameAhead ahead other) : Carried scan text other last := by
  induction text generalizing scan with
  | nil =>
    cases carried
    exact .nil
  | cons char text ih =>
    have further := same.append text
    cases carried with
    | cons goes behind =>
      rw [stops_ahead further] at goes
      rw [advance_ahead further] at behind
      exact .cons goes (ih behind)

end Carried

structure Plain (scan : Scan) : Prop where
  outside : scan.isOutside = true
  arrowless : scan.arrowSeen = false
  unlabelled : scan.inLabel = false

theorem plain_fresh : Plain {} := ⟨rfl, rfl, rfl⟩

theorem Plain.advance {scan : Scan} (plain : scan.Plain) {char : Char} {rest : List Char}
    (unquoted : char ≠ '"') (unbracketed : char ≠ '[')
    (noArrow : char = '-' → rest.head? ≠ some '>') : (scan.advance char rest).Plain := by
  obtain ⟨outside, arrowless, unlabelled⟩ := plain
  obtain ⟨noQuote, flat⟩ := isOutside_iff.mp outside
  refine ⟨?_, ?_, ?_⟩
  · rw [isOutside_iff]
    simp [Scan.advance, noQuote, flat, unquoted, unbracketed]
  · simpa [Scan.advance, arrowless, outside] using noArrow
  · simp [Scan.advance, arrowless, unlabelled]

/-- Quotes, opening brackets and arrows are what makes a difference to a scan. -/
theorem Carried.plain {scan last : Scan} {text rest : List Char}
    (carried : Carried scan text rest last) (plain : scan.Plain)
    (quiet : ∀ char ∈ text, char ≠ '"' ∧ char ≠ '[')
    (noArrow : ∀ before after, text = before ++ '-' :: after →
      (after ++ rest).head? ≠ some '>') : last.Plain := by
  induction carried with
  | nil => exact plain
  | @cons scan last char text rest goes further ih =>
    obtain ⟨unquoted, unbracketed⟩ := quiet char List.mem_cons_self
    apply ih
    · apply plain.advance unquoted unbracketed
      rintro rfl
      exact noArrow [] text rfl
    · exact fun other member => quiet other (List.mem_cons_of_mem _ member)
    · rintro before after rfl
      exact noArrow (char :: before) after rfl

end Scan

inductive Brace where
  | opening
  | closing
  deriving DecidableEq, Repr

def Brace.ofChar? (char : Char) : Option Brace :=
  if char = '{' then some .opening else if char = '}' then some .closing else none

def endedBy (mark : Option Brace) : List Piece → List (Piece × Option Brace)
  | [] => []
  | [piece] => [(piece, mark)]
  | piece :: pieces => (piece, none) :: endedBy mark pieces

theorem endedBy_fst (mark : Option Brace) (pieces : List Piece) :
    (endedBy mark pieces).map Prod.fst = pieces := by
  induction pieces with
  | nil => rfl
  | cons piece pieces ih =>
    cases pieces with
    | nil => rfl
    | cons next others => simp [endedBy, ih]

/-- The pieces of the rest of a line behind a scan, each with the brace at which the scan cut it off. A
brace inside quotes, brackets, an unquoted label or a comment cuts nothing off. -/
def Scan.marked (scan : Scan) : List Char → List (Piece × Option Brace)
  | [] => [(.statement scan.text, none)]
  | char :: rest =>
    match scan.step char rest with
    | .carry next => next.marked rest
    | .cut pieces => endedBy (Brace.ofChar? char) pieces ++ Scan.marked {} rest
    | .finish pieces => endedBy none pieces

def marked (line : List Char) : List (Piece × Option Brace) := Scan.marked {} line

theorem Scan.marked_fst (scan : Scan) (line : List Char) :
    (scan.marked line).map Prod.fst = scan.pieces line := by
  induction line generalizing scan with
  | nil => rfl
  | cons char rest ih =>
    rw [Scan.marked, Scan.pieces]
    cases scan.step char rest with
    | carry next => exact ih next
    | cut pieces => simp [endedBy_fst, ih]
    | finish pieces => exact endedBy_fst none pieces

theorem Scan.Carried.pieces {scan last : Scan} {text rest : List Char}
    (carried : Scan.Carried scan text rest last) :
    scan.pieces (text ++ rest) = last.pieces rest := by
  induction carried with
  | nil => rfl
  | cons goes _ ih =>
    rw [List.cons_append, Scan.pieces, Scan.step_eq_carry goes]
    exact ih

theorem ofText?_closing (start : Nat) :
    ofText? start ['}'] = some ⟨"\x7d", Span.ofLength start 1, .containerClose⟩ := rfl

/-- A physical line, made of parts that a fresh scan carries up to where it is stopped, with the pieces
that come of it. -/
inductive Pieced : List Char → List (Piece × Option Brace) → Prop where
  | whole {text : List Char} {scan : Scan} (carried : Scan.Carried {} text [] scan) :
      Pieced text [(.statement text, none)]
  | opening {text rest : List Char} {scan : Scan} {more : List (Piece × Option Brace)}
      (carried : Scan.Carried {} text ('{' :: rest) scan) (outside : scan.isOutside = true)
      (free : scan.inLabel = false) (further : Pieced rest more) :
      Pieced (text ++ '{' :: rest) ((.statement (text ++ ['{']), some .opening) :: more)
  | closing {text rest : List Char} {scan : Scan} {more : List (Piece × Option Brace)}
      (carried : Scan.Carried {} text ('}' :: rest) scan) (outside : scan.isOutside = true)
      (free : scan.inLabel = false) (further : Pieced rest more) :
      Pieced (text ++ '}' :: rest)
        ((.statement text, none) :: (.statement ['}'], some .closing) :: more)
  | separator {text rest : List Char} {scan : Scan} {more : List (Piece × Option Brace)}
      (carried : Scan.Carried {} text (';' :: rest) scan) (further : Pieced rest more) :
      Pieced (text ++ ';' :: rest) ((.statement text, none) :: (.separator, none) :: more)
  | comment {text rest : List Char} {char : Char} {scan : Scan}
      (carried : Scan.Carried {} text (char :: rest) scan)
      (mark : scan.marksComment char rest = true) (blank : scan.isBlank = true) :
      Pieced (text ++ char :: rest) [(.statement (text ++ char :: rest), none)]
  | remark {text words : List Char} {scan : Scan}
      (carried : Scan.Carried {} text ('/' :: '/' :: words) scan) :
      Pieced (text ++ '/' :: '/' :: words)
        [(.statement text, none), (.remark ('/' :: '/' :: words), none)]

theorem Scan.pieced {scan : Scan} {text line : List Char}
    (carried : Scan.Carried {} text line scan) : Pieced (text ++ line) (scan.marked line) := by
  induction line generalizing scan text with
  | nil =>
    have read : scan.text = text := carried.text_eq
    rw [List.append_nil, Scan.marked, read]
    exact .whole carried
  | cons char rest ih =>
    have read : scan.text = text := carried.text_eq
    have anew : Pieced rest (Scan.marked {} rest) := @ih {} [] .nil
    have outcome := scan.outcome char rest
    rw [Scan.marked]
    generalize scan.step char rest = step at outcome
    cases outcome with
    | carry goes =>
      have onward : Scan.Carried {} (text ++ [char]) rest (scan.advance char rest) :=
        carried.append (.cons goes .nil)
      simpa using ih onward
    | opening brace outside free =>
      subst brace
      simp only [read]
      exact .opening carried outside free anew
    | closing brace outside free =>
      subst brace
      simp only [read]
      exact .closing carried outside free anew
    | separator semicolon _ _ =>
      subst semicolon
      simp only [read]
      exact .separator carried anew
    | comment _ mark blank =>
      simp only [read]
      exact .comment carried mark blank
    | remark slash second _ _ =>
      subst slash second
      simp only [read]
      exact .remark carried

theorem pieced (line : List Char) : Pieced line (marked line) := @Scan.pieced {} [] line .nil

end BoxDiagram.Line
