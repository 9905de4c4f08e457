import BoxDiagram.Proofs.CommentLines

/-!
Logical lines are atomic. The text of a line, read as a source of its own, is that one line again. A scan
of it goes through the same states as the scan that cut it out: what stood behind it is nothing that a
scan looks ahead for, and the blanks in front of it made a difference to comment marks only.
-/

namespace BoxDiagram

open Text

namespace Line

namespace Scan

theorem startsUnquoted_blanks {blanks rest : List Char}
    (white : ∀ char ∈ blanks, Text.isBlank char = true) (unquoted : startsUnquoted rest = true) :
    startsUnquoted (blanks ++ rest) = true := by
  induction blanks with
  | nil => exact unquoted
  | cons char blanks ih =>
    obtain ⟨first, further⟩ := List.forall_mem_cons.mp white
    rw [startsUnquoted, List.cons_append, List.dropWhile_cons]
    split
    next => exact ih further
    next =>
      have noQuote : char ≠ '"' := by
        rintro rfl
        exact absurd first (by decide)
      simpa using noQuote

/-- A scan that looks ahead over blanks sees no arrow, no comment mark and no quote, if none of them
follows. -/
theorem sameAhead_blanks {blanks rest : List Char} (white : ∀ char ∈ blanks, Text.isBlank char = true)
    (unquoted : startsUnquoted rest = true)
    (plain : blanks = [] → rest.head? ≠ some '>' ∧ rest.head? ≠ some '/') :
    SameAhead (blanks ++ rest) [] := by
  obtain ⟨noArrow, noSlash⟩ : (blanks ++ rest).head? ≠ some '>' ∧ (blanks ++ rest).head? ≠ some '/' := by
    cases blanks with
    | nil => exact plain rfl
    | cons char blanks =>
      have first := white char List.mem_cons_self
      constructor
      · intro arrow
        obtain rfl : char = '>' := Option.some.inj arrow
        exact absurd first (by decide)
      · intro slash
        obtain rfl : char = '/' := Option.some.inj slash
        exact absurd first (by decide)
  exact ⟨by simpa using noArrow, by simpa using noSlash, startsUnquoted_blanks white unquoted⟩

def indent (scan : Scan) (blanks : List Char) : Scan := { scan with seen := scan.seen ++ blanks.reverse }

section Indent

variable {blanks : List Char} (white : ∀ char ∈ blanks, Text.isBlank char = true)
include white

theorem isBlank_indent (scan : Scan) : (scan.indent blanks).isBlank = scan.isBlank := by
  have reversed : blanks.reverse.all Text.isBlank = true := by simpa using white
  rw [isBlank, indent, List.all_append, reversed, Bool.and_true, isBlank]

/-- Only whether a statement begins with two slashes depends on the blanks in front of it. -/
theorem stops_indent {scan : Scan} {char : Char} {rest : List Char}
    (begun : scan.seen ≠ [] ∨ ¬['/', '/'] <+: char :: rest) :
    (scan.indent blanks).stops char rest = scan.stops char rest := by
  have mark : (scan.indent blanks).marksComment char rest = scan.marksComment char rest := by
    rw [marksComment, marksComment, isBlank_indent white]
    rcases begun with begun | unmarked
    · obtain ⟨previous, seen, same⟩ := List.exists_cons_of_ne_nil begun
      rw [admitsRemark, admitsRemark, indent, same]
      rfl
    · have noSlashes : (char == '/' && rest.head? == some '/') = false := by
        rw [Bool.eq_false_iff]
        intro slashes
        simp only [Bool.and_eq_true, beq_iff_eq] at slashes
        obtain ⟨rfl, second⟩ := slashes
        obtain ⟨words, rfl⟩ := List.head?_eq_some_iff.mp second
        exact unmarked ⟨words, rfl⟩
      rw [noSlashes, Bool.false_and, Bool.false_and]
  rw [stops, stops, mark]
  rfl

theorem Carried.unindent {scan last : Scan} {text rest : List Char}
    (carried : Carried (scan.indent blanks) text rest last)
    (begun : scan.seen ≠ [] ∨ ¬['/', '/'] <+: text ++ rest) :
    ∃ bare, Carried scan text rest bare ∧ last = bare.indent blanks := by
  induction text generalizing scan with
  | nil =>
    cases carried
    exact ⟨scan, .nil, rfl⟩
  | cons char text ih =>
    cases carried with
    | cons goes further =>
      have stops : (scan.indent blanks).stops char (text ++ rest) = scan.stops char (text ++ rest) :=
        stops_indent white begun
      rw [stops] at goes
      obtain ⟨bare, carried, same⟩ := @ih (scan.advance char (text ++ rest)) further (.inl (by simp [advance]))
      exact ⟨bare, .cons goes carried, same⟩

theorem Carried.body {last : Scan} {body rest : List Char} (carried : Carried {} (blanks ++ body) rest last)
    (unmarked : ¬['/', '/'] <+: body ++ rest) :
    ∃ bare, Carried {} body rest bare ∧ last = bare.indent blanks := by
  obtain ⟨middle, before, behind⟩ := carried.split
  have plain := before.plain_blanks plain_fresh white
  have read : middle.text = blanks := before.text_eq
  have same : middle = indent {} blanks := by
    obtain ⟨noQuote, flat⟩ := isOutside_iff.mp plain.outside
    have seen : middle.seen = blanks.reverse := by rw [← read, text, List.reverse_reverse]
    have arrowless := plain.arrowless
    have unlabelled := plain.unlabelled
    cases middle
    simp_all [indent]
  rw [same] at behind
  exact behind.unindent white (.inr unmarked)

end Indent

end Scan

/-- The pieces of a text that is one statement: nothing cuts it but a brace at its end, or one that is all
of it. -/
inductive Uncut : List Char → List Piece → Prop where
  | whole {text : List Char} : Uncut text [.statement text]
  | opening {before : List Char} : Uncut (before ++ ['{']) [.statement (before ++ ['{']), .statement []]
  | closing : Uncut ['}'] [.statement [], .statement ['}'], .statement []]

theorem uncut_of_marked {text : List Char} (marked : Marked text) : Uncut text (pieces text) := by
  rw [pieces_comment marked]
  exact .whole

theorem Scan.Carried.uncut {text : List Char} {last : Scan} (carried : Scan.Carried {} text [] last) :
    Uncut text (Line.pieces text) := by
  have whole := carried.pieces
  have read : last.text = text := carried.text_eq
  rw [List.append_nil, Scan.pieces, read] at whole
  rw [Line.pieces, whole]
  exact .whole

theorem Scan.Carried.uncut_opening {before : List Char} {last : Scan}
    (carried : Scan.Carried {} before ['{'] last) (outside : last.isOutside = true)
    (free : last.inLabel = false) : Uncut (before ++ ['{']) (Line.pieces (before ++ ['{'])) := by
  have read : last.text = before := carried.text_eq
  have stop : last.step '{' [] = _ := Scan.Outcome.step_eq (.opening rfl outside free)
  have cut : last.pieces ['{'] = [.statement (before ++ ['{']), .statement []] := by
    rw [Scan.pieces, stop, read]
    rfl
  rw [Line.pieces, carried.pieces, cut]
  exact .opening

def Atomic (text : List Char) : Prop := trim text ≠ [] → Uncut (trim text) (pieces (trim text))

theorem marked_of_slashes {text : List Char} (slashes : ['/', '/'] <+: text) : Marked text := by
  obtain ⟨words, rfl⟩ := slashes
  exact .inr ⟨words, rfl⟩

theorem marked_of_marksComment {scan : Scan} {char : Char} {rest : List Char}
    (mark : scan.marksComment char rest = true) : Marked (char :: rest) := by
  simp only [Scan.marksComment, Bool.or_eq_true, Bool.and_eq_true, beq_iff_eq] at mark
  rcases mark with ⟨rfl, -⟩ | ⟨⟨rfl, second⟩, -⟩
  · exact .inl rfl
  · obtain ⟨words, rfl⟩ := List.head?_eq_some_iff.mp second
    exact .inr ⟨words, rfl⟩

theorem isBlank_of_mem_text {scan : Scan} (blank : scan.isBlank = true) :
    ∀ char ∈ scan.text, isBlank char = true := by
  simpa [Scan.isBlank, Scan.text] using blank

theorem atomic_marked {blanks words : List Char} (white : ∀ char ∈ blanks, isBlank char = true)
    (marked : Marked words) : Atomic (blanks ++ words) := by
  intro _
  apply uncut_of_marked
  rcases marked with hash | ⟨more, rfl⟩
  · obtain ⟨more, rfl⟩ := List.head?_eq_some_iff.mp hash
    rw [trim_append_cons more white (by decide)]
    exact .inl rfl
  · rw [trim_append_cons _ white (by decide), trimEnd_cons (by decide)]
    exact .inr ⟨_, rfl⟩

/-- A statement that a scan carries up to a place is not cut, if the scan sees nothing behind it. -/
theorem atomic_carried {text rest : List Char} {last : Scan} (carried : Scan.Carried {} text rest last)
    (nothing : trim text ≠ [] → Scan.SameAhead (trailingBlanks (trimStart text) ++ rest) []) :
    Atomic text := by
  intro inhabited
  have white : ∀ char ∈ leadingBlanks text, isBlank char = true := fun _ => isBlank_of_mem_leadingBlanks
  rw [← leadingBlanks_append text, ← List.append_assoc] at carried
  obtain ⟨middle, before, -⟩ := carried.split
  have alone := before.ahead (nothing inhabited)
  -- Two slashes that a blank in front kept from being a mark are one without it.
  by_cases slashes : ['/', '/'] <+: trim text
  · exact uncut_of_marked (marked_of_slashes slashes)
  · obtain ⟨bare, own, -⟩ := alone.body white (by rwa [List.append_nil])
    exact own.uncut

theorem atomic_opening {text rest : List Char} {last : Scan}
    (carried : Scan.Carried {} text ('{' :: rest) last) (outside : last.isOutside = true)
    (free : last.inLabel = false) : Atomic (text ++ ['{']) := by
  intro _
  have white : ∀ char ∈ leadingBlanks text, isBlank char = true := fun _ => isBlank_of_mem_leadingBlanks
  have whole : leadingBlanks text ++ trimStart text = text := List.takeWhile_append_dropWhile
  have trimmed : trim (text ++ ['{']) = trimStart text ++ ['{'] := trim_append_black text (by decide)
  have same : Scan.SameAhead ('{' :: rest) ['{'] := ⟨rfl, rfl, rfl⟩
  have alone := carried.ahead same
  rw [← whole] at alone
  rw [trimmed]
  by_cases slashes : ['/', '/'] <+: trimStart text ++ ['{']
  · exact uncut_of_marked (marked_of_slashes slashes)
  · obtain ⟨bare, own, rfl⟩ := alone.body white slashes
    exact own.uncut_opening outside free

theorem atomic_closing : Atomic ['}'] := fun _ => .closing

/-- What stops a scan is no arrow and no quote, and it is a slash only behind a blank. -/
theorem atomic_before {text rest : List Char} {last : Scan} (carried : Scan.Carried {} text rest last)
    (unquoted : startsUnquoted rest = true) (plain : rest.head? ≠ some '>' ∧ rest.head? ≠ some '/') :
    Atomic text :=
  atomic_carried carried fun _ =>
    Scan.sameAhead_blanks (fun _ => isBlank_of_mem_trailingBlanks) unquoted fun _ => plain

theorem atomic_remark {text words : List Char} {last : Scan}
    (carried : Scan.Carried {} text ('/' :: '/' :: words) last) (admits : last.admitsRemark = true)
    (written : last.isBlank = false) : Atomic text := by
  have read : last.text = text := carried.text_eq
  obtain ⟨previous, earlier, seen⟩ : ∃ previous earlier, last.seen = previous :: earlier := by
    apply List.exists_cons_of_ne_nil
    intro none
    rw [Scan.isBlank, none] at written
    cases written
  have white : isAsciiBlank previous = true := by rwa [Scan.admitsRemark, seen] at admits
  have ends : text.getLast? = some previous := by
    rw [← read, Scan.text, seen, List.reverse_cons, List.getLast?_concat]
  refine atomic_carried carried fun inhabited =>
    Scan.sameAhead_blanks (fun _ => isBlank_of_mem_trailingBlanks) rfl fun none => ?_
  exact absurd none (trailingBlanks_ne_nil ends (isBlank_of_isAsciiBlank white) inhabited)

/-- Whatever statements a scan cuts from a line, they are not cut any further. -/
theorem Scan.atomic_pieces {scan : Scan} {before line : List Char}
    (carried : Scan.Carried {} before line scan) {text : List Char}
    (member : Piece.statement text ∈ scan.pieces line) : Atomic text := by
  have read : scan.text = before := carried.text_eq
  induction line generalizing scan before with
  | nil =>
    obtain rfl : text = before := by simpa [Scan.pieces, read] using member
    exact atomic_before carried rfl (by decide)
  | cons char rest ih =>
    have anew (member : Piece.statement text ∈ Scan.pieces {} rest) : Atomic text :=
      @ih {} [] .nil member rfl
    have outcome := scan.outcome char rest
    rw [Scan.pieces] at member
    generalize scan.step char rest = step at outcome member
    cases outcome with
    | carry goes =>
      have onward : Carried {} (before ++ [char]) rest (scan.advance char rest) :=
        carried.append (.cons goes .nil)
      exact ih onward member onward.text_eq
    | opening brace outside free =>
      subst brace
      simp only [read, List.singleton_append, List.mem_cons, Piece.statement.injEq] at member
      rcases member with rfl | later
      · exact atomic_opening carried outside free
      · exact anew later
    | closing brace outside free =>
      subst brace
      simp only [read, List.cons_append, List.nil_append, List.mem_cons, Piece.statement.injEq] at member
      rcases member with rfl | rfl | later
      · exact atomic_before carried rfl (by simp)
      · exact atomic_closing
      · exact anew later
    | separator semicolon _ _ =>
      subst semicolon
      simp only [read, List.cons_append, List.nil_append, List.mem_cons, Piece.statement.injEq,
        reduceCtorEq, false_or] at member
      rcases member with rfl | later
      · exact atomic_before carried rfl (by simp)
      · exact anew later
    | comment _ mark blank =>
      obtain rfl : text = before ++ char :: rest := by simpa [read] using member
      exact atomic_marked (read ▸ isBlank_of_mem_text blank) (marked_of_marksComment mark)
    | remark slash second _ mark written =>
      subst slash second
      obtain rfl : text = before := by simpa [read] using member
      exact atomic_remark carried (by simpa [marksComment] using mark) written

theorem Uncut.ofPieces_eq {text : List Char} {pieces : List Piece} (uncut : Uncut text pieces)
    (inhabited : text ≠ []) (trimmed : Trimmed text) (start : Nat) :
    ofPieces start pieces = [⟨String.ofList text, Span.ofLength start (byteLength text),
      Statement.classify text start⟩] := by
  have line := ofText?_of_trimmed inhabited trimmed start
  cases uncut with
  | whole => simp [ofPieces, line]
  | opening => rw [ofPieces, line]; rfl
  | closing => rfl

theorem Uncut.ofSource_eq {text : List Char} (uncut : Uncut text (pieces text)) (inhabited : text ≠ [])
    (trimmed : Trimmed text) (single : '\n' ∉ text) :
    ofSource (String.ofList text) = [⟨String.ofList text, Span.ofLength 0 (byteLength text),
      Statement.classify text 0⟩] := by
  rw [ofSource, String.toList_ofList, physicalLines_of_notMem single, ofPhysicalLines, uncut.ofPieces_eq inhabited trimmed]
  rfl

/-- A scan of the text is stopped by nothing but a brace at its end, or what the whole text is: a brace, or
a comment from its mark on. -/
def Unstopped (text : List Char) : Prop :=
  ∀ before char after scan, text = before ++ char :: after →
    Scan.Carried {} before (char :: after) scan → scan.stops char after = true →
      (char = '{' ∧ after = []) ∨ text = ['}'] ∨ (before = [] ∧ Marked text)

theorem Scan.pieces_ne_nil (scan : Scan) (line : List Char) : scan.pieces line ≠ [] := by
  induction line generalizing scan with
  | nil => exact List.cons_ne_nil _ _
  | cons char rest ih =>
    have outcome := scan.outcome char rest
    rw [Scan.pieces]
    generalize scan.step char rest = step at outcome
    cases outcome with
    | carry => exact ih _
    | opening | closing | separator | comment | remark => exact List.cons_ne_nil _ _

theorem Uncut.pieces_eq {text : List Char} {pieces : List Piece} (uncut : Uncut text pieces) :
    pieces = [.statement text] ∨ pieces = [.statement text, .statement []] ∨ text = ['}'] := by
  cases uncut with
  | whole => exact .inl rfl
  | opening => exact .inr (.inl rfl)
  | closing => exact .inr (.inr rfl)

theorem Uncut.unstopped {text : List Char} (uncut : Uncut text (pieces text)) (trimmed : Trimmed text) :
    Unstopped text := by
  rintro before char after scan rfl carried stops
  have read : scan.text = before := carried.text_eq
  have parts := uncut.pieces_eq
  have some : Scan.pieces {} after ≠ [] := Scan.pieces_ne_nil {} after
  have outcome := scan.outcome char after
  rw [pieces, carried.pieces, Scan.pieces] at parts
  generalize scan.step char after = step at outcome parts
  cases outcome with
  | carry goes => exact absurd (goes.symm.trans stops) Bool.false_ne_true
  | opening brace =>
    subst brace
    rcases parts with one | two | alone
    · simp [some] at one
    · obtain ⟨ends, -⟩ : after = [] ∧ _ := by simpa [read] using two
      exact .inl ⟨rfl, ends⟩
    · exact .inr (.inl alone)
  | closing brace =>
    rcases parts with one | two | alone
    · simp at one
    · simp [some] at two
    · exact .inr (.inl alone)
  | separator =>
    rcases parts with one | two | alone
    · simp at one
    · simp at two
    · exact .inr (.inl alone)
  | comment _ mark blank =>
    -- A comment begins behind blanks, of which a trimmed text has none.
    have white : ∀ other ∈ before, isBlank other = true := read ▸ isBlank_of_mem_text blank
    obtain rfl : before = [] := by
      cases before with
      | nil => rfl
      | cons first others =>
        exact absurd ((trimmed.1 first rfl).symm.trans (white first List.mem_cons_self))
          Bool.false_ne_true
    exact .inr (.inr ⟨rfl, marked_of_marksComment mark⟩)
  | remark =>
    rcases parts with one | two | alone
    · simp at one
    · simp at two
    · exact .inr (.inl alone)

end Line

open Line

/-- Logical lines are atomic. The text of a line, read on its own, is one line that has the same text and
says the same, with all that it points to moved to the front. Nothing cuts that text, neither a semicolon
nor a comment mark behind its beginning, and no brace but one at its end or one that is all of it. -/
theorem lines_atomic (source : String) : ∀ line ∈ ofSource source,
    (ofSource line.text).map (Line.shift line.span.start) = [line] ∧
      Uncut line.text.toList (pieces line.text.toList) ∧ Unstopped line.text.toList := by
  intro line member
  obtain ⟨inhabited, trimmed, single⟩ := (laid_ofSource source).trimmed line member
  have uncut : Uncut line.text.toList (pieces line.text.toList) := by
    obtain ⟨physical, -, start, text, piece, found⟩ := exists_piece_of_mem member
    have atomic : Atomic text := @Scan.atomic_pieces {} [] physical .nil text piece
    unfold ofText? at found
    extract_lets body first at found
    split at found
    next => cases found
    next written =>
      cases found
      rw [String.toList_ofList]
      exact atomic written
  refine ⟨?_, uncut, uncut.unstopped trimmed⟩
  have alone := uncut.ofSource_eq inhabited trimmed single
  obtain ⟨-, -, -, -, ends⟩ := (laid_ofSource source).slices line member
  have whole : (Span.ofLength 0 (byteLength line.text.toList)).shift line.span.start = line.span := by
    rw [Span.shift_ofLength, Nat.zero_add]
    exact Span.ext rfl ends.symm
  rw [String.ofList_toList] at alone
  rw [alone, List.map_singleton, Line.shift, whole, Statement.shift_classify, Nat.zero_add,
    ← says_of_mem member]

/-- The brace and the semicolon inside of quotes are as protected on their own as they were on the line. -/
theorem quotedBrace_atomic :
    let line : Line := ⟨"B [k: \"\x7d;\"] \x7b", Span.ofLength 4 13, .containerOpen
      ⟨⟨"B", Span.ofLength 4 1⟩, some ⟨"k: \"\x7d;\"", Span.ofLength 7 7⟩⟩⟩
    line ∈ ofSource "A \x7b B [k: \"\x7d;\"] \x7b # c" ∧
      (ofSource "B [k: \"\x7d;\"] \x7b").map (Line.shift 4) = [line] := by
  intro line
  have member : line ∈ ofSource "A \x7b B [k: \"\x7d;\"] \x7b # c" := by decide +kernel
  exact ⟨member, (lines_atomic _ line member).1⟩

end BoxDiagram
