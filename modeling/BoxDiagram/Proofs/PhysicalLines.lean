import BoxDiagram.Proofs.Comments
import BoxDiagram.Proofs.Names
import BoxDiagram.Proofs.Shifts

/-!
Physical lines are read on their own. A reader that goes through a source in one pass, and looks ahead
as far as it needs, gives what the physical lines give one after another: a newline is no character that
it looks ahead for, and behind it nothing is kept. So two texts with a newline between them have the
lines of the first, and behind them those of the second, moved to the right.
-/

namespace BoxDiagram.Line

open Text

def EndsLine (more : List Char) : Prop := more = [] ∨ ∃ rest, more = '\n' :: rest

namespace Scan

def readOn (scan : Scan) (start : Nat) : List Char → List Line
  | [] => ofPieces start [.statement scan.text]
  | char :: rest =>
    let behind := start + byteLength (scan.text ++ [char])
    if char = '\n' then ofPieces start [.statement scan.text] ++ readOn {} behind rest
    else match scan.step char rest with
      | .carry next => next.readOn start rest
      | .cut pieces => ofPieces start pieces ++ readOn {} behind rest
      | .finish _ =>
        let words := char :: restOfLine rest
        ofPieces start
            (if scan.isBlank then [.statement (scan.text ++ words)]
            else [.statement scan.text, .remark words]) ++
          readOn {} (start + byteLength (scan.text ++ words)) (rest.dropWhile (· != '\n'))
termination_by text => text.length
decreasing_by
  all_goals
    have shorter := List.length_dropWhile_le (· != '\n') rest
    simp only [List.length_cons]
    omega

theorem Outcome.step_eq {scan : Scan} {char : Char} {rest : List Char} {step : Step}
    (outcome : scan.Outcome char rest step) : scan.step char rest = step := by
  cases outcome with
  | carry goes => exact step_eq_carry goes
  | opening brace outside free =>
    obtain ⟨unquoted, flat⟩ := isOutside_iff.mp outside
    simp [Scan.step, brace, unquoted, flat, free, text]
  | closing brace outside free =>
    obtain ⟨unquoted, flat⟩ := isOutside_iff.mp outside
    simp [Scan.step, brace, unquoted, flat, free]
  | separator semicolon outside free =>
    obtain ⟨unquoted, flat⟩ := isOutside_iff.mp outside
    simp [Scan.step, semicolon, unquoted, flat, free]
  | comment outside mark blank =>
    obtain ⟨unquoted, flat⟩ := isOutside_iff.mp outside
    simp only [marksComment, Bool.or_eq_true, Bool.and_eq_true, beq_iff_eq] at mark
    rcases mark with ⟨rfl, -⟩ | ⟨⟨rfl, second⟩, admits⟩
    · simp [Scan.step, unquoted, flat, blank]
    · simp [Scan.step, unquoted, flat, blank, second, admits]
  | remark slash second outside mark written =>
    obtain ⟨unquoted, flat⟩ := isOutside_iff.mp outside
    subst slash second
    have admits : scan.admitsRemark = true := by simpa [marksComment] using mark
    simp [Scan.step, unquoted, flat, written, admits]

section Lookahead

variable {more : List Char} (ends : EndsLine more)
include ends

theorem sameAhead_of_endsLine (line : List Char) : SameAhead (line ++ more) line := by
  have nothing : SameAhead more [] := by rcases ends with rfl | ⟨rest, rfl⟩ <;> exact ⟨rfl, rfl, rfl⟩
  simpa using nothing.append line

theorem restOfLine_append_of_endsLine {line : List Char} (single : '\n' ∉ line) :
    restOfLine (line ++ more) = line ∧ (line ++ more).dropWhile (· != '\n') = more := by
  have inside : ∀ char ∈ line, (char != '\n') = true := by
    intro char member
    simpa using ne_of_mem_of_not_mem member single
  rw [restOfLine, List.takeWhile_append_of_pos inside, List.dropWhile_append_of_pos inside]
  rcases ends with rfl | ⟨rest, rfl⟩ <;> simp

/-- What a character does to a scan does not depend on what stands behind its physical line, but for the
text of a comment. -/
theorem step_append_of_endsLine (scan : Scan) (char : Char) (line : List Char) :
    scan.step char (line ++ more) = match scan.step char line with
      | .finish _ => .finish
        (if scan.isBlank then [.statement (scan.text ++ char :: (line ++ more))]
        else [.statement scan.text, .remark (char :: (line ++ more))])
      | step => step := by
  have same := sameAhead_of_endsLine ends line
  have marks := marksComment_ahead same scan char
  have stops := stops_ahead same scan char
  have advance := advance_ahead same scan char
  have outcome := scan.outcome char line
  apply Outcome.step_eq
  generalize scan.step char line = step at outcome
  cases outcome with
  | carry goes =>
    rw [← advance]
    exact .carry (stops.trans goes)
  | opening brace outside free => exact .opening brace outside free
  | closing brace outside free => exact .closing brace outside free
  | separator semicolon outside free => exact .separator semicolon outside free
  | comment outside mark blank =>
    rw [blank]
    exact .comment outside (marks.trans mark) blank
  | @remark words slash second outside mark written =>
    have ahead : line ++ more = '/' :: (words ++ more) := by rw [second, List.cons_append]
    have same : scan.marksComment char ('/' :: (words ++ more)) = true := by
      rw [← ahead, marks, mark]
    rw [written, ahead, slash]
    rw [slash] at same
    exact .remark rfl rfl outside same written

end Lookahead

theorem text_cut {scan : Scan} {char : Char} {rest : List Char} {pieces : List Piece}
    (cut : scan.step char rest = .cut pieces) : pieces.flatMap Piece.text = scan.text ++ [char] := by
  have outcome := scan.outcome char rest
  rw [cut] at outcome
  cases outcome with
  | opening brace => simp [Piece.text, brace]
  | closing brace => simp [Piece.text, brace]
  | separator semicolon => simp [Piece.text, semicolon]

theorem pieces_finish {scan : Scan} {char : Char} {rest : List Char} {pieces : List Piece}
    (finish : scan.step char rest = .finish pieces) : pieces =
      if scan.isBlank then [.statement (scan.text ++ char :: rest)]
      else [.statement scan.text, .remark (char :: rest)] := by
  have outcome := scan.outcome char rest
  rw [finish] at outcome
  cases outcome with
  | comment _ _ blank => rw [if_pos blank]
  | remark slash second _ _ written => rw [if_neg (by simp [written]), slash, second]

end Scan

theorem ofPieces_append (start : Nat) (first second : List Piece) :
    ofPieces start (first ++ second) =
      ofPieces start first ++ ofPieces (start + byteLength (first.flatMap Piece.text)) second := by
  induction first generalizing start with
  | nil => rfl
  | cons piece first ih =>
    have further := ih (start + byteLength piece.text)
    rw [Nat.add_assoc, ← byteLength_append, ← List.flatMap_cons] at further
    cases piece with
    | statement text => simp only [List.cons_append, ofPieces, further, List.append_assoc]
    | separator => simp only [List.cons_append, ofPieces, further]
    | remark words => simp only [List.cons_append, ofPieces, further]

theorem readOn_nil (start : Nat) : Scan.readOn {} start [] = [] := by
  rw [Scan.readOn]
  rfl

theorem Scan.readOn_line {line more : List Char} (single : '\n' ∉ line) (ends : EndsLine more)
    (scan : Scan) (start : Nat) :
    scan.readOn start (line ++ more) = ofPieces start (scan.pieces line) ++
      Scan.readOn {} (start + byteLength (scan.text ++ line)) more := by
  induction line generalizing scan start with
  | nil =>
    rcases ends with rfl | ⟨rest, rfl⟩
    · rw [readOn_nil, List.append_nil, List.append_nil, Scan.readOn, Scan.pieces]
    · have nothing (next : Nat) : ofPieces next [.statement (Scan.text {})] = [] := rfl
      simp only [List.nil_append, List.append_nil, Scan.readOn, Scan.pieces, if_true, nothing,
        byteLength_append, Nat.add_assoc]
      rfl
  | cons char line ih =>
    simp only [List.mem_cons, not_or] at single
    obtain ⟨other, single⟩ := single
    have step := scan.step_append_of_endsLine ends char line
    have outcome := scan.outcome char line
    rw [List.cons_append, Scan.readOn, if_neg (Ne.symm other), step, Scan.pieces]
    cases taken : scan.step char line with
    | carry next =>
      have text : next.text = scan.text ++ [char] := by
        rw [taken] at outcome
        cases outcome with
        | carry => exact Scan.text_advance scan char line
      dsimp only
      rw [ih single, text, List.append_assoc]
      rfl
    | cut pieces =>
      have behind := ih single {} (start + byteLength (scan.text ++ [char]))
      have moved : start + byteLength (scan.text ++ [char]) + byteLength (Scan.text {} ++ line) =
          start + byteLength (scan.text ++ char :: line) := by
        simp [Scan.text, Nat.add_assoc]
      rw [moved] at behind
      dsimp only
      rw [behind, ofPieces_append, Scan.text_cut taken, List.append_assoc]
    | finish pieces =>
      obtain ⟨inside, left⟩ := Scan.restOfLine_append_of_endsLine ends single
      dsimp only
      rw [inside, left, Scan.pieces_finish taken]

theorem readOn_intercalate {physicals : List (List Char)}
    (single : ∀ physical ∈ physicals, '\n' ∉ physical) (start : Nat) :
    Scan.readOn {} start (['\n'].intercalate physicals) = ofPhysicalLines start physicals := by
  induction physicals generalizing start with
  | nil => exact readOn_nil start
  | cons physical others ih =>
    obtain ⟨first, further⟩ := List.forall_mem_cons.mp single
    cases others with
    | nil =>
      have line := Scan.readOn_line first (.inl rfl) {} start
      rw [readOn_nil, List.append_nil] at line
      rw [List.intercalate_singleton, line, ofPhysicalLines, ofPhysicalLines, pieces]
    | cons next others =>
      have ends : EndsLine ('\n' :: ['\n'].intercalate (next :: others)) := .inr ⟨_, rfl⟩
      have line := Scan.readOn_line first ends {} start
      rw [Scan.readOn, if_pos rfl, ih further] at line
      rw [List.intercalate_cons_cons, List.append_assoc, List.singleton_append, line, ofPhysicalLines,
        pieces]
      rfl

/-- Reading a source in one pass gives the lines of its physical lines. -/
theorem readOn_source (source : String) : Scan.readOn {} 0 source.toList = ofSource source := by
  obtain ⟨joined, single⟩ := intercalate_physicalLines source.toList
  rw [ofSource, ← readOn_intercalate single, joined]

theorem ofPhysicalLines_append (start : Nat) (first second : List (List Char)) :
    ofPhysicalLines start (first ++ second) = ofPhysicalLines start first ++
      ofPhysicalLines (start + byteLength (first.flatMap (· ++ ['\n']))) second := by
  induction first generalizing start with
  | nil => rfl
  | cons physical first ih =>
    have newline : byteLength ['\n'] = 1 := rfl
    rw [List.cons_append, ofPhysicalLines, ofPhysicalLines, ih, List.append_assoc, List.flatMap_cons,
      byteLength_append, byteLength_append, newline, Nat.add_assoc start, Nat.add_assoc start]

theorem flatMap_physicalLines (text : List Char) :
    (physicalLines text).flatMap (· ++ ['\n']) = text ++ ['\n'] := by
  have total (physical : List Char) (others : List (List Char)) :
      (physical :: others).flatMap (· ++ ['\n']) =
        ['\n'].intercalate (physical :: others) ++ ['\n'] := by
    induction others generalizing physical with
    | nil => simp
    | cons next others ih =>
      rw [List.flatMap_cons, ih, List.intercalate_cons_cons, List.append_assoc _ _ ['\n']]
  obtain ⟨physical, others, cut⟩ := List.exists_cons_of_ne_nil (splitOn_ne_nil (· == '\n') text)
  have lines : physicalLines text = physical :: others := cut
  have joined := (intercalate_physicalLines text).1
  rw [lines] at joined ⊢
  rw [total, joined]

theorem ofPhysicalLines_newline (start : Nat) (before behind : List Char) :
    ofPhysicalLines start (physicalLines (before ++ '\n' :: behind)) =
      ofPhysicalLines start (physicalLines before) ++
        ofPhysicalLines (start + (byteLength before + 1)) (physicalLines behind) := by
  have cut : physicalLines (before ++ '\n' :: behind) = physicalLines before ++ physicalLines behind :=
    splitOn_append _ before rfl behind
  rw [cut, ofPhysicalLines_append, flatMap_physicalLines, byteLength_append]
  rfl

/-- Two sources with a newline between them have the lines of both, those of the second moved right by
the bytes in front of it; and this is what one pass over a source gives, whatever it looks ahead for. -/
theorem ofSource_newline (first second : String) :
    ofSource (first ++ "\n" ++ second) =
        ofSource first ++ (ofSource second).map (shift (first.utf8ByteSize + 1)) ∧
      Scan.readOn {} 0 (first ++ "\n" ++ second).toList = Scan.readOn {} 0 first.toList ++
        (Scan.readOn {} 0 second.toList).map (shift (first.utf8ByteSize + 1)) := by
  have whole : (first ++ "\n" ++ second).toList = first.toList ++ '\n' :: second.toList := by simp
  have lines : ofSource (first ++ "\n" ++ second) =
      ofSource first ++ (ofSource second).map (shift (first.utf8ByteSize + 1)) := by
    rw [ofSource, whole, ofPhysicalLines_newline, ofSource, ofSource, shift_ofPhysicalLines,
      byteLength_toList]
  refine ⟨lines, ?_⟩
  rw [readOn_source, readOn_source, readOn_source, lines]

end BoxDiagram.Line
