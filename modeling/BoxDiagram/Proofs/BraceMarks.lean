import BoxDiagram.Proofs.Declarations

/-!
Lines and the braces that end them. The lines of a source are given together with the brace at which
each was cut off. A closing brace always makes a line of its own that says so, and no line that was cut
off elsewhere says that a body is opened or closed; what is left open is only whether a line that was
cut off at an opening brace says that it opens a body.
-/

namespace BoxDiagram

open Text

namespace Text

theorem trimEnd_cons {char : Char} (black : isBlank char = false) (rest : List Char) :
    trimEnd (char :: rest) = char :: trimEnd rest := by
  unfold trimEnd dropEndWhile
  rw [List.reverse_cons, List.dropWhile_append]
  split <;> simp_all

theorem trimStart_append_blanks {blanks : List Char} (white : ∀ char ∈ blanks, isBlank char = true)
    (rest : List Char) : trimStart (blanks ++ rest) = trimStart rest := by
  induction blanks with
  | nil => rfl
  | cons char blanks ih =>
    rw [List.cons_append, trimStart, List.dropWhile_cons, if_pos (white char List.mem_cons_self)]
    exact ih fun other member => white other (List.mem_cons_of_mem _ member)

theorem trim_append_cons {blanks : List Char} {char : Char} (rest : List Char)
    (white : ∀ char ∈ blanks, isBlank char = true) (black : isBlank char = false) :
    trim (blanks ++ char :: rest) = char :: trimEnd rest := by
  have stays : trimStart (char :: rest) = char :: rest := by
    rw [trimStart, List.dropWhile_cons, if_neg (by simp [black])]
  rw [trim, trimStart_append_blanks white, stays, trimEnd_cons black]

theorem mem_trim {text : List Char} {char : Char} (member : char ∈ text)
    (black : isBlank char = false) : char ∈ trim text := by
  rw [← leadingBlanks_append text, List.mem_append, List.mem_append] at member
  rcases member with before | inside | behind
  · rw [isBlank_of_mem_leadingBlanks before] at black
    cases black
  · exact inside
  · rw [isBlank_of_mem_trailingBlanks behind] at black
    cases black

end Text

namespace Statement

def brace? : Statement → Option Line.Brace
  | .containerOpen _ | .blockOpen => some .opening
  | .containerClose => some .closing
  | _ => none

/-- Bodies are closed by a brace alone, and opened by a brace alone or by that of a declaration. -/
theorem classify_brace? {line : List Char} {start : Nat} {brace : Line.Brace}
    (means : (classify line start).brace? = some brace) :
    (line = ['}'] ∧ brace = .closing) ∨ (line = ['{'] ∧ brace = .opening) ∨
      (∃ parts, Grammar.declaration? line = some parts ∧ parts.opens = true ∧ brace = .opening) := by
  have reads := reads_classify line start
  generalize classify line start = statement at reads means
  cases reads with
  | close alone =>
    cases means
    exact .inl ⟨alone, rfl⟩
  | block alone =>
    cases means
    exact .inr (.inl ⟨alone, rfl⟩)
  | container found opens =>
    cases means
    exact .inr (.inr ⟨_, found, opens, rfl⟩)
  | _ => cases means

end Statement

namespace Line

def ofMarked (start : Nat) : List (Piece × Option Brace) → List (Line × Option Brace)
  | [] => []
  | (piece, mark) :: rest =>
    let more := ofMarked (start + byteLength piece.text) rest
    match piece with
    | .statement text => ((ofText? start text).map (·, mark)).toList ++ more
    | .separator | .remark _ => more

def ofMarkedLines (start : Nat) : List (List Char) → List (Line × Option Brace)
  | [] => []
  | physical :: rest =>
    ofMarked start (marked physical) ++ ofMarkedLines (start + byteLength physical + 1) rest

def bracedLines (source : String) : List (Line × Option Brace) :=
  ofMarkedLines 0 (physicalLines source.toList)

/-- The braces of a source that are outside of quotes, brackets, unquoted labels and comments. -/
def braces (source : String) : List Brace :=
  (physicalLines source.toList).flatMap fun physical => (marked physical).filterMap Prod.snd

theorem ofMarked_fst (start : Nat) (pieces : List (Piece × Option Brace)) :
    (ofMarked start pieces).map Prod.fst = ofPieces start (pieces.map Prod.fst) := by
  induction pieces generalizing start with
  | nil => rfl
  | cons entry rest ih =>
    obtain ⟨piece, mark⟩ := entry
    cases piece with
    | statement text =>
      simp only [ofMarked, List.map_append, List.map_cons, ofPieces, ih]
      cases ofText? start text <;> rfl
    | separator => simp only [ofMarked, List.map_cons, ofPieces, ih]
    | remark words => simp only [ofMarked, List.map_cons, ofPieces, ih]

theorem bracedLines_fst (source : String) :
    (bracedLines source).map Prod.fst = ofSource source := by
  have lists (start : Nat) (physicals : List (List Char)) :
      (ofMarkedLines start physicals).map Prod.fst = ofPhysicalLines start physicals := by
    induction physicals generalizing start with
    | nil => rfl
    | cons physical others ih =>
      rw [ofMarkedLines, ofPhysicalLines, List.map_append, ih, ofMarked_fst, marked,
        Scan.marked_fst]
      rfl
  exact lists 0 (physicalLines source.toList)

/-- A piece that a fresh scan has carried along neither opens nor closes a body. -/
theorem brace?_of_carried {start : Nat} {text rest : List Char} {scan : Scan} {line : Line}
    (carried : Scan.Carried {} text rest scan) (found : ofText? start text = some line) :
    line.statement.brace? = none := by
  have parts := leadingBlanks_append text
  unfold ofText? at found
  simp only at found
  split at found
  next => cases found
  next =>
    cases found
    rw [← parts, ← List.append_assoc] at carried
    -- A lone brace would have stopped the scan, which blanks leave as it was.
    have noBrace (brace : Char) (isBrace : brace = '{' ∨ brace = '}') : trim text ≠ [brace] := by
      intro alone
      rw [alone, List.append_assoc] at carried
      obtain ⟨indented, indent, carried⟩ := carried.split
      have plain := indent.plain_blanks Scan.plain_fresh fun _ => isBlank_of_mem_leadingBlanks
      cases carried with
      | cons goes _ => rcases isBrace with rfl | rfl <;>
          simp [Scan.stops, plain.outside, plain.unlabelled] at goes
    rw [Option.eq_none_iff_forall_ne_some]
    intro brace means
    rcases Statement.classify_brace? means with ⟨alone, -⟩ | ⟨alone, -⟩ | ⟨declared, read, opens, -⟩
    · exact noBrace '}' (.inr rfl) alone
    · exact noBrace '{' (.inl rfl) alone
    · have closed := carried.not_opens (fun _ => isBlank_of_mem_leadingBlanks) read
      rw [closed] at opens
      cases opens

theorem comment_of_mark {start : Nat} {text rest : List Char} {char : Char} {scan : Scan}
    {line : Line} (carried : Scan.Carried {} text (char :: rest) scan)
    (mark : scan.marksComment char rest = true) (blank : scan.isBlank = true)
    (found : ofText? start (text ++ char :: rest) = some line) : line.statement = .comment := by
  have read : scan.text = text := carried.text_eq
  have white : ∀ char ∈ text, isBlank char = true := by
    rw [← read]
    simpa [Scan.isBlank, Scan.text] using blank
  unfold ofText? at found
  simp only at found
  split at found
  next => cases found
  next =>
    cases found
    simp only [Scan.marksComment, Bool.or_eq_true, Bool.and_eq_true, beq_iff_eq] at mark
    rcases mark with ⟨rfl, -⟩ | ⟨⟨rfl, second⟩, -⟩
    · rw [trim_append_cons rest white (by decide)]
      rfl
    · obtain ⟨words, rfl⟩ := List.head?_eq_some_iff.mp second
      rw [trim_append_cons _ white (by decide), trimEnd_cons (by decide)]
      rfl

theorem brace?_of_comment {start : Nat} {text rest : List Char} {char : Char} {scan : Scan}
    {line : Line} (carried : Scan.Carried {} text (char :: rest) scan)
    (mark : scan.marksComment char rest = true) (blank : scan.isBlank = true)
    (found : ofText? start (text ++ char :: rest) = some line) : line.statement.brace? = none := by
  rw [comment_of_mark carried mark blank found]
  rfl

theorem ofText?_opening (start : Nat) (text : List Char) :
    ∃ line, ofText? start (text ++ ['{']) = some line ∧ line.statement.brace? ≠ some .closing := by
  have kept : '{' ∈ trim (text ++ ['{']) := mem_trim (by simp) (by decide)
  unfold ofText?
  simp only
  split
  next empty =>
    rw [empty] at kept
    cases kept
  next =>
    refine ⟨_, rfl, ?_⟩
    intro means
    rcases Statement.classify_brace? means with ⟨alone, -⟩ | ⟨-, other⟩ | ⟨-, -, -, other⟩
    · rw [alone] at kept
      exact absurd kept (by decide)
    · cases other
    · cases other

/-- What a line says of bodies goes with the brace that cut it off, unless an opening brace cut it off
and it says nothing of bodies. -/
def Follows (line : Line) (mark : Option Brace) : Prop :=
  line.statement.brace? = mark ∨ (mark = some .opening ∧ line.statement.brace? = none)

theorem follows_opening {line : Line} (unclosed : line.statement.brace? ≠ some .closing) :
    Follows line (some .opening) := by
  cases means : line.statement.brace? with
  | none => exact .inr ⟨rfl, means⟩
  | some brace =>
    cases brace with
    | opening => exact .inl means
    | closing => exact absurd means unclosed

theorem Pieced.follows {physical : List Char} {pieces : List (Piece × Option Brace)}
    (pieced : Pieced physical pieces) (start : Nat) :
    ∀ entry ∈ ofMarked start pieces, Follows entry.1 entry.2 := by
  have unmarked {start : Nat} {text : List Char} {entry : Line × Option Brace}
      (silent : ∀ line, ofText? start text = some line → line.statement.brace? = none)
      (member : entry ∈ ((ofText? start text).map (·, none)).toList) : Follows entry.1 entry.2 := by
    simp only [Option.mem_toList, Option.map_eq_some_iff] at member
    obtain ⟨line, found, rfl⟩ := member
    exact .inl (silent line found)
  induction pieced generalizing start with
  | whole carried =>
    intro entry member
    simp only [ofMarked, List.append_nil] at member
    exact unmarked (fun _ => brace?_of_carried carried) member
  | @opening text rest scan more carried _ _ _ ih =>
    intro entry member
    obtain ⟨line, found, means⟩ := ofText?_opening start text
    simp only [ofMarked, found, List.mem_append] at member
    rcases member with first | later
    · obtain rfl : entry = (line, some .opening) := by simpa using first
      exact follows_opening means
    · exact ih _ entry later
  | closing carried _ _ _ ih =>
    intro entry member
    simp only [ofMarked, ofText?_closing, List.mem_append] at member
    rcases member with first | brace | later
    · exact unmarked (fun _ => brace?_of_carried carried) first
    · obtain rfl : entry = (_, some .closing) := by simpa using brace
      exact .inl rfl
    · exact ih _ entry later
  | separator carried _ ih =>
    intro entry member
    simp only [ofMarked, List.mem_append] at member
    rcases member with first | later
    · exact unmarked (fun _ => brace?_of_carried carried) first
    · exact ih _ entry later
  | comment carried mark blank =>
    intro entry member
    simp only [ofMarked, List.append_nil] at member
    exact unmarked (fun _ => brace?_of_comment carried mark blank) member
  | remark carried =>
    intro entry member
    simp only [ofMarked, List.append_nil] at member
    exact unmarked (fun _ => brace?_of_carried carried) member

theorem Pieced.braces {physical : List Char} {pieces : List (Piece × Option Brace)}
    (pieced : Pieced physical pieces) (start : Nat) :
    (ofMarked start pieces).filterMap Prod.snd = pieces.filterMap Prod.snd := by
  have unmarked (found : Option Line) :
      ((found.map (·, (none : Option Brace))).toList).filterMap Prod.snd = [] := by
    cases found <;> rfl
  induction pieced generalizing start with
  | whole carried => simp [ofMarked, unmarked]
  | @opening text rest scan more _ _ _ _ ih =>
    obtain ⟨line, found, -⟩ := ofText?_opening start text
    simp [ofMarked, found, ih]
  | closing _ _ _ _ ih => simp [ofMarked, unmarked, ofText?_closing, ih]
  | separator _ _ ih => simp [ofMarked, unmarked, ih]
  | comment => simp [ofMarked, unmarked]
  | remark => simp [ofMarked, unmarked]

theorem follows_bracedLines (source : String) :
    ∀ entry ∈ bracedLines source, Follows entry.1 entry.2 := by
  have lists (start : Nat) (physicals : List (List Char)) :
      ∀ entry ∈ ofMarkedLines start physicals, Follows entry.1 entry.2 := by
    induction physicals generalizing start with
    | nil => simp [ofMarkedLines]
    | cons physical others ih =>
      intro entry member
      rcases List.mem_append.mp member with first | later
      · exact (pieced physical).follows start entry first
      · exact ih _ entry later
  exact lists 0 (physicalLines source.toList)

/-- The lines are cut off at the braces of the source. -/
theorem bracedLines_snd (source : String) :
    (bracedLines source).filterMap Prod.snd = braces source := by
  have lists (start : Nat) (physicals : List (List Char)) :
      (ofMarkedLines start physicals).filterMap Prod.snd =
        physicals.flatMap fun physical => (marked physical).filterMap Prod.snd := by
    induction physicals generalizing start with
    | nil => rfl
    | cons physical others ih =>
      rw [ofMarkedLines, List.filterMap_append, ih, (pieced physical).braces, List.flatMap_cons]
  exact lists 0 (physicalLines source.toList)

end Line

end BoxDiagram
