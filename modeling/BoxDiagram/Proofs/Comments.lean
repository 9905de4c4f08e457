import BoxDiagram.Proofs.LineCover
import BoxDiagram.Proofs.Pieces

/-!
How far a comment goes. A statement that reads as a comment begins with a mark, and a scan is stopped at
a mark that only blanks precede; the one mark it goes past is a pair of slashes right behind a blank
that is not an ASCII blank. So, that mark apart, a comment is the rest of its physical line, and nothing
behind it is read as a line of its own.
-/

namespace BoxDiagram

open Text

namespace Statement

inductive Reads (line : List Char) (start : Nat) : Statement → Prop where
  | comment (mark : line.head? = some '#' ∨ ∃ words, line = '/' :: '/' :: words) :
      Reads line start .comment
  | close (alone : line = ['}']) : Reads line start .containerClose
  | block (alone : line = ['{']) : Reads line start .blockOpen
  | container {parts : Grammar.DeclarationParts} (found : Grammar.declaration? line = some parts)
      (opens : parts.opens = true) : Reads line start (.containerOpen (locateDeclaration start parts))
  | leaf {parts : Grammar.DeclarationParts} (found : Grammar.declaration? line = some parts)
      (closed : parts.opens = false) : Reads line start (.leaf (locateDeclaration start parts))
  | connection {parts : Grammar.ConnectionParts} (found : Grammar.connection? line = some parts) :
      Reads line start (.connection (locateConnection start parts))
  | title {text : List Char} (found : Grammar.title? line = some text) :
      Reads line start (.title (String.ofList text))
  | missingName {span : Span} : Reads line start (.malformed (.missingName span))
  | malformedConnection {span arrow : Span} :
      Reads line start (.malformed (.malformedConnection span arrow))
  | malformedList {span : Span} : Reads line start (.malformed (.malformedList span))
  | nothing : Reads line start .ignorable

theorem reads_diagnose (line : List Char) (start : Nat) : Reads line start (diagnose line start) := by
  unfold diagnose
  extract_lets span
  split
  next => exact .missingName
  next =>
    split
    next => exact .malformedConnection
    next =>
      split
      next => exact .malformedList
      next => exact .nothing

theorem reads_classify (line : List Char) (start : Nat) : Reads line start (classify line start) := by
  unfold classify
  split
  next => exact .nothing
  next => exact .comment (.inl rfl)
  next words => exact .comment (.inr ⟨words, rfl⟩)
  next => exact .close rfl
  next => exact .block rfl
  next =>
    split
    next parts found =>
      dsimp only
      split
      next opens => exact .container found opens
      next closed => exact .leaf found (by simpa using closed)
    next =>
      split
      next found => exact .connection found
      next =>
        split
        next => exact .nothing
        next found => exact .title found
        next => exact reads_diagnose line start

theorem classify_eq_comment {line : List Char} {start : Nat}
    (comment : classify line start = .comment) :
    line.head? = some '#' ∨ ∃ words, line = '/' :: '/' :: words := by
  have reads := reads_classify line start
  rw [comment] at reads
  cases reads with
  | comment mark => exact mark

end Statement

namespace Line

theorem Scan.Carried.plain_blanks {scan last : Scan} {blanks rest : List Char}
    (carried : Scan.Carried scan blanks rest last) (plain : scan.Plain)
    (white : ∀ char ∈ blanks, Text.isBlank char = true) : last.Plain := by
  apply carried.plain plain
  · intro char member
    constructor <;> rintro rfl <;> exact absurd (white _ member) (by decide)
  · rintro before after rfl
    exact absurd (white '-' (by simp)) (by decide)

/-- Behind blanks a fresh scan goes past no mark but two slashes whose blank it does not admit. -/
theorem Scan.Carried.mark {last : Scan} {blanks more rest : List Char} {mark : Char}
    (carried : Scan.Carried {} (blanks ++ mark :: more) rest last)
    (white : ∀ char ∈ blanks, Text.isBlank char = true) :
    mark ≠ '#' ∧ (mark = '/' → (more ++ rest).head? = some '/' →
      ∃ blank, blanks.getLast? = some blank ∧ isAsciiBlank blank = false) := by
  obtain ⟨scan, before, behind⟩ := carried.split
  have plain : scan.Plain := before.plain_blanks Scan.plain_fresh white
  have read : scan.text = blanks := before.text_eq
  have seen : scan.seen = blanks.reverse := by rw [← read, Scan.text, List.reverse_reverse]
  have blank : scan.isBlank = true := by simpa [Scan.isBlank, seen] using white
  cases behind with
  | cons goes _ =>
    simp only [Scan.stops, plain.outside, Bool.true_and, Bool.or_eq_false_iff, Scan.marksComment,
      blank, Bool.and_true, beq_eq_false_iff_ne] at goes
    obtain ⟨-, noHash, noSlashes⟩ := goes
    refine ⟨noHash, ?_⟩
    rintro rfl second
    rw [second] at noSlashes
    simp only [beq_self_eq_true, Bool.and_self, Bool.true_and] at noSlashes
    rcases List.eq_nil_or_concat blanks with rfl | ⟨first, previous, rfl⟩
    · simp [Scan.admitsRemark, seen] at noSlashes
    · refine ⟨previous, by simp, ?_⟩
      simpa [Scan.admitsRemark, seen] using noSlashes

/-- A comment mark behind a text has its full force: two slashes do not stand right behind a blank that
is not an ASCII blank. -/
def Admits (before body : List Char) : Prop :=
  body.head? = some '/' → ∀ blank, before.getLast? = some blank → isBlank blank = true →
    isAsciiBlank blank = true

theorem Admits.prefix {first before body : List Char} (admits : Admits (first ++ before) body) :
    Admits before body := by
  intro slash blank last white
  refine admits slash blank ?_ white
  rw [List.getLast?_append, last]
  rfl

def restOfLine (text : List Char) : List Char := text.takeWhile (· != '\n')

theorem restOfLine_newline (text rest : List Char) :
    restOfLine (text ++ '\n' :: rest) = restOfLine text := by
  unfold restOfLine
  induction text with
  | nil => rfl
  | cons char text ih => rw [List.cons_append, List.takeWhile_cons, List.takeWhile_cons, ih]

/-- A line of a text that begins at a byte, with the text before and behind it; a comment whose mark has
its full force goes on to the end of the physical line. -/
def Reaches (start : Nat) (text : List Char) (line : Line) : Prop :=
  ∃ before after, text = before ++ line.text.toList ++ after ∧
    line.span = Span.ofLength (start + byteLength before) (byteLength line.text.toList) ∧
    (line.statement = .comment → Admits before line.text.toList →
      ∀ char ∈ restOfLine after, isBlank char = true)

theorem Reaches.prepend {start : Nat} {text : List Char} {line : Line} (first : List Char)
    (reaches : Reaches (start + byteLength first) text line) : Reaches start (first ++ text) line := by
  obtain ⟨before, after, rfl, place, swallows⟩ := reaches
  refine ⟨first ++ before, after, by simp, ?_, fun comment admits => swallows comment admits.prefix⟩
  rw [place, byteLength_append, Nat.add_assoc]

/-- A statement that a fresh scan has gone past the beginning of is no comment, if its mark would have
had its full force. -/
theorem Scan.Carried.not_comment {last : Scan} {text rest blanks body behind : List Char}
    {start : Nat} (carried : Scan.Carried {} text rest last)
    (white : ∀ char ∈ blanks, Text.isBlank char = true)
    (whole : text ++ rest = blanks ++ body ++ behind) (begun : blanks.length < text.length)
    (comment : Statement.classify body start = .comment) : ¬Admits blanks body := by
  intro admits
  obtain ⟨mark, more, rfl⟩ : ∃ mark more, body = mark :: more := by
    rcases Statement.classify_eq_comment comment with hash | ⟨words, rfl⟩
    · obtain ⟨more, rfl⟩ := List.head?_eq_some_iff.mp hash
      exact ⟨_, _, rfl⟩
    · exact ⟨_, _, rfl⟩
  -- The mark is among the characters that were carried.
  obtain ⟨inside, rfl, onward⟩ : ∃ inside, text = blanks ++ mark :: inside ∧
      inside ++ rest = more ++ behind := by
    rw [List.append_assoc, List.append_eq_append_iff] at whole
    rcases whole with ⟨gap, rfl, -⟩ | ⟨inside, rfl, same⟩
    · rw [List.length_append] at begun
      omega
    · cases inside with
      | nil => simp at begun
      | cons char inside =>
        simp only [List.cons_append, List.cons.injEq] at same
        exact ⟨inside, by rw [same.1], same.2.symm⟩
  obtain ⟨noHash, slashes⟩ := carried.mark white
  rcases Statement.classify_eq_comment comment with hash | ⟨words, same⟩
  · exact noHash (by simpa using hash)
  · obtain ⟨rfl, rfl⟩ := List.cons.inj same
    obtain ⟨blank, previous, foreign⟩ := slashes rfl (by rw [onward]; rfl)
    have ascii := admits rfl blank previous (white blank (List.mem_of_getLast? previous))
    rw [foreign] at ascii
    cases ascii

section Pieced

variable {start : Nat} {text rest : List Char} {line : Line}

theorem Reaches.of_ofText? (found : ofText? start text = some line)
    (swallowed : ∀ body, text = leadingBlanks text ++ body ++ trailingBlanks (trimStart text) →
      body ≠ [] → line.statement = Statement.classify body line.span.start →
      line.statement = .comment → Admits (leadingBlanks text) body →
      ∀ char ∈ restOfLine (trailingBlanks (trimStart text) ++ rest), isBlank char = true) :
    Reaches start (text ++ rest) line := by
  have parts := leadingBlanks_append text
  unfold ofText? at found
  simp only at found
  split at found
  next => cases found
  next inhabited =>
    cases found
    refine ⟨leadingBlanks text, trailingBlanks (trimStart text) ++ rest, ?_, ?_, ?_⟩
    · rw [String.toList_ofList, ← List.append_assoc, List.append_assoc (leadingBlanks text), parts]
    · rw [String.toList_ofList]
    · rw [String.toList_ofList]
      exact swallowed (trim text) (by simpa using parts.symm) inhabited rfl

/-- A piece that was carried holds no comment, unless its mark lacks its full force. -/
theorem Reaches.carried {scan : Scan} (carried : Scan.Carried {} text rest scan)
    (found : ofText? start text = some line) : Reaches start (text ++ rest) line := by
  apply Reaches.of_ofText? found
  intro body whole inhabited means comment admits
  rw [means] at comment
  have begun : (leadingBlanks text).length < text.length := by
    have total := congrArg List.length whole
    have positive := List.length_pos_iff.mpr inhabited
    simp only [List.length_append] at total
    omega
  have around : text ++ rest =
      leadingBlanks text ++ body ++ (trailingBlanks (trimStart text) ++ rest) := by
    rw [← List.append_assoc, ← whole]
  exact absurd admits
    (carried.not_comment (fun _ => isBlank_of_mem_leadingBlanks) around begun comment)

theorem Reaches.opening {scan : Scan} (carried : Scan.Carried {} text ('{' :: rest) scan)
    (found : ofText? start (text ++ ['{']) = some line) :
    Reaches start (text ++ '{' :: rest) line := by
  have joined : text ++ '{' :: rest = text ++ ['{'] ++ rest := by simp
  rw [joined]
  apply Reaches.of_ofText? found
  intro body whole inhabited means comment admits
  rw [means] at comment
  have around : text ++ '{' :: rest = leadingBlanks (text ++ ['{']) ++ body ++
      (trailingBlanks (trimStart (text ++ ['{'])) ++ rest) := by
    rw [joined, ← List.append_assoc, ← whole]
  refine absurd admits
    (carried.not_comment (fun _ => isBlank_of_mem_leadingBlanks) around ?_ comment)
  -- The statement does not begin with the brace, which is no mark.
  by_contra late
  have total := congrArg List.length whole
  have positive := List.length_pos_iff.mpr inhabited
  simp only [List.length_append, List.length_singleton] at total
  rw [List.append_assoc] at whole
  obtain ⟨-, only⟩ := List.append_inj whole (by omega)
  cases body with
  | nil => exact inhabited rfl
  | cons mark more =>
    obtain ⟨rfl, -⟩ := List.cons.inj only
    rcases Statement.classify_eq_comment comment with hash | ⟨words, slashes⟩
    · simp at hash
    · simp at slashes

theorem Reaches.behind (reaches : Reaches start text line) :
    Reaches start (text ++ '\n' :: rest) line := by
  obtain ⟨before, after, rfl, place, swallows⟩ := reaches
  refine ⟨before, after ++ '\n' :: rest, by simp, place, ?_⟩
  rw [restOfLine_newline]
  exact swallows

theorem Pieced.reaches {physical : List Char} {pieces : List (Piece × Option Brace)}
    (pieced : Pieced physical pieces) (start : Nat) :
    ∀ line ∈ ofPieces start (pieces.map Prod.fst), Reaches start physical line := by
  induction pieced generalizing start with
  | @whole text scan carried =>
    intro line member
    simp only [List.map_cons, List.map_nil, ofPieces, List.append_nil, Option.mem_toList] at member
    simpa using Reaches.carried carried member
  | @opening text rest scan more carried outside free further ih =>
    intro line member
    simp only [List.map_cons, ofPieces, List.mem_append, Option.mem_toList] at member
    rcases member with first | later
    · exact Reaches.opening carried first
    · simpa using (ih _ line later).prepend (text ++ ['{'])
  | @closing text rest scan more carried outside free further ih =>
    intro line member
    simp only [List.map_cons, ofPieces, List.mem_append, Option.mem_toList] at member
    rcases member with first | brace | later
    · exact Reaches.carried carried first
    · rw [ofText?_closing, Option.some.injEq] at brace
      subst brace
      exact Reaches.prepend text ⟨[], rest, by simp, by simp [Piece.text]; rfl, by simp⟩
    · have reaches := (ih _ line later).prepend ['}']
      exact Reaches.prepend text reaches
  | @separator text rest scan more carried further ih =>
    intro line member
    simp only [List.map_cons, ofPieces, List.mem_append, Option.mem_toList] at member
    rcases member with first | later
    · exact Reaches.carried carried first
    · have reaches := (ih _ line later).prepend [';']
      exact Reaches.prepend text reaches
  | @comment text rest char scan carried mark blank =>
    intro line member
    simp only [List.map_cons, List.map_nil, ofPieces, List.append_nil, Option.mem_toList] at member
    rw [← List.append_nil (text ++ char :: rest)]
    apply Reaches.of_ofText? member
    intro body whole inhabited means comment admits other later
    rw [List.append_nil] at later
    exact isBlank_of_mem_trailingBlanks ((List.takeWhile_sublist _).subset later)
  | @remark text words scan carried =>
    intro line member
    simp only [List.map_cons, List.map_nil, ofPieces, List.append_nil, Option.mem_toList] at member
    exact Reaches.carried carried member

theorem reaches_ofPhysicalLines (physicals : List (List Char)) (start : Nat) :
    ∀ line ∈ ofPhysicalLines start physicals,
      Reaches start (['\n'].intercalate physicals) line := by
  induction physicals generalizing start with
  | nil => simp [ofPhysicalLines]
  | cons physical others ih =>
    have inFirst : ∀ line ∈ ofPieces start (pieces physical), Reaches start physical line := by
      rw [pieces, ← Scan.marked_fst]
      exact (pieced physical).reaches start
    intro line member
    rw [ofPhysicalLines, List.mem_append] at member
    cases others with
    | nil =>
      rw [List.intercalate_singleton]
      exact inFirst line (by simpa [ofPhysicalLines] using member)
    | cons next others =>
      rw [List.intercalate_cons_cons]
      rcases member with first | later
      · simpa using (inFirst line first).behind
      · have reaches := ih _ line later
        have total : byteLength (physical ++ ['\n']) = byteLength physical + 1 := by
          rw [byteLength_append]
          rfl
        rw [Nat.add_assoc, ← total] at reaches
        exact reaches.prepend

end Pieced

theorem reaches_ofSource {source : String} {line : Line} (member : line ∈ ofSource source) :
    Reaches 0 source.toList line := by
  have reaches := reaches_ofPhysicalLines (physicalLines source.toList) 0 line member
  rwa [(intercalate_physicalLines source.toList).1] at reaches

/-- What begins with a character that is not blank begins behind all of the blanks, if it does not begin
before them. -/
theorem begins_behind_blanks {first blanks rest before body after : List Char}
    (same : first ++ blanks ++ rest = before ++ body ++ after)
    (white : ∀ char ∈ blanks, isBlank char = true) (inhabited : body ≠ [])
    (started : ∀ char, body.head? = some char → isBlank char = false)
    (notBefore : byteLength first ≤ byteLength before) :
    byteLength first + byteLength blanks ≤ byteLength before := by
  obtain ⟨gap, rfl⟩ : ∃ gap, before = first ++ gap := by
    rw [List.append_assoc, List.append_assoc, List.append_eq_append_iff] at same
    rcases same with ⟨gap, rfl, -⟩ | ⟨gap, rfl, -⟩
    · exact ⟨gap, rfl⟩
    · have empty : gap = [] := by
        by_contra some
        have positive := byteLength_pos some
        rw [byteLength_append] at notBefore
        omega
      exact ⟨[], by simp [empty]⟩
  simp only [List.append_assoc, List.append_cancel_left_eq] at same
  rw [byteLength_append]
  rw [List.append_eq_append_iff] at same
  rcases same with ⟨more, rfl, -⟩ | ⟨more, rfl, left⟩
  · rw [byteLength_append]
    omega
  · cases more with
    | nil => simp
    | cons char more =>
      cases body with
      | nil => exact absurd rfl inhabited
      | cons head body =>
        obtain ⟨rfl, -⟩ := List.cons.inj left
        have blank := white head (by simp)
        rw [started head rfl] at blank
        cases blank

/-- What is left of its physical line behind a comment is blank, and no line begins there, unless the
mark of the comment is a pair of slashes right behind a blank that is not an ASCII blank. -/
theorem comment_swallows {source : String} {line : Line} (member : line ∈ ofSource source)
    (comment : line.statement = .comment) :
    ∃ before after, source.toList = before ++ line.text.toList ++ after ∧
      line.span = Span.ofLength (byteLength before) (byteLength line.text.toList) ∧
      (Admits before line.text.toList →
        (∀ char ∈ restOfLine after, isBlank char = true) ∧
        ∀ other ∈ ofSource source, line.span.stop ≤ other.span.start →
          line.span.stop + byteLength (restOfLine after) ≤ other.span.start) := by
  obtain ⟨before, after, whole, place, swallows⟩ := reaches_ofSource member
  rw [Nat.zero_add] at place
  refine ⟨before, after, whole, place, ?_⟩
  intro admits
  have white := swallows comment admits
  refine ⟨white, ?_⟩
  intro other otherMember behind
  have laid := laid_ofSource source
  obtain ⟨inhabited, trimmed, -⟩ := laid.trimmed other otherMember
  obtain ⟨first, last, otherWhole, begins, -⟩ := laid.slices other otherMember
  have stop : line.span.stop = byteLength (before ++ line.text.toList) := by
    rw [place, byteLength_append]
    rfl
  rw [Nat.zero_add] at begins
  rw [stop, begins] at behind ⊢
  have parts : restOfLine after ++ after.dropWhile (· != '\n') = after :=
    List.takeWhile_append_dropWhile
  have same : before ++ line.text.toList ++ restOfLine after ++ after.dropWhile (· != '\n') =
      first ++ other.text.toList ++ last := by
    rw [List.append_assoc _ (restOfLine after), parts, ← whole, otherWhole]
  exact begins_behind_blanks same white inhabited trimmed.1 behind

theorem hash_swallows :
    ∃ before after, "\u00a0# a; B [x: 1]\nC [y: 2]".toList = before ++ "# a; B [x: 1]".toList ++ after ∧
      Span.ofLength 2 13 = Span.ofLength (byteLength before) (byteLength "# a; B [x: 1]".toList) ∧
      (Admits before "# a; B [x: 1]".toList →
        (∀ char ∈ restOfLine after, isBlank char = true) ∧
        ∀ other ∈ ofSource "\u00a0# a; B [x: 1]\nC [y: 2]", 15 ≤ other.span.start →
          15 + byteLength (restOfLine after) ≤ other.span.start) :=
  @comment_swallows "\u00a0# a; B [x: 1]\nC [y: 2]"
    ⟨"# a; B [x: 1]", Span.ofLength 2 13, .comment⟩ (by decide +kernel) rfl

/-- Two slashes right behind a no-break space make a comment, but what follows a semicolon behind them
is read as a declaration. -/
theorem slashes_spare_line : ¬∀ line ∈ ofSource "\u00a0// a; B [x: 1]", line.statement = .comment →
    ∃ before after, "\u00a0// a; B [x: 1]".toList = before ++ line.text.toList ++ after ∧
      line.span = Span.ofLength (byteLength before) (byteLength line.text.toList) ∧
      ∀ char ∈ restOfLine after, isBlank char = true := by
  intro swallows
  obtain ⟨before, after, whole, place, white⟩ :=
    swallows ⟨"// a", Span.ofLength 2 4, .comment⟩ (by decide +kernel) rfl
  have two : byteLength before = 2 := (congrArg Span.start place).symm
  have spelled : "\u00a0// a; B [x: 1]".toList = '\u00a0' :: "// a; B [x: 1]".toList := rfl
  rw [spelled, List.append_assoc] at whole
  match before, whole, two with
  | [space], whole, _ =>
    obtain ⟨-, rest⟩ := List.cons.inj whole
    obtain rfl : after = "; B [x: 1]".toList :=
      (@List.append_cancel_left Char "// a".toList _ _ rest).symm
    exact absurd (white ';' (by decide)) (by decide)
  | space :: char :: more, whole, two =>
    obtain ⟨rfl, -⟩ := List.cons.inj whole
    have positive := char.utf8Size_pos
    have wide : '\u00a0'.utf8Size = 2 := rfl
    rw [byteLength_cons, byteLength_cons, wide] at two
    omega

end Line

end BoxDiagram
