import BoxDiagram.Proofs.Stops
import BoxDiagram.Proofs.Trimmed

/-!
Nothing of a source is lost when it is cut into lines. What one character does to a scan is told case
by case; from that it follows, by going along a physical line and then from line to line, that the
source is made of logical lines, blanks, semicolons and remarks, in this order of their spans.
-/

namespace BoxDiagram

open Text

namespace Line

/-- A text that begins at a byte, made of logical lines and what may stand between them. A remark
follows an ASCII blank and goes on to the end of its physical line. -/
inductive Laid : Nat → List Char → List Line → Prop where
  | nil {start : Nat} : Laid start [] []
  | blank {start : Nat} {char : Char} {rest : List Char} {lines : List Line}
      (white : isBlank char = true) (laid : Laid (start + char.utf8Size) rest lines) :
      Laid start (char :: rest) lines
  | separator {start : Nat} {rest : List Char} {lines : List Line}
      (laid : Laid (start + 1) rest lines) : Laid start (';' :: rest) lines
  | remark {start : Nat} {blank : Char} {words rest : List Char} {lines : List Line}
      (white : isAsciiBlank blank = true) (oneLine : '\n' ∉ words)
      (ends : rest = [] ∨ rest.head? = some '\n')
      (laid : Laid (start + byteLength (blank :: '/' :: '/' :: words)) rest lines) :
      Laid start (blank :: '/' :: '/' :: words ++ rest) lines
  | line {start : Nat} {body rest : List Char} {lines : List Line} {statement : Statement}
      (inhabited : body ≠ []) (trimmed : Trimmed body) (oneLine : '\n' ∉ body)
      (laid : Laid (start + byteLength body) rest lines) :
      Laid start (body ++ rest)
        (⟨String.ofList body, Span.ofLength start (byteLength body), statement⟩ :: lines)

theorem isBlank_of_isAsciiBlank {char : Char} (white : isAsciiBlank char = true) :
    isBlank char = true := by
  simp only [isAsciiBlank, Bool.or_eq_true, beq_iff_eq] at white
  rcases white with (((rfl | rfl) | rfl) | rfl) | rfl <;> decide

section Statement

variable {start : Nat} {text rest : List Char} {lines : List Line}

theorem Laid.blanks {blanks : List Char} (white : ∀ char ∈ blanks, isBlank char = true)
    (laid : Laid (start + byteLength blanks) rest lines) : Laid start (blanks ++ rest) lines := by
  induction blanks generalizing start with
  | nil => exact laid
  | cons char others ih =>
    rw [byteLength_cons, ← Nat.add_assoc] at laid
    exact .blank (white char List.mem_cons_self)
      (ih (fun other later => white other (List.mem_cons_of_mem _ later)) laid)

theorem Laid.piece (oneLine : '\n' ∉ text) (laid : Laid (start + byteLength text) rest lines) :
    Laid start (text ++ rest) ((ofText? start text).toList ++ lines) := by
  have parts := leadingBlanks_append text
  have total := congrArg byteLength parts
  rw [byteLength_append, byteLength_append] at total
  unfold ofText?
  simp only
  split
  next empty =>
    rw [empty, List.nil_append] at parts
    refine .blanks ?_ laid
    intro char member
    rw [← parts] at member
    rcases List.mem_append.mp member with leading | trailing
    · exact isBlank_of_mem_leadingBlanks leading
    · exact isBlank_of_mem_trailingBlanks trailing
  next inhabited =>
    have within : '\n' ∉ trim text := by
      intro member
      apply oneLine
      rw [← parts]
      exact List.mem_append_right _ (List.mem_append_left _ member)
    have onward : start + byteLength (leadingBlanks text) + byteLength (trim text) +
        byteLength (trailingBlanks (trimStart text)) = start + byteLength text := by omega
    rw [← onward] at laid
    have whole : leadingBlanks text ++ (trim text ++ (trailingBlanks (trimStart text) ++ rest)) =
        text ++ rest := by
      rw [← List.append_assoc (trim text), ← List.append_assoc (leadingBlanks text), parts]
    rw [← whole]
    exact .blanks (fun _ => isBlank_of_mem_leadingBlanks) (.line inhabited (trimmed_trim text) within
      (.blanks (fun _ => isBlank_of_mem_trailingBlanks) laid))

theorem ofText?_append_blank (start : Nat) (text : List Char) {blank : Char}
    (white : isBlank blank = true) : ofText? start (text ++ [blank]) = ofText? start text := by
  unfold ofText?
  simp only [trim_append_blank text white]
  split
  next => rfl
  next inhabited =>
    have started : trimStart text ≠ [] := by
      intro empty
      rw [trim, empty] at inhabited
      exact inhabited rfl
    rw [leadingBlanks_append_of_ne_nil started]

end Statement

inductive Scan.Stepped (scan : Scan) (char : Char) (rest : List Char) : Step → Prop where
  | carry {next : Scan} (text : next.text = scan.text ++ [char]) : Stepped scan char rest (.carry next)
  | opening : Stepped scan char rest (.cut [.statement (scan.text ++ [char])])
  | closing : Stepped scan char rest (.cut [.statement scan.text, .statement [char]])
  | separator (semicolon : char = ';') :
      Stepped scan char rest (.cut [.statement scan.text, .separator])
  | comment : Stepped scan char rest (.finish [.statement (scan.text ++ char :: rest)])
  | remark {before words : List Char} {blank : Char} (text : scan.text = before ++ [blank])
      (white : isAsciiBlank blank = true) (mark : char :: rest = '/' :: '/' :: words) :
      Stepped scan char rest (.finish [.statement scan.text, .remark (char :: rest)])

theorem Scan.stepped (scan : Scan) (char : Char) (rest : List Char) :
    scan.Stepped char rest (scan.step char rest) := by
  have outcome := scan.outcome char rest
  generalize scan.step char rest = step at outcome
  cases outcome with
  | carry => exact .carry (scan.text_advance char rest)
  | opening brace =>
    subst brace
    exact .opening
  | closing brace =>
    subst brace
    exact .closing
  | separator semicolon => exact .separator semicolon
  | comment => exact .comment
  | @remark words slash second _ mark written =>
    subst slash second
    cases seen : scan.seen with
    | nil => simp [Scan.isBlank, seen] at written
    | cons previous earlier =>
      have white : isAsciiBlank previous = true := by
        simpa [Scan.marksComment, Scan.admitsRemark, seen] using mark
      have text : scan.text = earlier.reverse ++ [previous] := by simp [Scan.text, seen]
      exact .remark text white rfl

section Pieces

variable {start : Nat} {rest : List Char} {lines : List Line}

/-- The pieces behind a scan make up what was scanned and what is left of the physical line. -/
theorem Laid.pieces (scan : Scan) (left : List Char) (oneLine : '\n' ∉ scan.text ++ left)
    (ends : rest = [] ∨ rest.head? = some '\n')
    (laid : Laid (start + byteLength (scan.text ++ left)) rest lines) :
    Laid start (scan.text ++ left ++ rest) (ofPieces start (scan.pieces left) ++ lines) := by
  induction left generalizing scan start with
  | nil =>
    rw [List.append_nil] at oneLine laid ⊢
    simpa [Scan.pieces, ofPieces] using laid.piece oneLine
  | cons char left ih =>
    -- Behind a cut the scan begins anew.
    have anew (start : Nat) (laid : Laid (start + byteLength left) rest lines) :
        Laid start (left ++ rest) (ofPieces start (Scan.pieces {} left) ++ lines) := by
      have later : '\n' ∉ left := fun member =>
        oneLine (List.mem_append_right _ (List.mem_cons_of_mem _ member))
      exact ih {} later laid
    have before : '\n' ∉ scan.text := fun member => oneLine (List.mem_append_left _ member)
    have other : '\n' ≠ char := fun same =>
      oneLine (List.mem_append_right _ (same ▸ List.mem_cons_self))
    have joined : scan.text ++ char :: left = scan.text ++ [char] ++ left := by simp
    have stepped := scan.stepped char left
    rw [Scan.pieces]
    generalize scan.step char left = step at stepped
    cases stepped with
    | @carry next text =>
      rw [joined, ← text] at oneLine laid ⊢
      exact ih next oneLine laid
    | opening =>
      rw [joined, byteLength_append, ← Nat.add_assoc] at laid
      have opened : '\n' ∉ scan.text ++ [char] := by simpa [other] using before
      simpa [ofPieces, Piece.text] using (anew _ laid).piece opened
    | closing =>
      rw [joined, byteLength_append, byteLength_append, ← Nat.add_assoc, ← Nat.add_assoc] at laid
      have closed : '\n' ∉ [char] := by simpa using other
      simpa [ofPieces, Piece.text] using ((anew _ laid).piece closed).piece before
    | separator semicolon =>
      rw [joined, semicolon, byteLength_append, byteLength_append, ← Nat.add_assoc,
        ← Nat.add_assoc] at laid
      have one : ';'.utf8Size = 1 := rfl
      simpa [ofPieces, Piece.text, semicolon, one] using (Laid.separator (anew _ laid)).piece before
    | comment => simpa [ofPieces] using laid.piece oneLine
    | @remark first words blank text white mark =>
      rw [text] at before oneLine laid ⊢
      rw [mark] at oneLine laid ⊢
      have commented : Laid (start + byteLength first) (blank :: '/' :: '/' :: words ++ rest) lines := by
        refine .remark white ?_ ends ?_
        · simp_all
        · simpa [Nat.add_assoc] using laid
      have started : '\n' ∉ first := fun member => before (List.mem_append_left _ member)
      simpa [ofPieces, ofText?_append_blank start first (isBlank_of_isAsciiBlank white)] using
        commented.piece started

end Pieces

theorem intercalate_physicalLines (text : List Char) :
    ['\n'].intercalate (physicalLines text) = text ∧
      ∀ physical ∈ physicalLines text, '\n' ∉ physical := by
  unfold physicalLines
  induction text with
  | nil => simp [splitOn]
  | cons char rest ih =>
    obtain ⟨joined, oneLine⟩ := ih
    unfold splitOn
    split
    next none => exact absurd none (splitOn_ne_nil _ rest)
    next part parts split =>
      rw [split] at joined oneLine
      by_cases newline : char = '\n'
      · subst newline
        simp_all [List.intercalate_cons_cons]
      · have kept : (char == '\n') = false := by simpa using newline
        rw [kept, if_neg Bool.false_ne_true]
        constructor
        · cases parts <;> simp_all [List.intercalate_cons_cons]
        · intro physical member
          rcases List.mem_cons.mp member with rfl | later
          · have inPart := oneLine part List.mem_cons_self
            simp_all [Ne.symm newline]
          · exact oneLine physical (List.mem_cons_of_mem _ later)

theorem laid_physicalLines {physicals : List (List Char)}
    (oneLine : ∀ physical ∈ physicals, '\n' ∉ physical) (start : Nat) :
    Laid start (['\n'].intercalate physicals) (ofPhysicalLines start physicals) := by
  induction physicals generalizing start with
  | nil => exact .nil
  | cons physical rest ih =>
    have first := oneLine physical List.mem_cons_self
    have later := ih fun other member => oneLine other (List.mem_cons_of_mem _ member)
    rw [ofPhysicalLines]
    cases rest with
    | nil =>
      rw [List.intercalate_singleton]
      have ended : Laid (start + byteLength physical) [] [] := .nil
      simpa [Scan.text, pieces, ofPhysicalLines] using ended.pieces {} physical first (.inl rfl)
    | cons next others =>
      rw [List.intercalate_cons_cons]
      have ended : Laid (start + byteLength physical) ('\n' :: ['\n'].intercalate (next :: others))
          (ofPhysicalLines (start + byteLength physical + 1) (next :: others)) :=
        .blank (by decide) (later (start + byteLength physical + 1))
      simpa [Scan.text, pieces] using ended.pieces {} physical first (.inr rfl)

theorem laid_ofSource (source : String) : Laid 0 source.toList (ofSource source) := by
  obtain ⟨joined, oneLine⟩ := intercalate_physicalLines source.toList
  have laid := laid_physicalLines oneLine 0
  rwa [joined] at laid

def Slices (start : Nat) (text : List Char) (line : Line) : Prop :=
  ∃ before after, text = before ++ line.text.toList ++ after ∧
    line.span.start = start + byteLength before ∧
    line.span.stop = line.span.start + byteLength line.text.toList

/-- What may stand outside of all lines, with the text before and behind it: a blank, a semicolon, or
a comment behind an ASCII blank that goes on to the end of its physical line. -/
inductive Gap : List Char → List Char → List Char → Prop where
  | blank {before after : List Char} {char : Char} (white : isBlank char = true) :
      Gap before [char] after
  | separator {before after : List Char} : Gap before [';'] after
  | remark {before words after : List Char} {blank : Char} (white : isAsciiBlank blank = true)
      (oneLine : '\n' ∉ words) (ends : after = [] ∨ after.head? = some '\n') :
      Gap (before ++ [blank]) ('/' :: '/' :: words) after

def InGap (start : Nat) (text : List Char) (byte : Nat) : Prop :=
  ∃ before gap after, text = before ++ gap ++ after ∧ Gap before gap after ∧
    start + byteLength before ≤ byte ∧ byte < start + byteLength before + byteLength gap

theorem Slices.prepend {start : Nat} {text : List Char} {line : Line} (first : List Char)
    (slices : Slices (start + byteLength first) text line) : Slices start (first ++ text) line := by
  obtain ⟨before, after, rfl, begins, ends⟩ := slices
  refine ⟨first ++ before, after, by simp, ?_, ends⟩
  rw [begins, byteLength_append, Nat.add_assoc]

theorem InGap.prepend {start : Nat} {text : List Char} {byte : Nat} (first : List Char)
    (inGap : InGap (start + byteLength first) text byte) : InGap start (first ++ text) byte := by
  obtain ⟨before, gap, after, rfl, lies, low, high⟩ := inGap
  refine ⟨first ++ before, gap, after, by simp, ?_, ?_, ?_⟩
  · cases lies with
    | blank white => exact .blank white
    | separator => exact .separator
    | remark white oneLine ends =>
      rw [← List.append_assoc]
      exact .remark white oneLine ends
  · rw [byteLength_append]
    omega
  · rw [byteLength_append]
    omega

section Laid

variable {start : Nat} {text : List Char} {lines : List Line}

theorem Laid.slices (laid : Laid start text lines) : ∀ line ∈ lines, Slices start text line := by
  induction laid with
  | nil => simp
  | @blank start char rest lines white laid ih =>
    exact fun line member => (ih line member).prepend [char]
  | @separator start rest lines laid ih =>
    exact fun line member => Slices.prepend [';'] (ih line member)
  | @remark start blank words rest lines white oneLine ends laid ih =>
    exact fun line member => (ih line member).prepend (blank :: '/' :: '/' :: words)
  | @line start body rest lines statement inhabited trimmed oneLine laid ih =>
    intro line member
    rcases List.mem_cons.mp member with rfl | later
    · exact ⟨[], rest, by simp, by simp [Span.ofLength], by simp [Span.ofLength]⟩
    · exact (ih line later).prepend body

theorem Laid.trimmed (laid : Laid start text lines) :
    ∀ line ∈ lines, line.text.toList ≠ [] ∧ Trimmed line.text.toList ∧ '\n' ∉ line.text.toList := by
  induction laid with
  | nil => simp
  | blank _ _ ih => exact ih
  | separator _ ih => exact ih
  | remark _ _ _ _ ih => exact ih
  | line inhabited trimmed oneLine _ ih =>
    intro line member
    rcases List.mem_cons.mp member with rfl | later
    · rw [String.toList_ofList]
      exact ⟨inhabited, trimmed, oneLine⟩
    · exact ih line later

theorem Laid.start_le (laid : Laid start text lines) : ∀ line ∈ lines, start ≤ line.span.start := by
  intro line member
  obtain ⟨before, after, -, begins, -⟩ := laid.slices line member
  omega

theorem Laid.pairwise (laid : Laid start text lines) :
    lines.Pairwise fun earlier later => earlier.span.stop ≤ later.span.start := by
  induction laid with
  | nil => exact .nil
  | blank _ _ ih => exact ih
  | separator _ ih => exact ih
  | remark _ _ _ _ ih => exact ih
  | line _ _ _ laid ih => exact .cons (fun later member => laid.start_le later member) ih

/-- Every byte is in a line or in a gap. -/
theorem Laid.covered (laid : Laid start text lines) {byte : Nat} (low : start ≤ byte)
    (high : byte < start + byteLength text) :
    (∃ line ∈ lines, line.span.start ≤ byte ∧ byte < line.span.stop) ∨ InGap start text byte := by
  induction laid with
  | nil =>
    rw [byteLength_nil] at high
    omega
  | @blank start char rest lines white laid ih =>
    rw [byteLength_cons] at high
    by_cases behind : start + char.utf8Size ≤ byte
    · exact (ih behind (by omega)).imp_right (InGap.prepend [char])
    · refine .inr ⟨[], [char], rest, rfl, .blank white, ?_, ?_⟩ <;>
        simp only [byteLength_nil, byteLength_cons] <;> omega
  | @separator start rest lines laid ih =>
    have one : ';'.utf8Size = 1 := rfl
    rw [byteLength_cons, one] at high
    by_cases behind : start + 1 ≤ byte
    · exact (ih behind (by omega)).imp_right (InGap.prepend [';'])
    · refine .inr ⟨[], [';'], rest, rfl, .separator, ?_, ?_⟩ <;>
        simp only [byteLength_nil, byteLength_cons, one] <;> omega
  | @remark start blank words rest lines white oneLine ends laid ih =>
    rw [byteLength_append] at high
    by_cases behind : start + byteLength (blank :: '/' :: '/' :: words) ≤ byte
    · exact (ih behind (by omega)).imp_right (InGap.prepend (blank :: '/' :: '/' :: words))
    rw [byteLength_cons] at behind
    by_cases inBlank : byte < start + blank.utf8Size
    · refine .inr ⟨[], [blank], '/' :: '/' :: words ++ rest, rfl,
        .blank (isBlank_of_isAsciiBlank white), ?_, ?_⟩ <;>
        simp only [byteLength_nil, byteLength_cons] <;> omega
    · have lies := @Gap.remark [] words rest blank white oneLine ends
      refine .inr ⟨[blank], '/' :: '/' :: words, rest, rfl, lies, ?_, ?_⟩ <;>
        rw [byteLength_cons, byteLength_nil] <;> omega
  | @line start body rest lines statement inhabited trimmed oneLine laid ih =>
    rw [byteLength_append] at high
    by_cases behind : start + byteLength body ≤ byte
    · rcases ih behind (by omega) with ⟨line, later, within⟩ | inGap
      · exact .inl ⟨line, List.mem_cons_of_mem _ later, within⟩
      · exact .inr (inGap.prepend body)
    · exact .inl ⟨_, List.mem_cons_self, low, by simpa [Span.ofLength] using behind⟩

end Laid

/-- The lines of a source have non-empty, increasing and disjoint spans, are what their spans say, and
begin and end with characters that are not blank. Every byte outside of them is in a blank, a
semicolon or a remark. -/
theorem ofSource_cover (source : String) :
    (∀ line ∈ ofSource source, line.span.start < line.span.stop ∧
      Slices 0 source.toList line ∧ Trimmed line.text.toList ∧ '\n' ∉ line.text.toList) ∧
    (ofSource source).Pairwise (fun earlier later =>
      earlier.span.start < later.span.start ∧ earlier.span.stop ≤ later.span.start) ∧
    ∀ byte < source.utf8ByteSize,
      (∀ line ∈ ofSource source, ¬(line.span.start ≤ byte ∧ byte < line.span.stop)) →
        InGap 0 source.toList byte := by
  have laid := laid_ofSource source
  have nonempty : ∀ line ∈ ofSource source, line.span.start < line.span.stop := by
    intro line member
    obtain ⟨before, after, -, -, ends⟩ := laid.slices line member
    have positive := byteLength_pos (laid.trimmed line member).1
    omega
  refine ⟨?_, ?_, ?_⟩
  · intro line member
    exact ⟨nonempty line member, laid.slices line member, (laid.trimmed line member).2⟩
  · refine laid.pairwise.imp_of_mem ?_
    intro earlier later member _ before
    exact ⟨Nat.lt_of_lt_of_le (nonempty earlier member) before, before⟩
  · intro byte inside outside
    rw [← byteLength_toList] at inside
    rcases laid.covered (Nat.zero_le byte) (by omega) with ⟨line, member, within⟩ | inGap
    · exact absurd within (outside line member)
    · exact inGap

theorem remark_inGap : InGap 0 "a [k=v] // b".toList 9 :=
  (ofSource_cover "a [k=v] // b").2.2 9 (by decide +kernel) (by decide +kernel)

end Line

end BoxDiagram
