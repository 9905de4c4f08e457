import BoxDiagram.Proofs.StatementSpans

/-!
What an arrow makes of a line. Arrows inside of quotes and brackets are text; any other makes the line a
connection, a title or a finding, unless the line is a comment. A line that is dropped without a finding
has no such arrow, no bracket, and no brace in front.
-/

namespace BoxDiagram

open Text Grammar
open PropertyList (Enclosure)

def LooseFrom (enclosure : Enclosure) (text : List Char) : Prop :=
  ∃ before after, text = before ++ '-' :: '>' :: after ∧
    (before.foldl Enclosure.next enclosure).isFree = true

/-- A line has an arrow outside of quotes and brackets. -/
def HasLooseArrow (line : List Char) : Prop := LooseFrom {} line

section LooseFrom

variable {enclosure : Enclosure} {char : Char} {text rest : List Char}

theorem not_looseFrom_nil : ¬LooseFrom enclosure [] := by
  rintro ⟨before, after, whole, -⟩
  simp at whole

theorem mem_of_looseFrom (loose : LooseFrom enclosure text) : '-' ∈ text := by
  obtain ⟨before, after, rfl, -⟩ := loose
  exact List.mem_append_right before List.mem_cons_self

theorem looseFrom_cons : LooseFrom enclosure (char :: rest) ↔
    (enclosure.isFree = true ∧ char = '-' ∧ rest.head? = some '>') ∨
      LooseFrom (enclosure.next char) rest := by
  constructor
  · rintro ⟨before, after, whole, free⟩
    cases before with
    | nil =>
      obtain ⟨rfl, rfl⟩ := List.cons.inj whole
      exact .inl ⟨free, rfl, rfl⟩
    | cons first before =>
      obtain ⟨rfl, rfl⟩ := List.cons.inj whole
      exact .inr ⟨before, after, rfl, free⟩
  · rintro (⟨free, rfl, head⟩ | ⟨before, after, rfl, free⟩)
    · obtain ⟨after, rfl⟩ := List.head?_eq_some_iff.mp head
      exact ⟨[], after, rfl, free⟩
    · exact ⟨char :: before, after, rfl, free⟩

theorem looseFrom_cons_of (closed : char ≠ '-' ∨ enclosure.isFree = false) :
    LooseFrom enclosure (char :: rest) ↔ LooseFrom (enclosure.next char) rest := by
  rw [looseFrom_cons, or_iff_right]
  rintro ⟨free, rfl, -⟩
  rcases closed with other | enclosed
  · exact other rfl
  · exact Bool.false_ne_true (enclosed.symm.trans free)

theorem next_of_notMem (plain : char ∉ ['"', '[', ']']) : enclosure.next char = enclosure := by
  simp only [List.mem_cons, List.not_mem_nil, or_false, not_or] at plain
  simp [Enclosure.next, plain]

/-- The search for an arrow finds one if there is one outside of quotes and brackets. -/
theorem isSome_beforeArrow? :
    (beforeArrow? enclosure.quoted enclosure.depth text).isSome = true ↔ LooseFrom enclosure text := by
  induction text generalizing enclosure with
  | nil => exact iff_of_false Bool.false_ne_true not_looseFrom_nil
  | cons char rest ih =>
    obtain ⟨quoted, depth⟩ := enclosure
    rw [looseFrom_cons, ← ih, beforeArrow?]
    by_cases quote : char = '"'
    · simp [quote, Enclosure.next]
    cases quoted with
    | true => simp [quote, Enclosure.next, Enclosure.isFree]
    | false =>
      by_cases opening : char = '['
      · simp [opening, Enclosure.next]
      by_cases closing : char = ']'
      · simp [closing, Enclosure.next]
      have stays : Enclosure.next ⟨false, depth⟩ char = ⟨false, depth⟩ :=
        next_of_notMem (by simp [quote, opening, closing])
      rw [stays]
      by_cases here : char = '-' ∧ depth = 0 ∧ rest.head? = some '>'
      · simp [here, Enclosure.isFree]
      · grind [Enclosure.isFree]

theorem hasLooseArrow_iff {line : List Char} :
    HasLooseArrow line ↔ ∃ before, beforeArrow? false 0 line = some before := by
  rw [← Option.isSome_iff_exists]
  exact (@isSome_beforeArrow? {} line).symm

theorem looseFrom_plain (plain : ∀ char ∈ text, char ∉ ['-', '"', '[', ']']) :
    LooseFrom enclosure (text ++ rest) ↔ LooseFrom enclosure rest := by
  induction text with
  | nil => rfl
  | cons char text ih =>
    obtain ⟨first, further⟩ := List.forall_mem_cons.mp plain
    obtain ⟨other, stays⟩ : char ≠ '-' ∧ char ∉ ['"', '[', ']'] := by simpa using first
    rw [List.cons_append, looseFrom_cons_of (.inl other), next_of_notMem stays, ih further]

theorem looseFrom_quoted (unquoted : '"' ∉ text) {depth : Nat} :
    LooseFrom ⟨true, depth⟩ (text ++ '"' :: rest) ↔ LooseFrom ⟨false, depth⟩ rest := by
  induction text with
  | nil => exact looseFrom_cons_of (.inl (by decide))
  | cons char text ih =>
    simp only [List.mem_cons, not_or] at unquoted
    obtain ⟨other, further⟩ := unquoted
    have stays : Enclosure.next ⟨true, depth⟩ char = ⟨true, depth⟩ := by
      simp [Enclosure.next, Ne.symm other]
    rw [List.cons_append, looseFrom_cons_of (.inr rfl), stays, ih further]

theorem Grammar.Body.looseFrom {body : List Char} (is : Body body) (depth : Nat) (rest : List Char) :
    LooseFrom ⟨false, depth + 1⟩ (body ++ rest) ↔ LooseFrom ⟨false, depth + 1⟩ rest := by
  have enclosed (depth : Nat) : Enclosure.isFree ⟨false, depth + 1⟩ = false := rfl
  induction is generalizing depth rest with
  | nil => rfl
  | char plain _ ih =>
    rw [List.cons_append, looseFrom_cons_of (.inr (enclosed depth)), next_of_notMem plain]
    exact ih depth rest
  | @quoted text more unquoted _ ih =>
    have begins : LooseFrom ⟨false, depth + 1⟩ ('"' :: (text ++ '"' :: (more ++ rest))) ↔
        LooseFrom ⟨true, depth + 1⟩ (text ++ '"' :: (more ++ rest)) :=
      looseFrom_cons_of (.inl (by decide))
    have spelled : '"' :: text ++ '"' :: more ++ rest = '"' :: (text ++ '"' :: (more ++ rest)) := by simp
    rw [spelled, begins, looseFrom_quoted unquoted]
    exact ih depth rest
  | @nested inner more _ _ inside further =>
    have begins : LooseFrom ⟨false, depth + 1⟩ ('[' :: (inner ++ ']' :: (more ++ rest))) ↔
        LooseFrom ⟨false, depth + 2⟩ (inner ++ ']' :: (more ++ rest)) :=
      looseFrom_cons_of (.inl (by decide))
    have ends : LooseFrom ⟨false, depth + 2⟩ (']' :: (more ++ rest)) ↔
        LooseFrom ⟨false, depth + 1⟩ (more ++ rest) :=
      looseFrom_cons_of (.inl (by decide))
    have spelled : '[' :: inner ++ ']' :: more ++ rest = '[' :: (inner ++ ']' :: (more ++ rest)) := by simp
    rw [spelled, begins]
    exact (inside (depth + 1) _).trans (ends.trans (further depth rest))

theorem looseFrom_bracketed {list : Option (List Char)} (is : ∀ body, list = some body → Body body) :
    LooseFrom {} (bracketed list ++ rest) ↔ LooseFrom {} rest := by
  cases list with
  | none => rfl
  | some body =>
    have begins : LooseFrom {} ('[' :: (body ++ ']' :: rest)) ↔ LooseFrom ⟨false, 1⟩ (body ++ ']' :: rest) :=
      looseFrom_cons_of (.inl (by decide))
    have ends : LooseFrom ⟨false, 1⟩ (']' :: rest) ↔ LooseFrom {} rest :=
      looseFrom_cons_of (.inl (by decide))
    have spelled : bracketed (some body) ++ rest = '[' :: (body ++ ']' :: rest) := by simp [bracketed]
    rw [spelled, begins]
    exact ((is body rfl).looseFrom 0 _).trans ends

theorem notMem_of_isWordChar (word : isWordChar char = true) : char ∉ ['-', '"', '[', ']'] := by
  simp only [List.mem_cons, List.not_mem_nil, or_false]
  rintro (rfl | rfl | rfl | rfl) <;> exact absurd word (by decide)

theorem looseFrom_inline {space : List Char} (inline : Inline space) :
    LooseFrom enclosure (space ++ rest) ↔ LooseFrom enclosure rest := by
  have foreign : ∀ mark ∈ ['-', '"', '[', ']'], isInlineSpace mark = false := by simp [isInlineSpace]
  refine looseFrom_plain fun char member marked => ?_
  exact Bool.false_ne_true ((foreign char marked).symm.trans (inline char member))

theorem Grammar.WordTail.looseFrom {tail : List Char} (is : WordTail tail rest) :
    LooseFrom enclosure (tail ++ rest) ↔ LooseFrom enclosure rest := by
  induction is with
  | nil => rfl
  | @char char tail _ word _ ih =>
    have only : ∀ other ∈ [char], other ∉ ['-', '"', '[', ']'] :=
      List.forall_mem_singleton.mpr (notMem_of_isWordChar word)
    exact (looseFrom_plain only).trans ih
  | @hyphen tail _ noArrow _ ih =>
    have stays : enclosure.next '-' = enclosure := next_of_notMem (by decide)
    rw [List.cons_append, looseFrom_cons, or_iff_right fun arrow => noArrow arrow.2.2, stays]
    exact ih

theorem Grammar.Word.looseFrom {word : List Char} (is : Word word rest) :
    LooseFrom enclosure (word ++ rest) ↔ LooseFrom enclosure rest := by
  obtain ⟨start, further⟩ := is
  have whole : WordTail _ rest := .char (by rw [isWordChar, start, Bool.true_or]) further
  exact whole.looseFrom

/-- A name has no arrow, and none begins in it. -/
theorem Grammar.Identifier.looseFrom {name : List Char} (is : Identifier name rest) :
    LooseFrom enclosure (name ++ rest) ↔ LooseFrom enclosure rest := by
  induction is with
  | word only => exact only.looseFrom
  | @words word space name rest first inline _ _ ih =>
    have spelled : word ++ space ++ name ++ rest = word ++ (space ++ name ++ rest) := by simp
    rw [spelled, first.looseFrom, List.append_assoc, looseFrom_inline inline]
    exact ih

end LooseFrom

theorem Grammar.IsDeclaration.not_hasLooseArrow {line : List Char} {parts : DeclarationParts}
    (declares : IsDeclaration line parts) : ¬HasLooseArrow line := by
  obtain ⟨rest, rfl, name, tail⟩ := declares
  rw [HasLooseArrow, name.looseFrom]
  obtain @⟨space, behind, gap, inline, ends, list, -⟩ := tail
  have brace : ∀ char ∈ (if parts.opens then ['{'] else []), char ∉ ['-', '"', '[', ']'] := by
    cases parts.opens <;> simp
  have closed : ¬LooseFrom {} (behind ++ []) := by
    rw [looseFrom_inline ends]
    exact not_looseFrom_nil
  rw [List.append_nil] at closed
  rwa [List.append_assoc, List.append_assoc, List.append_assoc, looseFrom_inline gap,
    looseFrom_bracketed list, looseFrom_inline inline, looseFrom_plain brace]

theorem Text.stripQuotes_eq_nil {text : List Char} (empty : stripQuotes text = []) :
    text = [] ∨ text = ['"', '"'] := by
  unfold stripQuotes at empty
  split at empty
  next inner =>
    split at empty
    next reversed found =>
      obtain rfl : reversed = [] := by simpa using empty
      have same : inner = ['"'] := by simpa using congrArg List.reverse found
      exact .inr (by rw [same])
    next => cases empty
  next => exact .inl empty

theorem notMem_of_titleText {rest : List Char} (silent : titleText rest = []) : '-' ∉ rest := by
  have front : rest.takeWhile isInlineSpace ++ rest.dropWhile isInlineSpace = rest :=
    List.takeWhile_append_dropWhile
  have back := trimEnd_append (rest.dropWhile isInlineSpace)
  intro member
  rw [← front, ← back] at member
  simp only [List.mem_append] at member
  rcases member with before | within | behind
  · cases List.mem_takeWhile_imp before
  · rcases stripQuotes_eq_nil silent with empty | quotes
    · simp [empty] at within
    · simp [quotes] at within
  · cases (isBlank_of_mem_trailingBlanks behind : isBlank '-' = true)

theorem Grammar.IsTitle.not_hasLooseArrow {line rest : List Char} (is : IsTitle line rest)
    (silent : titleText rest = []) : ¬HasLooseArrow line := by
  intro loose
  have member := mem_of_looseFrom loose
  have spaced {space : List Char} (inline : Inline space) : '-' ∉ space := fun within =>
    absurd (inline '-' within) (by decide)
  cases is with
  | colon inline => simp [titleWord, spaced inline, notMem_of_titleText silent] at member
  | space inline => simp [titleWord, spaced inline, notMem_of_titleText silent] at member

namespace Statement

structure Idle (line : List Char) : Prop where
  noOpening : '[' ∉ line
  noClosing : ']' ∉ line
  noArrow : ¬HasLooseArrow line
  noBrace : line.head? ≠ some '{'

variable {line : List Char} {start : Nat}

theorem idle_of_diagnose (dropped : diagnose line start = .ignorable) : Idle line := by
  unfold diagnose at dropped
  extract_lets span at dropped
  split at dropped
  next => cases dropped
  next plain =>
    split at dropped
    next => cases dropped
    next noArrow =>
      split at dropped
      next => cases dropped
      next noBracket =>
        have none : ∀ char ∈ line, ¬char = '[' ∧ ¬char = ']' := by simpa [beforeBracket?] using noBracket
        refine ⟨fun opening => (none _ opening).1 rfl, fun closing => (none _ closing).2 rfl, ?_,
          fun brace => plain (by simp [brace])⟩
        rw [hasLooseArrow_iff, noArrow]
        exact fun ⟨_, found⟩ => nomatch found

/-- What is dropped without a finding is empty, a title that says nothing, or has nothing to answer. -/
theorem idle_of_ignorable (dropped : classify line start = .ignorable) :
    line = [] ∨ (∃ rest, IsTitle line rest ∧ titleText rest = []) ∨ Idle line := by
  unfold classify at dropped
  split at dropped
  next => exact .inl rfl
  next => cases dropped
  next => cases dropped
  next => cases dropped
  next => cases dropped
  next =>
    split at dropped
    next =>
      dsimp only at dropped
      split at dropped <;> cases dropped
    next =>
      split at dropped
      next => cases dropped
      next =>
        split at dropped
        next silent => exact .inr (.inl (title?_eq_some_iff.mp silent))
        next => cases dropped
        next => exact .inr (.inr (idle_of_diagnose dropped))

inductive Answers (line : List Char) : Statement → Prop where
  | connection (hops : List Hop) : Answers line (.connection hops)
  | title (text : String) : Answers line (.title text)
  | missingName {diagnostic : Diagnostic} (begins : line.head? = some '[' ∨ line.head? = some '{')
      (code : diagnostic.code = some .missingName) : Answers line (.malformed diagnostic)
  | malformedConnection {diagnostic : Diagnostic} (noBracket : line.head? ≠ some '[')
      (noBrace : line.head? ≠ some '{') (code : diagnostic.code = some .malformedConnection) :
      Answers line (.malformed diagnostic)

theorem answers_diagnose (loose : HasLooseArrow line) (start : Nat) : Answers line (diagnose line start) := by
  unfold diagnose
  extract_lets span
  split
  next begins => exact .missingName (by simpa using begins) rfl
  next plain =>
    obtain ⟨before, found⟩ := hasLooseArrow_iff.mp loose
    obtain ⟨noBracket, noBrace⟩ : line.head? ≠ some '[' ∧ line.head? ≠ some '{' := by
      simpa using plain
    rw [found]
    exact .malformedConnection noBracket noBrace rfl

theorem answers_classify (loose : HasLooseArrow line) (start : Nat) :
    classify line start = .comment ∨ Answers line (classify line start) := by
  unfold classify
  split
  next => exact absurd loose not_looseFrom_nil
  next => exact .inl rfl
  next => exact .inl rfl
  next => cases hasLooseArrow_iff.mp loose with | intro _ found => cases found
  next => cases hasLooseArrow_iff.mp loose with | intro _ found => cases found
  next =>
    right
    split
    next parts found => exact absurd loose (isDeclaration_of_declaration? found).not_hasLooseArrow
    next =>
      split
      next => exact .connection _
      next =>
        split
        next silent =>
          obtain ⟨rest, is, empty⟩ := title?_eq_some_iff.mp silent
          exact absurd loose (is.not_hasLooseArrow empty)
        next => exact .title _
        next => exact answers_diagnose loose start

end Statement

/-- Connections and lists are never dropped: a line is dropped without a finding only if it is empty, a
title that says nothing, or without brackets, without an arrow outside of quotes and brackets and without
a brace in front. A line of a source that has such an arrow and is no comment is a connection, a title, or
a finding about the arrow or, behind a bracket or a brace, about the missing name; it is no declaration. -/
theorem never_dropped :
    (∀ line start, Statement.classify line start = .ignorable →
      line = [] ∨ (∃ rest, IsTitle line rest ∧ titleText rest = []) ∨ Statement.Idle line) ∧
    ∀ source, ∀ line ∈ Line.ofSource source, line.statement ≠ .comment →
      HasLooseArrow line.text.toList → line.statement.Answers line.text.toList ∧
        ∀ declaration, line.statement ≠ .containerOpen declaration ∧
          line.statement ≠ .leaf declaration := by
  refine ⟨fun _ _ => Statement.idle_of_ignorable, ?_⟩
  intro source line member plain loose
  have said := Line.says_of_mem member
  have answers : line.statement.Answers line.text.toList := by
    rcases Statement.answers_classify loose line.span.start with comment | answers
    · exact absurd (said.trans comment) plain
    · rwa [said]
  refine ⟨answers, fun declaration => ⟨?_, ?_⟩⟩
  · intro opens
    rw [opens] at answers
    cases answers
  · intro leaf
    rw [leaf] at answers
    cases answers

/-- A bracket that is never opened closes nothing, so the arrow behind it is outside; words alone are
dropped. -/
theorem unopenedBracket_answered :
    let line : Line := ⟨"A ] -> \"b", Span.ofLength 0 9,
      .malformed (.malformedConnection (Span.ofLength 0 9) (Span.ofLength 4 2))⟩
    (line ∈ Line.ofSource "A ] -> \"b" ∧ HasLooseArrow line.text.toList ∧
      line.statement.Answers line.text.toList) ∧
    Statement.classify "some words".toList 0 = .ignorable ∧ Statement.Idle "some words".toList := by
  intro line
  have member : line ∈ Line.ofSource "A ] -> \"b" := by decide +kernel
  have loose : HasLooseArrow line.text.toList :=
    hasLooseArrow_iff.mpr ⟨['A', ' ', ']', ' '], by decide +kernel⟩
  have dropped : Statement.classify "some words".toList 0 = .ignorable := by decide +kernel
  refine ⟨⟨member, loose, (never_dropped.2 _ line member nofun loose).1⟩, dropped, ?_⟩
  rcases never_dropped.1 _ _ dropped with empty | ⟨rest, is, -⟩ | idle
  · exact absurd empty (by decide)
  · have read := title?_eq_some_iff.mpr ⟨rest, is, rfl⟩
    have none : title? "some words".toList = none := by decide +kernel
    cases read.symm.trans none
  · exact idle

end BoxDiagram
