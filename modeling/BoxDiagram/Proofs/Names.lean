import BoxDiagram.NodeId
import BoxDiagram.Proofs.Declarations

/-!
Names that are written the one normal way. Such a name is read back as a whole by the grammar, is its
own normal form, and is carried along by a scan; and all of this goes for the path of a node too, as a
name behind another one and a dot has what makes a name.
-/

namespace BoxDiagram

open Text Grammar

theorem char_of_range (P : Char → Prop) (first count : Nat)
    (all : ∀ offset < count, P (Char.ofNat (first + offset))) {char : Char}
    (low : first ≤ char.toNat) (high : char.toNat < first + count) : P char := by
  have inside := all (char.toNat - first) (by omega)
  rwa [Nat.add_sub_cancel' low, Char.ofNat_toNat] at inside

theorem isWordChar_of_isBlank {char : Char} (white : isBlank char = true) :
    isWordChar char = false := by
  have control : ∀ offset < 5, isWordChar (Char.ofNat (9 + offset)) = false := by decide
  have quads : ∀ offset < 11, isWordChar (Char.ofNat (0x2000 + offset)) = false := by
    decide +kernel
  simp only [isBlank, Bool.or_eq_true, Bool.and_eq_true, beq_iff_eq, decide_eq_true_eq, Char.le_def,
    UInt32.le_iff_toNat_le] at white
  rcases white with (((((((((rfl | ⟨low, high⟩) | rfl) | rfl) | rfl) | ⟨low, high⟩) | rfl) | rfl) |
    rfl) | rfl) | rfl
  · decide
  · exact char_of_range (isWordChar · = false) 9 5 control low (Nat.lt_succ_of_le high)
  · decide +kernel
  · decide +kernel
  · decide +kernel
  · exact char_of_range (isWordChar · = false) 0x2000 11 quads low (Nat.lt_succ_of_le high)
  all_goals decide +kernel

theorem isBlank_of_isWordChar {char : Char} (word : isWordChar char = true) :
    isBlank char = false := by
  by_contra white
  rw [isWordChar_of_isBlank (by simpa using white)] at word
  cases word

theorem isBlank_of_isWordStart {char : Char} (start : isWordStart char = true) :
    isBlank char = false :=
  isBlank_of_isWordChar (by simp [isWordChar, start])

theorem isInlineSpace_of_isWordStart {char : Char} (start : isWordStart char = true) :
    isInlineSpace char = false := by
  by_contra space
  have white := Line.isBlank_of_isInlineSpace (by simpa using space)
  rw [isBlank_of_isWordStart start] at white
  cases white

theorem trimmed_of_startsWord {text : List Char} {last : Char} (starts : startsWord text = true)
    (ends : text.getLast? = some last) (black : isBlank last = false) : Trimmed text := by
  constructor
  · intro char first
    obtain ⟨rest, rfl⟩ := List.head?_eq_some_iff.mp first
    exact isBlank_of_isWordStart starts
  · intro char same
    rw [ends] at same
    cases same
    exact black

/-- A name in the grammar of identifiers that is written with single spaces and none of whose words
begins with a comment mark. -/
structure Name where
  text : String
  identifier : identifier? text.toList = some (text.toList, [])
  spaced : normalize text = text
  unmarked : ∀ word ∈ words text.toList, ¬['/', '/'] <+: word

def NameChar (char : Char) (rest : List Char) : Prop :=
  isWordChar char = true ∨ char = '-' ∨
    (char = ' ' ∧ startsWord rest = true ∧ ¬['/', '/'] <+: rest)

inductive NameTail : List Char → Prop where
  | nil : NameTail []
  | cons {char : Char} {rest : List Char} (fits : NameChar char rest) (further : NameTail rest) :
      NameTail (char :: rest)

structure IsName (text : List Char) : Prop where
  starts : startsWord text = true
  unmarked : ¬['/', '/'] <+: text
  tail : NameTail text

inductive Spaced : List Char → Prop where
  | nil : Spaced []
  | black {char : Char} {rest : List Char} (black : isBlank char = false) (further : Spaced rest) :
      Spaced (char :: rest)
  | space {next : Char} {rest : List Char} (black : isBlank next = false)
      (further : Spaced (next :: rest)) : Spaced (' ' :: next :: rest)

theorem Spaced.append {word rest : List Char} (black : ∀ char ∈ word, isBlank char = false)
    (further : Spaced rest) : Spaced (word ++ rest) := by
  induction word with
  | nil => exact further
  | cons char word ih =>
    obtain ⟨first, others⟩ := List.forall_mem_cons.mp black
    exact .black first (ih others)

theorem isBlank_of_mem_words {text word : List Char} (member : word ∈ words text) :
    word ≠ [] ∧ ∀ char ∈ word, isBlank char = false := by
  have parts : ∀ word ∈ splitOn isBlank text, ∀ char ∈ word, isBlank char = false := by
    clear member
    induction text with
    | nil => simp [splitOn]
    | cons first rest ih =>
      unfold splitOn
      split
      next none => exact absurd none (splitOn_ne_nil _ rest)
      next part parts cut =>
        rw [cut] at ih
        grind
  obtain ⟨listed, inhabited⟩ := List.mem_filter.mp member
  exact ⟨by simpa using inhabited, parts word listed⟩

theorem spaced_joinWords {parts : List (List Char)}
    (black : ∀ word ∈ parts, word ≠ [] ∧ ∀ char ∈ word, isBlank char = false) :
    Spaced (joinWords parts) := by
  induction parts with
  | nil => exact .nil
  | cons word parts ih =>
    obtain ⟨⟨-, first⟩, others⟩ := List.forall_mem_cons.mp black
    cases parts with
    | nil => simpa [joinWords] using Spaced.append first .nil
    | cons next parts =>
      have further := ih others
      rw [joinWords, List.intercalate_cons_cons, List.append_assoc]
      apply Spaced.append first
      obtain ⟨⟨inhabited, nextBlack⟩, -⟩ := List.forall_mem_cons.mp others
      obtain ⟨char, rest, rfl⟩ := List.exists_cons_of_ne_nil inhabited
      obtain ⟨more, spelled⟩ : ∃ more, joinWords ((char :: rest) :: parts) = char :: more := by
        cases parts <;> simp [joinWords, List.intercalate_cons_cons]
      rw [← joinWords, spelled]
      rw [spelled] at further
      exact .space (nextBlack char List.mem_cons_self) further

theorem splitOn_append (test : Char → Bool) (before : List Char) {separator : Char}
    (separates : test separator = true) (after : List Char) :
    splitOn test (before ++ separator :: after) = splitOn test before ++ splitOn test after := by
  induction before with
  | nil =>
    obtain ⟨part, parts, cut⟩ := List.exists_cons_of_ne_nil (splitOn_ne_nil test after)
    simp [splitOn, cut, separates]
  | cons char before ih =>
    obtain ⟨part, parts, cut⟩ := List.exists_cons_of_ne_nil (splitOn_ne_nil test before)
    rw [List.cons_append, splitOn, splitOn, ih, cut]
    simp only [List.cons_append]
    split <;> rfl

/-- Where a comment mark stands at the beginning or behind a blank, a word begins with it. -/
theorem exists_marked_word {text : List Char} (marked : ['/', '/'] <+: text) :
    ∃ word ∈ words text, ['/', '/'] <+: word := by
  obtain ⟨more, rfl⟩ := marked
  obtain ⟨part, parts, cut⟩ := List.exists_cons_of_ne_nil (splitOn_ne_nil isBlank more)
  have slash : isBlank '/' = false := by decide
  refine ⟨'/' :: '/' :: part, ?_, ⟨part, rfl⟩⟩
  simp [words, splitOn, cut, slash]

theorem unmarked_of_words {before after : List Char}
    (unmarked : ∀ word ∈ words (before ++ ' ' :: after), ¬['/', '/'] <+: word) :
    ¬['/', '/'] <+: after := by
  intro marked
  obtain ⟨word, member, mark⟩ := exists_marked_word marked
  refine unmarked word ?_ mark
  rw [words, splitOn_append _ _ (by decide), List.filter_append, List.mem_append]
  exact .inr member

theorem nameTail_of_identifierTail {text : List Char} (whole : identifierTail text = (text, []))
    (spaced : Spaced text)
    (unmarked : ∀ before after, text = before ++ ' ' :: after → ¬['/', '/'] <+: after) :
    NameTail text := by
  induction text with
  | nil => exact .nil
  | cons char rest ih =>
    unfold identifierTail at whole
    split at whole
    next continues =>
      simp only [Prod.mk.injEq, List.cons.injEq, true_and] at whole
      have later : NameTail rest := by
        refine ih (Prod.ext whole.1 whole.2) ?_ ?_
        · cases spaced with
          | black _ further => exact further
          | space _ further => exact further
        · rintro before after rfl
          exact unmarked (char :: before) after rfl
      refine .cons ?_ later
      simp only [continuesIdentifier, Bool.or_eq_true, Bool.and_eq_true, beq_iff_eq] at continues
      rcases continues with (word | ⟨hyphen, -⟩) | ⟨space, onward⟩
      · exact .inl word
      · exact .inr (.inl hyphen)
      · cases spaced with
        | black black _ =>
          rw [Line.isBlank_of_isInlineSpace space] at black
          cases black
        | @space next rest black _ =>
          have kept : isInlineSpace next = false := by
            by_contra inline
            rw [Line.isBlank_of_isInlineSpace (by simpa using inline)] at black
            cases black
          rw [List.dropWhile_cons, if_neg (by simp [kept])] at onward
          exact .inr (.inr ⟨rfl, onward, unmarked [] _ rfl⟩)
    next => simp at whole

theorem Name.isName (name : Name) : IsName name.text.toList := by
  obtain ⟨first, rest, text, start, whole, stops⟩ := identifier?_eq_some.mp name.identifier
  have normal : joinWords (words name.text.toList) = name.text.toList := by
    have spaced := congrArg String.toList name.spaced
    rwa [Text.normalize, String.toList_ofList] at spaced
  have spaced : Spaced name.text.toList := by
    rw [← normal]
    exact spaced_joinWords fun _ => isBlank_of_mem_words
  have unmarked := name.unmarked
  rw [text] at whole spaced unmarked ⊢
  have further : NameTail rest := by
    refine nameTail_of_identifierTail (Prod.ext (List.cons.inj whole).2.symm stops.symm) ?_ ?_
    · cases spaced with
      | black _ further => exact further
      | space => exact absurd start (by decide)
    · rintro before after rfl
      exact @unmarked_of_words (first :: before) _ unmarked
  refine ⟨start, ?_, .cons (.inl (by simp [isWordChar, start])) further⟩
  intro marked
  obtain ⟨word, member, mark⟩ := exists_marked_word marked
  exact unmarked word member mark

theorem NameChar.inIdentifier {char : Char} {rest : List Char} (fits : NameChar char rest) :
    InIdentifier char := by
  rcases fits with word | hyphen | ⟨rfl, -, -⟩
  · exact .inl word
  · exact .inr (.inl hyphen)
  · exact .inr (.inr rfl)

/-- What stands behind a word does not make a comment mark of its beginning, unless it is a slash. -/
theorem unmarked_append {text more : List Char} (starts : startsWord text = true)
    (unmarked : ¬['/', '/'] <+: text) (noSlash : more.head? ≠ some '/') :
    startsWord (text ++ more) = true ∧ ¬['/', '/'] <+: text ++ more := by
  match text, starts, unmarked with
  | [first], starts, _ =>
    refine ⟨starts, ?_⟩
    rintro ⟨others, same⟩
    have behind : '/' :: others = more := (List.cons.inj same).2
    exact noSlash (by rw [← behind]; rfl)
  | first :: second :: others, starts, unmarked => exact ⟨starts, by simpa using unmarked⟩

theorem NameChar.append {char : Char} {rest more : List Char} (fits : NameChar char rest)
    (noSlash : more.head? ≠ some '/') : NameChar char (rest ++ more) := by
  rcases fits with word | hyphen | ⟨rfl, starts, unmarked⟩
  · exact .inl word
  · exact .inr (.inl hyphen)
  · exact .inr (.inr ⟨rfl, unmarked_append starts unmarked noSlash⟩)

theorem NameTail.chars {text : List Char} (tail : NameTail text) :
    ∀ char ∈ text, InIdentifier char ∧ (isBlank char = true → char = ' ') := by
  induction tail with
  | nil => simp
  | @cons char rest fits _ ih =>
    refine List.forall_mem_cons.mpr ⟨⟨fits.inIdentifier, ?_⟩, ih⟩
    intro white
    rcases fits with word | rfl | ⟨space, -, -⟩
    · rw [isBlank_of_isWordChar word] at white
      cases white
    · exact absurd white (by decide)
    · exact space

theorem NameTail.append_cons {outer inner : List Char} {char : Char} (tail : NameTail outer)
    (fits : NameChar char inner) (noSlash : char ≠ '/') (further : NameTail inner) :
    NameTail (outer ++ char :: inner) := by
  induction tail with
  | nil => exact .cons fits further
  | cons first _ ih => exact .cons (first.append (by simpa using noSlash)) ih

namespace IsName

variable {text : List Char}

theorem append_cons {outer inner : List Char} {char : Char} (name : IsName outer)
    (fits : NameChar char inner) (noSlash : char ≠ '/') (further : NameTail inner) :
    IsName (outer ++ char :: inner) := by
  obtain ⟨starts, unmarked⟩ := unmarked_append name.starts name.unmarked
    (by simpa using noSlash : (char :: inner).head? ≠ some '/')
  exact ⟨starts, unmarked, name.tail.append_cons fits noSlash further⟩

theorem join {outer inner : List Char} (name : IsName outer) (behind : IsName inner) :
    IsName (outer ++ '.' :: inner) :=
  name.append_cons (.inl (by decide)) (by decide) behind.tail

theorem joinSpace {outer inner : List Char} (name : IsName outer) (behind : IsName inner) :
    IsName (outer ++ ' ' :: inner) :=
  name.append_cons (.inr (.inr ⟨rfl, behind.starts, behind.unmarked⟩)) (by decide) behind.tail

theorem exists_cons (name : IsName text) :
    ∃ first rest, text = first :: rest ∧ isWordStart first = true := by
  cases text with
  | nil => cases name.starts
  | cons first rest => exact ⟨first, rest, rfl, name.starts⟩

end IsName

theorem identifierTail_append_of_stops {text rest : List Char} (tail : NameTail text)
    (stops : identifierTail rest = ([], rest)) (noHead : rest.head? ≠ some '>') :
    identifierTail (text ++ rest) = (text, rest) := by
  induction tail with
  | nil => exact stops
  | @cons char text fits further ih =>
    have continues : continuesIdentifier char (text ++ rest) = true := by
      simp only [continuesIdentifier, Bool.or_eq_true, Bool.and_eq_true, beq_iff_eq, bne_iff_ne]
      rcases fits with word | hyphen | ⟨rfl, starts, -⟩
      · exact .inl (.inl word)
      · refine .inl (.inr ⟨hyphen, ?_⟩)
        cases further with
        | nil => exact noHead
        | cons next _ => simpa using next.inIdentifier.ne (by decide)
      · refine .inr ⟨by decide, ?_⟩
        cases text with
        | nil => cases starts
        | cons first text =>
          have start : isWordStart first = true := starts
          rw [List.cons_append, List.dropWhile_cons, isInlineSpace_of_isWordStart start]
          exact start
    rw [List.cons_append, identifierTail, if_pos continues, ih]

theorem IsName.identifier?_append {text rest : List Char} (name : IsName text)
    (stops : identifierTail rest = ([], rest)) (noHead : rest.head? ≠ some '>') :
    identifier? (text ++ rest) = some (text, rest) := by
  obtain ⟨first, others, rfl, start⟩ := name.exists_cons
  have tail : NameTail others := by
    cases name.tail with
    | cons _ further => exact further
  rw [List.cons_append, identifier?, if_pos start, identifierTail_append_of_stops tail stops noHead]

theorem intercalate_splitOn {test : Char → Bool} {separator : Char} {text : List Char}
    (only : ∀ char ∈ text, test char = true → char = separator) :
    [separator].intercalate (splitOn test text) = text := by
  induction text with
  | nil => rfl
  | cons char rest ih =>
    obtain ⟨first, others⟩ := List.forall_mem_cons.mp only
    have joined := ih others
    obtain ⟨part, parts, cut⟩ := List.exists_cons_of_ne_nil (splitOn_ne_nil test rest)
    rw [splitOn, cut]
    rw [cut] at joined
    dsimp only
    split
    next separates => rw [List.intercalate_cons_cons, joined, first separates]; rfl
    next => cases parts <;> simp_all [List.intercalate_cons_cons]

theorem NameTail.parts {text : List Char} (tail : NameTail text) :
    ∃ part parts, splitOn isBlank text = part :: parts ∧ (∀ other ∈ parts, other ≠ []) ∧
      (startsWord text = true → part ≠ []) := by
  induction tail with
  | nil => exact ⟨[], [], rfl, by simp, nofun⟩
  | @cons char rest fits further ih =>
    obtain ⟨part, parts, cut, inhabited, first⟩ := ih
    rw [splitOn, cut]
    dsimp only
    split
    next white =>
      rcases fits with word | rfl | ⟨rfl, starts, -⟩
      · rw [isBlank_of_isWordChar word] at white
        cases white
      · exact absurd white (by decide)
      · exact ⟨[], part :: parts, rfl, List.forall_mem_cons.mpr ⟨first starts, inhabited⟩,
          fun word => absurd (show isWordStart ' ' = true from word) (by decide)⟩
    next => exact ⟨char :: part, parts, rfl, inhabited, by simp⟩

/-- A name is its own normal form. -/
theorem IsName.joinWords_words {text : List Char} (name : IsName text) :
    joinWords (words text) = text := by
  obtain ⟨part, parts, cut, inhabited, first⟩ := name.tail.parts
  have all : words text = splitOn isBlank text := by
    rw [words, List.filter_eq_self, cut]
    simpa [first name.starts] using inhabited
  rw [joinWords, all]
  exact intercalate_splitOn fun char member => (name.tail.chars char member).2

theorem IsName.trimmed {text : List Char} (name : IsName text) : Trimmed text := by
  constructor
  · intro char first
    obtain ⟨other, rest, rfl, start⟩ := name.exists_cons
    cases first
    exact isBlank_of_isWordStart start
  · have tail := name.tail
    clear name
    induction tail with
    | nil => nofun
    | @cons char rest fits further ih =>
      intro last same
      cases further with
      | nil =>
        cases same
        rcases fits with word | rfl | ⟨-, starts, -⟩
        · exact isBlank_of_isWordChar word
        · decide
        · cases starts
      | cons => exact ih last (by simpa using same)

namespace Line.Scan

structure Free (scan : Scan) : Prop where
  outside : scan.isOutside = true
  unlabelled : scan.inLabel = false

theorem Plain.free {scan : Scan} (plain : scan.Plain) : scan.Free := ⟨plain.outside, plain.unlabelled⟩

theorem Free.advance {scan : Scan} (free : scan.Free) {char : Char} {rest : List Char}
    (unquoted : char ≠ '"') (unbracketed : char ≠ '[') (noColon : char ≠ ':') :
    (scan.advance char rest).Free := by
  obtain ⟨noQuote, flat⟩ := isOutside_iff.mp free.outside
  refine ⟨?_, ?_⟩
  · rw [isOutside_iff]
    simp [Scan.advance, noQuote, flat, unquoted, unbracketed]
  · simp [Scan.advance, noColon, free.unlabelled]

/-- A scan that is not at a comment mark carries a name along. -/
theorem carried_nameTail {text : List Char} (tail : NameTail text) {scan : Scan} (free : scan.Free)
    {rest : List Char} (noSlash : rest.head? ≠ some '/')
    (unmarked : scan.admitsRemark = true → ¬['/', '/'] <+: text ++ rest) :
    ∃ last, Carried scan text rest last ∧ last.Free := by
  induction tail generalizing scan with
  | nil => exact ⟨scan, .nil, free⟩
  | @cons char text fits further ih =>
    have part := fits.inIdentifier
    have goes : scan.stops char (text ++ rest) = false := by
      have noBrace : char ≠ '{' ∧ char ≠ '}' ∧ char ≠ ';' ∧ char ≠ '#' :=
        ⟨part.ne (by decide), part.ne (by decide), part.ne (by decide), part.ne (by decide)⟩
      have noMark : ¬(char = '/' ∧ (text ++ rest).head? = some '/' ∧ scan.admitsRemark = true) := by
        rintro ⟨rfl, second, admits⟩
        obtain ⟨more, spelled⟩ := List.head?_eq_some_iff.mp second
        exact unmarked admits ⟨more, by simp [spelled]⟩
      simp only [stops, marksComment, free.outside]
      grind
    have onward : (scan.advance char (text ++ rest)).admitsRemark = true →
        ¬['/', '/'] <+: text ++ rest := by
      intro admits
      have white : isAsciiBlank char = true := admits
      rcases fits.append noSlash with word | rfl | ⟨-, -, unmarked⟩
      · have blank := isBlank_of_isAsciiBlank white
        rw [isBlank_of_isWordChar word] at blank
        cases blank
      · exact absurd white (by decide)
      · exact unmarked
    obtain ⟨last, carried, ends⟩ := ih (free.advance (part.ne (by decide)) (part.ne (by decide))
      (part.ne (by decide))) onward
    exact ⟨last, .cons goes carried, ends⟩

theorem carried_name {text : List Char} (name : IsName text) {scan : Scan} (free : scan.Free)
    {rest : List Char} (noSlash : rest.head? ≠ some '/') :
    ∃ last, Carried scan text rest last ∧ last.Free :=
  carried_nameTail name.tail free noSlash fun _ =>
    (unmarked_append name.starts name.unmarked noSlash).2

end Line.Scan

end BoxDiagram
