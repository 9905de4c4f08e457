import BoxDiagram.Proofs.Names

/-!
The grammar of identifiers. A word is a character that starts words and what goes on with it, up to a
hyphen that begins an arrow at the latest; an identifier is words with runs of space between them. The
reader goes character by character and never back, and reads just the identifiers that nothing could
go on with.
-/

namespace BoxDiagram.Grammar

open Text

def Inline (text : List Char) : Prop := ∀ char ∈ text, isInlineSpace char = true

inductive WordTail : List Char → List Char → Prop where
  | nil {rest : List Char} : WordTail [] rest
  | char {char : Char} {tail rest : List Char} (word : isWordChar char = true)
      (further : WordTail tail rest) : WordTail (char :: tail) rest
  | hyphen {tail rest : List Char} (noArrow : (tail ++ rest).head? ≠ some '>')
      (further : WordTail tail rest) : WordTail ('-' :: tail) rest

inductive Word : List Char → List Char → Prop where
  | mk {first : Char} {tail rest : List Char} (start : isWordStart first = true)
      (further : WordTail tail rest) : Word (first :: tail) rest

inductive Identifier : List Char → List Char → Prop where
  | word {word rest : List Char} (only : Word word rest) : Identifier word rest
  | words {word space name rest : List Char} (first : Word word (space ++ name ++ rest))
      (inline : Inline space) (between : space ≠ []) (further : Identifier name rest) :
      Identifier (word ++ space ++ name) rest

section Completeness

theorem Identifier.startsWord {name rest : List Char} (identifier : Identifier name rest)
    (more : List Char) : startsWord (name ++ more) = true := by
  cases identifier with
  | word only => cases only with | mk start _ => exact start
  | words first _ _ _ => cases first with | mk start _ => exact start

theorem Identifier.ne_nil {name rest : List Char} (identifier : Identifier name rest) : name ≠ [] := by
  rintro rfl
  exact absurd (identifier.startsWord []) (by decide)

theorem continuesIdentifier_hyphen {rest : List Char} (noArrow : rest.head? ≠ some '>') :
    continuesIdentifier '-' rest = true := by
  have goes : (rest.head? != some '>') = true := by simpa using noArrow
  simp only [continuesIdentifier, goes, beq_self_eq_true, Bool.and_true, Bool.or_true, Bool.true_or]

theorem continuesIdentifier_word {char : Char} (word : isWordChar char = true) (rest : List Char) :
    continuesIdentifier char rest = true := by
  simp [continuesIdentifier, word]

/-- An identifier begins with a word, and the characters behind its first one go on with it. -/
theorem identifier?_eq (text : List Char) :
    identifier? text = if startsWord text then some (identifierTail text) else none := by
  cases text with
  | nil => rfl
  | cons first rest =>
    rw [identifier?]
    show (if isWordStart first = true then _ else none) = if isWordStart first = true then _ else none
    split
    next start =>
      have word : isWordChar first = true := by simp [isWordChar, start]
      rw [identifierTail, if_pos (continuesIdentifier_word word _)]
    next => rfl

theorem identifierTail_wordTail {tail rest : List Char} (word : WordTail tail rest) :
    identifierTail (tail ++ rest) = (tail ++ (identifierTail rest).1, (identifierTail rest).2) := by
  induction word with
  | nil => rfl
  | @char char tail rest word _ ih =>
    rw [List.cons_append, identifierTail, if_pos (continuesIdentifier_word word _), ih]
    rfl
  | @hyphen tail rest noArrow _ ih =>
    rw [List.cons_append, identifierTail, if_pos (continuesIdentifier_hyphen noArrow), ih]
    rfl

theorem identifierTail_word {word rest : List Char} (is : Word word rest) :
    identifierTail (word ++ rest) = (word ++ (identifierTail rest).1, (identifierTail rest).2) := by
  cases is with
  | mk start tail => exact identifierTail_wordTail (.char (by simp [isWordChar, start]) tail)

theorem dropWhile_inline {space : List Char} (inline : Inline space) (rest : List Char) :
    (space ++ rest).dropWhile isInlineSpace = rest.dropWhile isInlineSpace :=
  List.dropWhile_append_of_pos inline

theorem takeWhile_inline {space : List Char} (inline : Inline space) (rest : List Char) :
    (space ++ rest).takeWhile isInlineSpace = space ++ rest.takeWhile isInlineSpace :=
  List.takeWhile_append_of_pos inline

theorem dropWhile_of_startsWord {text : List Char} (starts : startsWord text = true) :
    text.dropWhile isInlineSpace = text := by
  apply Text.dropWhile_of_head?
  intro char first
  obtain ⟨rest, rfl⟩ := List.head?_eq_some_iff.mp first
  exact isInlineSpace_of_isWordStart starts

theorem identifierTail_inline {space rest : List Char} (inline : Inline space)
    (starts : startsWord rest = true) :
    identifierTail (space ++ rest) = (space ++ (identifierTail rest).1, (identifierTail rest).2) := by
  induction space with
  | nil => rfl
  | cons char space ih =>
    obtain ⟨first, others⟩ := List.forall_mem_cons.mp inline
    have goes : continuesIdentifier char (space ++ rest) = true := by
      have onward : startsWord ((space ++ rest).dropWhile isInlineSpace) = true := by
        rw [dropWhile_inline others, dropWhile_of_startsWord starts, starts]
      simp [continuesIdentifier, first, onward]
    rw [List.cons_append, identifierTail, if_pos goes, ih others]
    rfl

theorem Identifier.identifierTail {name rest : List Char} (identifier : Identifier name rest) :
    identifierTail (name ++ rest) =
      (name ++ (Grammar.identifierTail rest).1, (Grammar.identifierTail rest).2) := by
  induction identifier with
  | word only => exact identifierTail_word only
  | @words word space name rest first inline _ further ih =>
    have behind := identifierTail_inline inline (further.startsWord rest)
    rw [ih] at behind
    have whole := identifierTail_word first
    rw [List.append_assoc space] at whole
    rw [behind] at whole
    simpa using whole

def Stops (rest : List Char) : Prop := identifierTail rest = ([], rest)

theorem Identifier.identifier? {name rest : List Char} (identifier : Identifier name rest)
    (stops : Stops rest) : identifier? (name ++ rest) = some (name, rest) := by
  rw [identifier?_eq, if_pos (identifier.startsWord rest), identifier.identifierTail, stops]
  simp

end Completeness

section Soundness

inductive IdentifierTail : List Char → List Char → Prop where
  | word {tail rest : List Char} (only : WordTail tail rest) : IdentifierTail tail rest
  | words {tail space name rest : List Char} (first : WordTail tail (space ++ name ++ rest))
      (inline : Inline space) (between : space ≠ []) (further : Identifier name rest) :
      IdentifierTail (tail ++ space ++ name) rest

theorem IdentifierTail.cons {char : Char} {taken left : List Char} (tail : IdentifierTail taken left)
    (grows : ∀ first more, first ++ more = taken ++ left → WordTail first more →
      WordTail (char :: first) more) : IdentifierTail (char :: taken) left := by
  cases tail with
  | word only => exact .word (grows _ _ rfl only)
  | words first inline between further =>
    exact .words (grows _ _ (by simp) first) inline between further

theorem IdentifierTail.identifier {first : Char} {taken left : List Char}
    (start : isWordStart first = true) (tail : IdentifierTail taken left) :
    Identifier (first :: taken) left := by
  cases tail with
  | word only => exact .word (.mk start only)
  | words word inline between further => exact .words (.mk start word) inline between further

theorem identifierTail_sound (text : List Char) :
    IdentifierTail (Grammar.identifierTail text).1 (Grammar.identifierTail text).2 := by
  match text with
  | [] => exact .word .nil
  | char :: rest =>
    have joined := identifierTail_append rest
    by_cases word : isWordChar char = true
    · rw [Grammar.identifierTail, if_pos (continuesIdentifier_word word rest)]
      exact (identifierTail_sound rest).cons fun _ _ _ => .char word
    by_cases hyphen : char = '-' ∧ rest.head? ≠ some '>'
    · obtain ⟨rfl, noArrow⟩ := hyphen
      rw [Grammar.identifierTail, if_pos (continuesIdentifier_hyphen noArrow)]
      rw [← joined] at noArrow
      exact (identifierTail_sound rest).cons fun _ _ same => .hyphen (same ▸ noArrow)
    by_cases space : isInlineSpace char = true ∧ startsWord (rest.dropWhile isInlineSpace) = true
    · obtain ⟨inline, starts⟩ := space
      -- The space is taken as one run, with the first character of the word that it leads to.
      have run : char :: rest =
          char :: rest.takeWhile isInlineSpace ++ rest.dropWhile isInlineSpace := by simp
      have all : Inline (char :: rest.takeWhile isInlineSpace) :=
        List.forall_mem_cons.mpr ⟨inline, fun _ => List.mem_takeWhile_imp⟩
      have shorter := List.length_dropWhile_le isInlineSpace rest
      rw [run, identifierTail_inline all starts]
      generalize rest.dropWhile isInlineSpace = behind at starts shorter
      cases behind with
      | nil => cases starts
      | cons first more =>
        have start : isWordStart first = true := starts
        have word : isWordChar first = true := by simp [isWordChar, start]
        rw [Grammar.identifierTail, if_pos (continuesIdentifier_word word more)]
        have fewer : more.length < (char :: rest).length := by
          simp only [List.length_cons] at shorter ⊢
          omega
        exact @IdentifierTail.words [] _ _ _ .nil all (by simp)
          ((identifierTail_sound more).identifier start)
    · have ends : continuesIdentifier char rest = false := by
        simp only [continuesIdentifier]
        grind
      rw [Grammar.identifierTail, if_neg (by simp [ends])]
      exact .word .nil
termination_by text.length
decreasing_by
  · exact Nat.lt_succ_self _
  · exact Nat.lt_succ_self _
  · exact fewer

theorem stops_identifierTail (text : List Char) : Stops (Grammar.identifierTail text).2 := by
  induction text with
  | nil => rfl
  | cons char rest ih =>
    unfold Grammar.identifierTail
    split
    next => exact ih
    next ends => rw [Stops, Grammar.identifierTail, if_neg ends]

/-- An identifier is read just if it is one and the rest does not go on with it. -/
theorem identifier?_eq_some_iff {text name rest : List Char} :
    Grammar.identifier? text = some (name, rest) ↔
      text = name ++ rest ∧ Identifier name rest ∧ Stops rest := by
  constructor
  · intro found
    obtain ⟨first, more, rfl, start, rfl, rfl⟩ := identifier?_eq_some.mp found
    refine ⟨?_, (identifierTail_sound more).identifier start, stops_identifierTail more⟩
    rw [List.cons_append, identifierTail_append]
  · rintro ⟨rfl, identifier, stops⟩
    exact identifier.identifier? stops

end Soundness

end BoxDiagram.Grammar
