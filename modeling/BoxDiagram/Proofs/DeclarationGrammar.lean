import BoxDiagram.Proofs.Identifiers

/-!
The grammar of declarations. The text of a property list is a body: quotes are paired in it and
brackets outside of them balanced, to any depth. A declaration is an identifier, a list and a brace, of
which the list or the brace may be missing, with space between them and behind.
-/

namespace BoxDiagram.Grammar

open Text PropertyList

inductive Body : List Char → Prop where
  | nil : Body []
  | char {char : Char} {rest : List Char} (plain : char ∉ ['"', '[', ']']) (further : Body rest) :
      Body (char :: rest)
  | quoted {text rest : List Char} (unquoted : '"' ∉ text) (further : Body rest) :
      Body ('"' :: text ++ '"' :: rest)
  | nested {inner rest : List Char} (inside : Body inner) (further : Body rest) :
      Body ('[' :: inner ++ ']' :: rest)

theorem listTail?_quoted {text : List Char} (unquoted : '"' ∉ text) (depth : Nat)
    (rest : List Char) : listTail? true depth (text ++ '"' :: rest) =
      (listTail? false depth rest).map fun (body, left) => (text ++ '"' :: body, left) := by
  induction text with
  | nil => simp [listTail?]
  | cons char text ih =>
    simp only [List.mem_cons, not_or] at unquoted
    rw [List.cons_append, listTail?.eq_def]
    simp [Ne.symm unquoted.1, ih unquoted.2, Function.comp_def]

theorem Body.listTail? {text : List Char} (is : Body text) (depth : Nat) (rest : List Char) :
    listTail? false depth (text ++ rest) =
      (Grammar.listTail? false depth rest).map fun (body, left) => (text ++ body, left) := by
  induction is generalizing depth rest with
  | nil => simp
  | char plain _ ih =>
    simp only [List.mem_cons, List.not_mem_nil, or_false, not_or] at plain
    rw [List.cons_append, Grammar.listTail?.eq_def]
    simp [plain, ih, Function.comp_def]
  | @quoted text more unquoted _ ih =>
    rw [List.cons_append, List.cons_append, Grammar.listTail?.eq_def]
    simp [listTail?_quoted unquoted, ih, Function.comp_def]
  | @nested inner more _ _ inside further =>
    have close : Grammar.listTail? false (depth + 1) (']' :: (more ++ rest)) =
        (Grammar.listTail? false depth rest).map fun (body, left) => (']' :: more ++ body, left) := by
      rw [Grammar.listTail?.eq_def]
      simp [further, Function.comp_def]
    rw [List.cons_append, List.cons_append, List.append_assoc, Grammar.listTail?.eq_def]
    simp [inside, close, Function.comp_def]

/-- Bodies, each of which but the last is followed by a closing bracket, as many as are given. -/
inductive Levels : Nat → List Char → Prop where
  | last {body : List Char} (is : Body body) : Levels 0 body
  | close {depth : Nat} {body rest : List Char} (is : Body body) (further : Levels depth rest) :
      Levels (depth + 1) (body ++ ']' :: rest)

/-- What can be put in front of a body can be put in front of the first one. -/
theorem Levels.prepend {depth : Nat} {first rest : List Char} (levels : Levels depth rest)
    (grows : ∀ body, Body body → Body (first ++ body)) : Levels depth (first ++ rest) := by
  cases levels with
  | last is => exact .last (grows _ is)
  | close is further =>
    rw [← List.append_assoc]
    exact .close (grows _ is) further

theorem listTail?_sound {source text left : List Char} (enclosure : Enclosure)
    (found : listTail? enclosure.quoted enclosure.depth source = some (text, left)) :
    (enclosure.quoted = false → Levels enclosure.depth text) ∧
      (enclosure.quoted = true → ∃ inner rest, text = inner ++ '"' :: rest ∧ '"' ∉ inner ∧
        Levels enclosure.depth rest) := by
  induction source generalizing enclosure text with
  | nil => simp [listTail?] at found
  | cons char source ih =>
    rcases listTail?_cons.mp found with ⟨rfl, rfl, rfl, -⟩ | ⟨other, body, rfl, onward⟩
    · exact ⟨fun _ => .last .nil, by simp⟩
    · obtain ⟨plain, quoted⟩ := ih _ onward
      obtain ⟨isQuoted, depth⟩ := enclosure
      cases isQuoted with
      | true =>
        refine ⟨by simp, fun _ => ?_⟩
        by_cases quote : char = '"'
        · subst quote
          exact ⟨[], body, rfl, by simp, plain rfl⟩
        · have within : Enclosure.next ⟨true, depth⟩ char = ⟨true, depth⟩ := by
            simp [Enclosure.next, quote]
          rw [within] at quoted
          obtain ⟨inner, rest, rfl, unquoted, levels⟩ := quoted rfl
          exact ⟨char :: inner, rest, rfl, by simp [unquoted, Ne.symm quote], levels⟩
      | false =>
        refine ⟨fun _ => ?_, by simp⟩
        by_cases quote : char = '"'
        · subst quote
          obtain ⟨inner, rest, rfl, unquoted, levels⟩ := quoted rfl
          have grown : Levels depth ('"' :: inner ++ ['"'] ++ rest) :=
            levels.prepend fun body is => by simpa using Body.quoted unquoted is
          simpa using grown
        by_cases opening : char = '['
        · subst opening
          cases plain rfl with
          | @close _ inner rest inside levels =>
            have grown : Levels depth ('[' :: inner ++ [']'] ++ rest) :=
              levels.prepend fun body is => by simpa using Body.nested inside is
            simpa using grown
        by_cases closing : char = ']'
        · subst closing
          cases depth with
          | zero => exact absurd ⟨rfl, rfl⟩ other
          | succ depth => exact @Levels.close _ [] _ .nil (plain rfl)
        · have levels : Levels depth body := by
            simpa [Enclosure.next, quote, opening, closing] using plain
          have plain : char ∉ ['"', '[', ']'] := by simp [quote, opening, closing]
          have grown : Levels depth ([char] ++ body) := levels.prepend fun _ => .char plain
          exact grown

/-- A list ends at the first closing bracket that makes a body of the text in front of it. -/
theorem listTail?_eq_some_iff {source body left : List Char} :
    listTail? false 0 source = some (body, left) ↔ source = body ++ ']' :: left ∧ Body body := by
  constructor
  · intro found
    refine ⟨(@listTail?_append {} _ _ _ found).symm, ?_⟩
    cases (@listTail?_sound _ _ _ {} found).1 rfl with
    | last is => exact is
  · rintro ⟨rfl, is⟩
    have ends : Grammar.listTail? false 0 (']' :: left) = some ([], left) := by
      simp [Grammar.listTail?]
    rw [is.listTail?, ends]
    simp

inductive DeclarationTail (parts : DeclarationParts) : List Char → Prop where
  | mk {space behind : List Char} (gap : Inline parts.gap) (inline : Inline space)
      (ends : Inline behind) (list : ∀ body, parts.body = some body → Body body)
      (declares : parts.body.isSome = true ∨ parts.opens = true) :
      DeclarationTail parts (parts.gap ++ bracketed parts.body ++ space ++
        (if parts.opens then ['{'] else []) ++ behind)

def IsDeclaration (line : List Char) (parts : DeclarationParts) : Prop :=
  ∃ rest, line = parts.name ++ rest ∧ Identifier parts.name rest ∧ DeclarationTail parts rest

section Space

variable {space : List Char} {char : Char}

theorem takeWhile_inline_cons (inline : Inline space) (black : isInlineSpace char = false)
    (rest : List Char) : (space ++ char :: rest).takeWhile isInlineSpace = space := by
  simp [takeWhile_inline inline, black]

theorem dropWhile_inline_cons (inline : Inline space) (black : isInlineSpace char = false)
    (rest : List Char) : (space ++ char :: rest).dropWhile isInlineSpace = char :: rest := by
  simp [dropWhile_inline inline, black]

theorem dropWhile_inline_eq_nil (inline : Inline space) : space.dropWhile isInlineSpace = [] :=
  List.dropWhile_eq_nil_iff.mpr inline

theorem stops_cons (foreign : ¬InIdentifier char) (rest : List Char) : Stops (char :: rest) := by
  have ends : continuesIdentifier char rest = false := by
    simp only [InIdentifier, not_or] at foreign
    simp only [continuesIdentifier]
    grind
  rw [Stops, identifierTail, if_neg (by simp [ends])]

theorem Stops.inline {rest : List Char} (stops : Stops rest) (inline : Inline space)
    (wordless : startsWord (rest.dropWhile isInlineSpace) = false) : Stops (space ++ rest) := by
  cases space with
  | nil => exact stops
  | cons char space =>
    obtain ⟨first, others⟩ := List.forall_mem_cons.mp inline
    have ends : continuesIdentifier char (space ++ rest) = false := by
      have noHyphen : char ≠ '-' := by
        rintro rfl
        cases first
      have noWord : isWordChar char = false := isWordChar_of_isBlank (Line.isBlank_of_isInlineSpace first)
      simp [continuesIdentifier, noWord, noHyphen, dropWhile_inline others, wordless]
    rw [Stops, List.cons_append, identifierTail, if_neg (by simp [ends])]

theorem Stops.inline_cons (inline : Inline space) (foreign : ¬InIdentifier char) (rest : List Char) :
    Stops (space ++ char :: rest) := by
  refine (stops_cons foreign rest).inline inline ?_
  simp only [InIdentifier, isWordChar, Bool.or_eq_true, not_or, Bool.not_eq_true] at foreign
  rw [List.dropWhile_cons, if_neg (by simp [foreign.2.2])]
  exact foreign.1.1

theorem stops_inline (inline : Inline space) : Stops space := by
  have stops : Stops (space ++ []) := Stops.inline rfl inline rfl
  rwa [List.append_nil] at stops

end Space

theorem optionalList_body {body : List Char} (is : Body body) (rest : List Char) :
    optionalList (bracketed (some body) ++ rest) = (some body, rest) := by
  have found : list? ('[' :: (body ++ ']' :: rest)) = some (body, rest) :=
    list?_eq_some.mpr ⟨_, rfl, listTail?_eq_some_iff.mpr ⟨rfl, is⟩⟩
  simp [optionalList, bracketed, found]

theorem optionalBrace_inline {space behind : List Char} (inline : Inline space)
    (ends : Inline behind) (opens : Bool) :
    ∃ left, optionalBrace ((space ++ (if opens then ['{'] else []) ++ behind).dropWhile isInlineSpace) =
      (opens, left) ∧ Inline left := by
  cases opens with
  | true =>
    refine ⟨behind, ?_, ends⟩
    simp [dropWhile_inline_cons inline (by decide : isInlineSpace '{' = false), optionalBrace]
  | false =>
    refine ⟨[], ?_, by simp [Inline]⟩
    simp [dropWhile_inline inline, dropWhile_inline_eq_nil ends, optionalBrace]

theorem DeclarationTail.exists_mark {parts : DeclarationParts} {rest : List Char}
    (tail : DeclarationTail parts rest) : ∃ space mark more, rest = space ++ mark :: more ∧
      Inline space ∧ (mark = '[' ∨ mark = '{') := by
  obtain ⟨name, gap, body, opens⟩ := parts
  obtain ⟨inlineGap, inline, ends, list, declares⟩ := tail
  cases body with
  | some body => exact ⟨gap, '[', _, by simp [bracketed]; rfl, inlineGap, .inl rfl⟩
  | none =>
    obtain rfl : opens = true := by simpa using declares
    exact ⟨gap ++ _, '{', _, by simp [bracketed]; rfl, List.forall_mem_append.mpr ⟨inlineGap, inline⟩,
      .inr rfl⟩

theorem DeclarationTail.stops {parts : DeclarationParts} {rest : List Char}
    (tail : DeclarationTail parts rest) : Stops rest := by
  obtain ⟨space, mark, more, rfl, inline, isMark⟩ := tail.exists_mark
  have foreign : ¬InIdentifier mark := by rcases isMark with rfl | rfl <;> decide
  exact .inline_cons inline foreign more

theorem DeclarationTail.read {parts : DeclarationParts} {rest : List Char}
    (tail : DeclarationTail parts rest) : ∃ behind left,
      optionalList (rest.dropWhile isInlineSpace) = (parts.body, behind) ∧
      optionalBrace (behind.dropWhile isInlineSpace) = (parts.opens, left) ∧
      Inline left ∧
      (parts.body.isSome = true → rest.takeWhile isInlineSpace = parts.gap) := by
  obtain ⟨name, gap, body, opens⟩ := parts
  obtain @⟨space, ends, inlineGap, inline, inlineEnds, list, declares⟩ := tail
  dsimp only at inlineGap list declares ⊢
  cases body with
  | some body =>
    have black : isInlineSpace '[' = false := by decide
    obtain ⟨left, brace, all⟩ := optionalBrace_inline inline inlineEnds opens
    let behind := space ++ (if opens then ['{'] else []) ++ ends
    have spelled : gap ++ bracketed (some body) ++ space ++ (if opens then ['{'] else []) ++ ends =
        gap ++ '[' :: (body ++ ']' :: behind) := by
      simp [bracketed, behind]
    have read : optionalList ('[' :: (body ++ ']' :: behind)) = (some body, behind) := by
      simpa [bracketed] using optionalList_body (list body rfl) behind
    rw [spelled, dropWhile_inline_cons inlineGap black, takeWhile_inline_cons inlineGap black]
    exact ⟨behind, left, read, brace, all, fun _ => rfl⟩
  | none =>
    have black : isInlineSpace '{' = false := by decide
    obtain rfl : opens = true := by simpa using declares
    have before : Inline (gap ++ space) := List.forall_mem_append.mpr ⟨inlineGap, inline⟩
    have spelled : gap ++ bracketed none ++ space ++ (if true then ['{'] else []) ++ ends =
        gap ++ space ++ '{' :: ends := by
      simp [bracketed]
    rw [spelled, dropWhile_inline_cons before black]
    exact ⟨'{' :: ends, ends, rfl, by simp [black, optionalBrace], inlineEnds, by simp⟩

/-- The parts of a declaration are read from it, but for the space behind the name, which only counts
in front of a list. -/
theorem IsDeclaration.declaration? {line : List Char} {parts : DeclarationParts}
    (is : IsDeclaration line parts) :
    ∃ gap, declaration? line = some { parts with gap } ∧
      (parts.body.isSome = true → gap = parts.gap) := by
  obtain ⟨rest, rfl, identifier, tail⟩ := is
  have declares : parts.body.isSome = true ∨ parts.opens = true := by
    cases tail with
    | mk _ _ _ _ declares => exact declares
  have named := identifier.identifier? tail.stops
  obtain ⟨behind, left, list, brace, all, gap⟩ := tail.read
  refine ⟨rest.takeWhile isInlineSpace, ?_, gap⟩
  have complete : (left.all isInlineSpace && (parts.body.isSome || parts.opens)) = true := by
    rw [Bool.and_eq_true, List.all_eq_true, Bool.or_eq_true]
    exact ⟨all, declares⟩
  simp only [Grammar.declaration?, named, bind, Option.bind_some, list, brace, complete, if_true]

theorem isDeclaration_of_declaration? {line : List Char} {parts : DeclarationParts}
    (found : declaration? line = some parts) : IsDeclaration line parts := by
  obtain ⟨space, behind, named, inline, listed⟩ := declaration?_shape found
  obtain ⟨whole, identifier, -⟩ := identifier?_eq_some_iff.mp named
  refine ⟨_, whole, identifier, .mk ?_ ?_ ?_ ?_ ?_⟩
  · exact fun char member => inline char (by simp [member])
  · exact fun char member => inline char (by simp [member])
  · exact fun char member => inline char (by simp [member])
  · intro body same
    obtain ⟨source, left, list⟩ := listed body same
    obtain ⟨rest, -, tail⟩ := list?_eq_some.mp list
    exact (listTail?_eq_some_iff.mp tail).2
  · simp only [declaration?, bind, Option.bind_eq_some_iff, Prod.exists] at found
    obtain ⟨name, rest, -, found⟩ := found
    split at found
    next complete =>
      cases found
      simpa using (Bool.and_eq_true_iff.mp complete).2
    next => cases found

end BoxDiagram.Grammar
