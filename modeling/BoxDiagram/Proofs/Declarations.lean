import BoxDiagram.Proofs.Commas
import BoxDiagram.Proofs.Comments

/-!
What a declaration looks like to a scan. A name holds no quotes, no brackets and no arrow, and a list
is carried as a whole, so a scan that has come to the brace of a declaration is outside of everything
that could protect it.
-/

namespace BoxDiagram

open Text

namespace Grammar

def InIdentifier (char : Char) : Prop :=
  isWordChar char = true ∨ char = '-' ∨ isInlineSpace char = true

theorem InIdentifier.ne {char other : Char} (part : InIdentifier char)
    (foreign : ¬InIdentifier other) : char ≠ other := by
  rintro rfl
  exact foreign part

instance (char : Char) : Decidable (InIdentifier char) :=
  inferInstanceAs (Decidable (_ ∨ _ ∨ _))

theorem identifierTail_chars (text : List Char) :
    ∀ char ∈ (identifierTail text).1, InIdentifier char := by
  induction text with
  | nil => simp [identifierTail]
  | cons first rest ih =>
    unfold identifierTail
    split
    next continues =>
      intro char member
      rcases List.mem_cons.mp member with rfl | later
      · simp only [continuesIdentifier, Bool.or_eq_true, Bool.and_eq_true, beq_iff_eq] at continues
        rcases continues with (word | ⟨hyphen, -⟩) | ⟨space, -⟩
        · exact .inl word
        · exact .inr (.inl hyphen)
        · exact .inr (.inr space)
      · exact ih char later
    next => simp

theorem identifierTail_arrowless {text before after : List Char}
    (whole : (identifierTail text).1 = before ++ '-' :: after) :
    (after ++ (identifierTail text).2).head? ≠ some '>' := by
  induction text generalizing before with
  | nil => simp [identifierTail] at whole
  | cons first rest ih =>
    unfold identifierTail at whole ⊢
    split at whole
    next continues =>
      rw [if_pos continues]
      cases before with
      | cons other before => exact ih (List.cons.inj whole).2
      | nil =>
        obtain ⟨rfl, rfl⟩ := List.cons.inj whole
        rw [identifierTail_append]
        have unword : isWordChar '-' = false := by decide
        have unspace : isInlineSpace '-' = false := by decide
        simpa [continuesIdentifier, unword, unspace] using continues
    next => simp at whole

theorem identifier?_eq_some {text name left : List Char} :
    identifier? text = some (name, left) ↔ ∃ first rest, text = first :: rest ∧
      isWordStart first = true ∧ name = first :: (identifierTail rest).1 ∧
      left = (identifierTail rest).2 := by
  cases text with
  | nil => simp [identifier?]
  | cons first rest =>
    unfold identifier?
    split
    next start => grind
    next stop => grind

theorem identifier?_chars {text name left : List Char}
    (found : identifier? text = some (name, left)) : ∀ char ∈ name, InIdentifier char := by
  obtain ⟨first, rest, rfl, start, rfl, rfl⟩ := identifier?_eq_some.mp found
  intro char member
  rcases List.mem_cons.mp member with rfl | later
  · exact .inl (by simp [isWordChar, start])
  · exact identifierTail_chars rest char later

theorem identifier?_arrowless {text name left before after : List Char}
    (found : identifier? text = some (name, left)) (whole : name = before ++ '-' :: after) :
    (after ++ left).head? ≠ some '>' := by
  obtain ⟨first, rest, rfl, start, rfl, rfl⟩ := identifier?_eq_some.mp found
  cases before with
  | nil =>
    obtain ⟨rfl, -⟩ := List.cons.inj whole
    exact absurd start (by decide)
  | cons other before => exact identifierTail_arrowless (List.cons.inj whole).2

theorem listTail?_append {enclosure : PropertyList.Enclosure} {source text left : List Char}
    (found : listTail? enclosure.quoted enclosure.depth source = some (text, left)) :
    text ++ ']' :: left = source := by
  induction source generalizing enclosure text with
  | nil => simp [listTail?] at found
  | cons char rest ih =>
    rcases PropertyList.listTail?_cons.mp found with ⟨rfl, -, rfl, rfl⟩ | ⟨-, body, rfl, onward⟩
    · rfl
    · rw [List.cons_append, ih onward]

theorem list?_eq_some {source text left : List Char} :
    list? source = some (text, left) ↔
      ∃ rest, source = '[' :: rest ∧ listTail? false 0 rest = some (text, left) := by
  unfold list?
  split
  next rest => simp
  next other =>
    simp only [reduceCtorEq, false_iff, not_exists, not_and]
    rintro rest rfl
    exact absurd rfl (other rest)

def bracketed : Option (List Char) → List Char
  | none => []
  | some body => '[' :: body ++ [']']

theorem optionalList_append (text : List Char) :
    bracketed (optionalList text).1 ++ (optionalList text).2 = text := by
  unfold optionalList
  split
  next body left found =>
    obtain ⟨rest, rfl, tail⟩ := list?_eq_some.mp found
    have whole := @listTail?_append {} _ _ _ tail
    simp [bracketed, whole]
  next => rfl

theorem optionalBrace_append (text : List Char) :
    (if (optionalBrace text).1 then ['{'] else []) ++ (optionalBrace text).2 = text := by
  unfold optionalBrace
  split <;> rfl

theorem declaration?_shape {line : List Char} {parts : DeclarationParts}
    (found : declaration? line = some parts) :
    ∃ space behind, identifier? line = some (parts.name, parts.gap ++ bracketed parts.body ++ space ++
        (if parts.opens then ['{'] else []) ++ behind) ∧
      (∀ char ∈ parts.gap ++ space ++ behind, isInlineSpace char = true) ∧
      ∀ body, parts.body = some body → ∃ source left, list? source = some (body, left) := by
  simp only [declaration?, bind, Option.bind_eq_some_iff, Prod.exists] at found
  obtain ⟨name, rest, named, found⟩ := found
  split at found
  next complete =>
    cases found
    simp only [Bool.and_eq_true] at complete
    have space : rest.takeWhile isInlineSpace ++ rest.dropWhile isInlineSpace = rest :=
      List.takeWhile_append_dropWhile
    have listed := optionalList_append (rest.dropWhile isInlineSpace)
    generalize list : optionalList (rest.dropWhile isInlineSpace) = read at listed complete
    have more : read.2.takeWhile isInlineSpace ++ read.2.dropWhile isInlineSpace = read.2 :=
      List.takeWhile_append_dropWhile
    have brace := optionalBrace_append (read.2.dropWhile isInlineSpace)
    refine ⟨read.2.takeWhile isInlineSpace, (optionalBrace (read.2.dropWhile isInlineSpace)).2,
      ?_, ?_, ?_⟩
    · simp only [List.append_assoc, brace, more, listed, space, named]
    · intro char member
      simp only [List.mem_append] at member
      rcases member with (first | second) | last
      · exact List.mem_takeWhile_imp first
      · exact List.mem_takeWhile_imp second
      · exact List.all_eq_true.mp complete.1 char last
    · intro body same
      unfold optionalList at list
      split at list
      next found =>
        cases list
        cases same
        exact ⟨_, _, found⟩
      next =>
        cases list
        cases same
  next => cases found

end Grammar

namespace Line

open Grammar

theorem Scan.advance_inside {scan : Scan} (inside : scan.isOutside = false) (char : Char)
    (rest : List Char) : (scan.advance char rest).arrowSeen = scan.arrowSeen ∧
      (scan.advance char rest).inLabel = scan.inLabel := by
  simp [Scan.advance, inside]

/-- A list is carried up to its closing bracket, behind which the scan is as plain as before. -/
theorem Scan.carried_listTail {enclosure : PropertyList.Enclosure} {source text left : List Char}
    (found : listTail? enclosure.quoted enclosure.depth source = some (text, left)) {scan : Scan}
    (quoted : scan.quoted = enclosure.quoted) (depth : scan.depth = enclosure.depth + 1)
    (arrowless : scan.arrowSeen = false) (unlabelled : scan.inLabel = false) (rest : List Char) :
    ∃ last, Scan.Carried scan (text ++ [']']) rest last ∧ last.Plain := by
  induction source generalizing enclosure text scan with
  | nil => simp [listTail?] at found
  | cons char source ih =>
    have inside : scan.isOutside = false := by simp [Scan.isOutside, depth]
    have goes (onward : List Char) : scan.stops char onward = false := by simp [Scan.stops, inside]
    rcases PropertyList.listTail?_cons.mp found with ⟨rfl, rfl, rfl, rfl⟩ | ⟨within, body, rfl, onward⟩
    · refine ⟨_, .cons (goes _) .nil, ?_, ?_, ?_⟩
      · simp [Scan.isOutside, Scan.advance, quoted, depth]
      · rw [(Scan.advance_inside inside _ _).1, arrowless]
      · rw [(Scan.advance_inside inside _ _).2, unlabelled]
    · have next : (scan.advance char (body ++ [']'] ++ rest)).quoted = (enclosure.next char).quoted ∧
          (scan.advance char (body ++ [']'] ++ rest)).depth = (enclosure.next char).depth + 1 := by
        obtain ⟨isQuoted, deep⟩ := enclosure
        simp only at quoted depth
        simp only [PropertyList.Enclosure.mk.injEq] at within
        simp only [Scan.advance, PropertyList.Enclosure.next, quoted, depth]
        grind
      obtain ⟨last, carried, plain⟩ := ih onward next.1 next.2
        ((Scan.advance_inside inside _ _).1.trans arrowless)
        ((Scan.advance_inside inside _ _).2.trans unlabelled)
      exact ⟨last, .cons (goes _) carried, plain⟩

theorem Scan.carried_list {source body left : List Char} (found : list? source = some (body, left))
    {scan : Scan} (plain : scan.Plain) (rest : List Char) :
    ∃ last, Scan.Carried scan ('[' :: body ++ [']']) rest last ∧ last.Plain := by
  obtain ⟨source, rfl, tail⟩ := list?_eq_some.mp found
  obtain ⟨unquoted, flat⟩ := Scan.isOutside_iff.mp plain.outside
  have goes (onward : List Char) : scan.stops '[' onward = false := by
    simp [Scan.stops, Scan.marksComment]
  obtain ⟨last, carried, ends⟩ := @Scan.carried_listTail {} _ _ _ tail
    (scan.advance '[' (body ++ [']'] ++ rest)) (by simp [Scan.advance, unquoted])
    (by simp [Scan.advance, unquoted, flat]) (by simp [Scan.advance, plain.arrowless])
    (by simp [Scan.advance, plain.unlabelled]) rest
  exact ⟨last, .cons (goes _) carried, ends⟩

theorem isBlank_of_isInlineSpace {char : Char} (space : isInlineSpace char = true) :
    isBlank char = true := by
  simp only [isInlineSpace, Bool.or_eq_true, beq_iff_eq] at space
  rcases space with rfl | rfl <;> decide

theorem Scan.Carried.plain_identifier {text name left behind rest : List Char} {scan last : Scan}
    (found : identifier? text = some (name, left)) (onward : left ≠ [])
    (carried : Scan.Carried scan name (left ++ behind ++ rest) last) (plain : scan.Plain) :
    last.Plain := by
  apply carried.plain plain
  · intro char member
    have part := identifier?_chars found char member
    exact ⟨part.ne (by decide), part.ne (by decide)⟩
  · intro before after whole
    have noArrow := identifier?_arrowless found whole
    cases after with
    | cons char after => simpa using noArrow
    | nil =>
      obtain ⟨char, more, rfl⟩ := List.exists_cons_of_ne_nil onward
      simpa using noArrow

/-- The brace of a declaration is not carried along. -/
theorem Scan.Carried.not_opens {line blanks behind rest : List Char} {parts : DeclarationParts}
    {last : Scan} (carried : Scan.Carried {} (blanks ++ line ++ behind) rest last)
    (white : ∀ char ∈ blanks, Text.isBlank char = true) (found : declaration? line = some parts) :
    parts.opens = false := by
  cases opens : parts.opens with
  | false => rfl
  | true =>
    obtain ⟨space, tail, named, inline, listed⟩ := declaration?_shape found
    have whole := identifier?_append named
    simp only [opens, if_true] at named whole
    simp only [← whole, List.append_assoc] at carried
    obtain ⟨indented, indent, carried⟩ := carried.split
    obtain ⟨behindName, name, carried⟩ := carried.split
    obtain ⟨behindGap, gap, carried⟩ := carried.split
    obtain ⟨behindList, list, carried⟩ := carried.split
    obtain ⟨behindSpace, more, carried⟩ := carried.split
    have blank : ∀ char ∈ parts.gap ++ space ++ tail, Text.isBlank char = true :=
      fun char member => isBlank_of_isInlineSpace (inline char member)
    have atName : indented.Plain := indent.plain_blanks Scan.plain_fresh white
    have atGap : behindName.Plain :=
      Scan.Carried.plain_identifier named (by simp) (by simpa using name) atName
    have atList : behindGap.Plain := gap.plain_blanks atGap fun char member => blank char (by simp [member])
    have atSpace : behindList.Plain := by
      cases body : parts.body with
      | none =>
        rw [body] at list
        cases list
        exact atList
      | some text =>
        obtain ⟨source, left, read⟩ := listed text body
        obtain ⟨last, again, plain⟩ := Scan.carried_list read atList _
        rw [body] at list
        exact list.unique again ▸ plain
    have atBrace : behindSpace.Plain := more.plain_blanks atSpace fun char member => blank char (by simp [member])
    cases carried with
    | cons goes _ => simp [Scan.stops, atBrace.outside, atBrace.unlabelled] at goes

end Line

end BoxDiagram
