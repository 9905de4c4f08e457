import BoxDiagram.Proofs.DeclarationGrammar
import BoxDiagram.Proofs.Outline

/-!
The grammar of connections: identifiers with arrows between them, and what may stand behind the last one,
space or a colon with a label. The first character behind a name and its space tells whether a hop, a
label or the end of the line follows, so a line has one decomposition at most, and the reader finds it.
-/

namespace BoxDiagram.Grammar

open Text

inductive Chain : List HopParts → List Char → List Char → Prop where
  | nil {tail : List Char} : Chain [] tail tail
  | cons {before behind target rest tail : List Char} {kind : EdgeKind} {more : List HopParts}
      (spaceBefore : Inline before) (spaceBehind : Inline behind) (name : Identifier target rest)
      (further : Chain more rest tail) :
      Chain (⟨before ++ arrowText kind ++ behind, kind, target⟩ :: more)
        (before ++ arrowText kind ++ behind ++ (target ++ rest)) tail

def nonempty (label : List Char) : Option (List Char) := if label = [] then none else some label

def IsQuoted (text inner : List Char) : Prop :=
  ∃ behind, text = '"' :: inner ++ '"' :: behind ∧ '"' ∉ inner ∧ Inline behind

inductive LabelTail : List Char → Option (List Char) → Prop where
  | none {space : List Char} (inline : Inline space) : LabelTail space none
  | quoted {space between text inner : List Char} (inline : Inline space)
      (inlineBetween : Inline between) (quoted : IsQuoted text inner) :
      LabelTail (space ++ ':' :: (between ++ text)) (nonempty inner)
  | plain {space between text : List Char} (inline : Inline space)
      (inlineBetween : Inline between)
      (begins : ∀ char, text.head? = some char → isInlineSpace char = false)
      (unquoted : ∀ inner, ¬IsQuoted text inner) :
      LabelTail (space ++ ':' :: (between ++ text)) (nonempty (trimEnd text))

def IsConnection (line : List Char) (parts : ConnectionParts) : Prop :=
  ∃ rest tail, line = parts.first ++ rest ∧ Identifier parts.first rest ∧
    Chain parts.hops rest tail ∧ parts.hops ≠ [] ∧ LabelTail tail parts.label

section Labels

theorem quotedToEnd?_eq_some_iff {text inner : List Char} :
    quotedToEnd? text = some inner ↔ IsQuoted text inner := by
  constructor
  · intro found
    unfold quotedToEnd? at found
    split at found
    next rest =>
      have whole : rest.takeWhile (· != '"') ++ rest.dropWhile (· != '"') = rest :=
        List.takeWhile_append_dropWhile
      split at found
      next => cases found
      next quote after ends =>
        have isQuote : quote = '"' := by
          have stops := List.head?_dropWhile_not (· != '"') rest
          simpa [ends] using stops
        rw [ends, isQuote] at whole
        split at found
        next all =>
          cases found
          refine ⟨after, by rw [List.cons_append, whole], ?_, List.all_eq_true.mp all⟩
          intro member
          simpa using List.mem_takeWhile_imp member
        next => cases found
    next => cases found
  · rintro ⟨behind, rfl, unquoted, inline⟩
    have inside : ∀ char ∈ inner, (char != '"') = true := by
      intro char member
      simpa using ne_of_mem_of_not_mem member unquoted
    rw [List.cons_append, quotedToEnd?, List.dropWhile_append_of_pos inside,
      List.takeWhile_append_of_pos inside]
    simpa [Inline] using inline

theorem isInlineSpace_of_head?_dropWhile {text : List Char} {char : Char}
    (first : (text.dropWhile isInlineSpace).head? = some char) : isInlineSpace char = false := by
  have stops := List.head?_dropWhile_not isInlineSpace text
  simpa [first] using stops

theorem label?_colon {space between text : List Char} (inline : Inline space)
    (inlineBetween : Inline between)
    (begins : ∀ char, text.head? = some char → isInlineSpace char = false) :
    label? (space ++ ':' :: (between ++ text)) =
      some (nonempty ((quotedToEnd? text).getD (trimEnd text))) := by
  have colon : isInlineSpace ':' = false := by decide
  have kept : (between ++ text).dropWhile isInlineSpace = text := by
    rw [dropWhile_inline inlineBetween, Text.dropWhile_of_head? begins]
  simp only [label?, dropWhile_inline_cons inline colon, kept]
  rfl

theorem IsQuoted.head? {text inner : List Char} (quoted : IsQuoted text inner) :
    ∀ char, text.head? = some char → isInlineSpace char = false := by
  rintro char first
  obtain ⟨behind, rfl, -⟩ := quoted
  cases first
  decide

theorem label?_eq_some_iff {tail : List Char} {label : Option (List Char)} :
    label? tail = some label ↔ LabelTail tail label := by
  constructor
  · intro found
    have whole : tail.takeWhile isInlineSpace ++ tail.dropWhile isInlineSpace = tail :=
      List.takeWhile_append_dropWhile
    have inline : Inline (tail.takeWhile isInlineSpace) := fun _ => List.mem_takeWhile_imp
    unfold label? at found
    split at found
    next ends =>
      cases found
      rw [ends, List.append_nil] at whole
      exact whole ▸ .none inline
    next rest ends =>
      have more : rest.takeWhile isInlineSpace ++ rest.dropWhile isInlineSpace = rest :=
        List.takeWhile_append_dropWhile
      have between : Inline (rest.takeWhile isInlineSpace) := fun _ => List.mem_takeWhile_imp
      have begins : ∀ char, (rest.dropWhile isInlineSpace).head? = some char →
          isInlineSpace char = false := fun _ => isInlineSpace_of_head?_dropWhile
      rw [ends, ← more] at whole
      generalize rest.dropWhile isInlineSpace = text at found begins whole
      obtain rfl : nonempty ((quotedToEnd? text).getD (trimEnd text)) = label := Option.some.inj found
      rw [← whole]
      cases read : quotedToEnd? text with
      | some inner => exact .quoted inline between (quotedToEnd?_eq_some_iff.mp read)
      | none =>
        refine .plain inline between begins fun inner quoted => ?_
        rw [quotedToEnd?_eq_some_iff.mpr quoted] at read
        cases read
    next => cases found
  · intro is
    cases is with
    | none inline => simp [label?, dropWhile_inline_eq_nil inline]
    | quoted inline between quoted =>
      rw [label?_colon inline between quoted.head?, quotedToEnd?_eq_some_iff.mpr quoted]
      rfl
    | @plain _ _ text inline between begins unquoted =>
      have read : quotedToEnd? text = Option.none := by
        rw [Option.eq_none_iff_forall_ne_some]
        exact fun inner found => unquoted inner (quotedToEnd?_eq_some_iff.mp found)
      rw [label?_colon inline between begins, read]
      rfl

theorem LabelTail.begins {tail : List Char} {label : Option (List Char)} (is : LabelTail tail label) :
    Inline tail ∨ ∃ space more, tail = space ++ ':' :: more ∧ Inline space := by
  cases is with
  | none inline => exact .inl inline
  | quoted inline _ _ => exact .inr ⟨_, _, rfl, inline⟩
  | plain inline _ _ _ => exact .inr ⟨_, _, rfl, inline⟩

theorem LabelTail.stops {tail : List Char} {label : Option (List Char)} (is : LabelTail tail label) :
    Stops tail := by
  rcases is.begins with inline | ⟨space, more, rfl, inline⟩
  · exact stops_inline inline
  · exact .inline_cons inline (by decide) more

theorem LabelTail.hop? {tail : List Char} {label : Option (List Char)} (is : LabelTail tail label) :
    hop? tail = Option.none := by
  rcases is.begins with inline | ⟨space, more, rfl, inline⟩
  · rw [Grammar.hop?, dropWhile_inline_eq_nil inline]
    rfl
  · rw [Grammar.hop?, dropWhile_inline_cons inline (by decide)]
    rfl

end Labels

section Hops

theorem hops_of_hop? {text rest : List Char} {hop : HopParts} (found : hop? text = some (hop, rest)) :
    hops text = (hop :: (hops rest).1, (hops rest).2) := by
  rw [hops]
  split
  next none => rw [found] at none; cases none
  next same => rw [found] at same; cases same; rfl

theorem hops_of_none {text : List Char} (none : hop? text = none) : hops text = ([], text) := by
  rw [hops]
  split
  next => rfl
  next found => rw [none] at found; cases found

variable {before behind target rest : List Char} {kind : EdgeKind}

theorem stops_arrow (inline : Inline before) (kind : EdgeKind) (rest : List Char) :
    Stops (before ++ arrowText kind ++ rest) := by
  have here : Stops (arrowText kind ++ rest) := by cases kind <;> rfl
  rw [List.append_assoc]
  exact here.inline inline (by cases kind <;> rfl)

theorem hop?_arrow (spaceBefore : Inline before) (spaceBehind : Inline behind)
    (name : Identifier target rest) (stops : Stops rest) :
    hop? (before ++ arrowText kind ++ behind ++ (target ++ rest)) =
      some (⟨before ++ arrowText kind ++ behind, kind, target⟩, rest) := by
  have starts := dropWhile_of_startsWord (name.startsWord rest)
  have noSpace : (target ++ rest).takeWhile isInlineSpace = [] := by
    obtain ⟨first, more, spelled⟩ := List.exists_cons_of_ne_nil (List.append_ne_nil_of_left_ne_nil
      name.ne_nil rest)
    have start := name.startsWord rest
    rw [spelled] at start ⊢
    simp [isInlineSpace_of_isWordStart start]
  have arrow : ∀ more, (before ++ arrowText kind ++ more).dropWhile isInlineSpace =
      arrowText kind ++ more := by
    intro more
    rw [List.append_assoc, dropWhile_inline spaceBefore]
    cases kind <;> rfl
  have space : ∀ more, (before ++ arrowText kind ++ more).takeWhile isInlineSpace = before := by
    intro more
    rw [List.append_assoc, takeWhile_inline spaceBefore]
    cases kind <;> simp [arrowText, isInlineSpace]
  have head : ∀ more, arrowHead? (arrowText kind ++ more) = some (arrowText kind, kind, more) := by
    intro more
    cases kind <;> rfl
  rw [hop?, List.append_assoc (before ++ arrowText kind), arrow, head, space]
  simp [dropWhile_inline spaceBehind, takeWhile_inline spaceBehind, starts, noSpace,
    name.identifier? stops]

theorem hop?_sound {text left : List Char} {hop : HopParts} (found : hop? text = some (hop, left)) :
    ∃ before behind, text = before ++ arrowText hop.kind ++ behind ++ (hop.target ++ left) ∧
      hop.arrow = before ++ arrowText hop.kind ++ behind ∧ Inline before ∧ Inline behind ∧
      Identifier hop.target left ∧ Stops left := by
  simp only [hop?, bind, Option.bind_eq_some_iff, Prod.exists, Option.some.injEq,
    Prod.mk.injEq] at found
  obtain ⟨head, kind, rest, arrow, target, left', name, rfl, rfl⟩ := found
  obtain ⟨whole, identifier, stops⟩ := identifier?_eq_some_iff.mp name
  have same : head = arrowText kind := by
    unfold arrowHead? at arrow
    split at arrow <;> cases arrow <;> rfl
  have joined := arrowHead?_append arrow
  refine ⟨text.takeWhile isInlineSpace, rest.takeWhile isInlineSpace, ?_, ?_,
    fun _ => List.mem_takeWhile_imp, fun _ => List.mem_takeWhile_imp, identifier, stops⟩
  · rw [← whole, List.append_assoc, List.takeWhile_append_dropWhile, List.append_assoc, ← same, joined,
      List.takeWhile_append_dropWhile]
  · rw [same]

theorem Chain.stops {parts : List HopParts} {text tail : List Char} (chain : Chain parts text tail)
    (ends : Stops tail) : Stops text := by
  cases chain with
  | nil => exact ends
  | cons spaceBefore _ _ _ =>
    rw [List.append_assoc]
    exact stops_arrow spaceBefore _ _

theorem Chain.hops {parts : List HopParts} {text tail : List Char} (chain : Chain parts text tail)
    (ends : Stops tail) (last : hop? tail = none) : hops text = (parts, tail) := by
  induction chain with
  | nil => exact hops_of_none last
  | cons spaceBefore spaceBehind name further ih =>
    rw [hops_of_hop? (hop?_arrow spaceBefore spaceBehind name (further.stops ends)), ih ends last]

theorem chain_hops (text : List Char) : Chain (hops text).1 text (hops text).2 := by
  induction text using hops.induct with
  | case1 text none => rw [hops_of_none none]; exact .nil
  | case2 text hop rest found _ _ _ ih =>
    obtain ⟨before, behind, whole, same, spaceBefore, spaceBehind, name, -⟩ := hop?_sound found
    obtain ⟨arrow, kind, target⟩ := hop
    dsimp only at whole same name
    subst whole same
    rw [hops_of_hop? found]
    exact .cons spaceBefore spaceBehind name ih

end Hops

/-- The parts of a connection are read from it, and from nothing else. -/
theorem connection?_eq_some_iff {line : List Char} {parts : ConnectionParts} :
    connection? line = some parts ↔ IsConnection line parts := by
  constructor
  · intro found
    simp only [connection?, bind, Option.bind_eq_some_iff, Prod.exists] at found
    obtain ⟨first, rest, named, found⟩ := found
    obtain ⟨whole, identifier, -⟩ := identifier?_eq_some_iff.mp named
    split at found
    next => cases found
    next some =>
      obtain ⟨label, read, same⟩ := Option.bind_eq_some_iff.mp found
      cases same
      exact ⟨rest, (hops rest).2, whole, identifier, chain_hops rest, by simpa using some,
        label?_eq_some_iff.mp read⟩
  · rintro ⟨rest, tail, rfl, identifier, chain, some, label⟩
    have named := identifier.identifier? (chain.stops label.stops)
    have read := chain.hops label.stops label.hop?
    simp [connection?, named, read, some, label?_eq_some_iff.mpr label]

end BoxDiagram.Grammar
