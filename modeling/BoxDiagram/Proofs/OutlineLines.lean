import BoxDiagram.Proofs.LineKinds

/-!
How the lines of an outline are read. A scan carries each of them along as one statement, up to the
brace of a container, and what the statement is taken for is the declaration or the connection that it
was written for.
-/

namespace BoxDiagram

open Text Grammar

namespace Line

namespace Scan

variable {scan : Scan} {text : List Char}

theorem carried_quiet (free : scan.Free)
    (quiet : ∀ char ∈ text, char ∉ ['{', '}', ';', '#', '/', '"', '[', ':']) (rest : List Char) :
    ∃ last, Carried scan text rest last ∧ last.Free := by
  induction text generalizing scan with
  | nil => exact ⟨scan, .nil, free⟩
  | cons char text ih =>
    obtain ⟨first, others⟩ := List.forall_mem_cons.mp quiet
    simp only [List.mem_cons, List.not_mem_nil, or_false, not_or] at first
    have goes : scan.stops char (text ++ rest) = false := by
      simp [stops, marksComment, first]
    have onward : (scan.advance char (text ++ rest)).Free := free.advance first.2.2.2.2.2.1
      first.2.2.2.2.2.2.1 first.2.2.2.2.2.2.2
    obtain ⟨last, carried, ends⟩ := ih onward others
    exact ⟨last, .cons goes carried, ends⟩

theorem carried_quotedTail (unquoted : '"' ∉ text) (rest : List Char) (quoted : scan.quoted = true)
    (level : scan.depth = 0) (unlabelled : scan.inLabel = false) :
    ∃ last, Carried scan (text ++ ['"']) rest last ∧ last.Free := by
  induction text generalizing scan with
  | nil =>
    have goes : scan.stops '"' ([] ++ rest) = false := by simp [stops, marksComment]
    refine ⟨_, .cons goes .nil, ⟨?_, ?_⟩⟩
    · simp [isOutside, advance, quoted, level]
    · simp [advance, unlabelled]
  | cons char text ih =>
    simp only [List.mem_cons, not_or] at unquoted
    have within : scan.isOutside = false := by simp [isOutside, quoted]
    have goes : scan.stops char (text ++ ['"'] ++ rest) = false := by simp [stops, within]
    have onward : (scan.advance char (text ++ ['"'] ++ rest)).quoted = true := by
      simp [advance, quoted, Ne.symm unquoted.1]
    obtain ⟨last, carried, ends⟩ := ih unquoted.2 onward (by simp [advance, quoted, level])
      (by rw [(advance_inside within _ _).2, unlabelled])
    exact ⟨last, .cons goes carried, ends⟩

theorem carried_quoted (free : scan.Free) (unquoted : '"' ∉ text) (rest : List Char) :
    ∃ last, Carried scan ('"' :: text ++ ['"']) rest last ∧ last.Free := by
  obtain ⟨noQuote, flat⟩ := isOutside_iff.mp free.outside
  have goes : scan.stops '"' (text ++ ['"'] ++ rest) = false := by simp [stops, marksComment]
  have opened : (scan.advance '"' (text ++ ['"'] ++ rest)).quoted = true := by
    simp [advance, noQuote]
  obtain ⟨last, carried, ends⟩ := carried_quotedTail unquoted rest opened
    (by simp [advance, noQuote, flat]) (by simp [advance, free.unlabelled])
  exact ⟨last, .cons goes carried, ends⟩

/-- The colon in front of a quoted text begins no unquoted label. -/
theorem carried_label (free : scan.Free) {label : Option String}
    (quotable : ∀ text, label = some text → IsQuotable text) (rest : List Char) :
    ∃ last, Carried scan (labelText label) rest last := by
  cases label with
  | none => exact ⟨scan, .nil⟩
  | some label =>
    let written := '"' :: label.toList ++ ['"']
    have goes : scan.stops ':' (' ' :: written ++ rest) = false := by simp [stops, marksComment]
    have colon : (scan.advance ':' (' ' :: written ++ rest)).Free := by
      obtain ⟨noQuote, flat⟩ := isOutside_iff.mp free.outside
      have quoted : startsUnquoted (' ' :: (written ++ rest)) = false := rfl
      refine ⟨?_, ?_⟩
      · simp [isOutside, advance, noQuote, flat]
      · simp [advance, quoted, free.unlabelled]
    have quiet : ∀ char ∈ [' '], char ∉ ['{', '}', ';', '#', '/', '"', '[', ':'] := by simp
    obtain ⟨spaced, space, free⟩ := carried_quiet colon quiet (written ++ rest)
    obtain ⟨last, quoted, -⟩ := carried_quoted free (quotable label rfl).1 rest
    exact ⟨last, .cons goes (space.append quoted)⟩

end Scan

theorem carried_heading (heading : Heading) (rest : List Char) :
    ∃ last, Scan.Carried {} heading.text rest last ∧ last.Plain := by
  let list := '[' :: PropertyList.write heading.properties ++ [']']
  have name := heading.name.isName
  have read : identifier? (heading.name.text.toList ++ ' ' :: list) =
      some (heading.name.text.toList, ' ' :: list) :=
    name.identifier?_append rfl (by simp)
  obtain ⟨named, carriedName, -⟩ := Scan.carried_name name Scan.plain_fresh.free
    (by simp : (' ' :: list ++ [] ++ rest).head? ≠ some '/')
  have atSpace := carriedName.plain_identifier read (by simp) Scan.plain_fresh
  have goes : named.stops ' ' (list ++ rest) = false := by
    simp [Scan.stops, Scan.marksComment]
  have atList : (named.advance ' ' (list ++ rest)).Plain :=
    atSpace.advance (by decide) (by decide) (by simp)
  obtain ⟨last, carriedList, ends⟩ := Scan.carried_list
    (PropertyList.list?_write heading.writable []) atList rest
  rw [List.append_nil] at carriedName
  have behind : Scan.Carried named (' ' :: list) rest last := .cons goes carriedList
  exact ⟨last, carriedName.append behind, ends⟩

theorem carried_link {link : Link} (source : IsName link.source.toList)
    (target : IsName link.target.toList)
    (quotable : ∀ label, link.label = some label → IsQuotable label) :
    ∃ last, Scan.Carried {} link.text [] last := by
  have noSlash : (labelText link.label ++ []).head? ≠ some '/' := by
    cases link.label <;> simp [labelText]
  have quiet : ∀ char ∈ ' ' :: arrowText link.kind ++ [' '],
      char ∉ ['{', '}', ';', '#', '/', '"', '[', ':'] := by
    cases link.kind <;> simp [arrowText]
  obtain ⟨atArrow, first, free⟩ := Scan.carried_name source Scan.plain_fresh.free
    (by simp : (' ' :: arrowText link.kind ++ [' '] ++ (link.target.toList ++ labelText link.label) ++
      []).head? ≠ some '/')
  obtain ⟨atTarget, arrow, free⟩ := Scan.carried_quiet free quiet
    (link.target.toList ++ labelText link.label ++ [])
  obtain ⟨atLabel, second, free⟩ := Scan.carried_name target free noSlash
  obtain ⟨last, label⟩ := Scan.carried_label free quotable []
  have whole := first.append (arrow.append (second.append label))
  have spelled : link.source.toList ++ (' ' :: arrowText link.kind ++ [' '] ++
      (link.target.toList ++ labelText link.label)) = link.text := by
    simp [Link.text]
  exact ⟨last, spelled ▸ whole⟩

end Line

namespace Statement

variable {line : List Char}

/-- A line that begins with a word, and not with a comment mark, is left to the grammar. -/
theorem Ordinary.of_starts (starts : startsWord line = true) (unmarked : ¬['/', '/'] <+: line) :
    Ordinary line where
  inhabited := by
    rintro rfl
    cases starts
  noOpening := by
    rintro rfl
    exact absurd starts (by decide)
  noClosing := by
    rintro rfl
    exact absurd starts (by decide)
  noSlashes := unmarked
  noHash := by
    intro hash
    obtain ⟨rest, rfl⟩ := List.head?_eq_some_iff.mp hash
    have word : isWordStart '#' = true := starts
    exact absurd word (by decide)

end Statement

theorem declaration?_heading (heading : Heading) {tail : List Char} {opens : Bool}
    (brace : optionalBrace (tail.dropWhile isInlineSpace) = (opens, [])) :
    declaration? (heading.text ++ tail) =
      some ⟨heading.name.text.toList, [' '], some (PropertyList.write heading.properties), opens⟩ := by
  let body := PropertyList.write heading.properties
  have read : identifier? (heading.text ++ tail) =
      some (heading.name.text.toList, ' ' :: '[' :: body ++ ']' :: tail) := by
    rw [Heading.text, List.append_assoc, List.append_assoc]
    exact heading.name.isName.identifier?_append rfl (by simp)
  have list : list? ('[' :: body ++ ']' :: tail) = some (body, tail) :=
    PropertyList.list?_write heading.writable tail
  have gap : (' ' :: '[' :: body ++ ']' :: tail).takeWhile isInlineSpace = [' '] := rfl
  have behind : (' ' :: '[' :: body ++ ']' :: tail).dropWhile isInlineSpace =
      '[' :: body ++ ']' :: tail := rfl
  rw [declaration?, read]
  simp only [bind, Option.bind_some, gap, behind, optionalList, list, brace]
  rfl

section Links

variable {link : Link} (source : IsName link.source.toList) (target : IsName link.target.toList)

include source in
theorem identifier?_link : identifier? link.text = some (link.source.toList,
    ' ' :: (arrowText link.kind ++ ' ' :: (link.target.toList ++ labelText link.label))) := by
  apply source.identifier?_append
  · cases link.kind <;> rfl
  · simp

theorem labelTail_labelText {label : Option String}
    (labels : ∀ text, label = some text → text ≠ "" ∧ IsQuotable text) :
    LabelTail (labelText label) (label.map String.toList) := by
  cases label with
  | none => exact .none (by simp [Inline, labelText])
  | some label =>
    obtain ⟨inhabited, unquoted, -⟩ := labels label rfl
    have quoted : IsQuoted ('"' :: label.toList ++ ['"']) label.toList :=
      ⟨[], rfl, unquoted, by simp [Inline]⟩
    have tail := @LabelTail.quoted [] [' '] _ _ (by simp [Inline]) (by simp [Inline, isInlineSpace]) quoted
    rwa [nonempty, if_neg (by simpa using inhabited)] at tail

include source target in
theorem isConnection_link
    (labels : ∀ label, link.label = some label → label ≠ "" ∧ IsQuotable label) :
    IsConnection link.text ⟨link.source.toList,
      [⟨[' '] ++ arrowText link.kind ++ [' '], link.kind, link.target.toList⟩],
      link.label.map String.toList⟩ := by
  obtain ⟨written, name, -⟩ := identifier?_eq_some_iff.mp (identifier?_link source)
  have behind : identifier? (link.target.toList ++ labelText link.label) =
      some (link.target.toList, labelText link.label) := by
    apply target.identifier?_append
    · cases link.label <;> rfl
    · cases link.label <;> simp [labelText]
  have space : Inline [' '] := by simp [Inline, isInlineSpace]
  obtain ⟨-, last, -⟩ := identifier?_eq_some_iff.mp behind
  refine ⟨_, labelText link.label, written, name, ?_, by simp, labelTail_labelText labels⟩
  simpa using Chain.cons space space last .nil

end Links

structure Heading.Declares (heading : Heading) (declaration : Declaration) : Prop where
  name : declaration.name.value = heading.name.text
  properties : (declaration.properties.map (·.value)).getD "" =
    String.ofList (PropertyList.write heading.properties)

structure Link.Joins (link : Link) (hop : Hop) : Prop where
  source : hop.source.value = link.source
  target : hop.target.value = link.target
  kind : hop.kind = link.kind
  label : hop.label = link.label

namespace Line

theorem ofText?_of_trimmed {text : List Char} (inhabited : text ≠ []) (trimmed : Trimmed text)
    (start : Nat) :
    ofText? start text = some ⟨String.ofList text, Span.ofLength start (byteLength text),
      Statement.classify text start⟩ := by
  have same := trim_of_trimmed trimmed
  have none : leadingBlanks text = [] := by
    obtain ⟨first, rest, rfl⟩ := List.exists_cons_of_ne_nil inhabited
    rw [leadingBlanks, List.takeWhile_cons, trimmed.1 first rfl]
    rfl
  rw [ofText?]
  simp [same, inhabited, none]

/-- Wherever it stands, a physical line is one logical line, which has some meaning. -/
def ReadsAs (text : List Char) (meaning : Statement → Prop) : Prop :=
  ∀ start, ∃ line, ofPieces start (pieces text) = [line] ∧ meaning line.statement

theorem ReadsAs.of_carried {text : List Char} {last : Scan} {meaning : Statement → Prop}
    (carried : Scan.Carried {} text [] last) (inhabited : text ≠ []) (trimmed : Trimmed text)
    (means : ∀ start, meaning (Statement.classify text start)) : ReadsAs text meaning := by
  intro start
  have read : last.text = text := carried.text_eq
  have whole := carried.pieces
  rw [List.append_nil] at whole
  refine ⟨⟨String.ofList text, Span.ofLength start (byteLength text), Statement.classify text start⟩,
    ?_, means start⟩
  rw [pieces, whole, Scan.pieces, ofPieces, read, ofText?_of_trimmed inhabited trimmed]
  rfl

theorem ReadsAs.of_opening {text : List Char} {last : Scan} {meaning : Statement → Prop}
    (carried : Scan.Carried {} text ['{'] last) (free : last.Free)
    (trimmed : Trimmed (text ++ ['{']))
    (means : ∀ start, meaning (Statement.classify (text ++ ['{']) start)) :
    ReadsAs (text ++ ['{']) meaning := by
  intro start
  have read : last.text = text := carried.text_eq
  refine ⟨⟨String.ofList (text ++ ['{']), Span.ofLength start (byteLength (text ++ ['{'])),
    Statement.classify (text ++ ['{']) start⟩, ?_, means start⟩
  have cut : last.pieces ['{'] = [.statement (text ++ ['{']), .statement []] := by
    obtain ⟨noQuote, flat⟩ := Scan.isOutside_iff.mp free.outside
    simp [Scan.pieces, Scan.step, noQuote, flat, free.unlabelled, ← read, Scan.text]
  rw [pieces, carried.pieces, cut, ofPieces, ofText?_of_trimmed (by simp) trimmed]
  rfl

theorem readsAs_close : ReadsAs ['}'] fun statement => statement = .containerClose :=
  fun start => ⟨⟨"\x7d", Span.ofLength start 1, .containerClose⟩, rfl, rfl⟩

section Headings

variable (heading : Heading)

theorem startsWord_heading (tail : List Char) :
    startsWord (heading.text ++ tail) = true ∧ ¬['/', '/'] <+: heading.text ++ tail := by
  have name := heading.name.isName
  rw [Heading.text, List.append_assoc]
  exact unmarked_append name.starts name.unmarked (by simp)

theorem declares_locateDeclaration (start : Nat) (opens : Bool) :
    heading.Declares (Statement.locateDeclaration start ⟨heading.name.text.toList, [' '],
      some (PropertyList.write heading.properties), opens⟩) :=
  ⟨String.ofList_toList, rfl⟩

theorem readsAs_leaf :
    ReadsAs heading.text fun statement => ∃ declaration, statement = .leaf declaration ∧
      heading.Declares declaration := by
  obtain ⟨last, carried, -⟩ := carried_heading heading []
  obtain ⟨starts, unmarked⟩ := startsWord_heading heading []
  have found := declaration?_heading heading (rfl : optionalBrace ([].dropWhile _) = (false, []))
  rw [List.append_nil] at starts unmarked found
  have ends : heading.text.getLast? = some ']' := by
    rw [Heading.text, ← List.append_assoc, List.getLast?_concat]
  refine .of_carried carried (by simp [Heading.text])
    (trimmed_of_startsWord starts ends (by decide)) ?_
  intro start
  rw [(Statement.Ordinary.of_starts starts unmarked).classify, found]
  exact ⟨_, rfl, declares_locateDeclaration heading start false⟩

theorem readsAs_container :
    ReadsAs (heading.text ++ [' ', '{']) fun statement =>
      ∃ declaration, statement = .containerOpen declaration ∧ heading.Declares declaration := by
  obtain ⟨atSpace, carried, plain⟩ := carried_heading heading [' ', '{']
  have goes : atSpace.stops ' ' ['{'] = false := by simp [Scan.stops, Scan.marksComment]
  have free : (atSpace.advance ' ' ['{']).Free :=
    plain.free.advance (by decide) (by decide) (by decide)
  obtain ⟨starts, unmarked⟩ := startsWord_heading heading [' ', '{']
  have found := declaration?_heading heading (rfl : optionalBrace ([' ', '{'].dropWhile _) = (true, []))
  have spelled : heading.text ++ [' ', '{'] = heading.text ++ [' '] ++ ['{'] := by simp
  have trimmed : Trimmed (heading.text ++ [' ', '{']) :=
    trimmed_of_startsWord starts (by simp : _ = some '{') (by decide)
  have means (start : Nat) : ∃ declaration, Statement.classify (heading.text ++ [' ', '{']) start =
      .containerOpen declaration ∧ heading.Declares declaration := by
    rw [(Statement.Ordinary.of_starts starts unmarked).classify, found]
    exact ⟨_, rfl, declares_locateDeclaration heading start true⟩
  rw [spelled] at trimmed means ⊢
  have onward : Scan.Carried atSpace [' '] ['{'] (atSpace.advance ' ' ['{']) := .cons goes .nil
  exact .of_opening (carried.append onward) free trimmed means

end Headings

theorem readsAs_link {link : Link} (source : IsName link.source.toList)
    (target : IsName link.target.toList)
    (labels : ∀ label, link.label = some label → label ≠ "" ∧ IsQuotable label) :
    ReadsAs link.text fun statement => ∃ hop, statement = .connection [hop] ∧ link.Joins hop := by
  obtain ⟨last, carried⟩ := carried_link source target fun label same => (labels label same).2
  obtain ⟨starts, unmarked⟩ : startsWord link.text = true ∧ ¬['/', '/'] <+: link.text :=
    unmarked_append source.starts source.unmarked (by simp)
  obtain ⟨char, ends, black⟩ : ∃ char, link.text.getLast? = some char ∧ isBlank char = false := by
    obtain ⟨first, rest, name, -⟩ := target.exists_cons
    have inhabited : link.target.toList ≠ [] := by simp [name]
    cases same : link.label with
    | some label =>
      have spelled : link.text = link.source.toList ++ ' ' :: (arrowText link.kind ++ ' ' ::
          (link.target.toList ++ ':' :: ' ' :: '"' :: label.toList)) ++ ['"'] := by
        simp [Link.text, labelText, same]
      exact ⟨'"', by rw [spelled, List.getLast?_concat], by decide⟩
    | none =>
      have spelled : link.text = link.source.toList ++ ' ' :: (arrowText link.kind ++ [' ']) ++
          link.target.toList := by
        simp [Link.text, labelText, same]
      refine ⟨_, ?_, target.trimmed.2 _ (List.getLast?_eq_some_getLast inhabited)⟩
      rw [spelled, List.getLast?_append_of_ne_nil _ inhabited, List.getLast?_eq_some_getLast inhabited]
  have trimmed : Trimmed link.text := trimmed_of_startsWord starts ends black
  refine .of_carried carried (by simp [Link.text]) trimmed ?_
  intro start
  rw [(Statement.Ordinary.of_starts starts unmarked).classify_connection
    (isConnection_link source target labels)]
  refine ⟨_, rfl, String.ofList_toList, String.ofList_toList, rfl, ?_⟩
  cases link.label <;> simp

end Line

end BoxDiagram
