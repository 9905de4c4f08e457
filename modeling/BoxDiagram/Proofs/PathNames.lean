import BoxDiagram.Proofs.DeclarationGrammar
import BoxDiagram.Proofs.DeclaredNames

/-!
Paths of nodes can be written as names. In a source no word of a declared name begins with a comment
mark, as the scan would have been stopped there; so its normal form is a name, and what is put together
of such names with dots between them is one too.
-/

namespace BoxDiagram

open Text Grammar

namespace Text

theorem words_append {first second : List Char} {separator : Char} (white : isBlank separator = true) :
    words (first ++ separator :: second) = words first ++ words second := by
  rw [words, splitOn_append _ _ white, List.filter_append, words, words]

theorem words_blanks {blanks : List Char} (white : ∀ char ∈ blanks, isBlank char = true)
    (rest : List Char) : words (blanks ++ rest) = words rest := by
  induction blanks with
  | nil => rfl
  | cons char blanks ih =>
    obtain ⟨first, others⟩ := List.forall_mem_cons.mp white
    calc words (char :: blanks ++ rest) = words [] ++ words (blanks ++ rest) :=
          @words_append [] _ _ first
      _ = words rest := ih others

theorem words_black {word : List Char} (inhabited : word ≠ [])
    (black : ∀ char ∈ word, isBlank char = false) : words word = [word] := by
  rw [words, splitOn_of_forall black]
  simp [inhabited]

theorem words_run {first blanks second : List Char} (white : ∀ char ∈ blanks, isBlank char = true)
    (inhabited : blanks ≠ []) : words (first ++ blanks ++ second) = words first ++ words second := by
  obtain ⟨char, others, rfl⟩ := List.exists_cons_of_ne_nil inhabited
  obtain ⟨here, further⟩ := List.forall_mem_cons.mp white
  rw [List.append_assoc, List.cons_append, words_append here, words_blanks further]

end Text

namespace Grammar

/-- At no beginning of a word of a text stands a comment mark. -/
structure Unmarked (text : List Char) : Prop where
  first : ¬['/', '/'] <+: text
  later : ∀ before space after, text = before ++ space :: after → isInlineSpace space = true →
    ¬['/', '/'] <+: after

theorem Unmarked.behind {first space rest : List Char} (unmarked : Unmarked (first ++ space ++ rest))
    (inline : Inline space) (between : space ≠ []) : Unmarked rest := by
  constructor
  · obtain ⟨others, last, rfl⟩ := (List.eq_nil_or_concat space).resolve_left between
    exact unmarked.later (first ++ others) last rest (by simp) (inline last (by simp))
  · rintro before other after rfl
    exact unmarked.later (first ++ space ++ before) other after (by simp)

theorem WordTail.nameTail {tail rest : List Char} (word : WordTail tail rest) : NameTail tail := by
  induction word with
  | nil => exact .nil
  | char word _ ih => exact .cons (.inl word) ih
  | hyphen _ _ ih => exact .cons (.inr (.inl rfl)) ih

theorem WordTail.black {tail rest : List Char} (word : WordTail tail rest) :
    ∀ char ∈ tail, isBlank char = false := by
  induction word with
  | nil => simp
  | char word _ ih => exact List.forall_mem_cons.mpr ⟨isBlank_of_isWordChar word, ih⟩
  | hyphen _ _ ih => exact List.forall_mem_cons.mpr ⟨by decide, ih⟩

theorem Word.isName {word rest : List Char} (is : Word word rest) (unmarked : ¬['/', '/'] <+: word) :
    IsName word := by
  cases is with
  | mk start further =>
    exact ⟨start, unmarked, .cons (.inl (by simp [isWordChar, start])) further.nameTail⟩

theorem Word.words {word rest : List Char} (is : Word word rest) : words word = [word] := by
  cases is with
  | mk start further =>
    exact words_black (by simp) (List.forall_mem_cons.mpr ⟨isBlank_of_isWordStart start, further.black⟩)

/-- The normal form of an identifier is a name, if no word begins with a comment mark. -/
theorem Identifier.isName {name rest : List Char} (identifier : Identifier name rest)
    (unmarked : Unmarked name) : IsName (joinWords (Text.words name)) := by
  induction identifier with
  | word only =>
    rw [only.words, joinWords, List.intercalate_singleton]
    exact only.isName unmarked.first
  | @words word space name rest first inline between further ih =>
    have behind : IsName (joinWords (Text.words name)) := ih (unmarked.behind inline between)
    have here : IsName word := by
      refine first.isName fun marked => unmarked.first ?_
      rw [List.append_assoc]
      exact marked.trans (List.prefix_append _ _)
    have white : ∀ char ∈ space, isBlank char = true :=
      fun char member => Line.isBlank_of_isInlineSpace (inline char member)
    have inhabited : Text.words name ≠ [] := by
      intro none
      rw [none] at behind
      cases behind.starts
    obtain ⟨next, others, spelled⟩ := List.exists_cons_of_ne_nil inhabited
    have joined := here.joinSpace behind
    rw [words_run white between, first.words, List.singleton_append, spelled, joinWords,
      List.intercalate_cons_cons, List.append_assoc]
    rwa [spelled] at joined

end Grammar

theorem Statement.declares_classify {line : List Char} {start : Nat} {declaration : Declaration}
    (declares : (classify line start).Declares declaration) : ¬['/', '/'] <+: line ∧
      ∃ parts, declaration? line = some parts ∧ declaration = locateDeclaration start parts := by
  constructor
  · rintro ⟨words, rfl⟩
    rcases declares with means | means <;> cases means
  · have reads := reads_classify line start
    rcases declares with means | means
    · rw [means] at reads
      cases reads with
      | container found _ => exact ⟨_, found, rfl⟩
    · rw [means] at reads
      cases reads with
      | leaf found _ => exact ⟨_, found, rfl⟩

namespace Line

theorem isAsciiBlank_of_isInlineSpace {char : Char} (space : isInlineSpace char = true) :
    isAsciiBlank char = true := by
  simp only [isInlineSpace, Bool.or_eq_true, beq_iff_eq] at space
  rcases space with rfl | rfl <;> decide

theorem Scan.Carried.outside {scan last : Scan} {text rest : List Char}
    (carried : Scan.Carried scan text rest last) (outside : scan.isOutside = true)
    (quiet : ∀ char ∈ text, char ≠ '"' ∧ char ≠ '[') : last.isOutside = true := by
  induction carried with
  | nil => exact outside
  | cons _ _ ih =>
    obtain ⟨⟨unquoted, unbracketed⟩, others⟩ := List.forall_mem_cons.mp quiet
    obtain ⟨noQuote, flat⟩ := Scan.isOutside_iff.mp outside
    refine ih ?_ others
    rw [Scan.isOutside_iff]
    simp [Scan.advance, noQuote, flat, unquoted, unbracketed]

/-- No word of a name that a fresh scan carries along begins with a comment mark. -/
theorem Scan.Carried.unmarked {last : Scan} {blanks name more rest : List Char}
    (carried : Scan.Carried {} (blanks ++ name ++ more) rest last)
    (white : ∀ char ∈ blanks, Text.isBlank char = true) (parts : ∀ char ∈ name, InIdentifier char)
    (first : ¬['/', '/'] <+: name) : Unmarked name := by
  refine ⟨first, ?_⟩
  rintro before space after rfl inline ⟨words, rfl⟩
  let seen := blanks ++ before ++ [space]
  have whole : blanks ++ (before ++ space :: (['/', '/'] ++ words)) ++ more =
      seen ++ '/' :: ('/' :: (words ++ more)) := by simp [seen]
  rw [whole] at carried
  obtain ⟨middle, upTo, onward⟩ := carried.split
  have outside : middle.isOutside = true := by
    refine upTo.outside rfl ?_
    have blank : ∀ char ∈ blanks, char ≠ '"' ∧ char ≠ '[' := by
      intro char member
      constructor <;> rintro rfl <;> exact absurd (white _ member) (by decide)
    have part : ∀ char ∈ before ++ [space], char ≠ '"' ∧ char ≠ '[' := by
      intro char member
      have inside := parts char (by simp only [List.mem_append, List.mem_cons] at member ⊢; tauto)
      exact ⟨inside.ne (by decide), inside.ne (by decide)⟩
    have spelled : seen = blanks ++ (before ++ [space]) := List.append_assoc _ _ _
    rw [spelled]
    exact List.forall_mem_append.mpr ⟨blank, part⟩
  have read : middle.seen = seen.reverse := by
    rw [← List.reverse_reverse middle.seen]
    exact congrArg List.reverse upTo.text_eq
  have admits : middle.admitsRemark = true := by
    rw [Scan.admitsRemark, read, List.reverse_append]
    exact isAsciiBlank_of_isInlineSpace inline
  cases onward with
  | cons goes _ => simp [Scan.stops, Scan.marksComment, outside, admits] at goes

def DeclaresName (line : Line) : Prop :=
  ∀ declaration, line.statement.Declares declaration → IsName (Text.normalize declaration.name.value).toList

theorem statement_of_ofText? {start : Nat} {text : List Char} {line : Line}
    (found : ofText? start text = some line) :
    line.statement = Statement.classify (trim text) line.span.start := by
  unfold ofText? at found
  simp only at found
  split at found
  next => cases found
  next =>
    cases found
    rfl

/-- A name lies in front of the brace that ends its piece. -/
theorem DeclaresName.of_carried {text brace rest : List Char} {last : Scan} {start : Nat} {line : Line}
    (carried : Scan.Carried {} text rest last) (only : brace = [] ∨ brace = ['{'])
    (found : ofText? start (text ++ brace) = some line) : line.DeclaresName := by
  intro declaration declares
  rw [statement_of_ofText? found] at declares
  obtain ⟨unmarked, parts, read, rfl⟩ := Statement.declares_classify declares
  obtain ⟨_, _, named, -, -⟩ := declaration?_shape read
  obtain ⟨whole, identifier, -⟩ := identifier?_eq_some_iff.mp named
  have part := identifier?_chars named
  have white : ∀ char ∈ leadingBlanks (text ++ brace), isBlank char = true :=
    fun _ => isBlank_of_mem_leadingBlanks
  -- Neither the blanks nor the name hold the brace.
  obtain ⟨more, spelled⟩ : ∃ more, text = leadingBlanks (text ++ brace) ++ parts.name ++ more := by
    have joined := leadingBlanks_append (text ++ brace)
    rw [whole, List.append_assoc, ← List.append_assoc] at joined
    rcases List.append_eq_append_iff.mp joined with ⟨more, same, -⟩ | ⟨inside, same, behind⟩
    · exact ⟨more, same⟩
    · cases inside with
      | nil => exact ⟨[], by simpa using same.symm⟩
      | cons char inside =>
        have isBrace : char = '{' := by
          rcases only with rfl | rfl
          · cases behind
          · exact (List.cons.inj behind).1.symm
        have member : char ∈ leadingBlanks (text ++ brace) ++ parts.name := by
          rw [same]
          simp
        rw [isBrace] at member
        rcases List.mem_append.mp member with blank | inName
        · exact absurd (white _ blank) (by decide)
        · exact absurd (part _ inName) (by decide)
  rw [spelled] at carried
  have first : ¬['/', '/'] <+: parts.name := by
    intro marked
    rw [whole] at unmarked
    exact unmarked (marked.trans (List.prefix_append _ _))
  have name := identifier.isName (carried.unmarked white part first)
  simpa [Statement.locateDeclaration, Statement.locate, Text.normalize] using name

theorem Pieced.declaresNames {physical : List Char} {pieces : List (Piece × Option Brace)}
    (pieced : Pieced physical pieces) (start : Nat) :
    ∀ line ∈ ofPieces start (pieces.map Prod.fst), line.DeclaresName := by
  have carriedName {text rest : List Char} {scan : Scan} {start : Nat} {line : Line}
      (carried : Scan.Carried {} text rest scan) (found : ofText? start text = some line) :
      line.DeclaresName :=
    DeclaresName.of_carried carried (.inl rfl) (by rwa [List.append_nil])
  induction pieced generalizing start with
  | whole carried =>
    intro line member
    simp only [List.map_cons, List.map_nil, ofPieces, List.append_nil, Option.mem_toList] at member
    exact carriedName carried member
  | opening carried _ _ _ ih =>
    intro line member
    simp only [List.map_cons, ofPieces, List.mem_append, Option.mem_toList] at member
    rcases member with first | later
    · exact DeclaresName.of_carried carried (.inr rfl) first
    · exact ih _ line later
  | closing carried _ _ _ ih =>
    intro line member
    simp only [List.map_cons, ofPieces, List.mem_append, Option.mem_toList] at member
    rcases member with first | brace | later
    · exact carriedName carried first
    · rw [ofText?_closing, Option.some.injEq] at brace
      subst brace
      rintro declaration (means | means) <;> cases means
    · exact ih _ line later
  | separator carried _ ih =>
    intro line member
    simp only [List.map_cons, ofPieces, List.mem_append, Option.mem_toList] at member
    rcases member with first | later
    · exact carriedName carried first
    · exact ih _ line later
  | comment carried mark blank =>
    intro line member
    simp only [List.map_cons, List.map_nil, ofPieces, List.append_nil, Option.mem_toList] at member
    have comment := comment_of_mark carried mark blank member
    rintro declaration (means | means) <;> rw [comment] at means <;> cases means
  | remark carried =>
    intro line member
    simp only [List.map_cons, List.map_nil, ofPieces, List.append_nil, Option.mem_toList] at member
    exact carriedName carried member

theorem declaresName_of_mem {source : String} {line : Line} (member : line ∈ ofSource source) :
    line.DeclaresName := by
  have lists (start : Nat) (physicals : List (List Char)) :
      ∀ line ∈ ofPhysicalLines start physicals, line.DeclaresName := by
    induction physicals generalizing start with
    | nil => simp [ofPhysicalLines]
    | cons physical others ih =>
      intro line member
      rcases List.mem_append.mp member with first | later
      · rw [pieces, ← Scan.marked_fst] at first
        exact (pieced physical).declaresNames start line first
      · exact ih _ line later
  exact lists 0 (physicalLines source.toList) line member

end Line

theorem Declared.isName_path {α : Type} {nodes : List (Node α)} (declared : Declared nodes)
    (outer : ∀ node ∈ nodes, node.id.outer = node.parent)
    (names : ∀ node ∈ nodes, IsName node.id.localName.toList) :
    ∀ node ∈ nodes, IsName node.path.toList := by
  induction declared with
  | nil => simp
  | @cons node earlier _ enclosed _ ih =>
    obtain ⟨here, outer⟩ := List.forall_mem_cons.mp outer
    obtain ⟨name, names⟩ := List.forall_mem_cons.mp names
    have before := ih outer names
    refine List.forall_mem_cons.mpr ⟨?_, before⟩
    cases inside : node.parent with
    | none =>
      rw [Node.path, NodeId.path, here, inside]
      exact name
    | some path =>
      obtain ⟨other, member, rfl⟩ := enclosed path inside
      have joined := (before other member).join name
      rw [Node.path, NodeId.path, here, inside]
      simpa using joined

theorem isName_path {α : Type} [Scalar α] (source : String) :
    ∀ node ∈ (parse source : Parsed α).graph.nodes, IsName node.path.toList := by
  have declared := (@contained_parse α _ source).wellFormed.declared
  have named := @Assembly.namedFor_ofLines α _ (Line.ofSource source)
  intro node member
  refine declared.isName_path ?_ ?_ node (List.mem_reverse.mpr member)
  · intro other listed
    exact (named other (List.mem_reverse.mp listed)).outer
  · intro other listed
    obtain ⟨declaration, ⟨line, onLine, declares⟩, localName⟩ :=
      (named other (List.mem_reverse.mp listed)).localName
    rw [localName]
    exact Line.declaresName_of_mem onLine declaration declares

end BoxDiagram
