import BoxDiagram.Proofs.Comments
import BoxDiagram.Proofs.ConnectionGrammar
import Mathlib.Data.List.Chain

/-!
What kind of statement a line is. The kinds are told apart by the grammar alone: a line has the form of
a declaration, of a connection or of a title, of the first two at most one, in one way only, and it is
read as what it has the form of.
-/

namespace BoxDiagram

open Text Grammar

namespace Grammar

def titleWord : List Char := ['t', 'i', 't', 'l', 'e']

inductive IsTitle : List Char → List Char → Prop where
  | colon {space rest : List Char} (inline : Inline space) :
      IsTitle (titleWord ++ space ++ ':' :: rest) rest
  | space {space rest : List Char} (inline : Inline space) (between : space ≠ [])
      (noColon : (rest.dropWhile isInlineSpace).head? ≠ some ':') :
      IsTitle (titleWord ++ space ++ rest) rest

theorem title?_titleWord (rest : List Char) :
    title? (titleWord ++ rest) = match rest.dropWhile isInlineSpace with
      | ':' :: after => some (titleText after)
      | _ => if (rest.takeWhile isInlineSpace).isEmpty then none else some (titleText rest) := rfl

theorem titleText_inline {space : List Char} (inline : Inline space) (rest : List Char) :
    titleText (space ++ rest) = titleText rest := by
  rw [titleText, dropWhile_inline inline, titleText]

theorem isTitle_of_title? {line text : List Char} (found : title? line = some text) :
    ∃ rest, IsTitle line rest ∧ titleText rest = text := by
  obtain ⟨rest, rfl⟩ : ∃ rest, line = titleWord ++ rest := by
    unfold title? at found
    split at found
    next rest => exact ⟨rest, rfl⟩
    next => cases found
  have whole : rest.takeWhile isInlineSpace ++ rest.dropWhile isInlineSpace = rest :=
    List.takeWhile_append_dropWhile
  have inline : Inline (rest.takeWhile isInlineSpace) := fun _ => List.mem_takeWhile_imp
  rw [title?_titleWord] at found
  split at found
  next after ends =>
    rw [ends] at whole
    refine ⟨after, ?_, Option.some.inj found⟩
    rw [← whole, ← List.append_assoc]
    exact .colon inline
  next noColon =>
    split at found
    next => cases found
    next spaced =>
      have behind : (rest.dropWhile isInlineSpace).head? ≠ some ':' := by
        intro first
        obtain ⟨after, ends⟩ := List.head?_eq_some_iff.mp first
        exact noColon after ends
      have dropped : (rest.dropWhile isInlineSpace).dropWhile isInlineSpace =
          rest.dropWhile isInlineSpace :=
        Text.dropWhile_of_head? fun _ => isInlineSpace_of_head?_dropWhile
      refine ⟨rest.dropWhile isInlineSpace, ?_, ?_⟩
      · nth_rewrite 1 [← whole]
        rw [← List.append_assoc]
        exact .space inline (by simpa using spaced) (by rwa [dropped])
      · rw [← titleText_inline inline, whole]
        exact Option.some.inj found

theorem title?_eq_some_iff {line text : List Char} :
    title? line = some text ↔ ∃ rest, IsTitle line rest ∧ titleText rest = text := by
  refine ⟨isTitle_of_title?, ?_⟩
  rintro ⟨rest, is, rfl⟩
  cases is with
  | colon inline =>
    rw [List.append_assoc, title?_titleWord, dropWhile_inline_cons inline (by decide)]
    rfl
  | @space space rest inline between noColon =>
    rw [List.append_assoc, title?_titleWord, dropWhile_inline inline]
    split
    next after ends => exact absurd (by rw [ends]; rfl) noColon
    next => simp [takeWhile_inline inline, between, titleText_inline inline]

/-- Behind the name and its space, a declaration has a bracket or a brace, and a connection an arrow. -/
theorem IsDeclaration.not_isConnection {line : List Char} {parts : DeclarationParts}
    (declares : IsDeclaration line parts) (other : ConnectionParts) : ¬IsConnection line other := by
  intro connects
  obtain ⟨rest, rfl, identifier, tail⟩ := declares
  obtain ⟨behind, last, same, name, chain, some, label⟩ := connects
  have here := identifier.identifier? tail.stops
  rw [same, name.identifier? (chain.stops label.stops)] at here
  obtain ⟨-, rfl⟩ : other.first = parts.name ∧ behind = rest := by simpa using here
  have hop : hops behind = (other.hops, last) := chain.hops label.stops label.hop?
  obtain ⟨space, mark, more, rfl, inline, isMark⟩ := tail.exists_mark
  have none : hop? (space ++ mark :: more) = Option.none := by
    rcases isMark with rfl | rfl
    · simp [hop?, dropWhile_inline_cons inline (by decide : isInlineSpace '[' = false), arrowHead?]
    · simp [hop?, dropWhile_inline_cons inline (by decide : isInlineSpace '\x7b' = false), arrowHead?]
  rw [hops_of_none none] at hop
  exact some (congrArg Prod.fst hop).symm

theorem IsDeclaration.unique {line : List Char} {parts other : DeclarationParts}
    (declares : IsDeclaration line parts) (again : IsDeclaration line other) :
    other.name = parts.name ∧ other.body = parts.body ∧ other.opens = parts.opens := by
  obtain ⟨gap, found, -⟩ := declares.declaration?
  obtain ⟨otherGap, same, -⟩ := again.declaration?
  rw [found] at same
  simp only [Option.some.injEq, DeclarationParts.mk.injEq] at same
  exact ⟨same.1.symm, same.2.2.1.symm, same.2.2.2.symm⟩

theorem IsConnection.unique {line : List Char} {parts other : ConnectionParts}
    (connects : IsConnection line parts) (again : IsConnection line other) : other = parts := by
  have found := connection?_eq_some_iff.mpr connects
  rw [connection?_eq_some_iff.mpr again] at found
  exact Option.some.inj found

theorem exists_labelTail {tail : List Char} : (∃ label, LabelTail tail label) ↔
    Inline tail ∨ ∃ space text, tail = space ++ ':' :: text ∧ Inline space := by
  constructor
  · rintro ⟨label, is⟩
    exact is.begins
  · rintro (inline | ⟨space, text, rfl, inline⟩)
    · exact ⟨none, .none inline⟩
    · have whole : text.takeWhile isInlineSpace ++ text.dropWhile isInlineSpace = text :=
        List.takeWhile_append_dropWhile
      rw [← whole]
      exact ⟨_, label?_eq_some_iff.mp (label?_colon inline (fun _ => List.mem_takeWhile_imp)
        fun _ => isInlineSpace_of_head?_dropWhile)⟩

end Grammar

namespace Statement

structure Chains (parts : ConnectionParts) (hops : List Hop) : Prop where
  begins : hops.head?.map (·.source.value) = some (String.ofList parts.first)
  targets : hops.map (fun hop => (hop.kind, hop.target.value)) =
    parts.hops.map fun hop => (hop.kind, String.ofList hop.target)
  linked : hops.IsChain fun hop next => hop.target = next.source
  unlabelled : ∀ hop ∈ hops.dropLast, hop.label = none
  labelled : hops.getLast?.map (·.label) = some (parts.label.map String.ofList)

section Hops

variable (label : Option String) (source : Located String)

theorem head?_locateHops (parts : List HopParts) :
    ∀ hop, (locateHops label source parts).head? = some hop → hop.source = source := by
  cases parts with
  | nil => nofun
  | cons => rintro hop ⟨⟩; rfl

theorem targets_locateHops (parts : List HopParts) :
    (locateHops label source parts).map (fun hop => (hop.kind, hop.target.value)) =
      parts.map fun hop => (hop.kind, String.ofList hop.target) := by
  induction parts generalizing source with
  | nil => rfl
  | cons first rest ih => rw [locateHops, List.map_cons, ih]; rfl

theorem linked_locateHops (parts : List HopParts) :
    (locateHops label source parts).IsChain fun hop next => hop.target = next.source := by
  induction parts generalizing source with
  | nil => exact .nil
  | cons first rest ih =>
    rw [locateHops, List.isChain_cons]
    exact ⟨fun next first => (head?_locateHops _ _ _ next first).symm, ih _⟩

theorem labels_locateHops (parts : List HopParts) :
    (∀ hop ∈ (locateHops label source parts).dropLast, hop.label = none) ∧
      (parts ≠ [] → (locateHops label source parts).getLast?.map (·.label) = some label) := by
  induction parts generalizing source with
  | nil => exact ⟨nofun, nofun⟩
  | cons first rest ih =>
    cases rest with
    | nil => exact ⟨nofun, fun _ => rfl⟩
    | cons second rest =>
      obtain ⟨unlabelled, labelled⟩ := ih (locate (source.span.stop + byteLength first.arrow) first.target)
      exact ⟨List.forall_mem_cons.mpr ⟨rfl, unlabelled⟩, fun _ => labelled (by simp)⟩

end Hops

theorem chains_locateConnection {parts : ConnectionParts} (some : parts.hops ≠ []) (start : Nat) :
    Chains parts (locateConnection start parts) where
  begins := by
    obtain ⟨first, rest, same⟩ := List.exists_cons_of_ne_nil some
    rw [locateConnection, same]
    rfl
  targets := targets_locateHops _ _ _
  linked := linked_locateHops _ _ _
  unlabelled := (labels_locateHops _ _ _).1
  labelled := (labels_locateHops _ _ _).2 some

structure Ordinary (line : List Char) : Prop where
  inhabited : line ≠ []
  noOpening : line ≠ ['{']
  noClosing : line ≠ ['}']
  noSlashes : ¬['/', '/'] <+: line
  noHash : line.head? ≠ some '#'

variable {line : List Char} {start : Nat}

theorem Ordinary.classify (ordinary : Ordinary line) (start : Nat) :
    Statement.classify line start =
      match declaration? line with
      | some parts =>
        if parts.opens then .containerOpen (locateDeclaration start parts)
        else .leaf (locateDeclaration start parts)
      | none =>
        match connection? line with
        | some parts => .connection (locateConnection start parts)
        | none =>
          match title? line with
          | some [] => .ignorable
          | some text => .title (String.ofList text)
          | none => diagnose line start := by
  unfold Statement.classify
  split
  next => exact absurd rfl ordinary.inhabited
  next => exact absurd rfl ordinary.noHash
  next words => exact absurd ⟨words, rfl⟩ ordinary.noSlashes
  next => exact absurd rfl ordinary.noClosing
  next => exact absurd rfl ordinary.noOpening
  next => rfl

/-- The space behind the name of a declaration counts in front of a list only. -/
theorem locateDeclaration_gap {parts : DeclarationParts} {gap : List Char}
    (same : parts.body.isSome = true → gap = parts.gap) (start : Nat) :
    locateDeclaration start { parts with gap } = locateDeclaration start parts := by
  obtain ⟨name, own, body, opens⟩ := parts
  cases body with
  | none => rfl
  | some list => rw [same rfl]

theorem Ordinary.classify_declaration (ordinary : Ordinary line) {parts : DeclarationParts}
    (declares : IsDeclaration line parts) (start : Nat) : Statement.classify line start =
      if parts.opens then .containerOpen (locateDeclaration start parts)
      else .leaf (locateDeclaration start parts) := by
  obtain ⟨gap, found, same⟩ := declares.declaration?
  rw [ordinary.classify, found]
  dsimp only
  rw [locateDeclaration_gap same]

theorem declaration?_eq_none (none : ∀ parts, ¬IsDeclaration line parts) : declaration? line = .none := by
  rw [Option.eq_none_iff_forall_ne_some]
  exact fun parts found => none parts (isDeclaration_of_declaration? found)

theorem connection?_eq_none (none : ∀ parts, ¬IsConnection line parts) : connection? line = .none := by
  rw [Option.eq_none_iff_forall_ne_some]
  exact fun parts found => none parts (connection?_eq_some_iff.mp found)

theorem Ordinary.classify_connection (ordinary : Ordinary line) {parts : ConnectionParts}
    (connects : IsConnection line parts) (start : Nat) :
    Statement.classify line start = .connection (locateConnection start parts) := by
  have noDeclaration : ∀ other, ¬IsDeclaration line other :=
    fun _ declares => declares.not_isConnection parts connects
  rw [ordinary.classify, declaration?_eq_none noDeclaration, connection?_eq_some_iff.mpr connects]

theorem Ordinary.classify_eq_containerOpen_iff (ordinary : Ordinary line) {declaration : Declaration} :
    Statement.classify line start = .containerOpen declaration ↔ ∃ parts, IsDeclaration line parts ∧
      parts.opens = true ∧ declaration = locateDeclaration start parts := by
  constructor
  · intro means
    have reads := reads_classify line start
    rw [means] at reads
    cases reads with
    | container found opens => exact ⟨_, isDeclaration_of_declaration? found, opens, rfl⟩
  · rintro ⟨parts, declares, opens, rfl⟩
    rw [ordinary.classify_declaration declares, if_pos opens]

theorem Ordinary.classify_eq_leaf_iff (ordinary : Ordinary line) {declaration : Declaration} :
    Statement.classify line start = .leaf declaration ↔ ∃ parts, IsDeclaration line parts ∧
      parts.opens = false ∧ declaration = locateDeclaration start parts := by
  constructor
  · intro means
    have reads := reads_classify line start
    rw [means] at reads
    cases reads with
    | leaf found closed => exact ⟨_, isDeclaration_of_declaration? found, closed, rfl⟩
  · rintro ⟨parts, declares, closed, rfl⟩
    rw [ordinary.classify_declaration declares, if_neg (by simp [closed])]

theorem Ordinary.classify_eq_connection_iff (ordinary : Ordinary line) {hops : List Hop} :
    Statement.classify line start = .connection hops ↔
      ∃ parts, IsConnection line parts ∧ hops = locateConnection start parts := by
  constructor
  · intro means
    have reads := reads_classify line start
    rw [means] at reads
    cases reads with
    | connection found => exact ⟨_, connection?_eq_some_iff.mp found, rfl⟩
  · rintro ⟨parts, connects, rfl⟩
    exact ordinary.classify_connection connects start

theorem diagnose_ne_title (line : List Char) (start : Nat) (text : String) :
    diagnose line start ≠ .title text := by
  unfold diagnose
  extract_lets span
  split
  next => nofun
  next =>
    split
    next => nofun
    next => split <;> nofun

theorem Ordinary.classify_eq_title_iff (ordinary : Ordinary line) {text : String} :
    Statement.classify line start = .title text ↔
      (∀ parts, ¬IsDeclaration line parts) ∧ (∀ parts, ¬IsConnection line parts) ∧
        ∃ rest, IsTitle line rest ∧ titleText rest ≠ [] ∧ text = String.ofList (titleText rest) := by
  constructor
  · intro means
    have noDeclaration : ∀ parts, ¬IsDeclaration line parts := by
      intro parts declares
      rw [ordinary.classify_declaration declares] at means
      split at means <;> cases means
    have noConnection : ∀ parts, ¬IsConnection line parts := by
      intro parts connects
      rw [ordinary.classify_connection connects] at means
      cases means
    refine ⟨noDeclaration, noConnection, ?_⟩
    rw [ordinary.classify, declaration?_eq_none noDeclaration, connection?_eq_none noConnection] at means
    dsimp only at means
    split at means
    next => cases means
    next read inhabited found =>
      cases means
      obtain ⟨rest, is, rfl⟩ := title?_eq_some_iff.mp found
      exact ⟨rest, is, inhabited, rfl⟩
    next => exact absurd means (diagnose_ne_title line start text)
  · rintro ⟨noDeclaration, noConnection, rest, is, inhabited, rfl⟩
    rw [ordinary.classify, declaration?_eq_none noDeclaration, connection?_eq_none noConnection,
      title?_eq_some_iff.mpr ⟨rest, is, rfl⟩]
    generalize titleText rest = text at inhabited
    cases text with
    | nil => exact absurd rfl inhabited
    | cons => rfl

end Statement

end BoxDiagram
