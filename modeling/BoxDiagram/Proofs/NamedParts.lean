import BoxDiagram.Proofs.FirstDeclarations
import BoxDiagram.Proofs.StatementSpans

/-!
Where names stand. A span that is cut out of a text lies between two characters of it at both ends. The
span of a declaration begins with its name, and that of a hop with the name of its source and ends with the
name of its target.
-/

namespace BoxDiagram

open Text Grammar

theorem Text.prefix_of_byteLength_le {first second text : List Char} (begins : first <+: text)
    (other : second <+: text) (le : byteLength first ≤ byteLength second) : first <+: second := by
  rcases List.prefix_or_prefix_of_prefix begins other with sooner | ⟨more, rfl⟩
  · exact sooner
  · have none : more = [] := by
      by_contra inhabited
      have positive := byteLength_pos inhabited
      rw [byteLength_append] at le
      omega
    rw [none, List.append_nil]

namespace Span

def PartOf (text : List Char) (span : Span) : Prop := ∃ part, span.Cuts 0 text part

/-- The bytes of the span are bytes of the source, and at both ends a character begins or the source
ends. -/
structure IsSlice (source : String) (span : Span) : Prop where
  ordered : span.start ≤ span.stop
  inside : span.stop ≤ source.utf8ByteSize
  begins : (⟨span.start⟩ : String.Pos.Raw).IsValid source
  ends : (⟨span.stop⟩ : String.Pos.Raw).IsValid source

theorem isValid_byteLength {source : String} {before after : List Char}
    (same : source.toList = before ++ after) :
    (⟨byteLength before⟩ : String.Pos.Raw).IsValid source := by
  refine String.Pos.Raw.isValid_iff_exists_append.mpr ⟨String.ofList before, String.ofList after, ?_, ?_⟩
  · rw [← String.ofList_append, ← same, String.ofList_toList]
  · rw [String.Pos.Raw.ext_iff, String.byteIdx_rawEndPos, ← byteLength_toList, String.toList_ofList]

theorem PartOf.isSlice {source : String} {span : Span} (partOf : span.PartOf source.toList) :
    span.IsSlice source := by
  obtain ⟨part, cuts⟩ := partOf
  have bounds := cuts.within.2
  rw [Nat.zero_add, byteLength_toList] at bounds
  obtain ⟨before, after, same, rfl⟩ := cuts
  constructor
  case ordered => exact Nat.le_add_right _ _
  case inside => exact bounds
  case begins =>
    simp only [ofLength, Nat.zero_add]
    rw [List.append_assoc] at same
    exact isValid_byteLength same
  case ends =>
    simp only [ofLength, Nat.zero_add, ← byteLength_append]
    exact isValid_byteLength same

theorem Cuts.union {start : Nat} {text first second : List Char} {left right : Span}
    (cutsLeft : left.Cuts start text first) (cutsRight : right.Cuts start text second)
    (behind : left.stop ≤ right.start) :
    ∃ between, (left.union right).Cuts start text (first ++ between ++ second) := by
  obtain ⟨before, rest, same, rfl⟩ := cutsLeft
  obtain ⟨ahead, after, again, rfl⟩ := cutsRight
  simp only [ofLength] at behind
  have sooner : before ++ first <+: ahead := by
    have begins : before ++ first <+: text := ⟨rest, same.symm⟩
    have other : ahead <+: text := ⟨second ++ after, by rw [again, List.append_assoc]⟩
    refine prefix_of_byteLength_le begins other ?_
    rw [byteLength_append]
    omega
  obtain ⟨between, rfl⟩ := sooner
  refine ⟨between, before, after, ?_, ?_⟩
  · rw [again]
    simp
  · apply Span.ext <;> simp only [Span.union, ofLength, byteLength_append] <;> omega

end Span

structure Declaration.Begins (text : List Char) (declaration : Declaration) (span : Span) : Prop where
  name : declaration.name.span.Cuts 0 text declaration.name.value.toList
  whole : ∃ rest, span.Cuts 0 text (declaration.name.value.toList ++ rest)

/-- A brace behind a declaration becomes a part of it. -/
theorem Declaration.Begins.union {text : List Char} {declaration : Declaration} {span brace : Span}
    (begins : declaration.Begins text span) (cuts : brace.PartOf text) (behind : span.stop ≤ brace.start) :
    declaration.Begins text (span.union brace) := by
  obtain ⟨rest, whole⟩ := begins.whole
  obtain ⟨part, cuts⟩ := cuts
  obtain ⟨between, joined⟩ := whole.union cuts behind
  exact ⟨begins.name, rest ++ between ++ part, by simpa using joined⟩

structure Hop.Joins (text : List Char) (hop : Hop) : Prop where
  source : hop.source.span.Cuts 0 text hop.source.value.toList
  target : hop.target.span.Cuts 0 text hop.target.value.toList
  whole : ∃ between,
    hop.span.Cuts 0 text (hop.source.value.toList ++ between ++ hop.target.value.toList)

theorem Hop.Joins.endpoint {text : List Char} {hop : Hop} (joins : hop.Joins text) :
    ∀ endpoint ∈ hop.endpoints, endpoint.span.Cuts 0 text endpoint.value.toList :=
  List.forall_mem_cons.mpr ⟨joins.source, List.forall_mem_singleton.mpr joins.target⟩

theorem Statement.apart_locateHops (label : Option String) (source : Located String)
    (parts : List HopParts) :
    ∀ hop ∈ locateHops label source parts, hop.source.span.stop ≤ hop.target.span.start := by
  induction parts generalizing source with
  | nil => exact List.forall_mem_nil _
  | cons first rest ih => exact List.forall_mem_cons.mpr ⟨Nat.le_add_right _ _, ih _⟩

def Diagnostic.Within (text : List Char) (diagnostic : Diagnostic) : Prop :=
  ∀ label ∈ diagnostic.labels, label.span.PartOf text

namespace Line

structure Sited (text : List Char) (line : Line) : Prop where
  own : line.span.PartOf text
  declared : ∀ declaration, line.statement.declaration? = some declaration →
    declaration.Begins text line.span
  malformed : ∀ diagnostic, line.statement = .malformed diagnostic → diagnostic.Within text
  hops : ∀ hop ∈ line.statement.hops, hop.Joins text

variable {source : String} {line : Line}

theorem begins_of_mem (member : line ∈ ofSource source) {parts : DeclarationParts}
    (found : declaration? line.text.toList = some parts) :
    (Statement.locateDeclaration line.span.start parts).Begins source.toList line.span := by
  have declares := isDeclaration_of_declaration? found
  have name := (Statement.cuts_locateDeclaration line.span.start declares).1
  obtain ⟨rest, whole, -⟩ := declares
  have value : (Statement.locateDeclaration line.span.start parts).name.value.toList = parts.name :=
    String.toList_ofList
  rw [← value] at name whole
  refine ⟨cuts_source member name, rest, cuts_source member ?_⟩
  rw [← whole]
  exact cuts_whole member

theorem joins_of_mem (member : line ∈ ofSource source) {parts : ConnectionParts}
    (found : connection? line.text.toList = some parts) :
    ∀ hop ∈ Statement.locateConnection line.span.start parts, hop.Joins source.toList := by
  intro hop listed
  obtain ⟨cutsSource, cutsTarget⟩ :=
    Statement.cuts_locateConnection (connection?_eq_some_iff.mp found) hop listed
  have apart := Statement.apart_locateHops _ _ _ hop listed
  have source := cuts_source member cutsSource
  have target := cuts_source member cutsTarget
  exact ⟨source, target, source.union target apart⟩

theorem sited_of_mem (member : line ∈ ofSource source) : line.Sited source.toList := by
  have parts := cuts_of_mem member
  have reads := Statement.reads_classify line.text.toList line.span.start
  rw [← says_of_mem member] at reads
  constructor
  case own => exact (parts line.span List.mem_cons_self).1
  case declared =>
    intro declaration said
    generalize line.statement = statement at reads said
    cases reads with
    | container found | leaf found =>
      cases said
      exact begins_of_mem member found
    | _ => cases said
  case malformed =>
    intro diagnostic said label marked
    have listed : label.span ∈ line.spans := by
      rw [spans, said]
      exact List.mem_cons_of_mem _ (List.mem_map_of_mem marked)
    exact (parts label.span listed).1
  case hops =>
    generalize line.statement = statement at reads
    cases reads with
    | connection found => exact joins_of_mem member found
    | _ => exact List.forall_mem_nil _

end Line

end BoxDiagram
