import BoxDiagram.Proofs.LineFindings
import BoxDiagram.Proofs.LineKinds

/-!
Where statements point. All spans that a statement hands on are those of parts of its line, and the ends
of a connection are named from left to right.
-/

namespace BoxDiagram

open Text Grammar

def Declaration.spans (declaration : Declaration) : List Span :=
  declaration.name.span :: (declaration.properties.map (·.span)).toList

def Hop.spans (hop : Hop) : List Span := [hop.source.span, hop.target.span]

def Diagnostic.spans (diagnostic : Diagnostic) : List Span := diagnostic.labels.map (·.span)

def Statement.spans : Statement → List Span
  | .containerOpen declaration | .leaf declaration => declaration.spans
  | .connection hops => hops.flatMap Hop.spans
  | .malformed diagnostic => diagnostic.spans
  | _ => []

def Line.spans (line : Line) : List Span := line.span :: line.statement.spans

def Span.Cuts (start : Nat) (text part : List Char) (span : Span) : Prop :=
  ∃ before after, text = before ++ part ++ after ∧
    span = Span.ofLength (start + byteLength before) (byteLength part)

namespace Span.Cuts

variable {start : Nat} {text part : List Char} {span : Span}

theorem whole (start : Nat) (text : List Char) :
    (Span.ofLength start (byteLength text)).Cuts start text text :=
  ⟨[], [], by simp, rfl⟩

theorem inside {before after : List Char} (cuts : span.Cuts (start + byteLength before) text part) :
    span.Cuts start (before ++ text ++ after) part := by
  obtain ⟨first, last, rfl, rfl⟩ := cuts
  exact ⟨before ++ first, last ++ after, by simp, by rw [byteLength_append, Nat.add_assoc]⟩

theorem within (cuts : span.Cuts start text part) :
    start ≤ span.start ∧ span.stop ≤ start + byteLength text := by
  obtain ⟨before, after, rfl, rfl⟩ := cuts
  simp only [ofLength, byteLength_append]
  omega

end Span.Cuts

namespace Grammar

theorem beforeArrow?_append {quoted : Bool} {depth : Nat} {text before : List Char}
    (found : beforeArrow? quoted depth text = some before) :
    ∃ rest, text = before ++ '-' :: '>' :: rest := by
  induction text generalizing quoted depth before with
  | nil => cases found
  | cons char text ih =>
    have further {quoted : Bool} {depth : Nat}
        (found : (beforeArrow? quoted depth text).map (char :: ·) = some before) :
        ∃ rest, char :: text = before ++ '-' :: '>' :: rest := by
      obtain ⟨onward, same, rfl⟩ := Option.map_eq_some_iff.mp found
      obtain ⟨rest, rfl⟩ := ih same
      exact ⟨rest, rfl⟩
    unfold beforeArrow? at found
    dsimp only at found
    split at found
    next => exact further found
    next =>
      split at found
      next => exact further found
      next =>
        split at found
        next => exact further found
        next =>
          split at found
          next => exact further found
          next =>
            split at found
            next arrow =>
              cases found
              simp only [Bool.and_eq_true, beq_iff_eq] at arrow
              obtain ⟨⟨rfl, -⟩, head⟩ := arrow
              obtain ⟨rest, rfl⟩ := List.head?_eq_some_iff.mp head
              exact ⟨rest, rfl⟩
            next => exact further found

theorem beforeBracket?_append {text before : List Char} (found : beforeBracket? text = some before) :
    text = before ++ text.drop before.length := by
  unfold beforeBracket? at found
  split at found
  next =>
    cases found
    nth_rewrite 1 [← List.take_append_drop (text.takeWhile _).length text]
    rw [← List.prefix_iff_eq_take.mp (List.takeWhile_prefix _)]
  next => cases found

end Grammar

namespace Statement

variable {start : Nat} {line : List Char}

theorem cuts_locateDeclaration (start : Nat) {parts : DeclarationParts}
    (declares : IsDeclaration line parts) :
    (locateDeclaration start parts).name.span.Cuts start line parts.name ∧
      ∀ located, (locateDeclaration start parts).properties = some located →
        located.span.Cuts start line located.value.toList := by
  obtain ⟨rest, rfl, -, tail⟩ := declares
  refine ⟨⟨[], rest, by simp, rfl⟩, ?_⟩
  intro located found
  obtain ⟨body, listed, rfl⟩ := Option.map_eq_some_iff.mp found
  cases tail with
  | @mk space behind =>
    have one : byteLength ['['] = 1 := rfl
    refine ⟨parts.name ++ parts.gap ++ ['['], ']' :: space ++
      (if parts.opens then ['{'] else []) ++ behind, ?_, ?_⟩
    · simp [locate, listed, bracketed]
    · simp [locate, byteLength_append, one, Nat.add_assoc]

theorem cuts_locateHops {parts : List HopParts} {text tail : List Char} (chain : Chain parts text tail)
    {taken : List Char} {source : Located String} (label : Option String)
    (named : source.span.Cuts start (taken ++ text) source.value.toList)
    (behind : source.span.stop = start + byteLength taken) :
    ∀ hop ∈ locateHops label source parts,
      hop.source.span.Cuts start (taken ++ text) hop.source.value.toList ∧
        hop.target.span.Cuts start (taken ++ text) hop.target.value.toList := by
  induction chain generalizing taken source with
  | nil => exact List.forall_mem_nil _
  | @cons before after target rest tail kind more spaceBefore spaceBehind name further ih =>
    let arrow := before ++ arrowText kind ++ after
    let next := locate (source.span.stop + byteLength arrow) target
    have whole : taken ++ (arrow ++ (target ++ rest)) = taken ++ arrow ++ target ++ rest := by simp
    have begins : source.span.stop + byteLength arrow = start + byteLength (taken ++ arrow) := by
      rw [behind, byteLength_append taken, Nat.add_assoc]
    have nextNamed : next.span.Cuts start (taken ++ arrow ++ target ++ rest) next.value.toList := by
      refine ⟨taken ++ arrow, rest, by simp [next, locate], ?_⟩
      simp [next, locate, begins]
    have nextBehind : next.span.stop = start + byteLength (taken ++ arrow ++ target) := by
      rw [byteLength_append, ← Nat.add_assoc, ← begins]
      rfl
    have later := ih nextNamed nextBehind
    rw [← whole] at nextNamed later
    exact List.forall_mem_cons.mpr ⟨⟨named, nextNamed⟩, later⟩

theorem cuts_locateConnection {parts : ConnectionParts} (connects : IsConnection line parts) :
    ∀ hop ∈ locateConnection start parts,
      hop.source.span.Cuts start line hop.source.value.toList ∧
        hop.target.span.Cuts start line hop.target.value.toList := by
  obtain ⟨rest, tail, rfl, -, chain, -, -⟩ := connects
  refine cuts_locateHops chain _ ?_ rfl
  exact ⟨[], rest, by simp [locate], by simp [locate]⟩

/-- The span of an arrow is that of the arrow, with its head at the left if it has one. -/
theorem cuts_arrowSpan (start : Nat) (before rest : List Char) :
    ∃ arrow, (arrowSpan start before).Cuts start (before ++ '-' :: '>' :: rest) arrow := by
  unfold arrowSpan
  extract_lets arrow
  split
  next head =>
    obtain ⟨first, rfl⟩ : ∃ first, before = first ++ ['<'] := List.getLast?_eq_some_iff.mp head
    have one : byteLength ['<'] = 1 := rfl
    refine ⟨['<', '-', '>'], first, rest, by simp, ?_⟩
    simp only [arrow, byteLength_append, one, ← Nat.add_assoc, Nat.add_sub_cancel]
    rfl
  next => exact ⟨['-', '>'], before, rest, by simp, rfl⟩

theorem cuts_diagnose {diagnostic : Diagnostic} (malformed : diagnose line start = .malformed diagnostic) :
    ∀ span ∈ diagnostic.spans, ∃ part, span.Cuts start line part := by
  have whole := Span.Cuts.whole start line
  unfold diagnose at malformed
  extract_lets span at malformed
  split at malformed
  next =>
    cases malformed
    exact List.forall_mem_singleton.mpr ⟨line, whole⟩
  next =>
    split at malformed
    next before found =>
      cases malformed
      obtain ⟨rest, same⟩ := beforeArrow?_append found
      have arrow := cuts_arrowSpan start before rest
      rw [← same] at arrow
      exact List.forall_mem_cons.mpr ⟨⟨line, whole⟩, List.forall_mem_singleton.mpr arrow⟩
    next =>
      split at malformed
      next before found =>
        cases malformed
        refine List.forall_mem_singleton.mpr ⟨line.drop before.length, before, [], ?_, rfl⟩
        rw [List.append_nil, ← beforeBracket?_append found]
      next => cases malformed

/-- What a statement points to are parts of its line. -/
theorem cuts_classify : ∀ span ∈ (classify line start).spans, ∃ part, span.Cuts start line part := by
  have declared {parts : DeclarationParts} (found : declaration? line = some parts) :
      ∀ span ∈ (locateDeclaration start parts).spans, ∃ part, span.Cuts start line part := by
    obtain ⟨name, list⟩ := cuts_locateDeclaration start (isDeclaration_of_declaration? found)
    refine List.forall_mem_cons.mpr ⟨⟨_, name⟩, ?_⟩
    intro span member
    obtain ⟨located, listed, rfl⟩ := Option.map_eq_some_iff.mp (Option.mem_toList.mp member)
    exact ⟨_, list located listed⟩
  have reads := reads_classify line start
  generalize said : classify line start = statement at reads
  cases reads with
  | container found => exact declared found
  | leaf found => exact declared found
  | connection found =>
    intro span member
    obtain ⟨hop, listed, own⟩ := List.mem_flatMap.mp member
    obtain ⟨source, target⟩ := cuts_locateConnection (connection?_eq_some_iff.mp found) hop listed
    rcases List.mem_pair.mp own with rfl | rfl
    · exact ⟨_, source⟩
    · exact ⟨_, target⟩
  | missingName => exact cuts_diagnose (diagnose_of_malformed said)
  | malformedConnection => exact cuts_diagnose (diagnose_of_malformed said)
  | malformedList => exact cuts_diagnose (diagnose_of_malformed said)
  | comment | close | block | title | nothing => exact List.forall_mem_nil _

theorem pairwise_locateHops (label : Option String) (source : Located String) (parts : List HopParts) :
    ((locateHops label source parts).flatMap Hop.spans).Pairwise (·.start ≤ ·.start) ∧
      ∀ span ∈ (locateHops label source parts).flatMap Hop.spans, source.span.start ≤ span.start := by
  induction parts generalizing source with
  | nil => exact ⟨.nil, List.forall_mem_nil _⟩
  | cons first rest ih =>
    let next := locate (source.span.stop + byteLength first.arrow) first.target
    obtain ⟨pairwise, behind⟩ := ih next
    have onward : source.span.start ≤ next.span.start :=
      source.span.start_le_stop.trans (Nat.le_add_right _ _)
    have later : ∀ span ∈ (locateHops label next rest).flatMap Hop.spans,
        source.span.start ≤ span.start := fun span member => onward.trans (behind span member)
    refine ⟨.cons ?_ (.cons behind pairwise), ?_⟩
    · exact List.forall_mem_cons.mpr ⟨onward, later⟩
    · exact List.forall_mem_cons.mpr ⟨Nat.le_refl _, List.forall_mem_cons.mpr ⟨onward, later⟩⟩

theorem pairwise_spans_hops : ∀ hops, classify line start = .connection hops →
    (hops.flatMap Hop.spans).Pairwise (·.start ≤ ·.start) := by
  intro hops said
  have reads := reads_classify line start
  rw [said] at reads
  cases reads with
  | connection => exact (pairwise_locateHops _ _ _).1

end Statement

namespace Line

variable {source : String} {line : Line}

theorem says_of_mem (member : line ∈ ofSource source) :
    line.statement = .classify line.text.toList line.span.start := by
  obtain ⟨start, text, found⟩ := exists_ofText?_of_mem member
  unfold ofText? at found
  extract_lets body first at found
  split at found
  next => cases found
  next =>
    cases found
    rw [String.toList_ofList]
    rfl

theorem cuts_whole (member : line ∈ ofSource source) :
    line.span.Cuts line.span.start line.text.toList line.text.toList := by
  obtain ⟨-, -, -, -, ends⟩ := (laid_ofSource source).slices line member
  exact ⟨[], [], by simp, Span.ext rfl ends⟩

theorem cuts_source (member : line ∈ ofSource source) {span : Span} {part : List Char}
    (cuts : span.Cuts line.span.start line.text.toList part) : span.Cuts 0 source.toList part := by
  obtain ⟨before, after, whole, begins, -⟩ := (laid_ofSource source).slices line member
  rw [whole]
  rw [begins] at cuts
  exact cuts.inside

/-- All that a line points to are parts of the source, and of the line. -/
theorem cuts_of_mem (member : line ∈ ofSource source) : ∀ span ∈ line.spans,
    (∃ part, span.Cuts 0 source.toList part) ∧ line.span.start ≤ span.start ∧
      span.stop ≤ line.span.stop := by
  obtain ⟨-, -, -, -, ends⟩ := (laid_ofSource source).slices line member
  have parts : ∀ span ∈ line.spans, ∃ part, span.Cuts line.span.start line.text.toList part := by
    refine List.forall_mem_cons.mpr ⟨⟨_, cuts_whole member⟩, ?_⟩
    rw [says_of_mem member]
    exact Statement.cuts_classify
  intro span inside
  obtain ⟨part, cuts⟩ := parts span inside
  rw [ends]
  exact ⟨⟨part, cuts_source member cuts⟩, cuts.within⟩

theorem stop_le_of_mem (member : line ∈ ofSource source) {span : Span} (inside : span ∈ line.spans) :
    span.stop ≤ source.utf8ByteSize := by
  obtain ⟨⟨part, cuts⟩, -⟩ := cuts_of_mem member span inside
  have bounds := cuts.within.2
  rwa [Nat.zero_add, byteLength_toList] at bounds

end Line

end BoxDiagram
