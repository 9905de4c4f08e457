import BoxDiagram.Proofs.OutlineLines

/-!
The logical lines of the text of an outline. They are one for each written line, in order, and mean what
the line was written for.
-/

namespace BoxDiagram

open Text Grammar

inductive Spells : Forest → List Line → Prop where
  | empty : Spells .empty []
  | leaf {heading : Heading} {rest : Forest} {line : Line} {lines : List Line}
      {declaration : Declaration} (reads : line.statement = .leaf declaration)
      (declares : heading.Declares declaration) (further : Spells rest lines) :
      Spells (.leaf heading rest) (line :: lines)
  | container {heading : Heading} {members rest : Forest} {opening closing : Line}
      {inner lines : List Line} {declaration : Declaration}
      (opens : opening.statement = .containerOpen declaration)
      (declares : heading.Declares declaration) (inside : Spells members inner)
      (closes : closing.statement = .containerClose) (further : Spells rest lines) :
      Spells (.container heading members rest) (opening :: inner ++ closing :: lines)

def Link.Connects (link : Link) (line : Line) : Prop :=
  ∃ hop, line.statement = .connection [hop] ∧ link.Joins hop

namespace Line

theorem ofPhysicalLines_cons {text : List Char} {meaning : Statement → Prop}
    (reads : ReadsAs text meaning) (start : Nat) (others : List (List Char)) :
    ∃ line, ofPhysicalLines start (text :: others) =
      line :: ofPhysicalLines (start + byteLength text + 1) others ∧ meaning line.statement := by
  obtain ⟨line, spelled, means⟩ := reads start
  exact ⟨line, by rw [ofPhysicalLines, spelled]; rfl, means⟩

theorem spells_ofPhysicalLines (forest : Forest) (start : Nat) (others : List (List Char)) :
    ∃ lines next, ofPhysicalLines start (forest.lines ++ others) =
      lines ++ ofPhysicalLines next others ∧ Spells forest lines := by
  induction forest generalizing start others with
  | empty => exact ⟨[], start, rfl, .empty⟩
  | leaf heading rest further =>
    obtain ⟨line, first, declaration, means, declares⟩ :=
      ofPhysicalLines_cons (readsAs_leaf heading) start (rest.lines ++ others)
    obtain ⟨lines, next, behind, spells⟩ := further (start + byteLength heading.text + 1) others
    refine ⟨line :: lines, next, ?_, .leaf means declares spells⟩
    rw [Forest.lines, List.cons_append, first, behind, List.cons_append]
  | container heading members rest inside further =>
    let close := ['}'] :: (rest.lines ++ others)
    obtain ⟨opening, first, declaration, means, declares⟩ :=
      ofPhysicalLines_cons (readsAs_container heading) start (members.lines ++ close)
    obtain ⟨inner, middle, within, spellsInner⟩ :=
      inside (start + byteLength (heading.text ++ [' ', '{']) + 1) close
    obtain ⟨closing, last, closes⟩ :=
      ofPhysicalLines_cons readsAs_close middle (rest.lines ++ others)
    obtain ⟨lines, next, behind, spells⟩ := further (middle + byteLength ['}'] + 1) others
    refine ⟨opening :: inner ++ closing :: lines, next, ?_,
      .container means declares spellsInner closes spells⟩
    have spelled : (Forest.container heading members rest).lines ++ others =
        (heading.text ++ [' ', '{']) :: (members.lines ++ close) := by
      simp [Forest.lines, close]
    rw [spelled, first, within, last, behind]
    simp

theorem connects_ofPhysicalLines {links : List Link}
    (names : ∀ link ∈ links, IsName link.source.toList ∧ IsName link.target.toList)
    (labels : ∀ link ∈ links, ∀ label, link.label = some label → label ≠ "" ∧ IsQuotable label)
    (start : Nat) (others : List (List Char)) :
    ∃ lines next, ofPhysicalLines start (links.map Link.text ++ others) =
      lines ++ ofPhysicalLines next others ∧ List.Forall₂ Link.Connects links lines := by
  induction links generalizing start with
  | nil => exact ⟨[], start, rfl, .nil⟩
  | cons link links ih =>
    obtain ⟨⟨source, target⟩, names⟩ := List.forall_mem_cons.mp names
    obtain ⟨label, labels⟩ := List.forall_mem_cons.mp labels
    obtain ⟨line, first, connects⟩ := ofPhysicalLines_cons (readsAs_link source target label) start
      (links.map Link.text ++ others)
    obtain ⟨lines, next, behind, all⟩ := ih names labels (start + byteLength link.text + 1)
    refine ⟨line :: lines, next, ?_, .cons connects all⟩
    rw [List.map_cons, List.cons_append, first, behind, List.cons_append]

end Line

theorem Forest.isName_of_mem_paths {forest : Forest} {outer : Option String}
    (around : ∀ path, outer = some path → IsName path.toList) :
    ∀ path ∈ forest.paths outer, IsName path.toList := by
  have inside {outer : Option String} (around : ∀ path, outer = some path → IsName path.toList)
      (heading : Heading) : IsName (NodeId.path ⟨outer, heading.name.text⟩).toList := by
    cases outer with
    | none => exact heading.name.isName
    | some outer =>
      have joined := (around outer rfl).join heading.name.isName
      simpa [NodeId.path] using joined
  induction forest generalizing outer with
  | empty => simp [paths, sketches]
  | leaf heading rest further =>
    exact List.forall_mem_cons.mpr ⟨inside around heading, further around⟩
  | container heading members rest within further =>
    have here := inside around heading
    simp only [paths, sketches, List.cons_append, List.map_cons, List.map_append,
      List.forall_mem_cons, List.forall_mem_append]
    refine ⟨here, within ?_, further around⟩
    rintro path same
    cases same
    exact here

theorem IsName.newline_notMem {text : List Char} (name : IsName text) : '\n' ∉ text :=
  fun member => (name.tail.chars _ member).1.ne (by decide) rfl

theorem Heading.newline_notMem (heading : Heading) : '\n' ∉ heading.text := by
  have name := heading.name.isName.newline_notMem
  have list := PropertyList.newline_notMem_write heading.writable
  simp [text, name, list]

theorem Forest.newline_notMem (forest : Forest) : ∀ line ∈ forest.lines, '\n' ∉ line := by
  induction forest with
  | empty => simp [lines]
  | leaf heading rest further => exact List.forall_mem_cons.mpr ⟨heading.newline_notMem, further⟩
  | container heading members rest inside further =>
    simp only [lines, List.cons_append, List.forall_mem_cons, List.forall_mem_append]
    exact ⟨by simp [heading.newline_notMem], inside, by decide, further⟩

theorem Link.newline_notMem {link : Link} (source : IsName link.source.toList)
    (target : IsName link.target.toList)
    (labels : ∀ label, link.label = some label → label ≠ "" ∧ IsQuotable label) : '\n' ∉ link.text := by
  have arrow : '\n' ∉ arrowText link.kind := by cases link.kind <;> decide
  have label : '\n' ∉ labelText link.label := by
    cases same : link.label with
    | none => simp [labelText]
    | some label => simp [labelText, (labels label same).2.2]
  simp [text, source.newline_notMem, target.newline_notMem, arrow, label]

theorem Text.splitOn_of_forall {test : Char → Bool} {text : List Char}
    (none : ∀ char ∈ text, test char = false) : splitOn test text = [text] := by
  induction text with
  | nil => rfl
  | cons char text ih =>
    obtain ⟨first, others⟩ := List.forall_mem_cons.mp none
    simp [splitOn, ih others, first]

theorem Text.physicalLines_of_notMem {text : List Char} (single : '\n' ∉ text) :
    physicalLines text = [text] := by
  apply splitOn_of_forall
  intro char member
  simpa using ne_of_mem_of_not_mem member single

/-- Written lines are the physical lines of their text, in front of an empty one. -/
theorem Text.physicalLines_flatMap {lines : List (List Char)} (single : ∀ line ∈ lines, '\n' ∉ line) :
    physicalLines (lines.flatMap (· ++ ['\n'])) = lines ++ [[]] := by
  induction lines with
  | nil => rfl
  | cons line lines ih =>
    obtain ⟨first, others⟩ := List.forall_mem_cons.mp single
    have cut : physicalLines (line ++ '\n' :: lines.flatMap (· ++ ['\n'])) =
        physicalLines line ++ physicalLines (lines.flatMap (· ++ ['\n'])) := splitOn_append _ line rfl _
    rw [List.flatMap_cons, List.append_assoc, List.singleton_append, cut, physicalLines_of_notMem first,
      ih others, List.singleton_append, List.cons_append]

namespace Outline

variable (outline : Outline)

theorem isName_endpoints : ∀ link ∈ outline.links,
    IsName link.source.toList ∧ IsName link.target.toList := by
  have isName : ∀ path ∈ outline.forest.paths none, IsName path.toList :=
    Forest.isName_of_mem_paths nofun
  intro link member
  obtain ⟨source, target⟩ := outline.endpoints link member
  exact ⟨isName _ source, isName _ target⟩

theorem newline_notMem : ∀ line ∈ outline.lines, '\n' ∉ line := by
  rw [lines, List.forall_mem_append, List.forall_mem_map]
  refine ⟨outline.forest.newline_notMem, ?_⟩
  intro link member
  obtain ⟨source, target⟩ := outline.isName_endpoints link member
  exact Link.newline_notMem source target (outline.labels link member)

theorem ofSource_text : ∃ declared connected, Line.ofSource outline.text = declared ++ connected ∧
    Spells outline.forest declared ∧ List.Forall₂ Link.Connects outline.links connected := by
  obtain ⟨declared, middle, first, spells⟩ := Line.spells_ofPhysicalLines outline.forest 0
    (outline.links.map Link.text ++ [[]])
  obtain ⟨connected, last, second, connects⟩ := Line.connects_ofPhysicalLines
    outline.isName_endpoints outline.labels middle [[]]
  refine ⟨declared, connected, ?_, spells, connects⟩
  have nothing : Line.ofPhysicalLines last [[]] = [] := rfl
  rw [Line.ofSource, text, String.toList_ofList, Text.physicalLines_flatMap outline.newline_notMem,
    lines, List.append_assoc, first, second, nothing, List.append_nil]

end Outline

end BoxDiagram
