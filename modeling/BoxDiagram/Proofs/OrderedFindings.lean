import BoxDiagram.Proofs.Accounts
import BoxDiagram.Proofs.Agreement

/-!
Findings come in the order of the text. A leaf is declared one line late, and only then found to be
repeated; but nothing else is found in between, so what is found while lines are taken in is placed one
behind the other. The bodies that are open at a time were opened one behind the other, too, as the last
one is always the first to be closed.
-/

namespace BoxDiagram

variable {α : Type}

structure Rising (starts : List Nat) (front : Nat) : Prop where
  increasing : starts.Pairwise (· < ·)
  before : ∀ start ∈ starts, start < front

namespace Rising

variable {starts : List Nat} {low high : Nat}

theorem nil (front : Nat) : Rising [] front := ⟨.nil, List.forall_mem_nil _⟩

theorem sublist {fewer : List Nat} (rising : Rising starts low) (part : fewer.Sublist starts) :
    Rising fewer low :=
  ⟨rising.increasing.sublist part, fun start member => rising.before start (part.subset member)⟩

theorem raise (rising : Rising starts low) (le : low ≤ high) : Rising starts high :=
  ⟨rising.increasing, fun start member => (rising.before start member).trans_le le⟩

theorem append (rising : Rising starts low) {start : Nat} (begins : low ≤ start) (ends : start < high) :
    Rising (starts ++ [start]) high := by
  have raised := rising.raise begins
  constructor
  · refine List.pairwise_append.mpr ⟨rising.increasing, List.pairwise_singleton _ _, ?_⟩
    exact fun first member => List.forall_mem_singleton.mpr (raised.before first member)
  · refine List.forall_mem_append.mpr ⟨?_, List.forall_mem_singleton.mpr ends⟩
    exact fun first member => (raised.before first member).trans ends

end Rising

def Diagnostic.start? (diagnostic : Diagnostic) : Option Nat := diagnostic.primarySpan.map (·.start)

structure Line.Placed (line : Line) : Prop where
  inhabited : line.span.start < line.span.stop
  leaf : ∀ declaration, line.statement = .leaf declaration →
    declaration.name.span.start = line.span.start
  container : ∀ declaration, line.statement = .containerOpen declaration →
    declaration.name.span.start = line.span.start
  malformed : ∀ diagnostic, line.statement = .malformed diagnostic → diagnostic.BeginsIn line.span

theorem Line.placed_of_mem {source : String} {line : Line} (member : line ∈ Line.ofSource source) :
    line.Placed := by
  obtain ⟨body, inhabited, start, place, same⟩ := Line.reads_of_mem member
  have begins : line.span.start = start := congrArg Span.start place
  have reads := Statement.reads_classify body start
  rw [← same] at reads
  constructor
  case inhabited =>
    have long := Text.byteLength_pos inhabited
    rw [place]
    exact Nat.lt_add_of_pos_right long
  case leaf =>
    intro declaration said
    rw [said] at reads
    cases reads
    exact begins.symm
  case container =>
    intro declaration said
    rw [said] at reads
    cases reads
    exact begins.symm
  case malformed =>
    intro diagnostic said
    rw [place]
    exact (Statement.placed_of_malformed inhabited (same.symm.trans said)).1

namespace Assembly

/-- Where the leaf that is kept back stands, or else a given byte: what is found before stands in front
of it. -/
def front (assembly : Assembly α) (limit : Nat) : Nat :=
  (assembly.pending.map (·.2.start)).getD limit

/-- The findings about the text in front of a byte, and the bodies that are open there, are in order. -/
structure Ordered (limit : Nat) (assembly : Assembly α) : Prop where
  findings : ∃ starts, assembly.diagnostics.map Diagnostic.start? = starts.map some ∧
    Rising starts (assembly.front limit)
  bodies : Rising (assembly.bodies.reverse.map (·.span.start)) (assembly.front limit)
  pending : ∀ declaration place, assembly.pending = some (declaration, place) →
    declaration.name.span.start = place.start ∧ place.start < limit

theorem Ordered.empty (limit : Nat) : Ordered limit ({} : Assembly α) :=
  ⟨⟨[], rfl, .nil _⟩, .nil _, nofun⟩

theorem front_of_pending {assembly : Assembly α} (free : assembly.pending = none) (limit : Nat) :
    assembly.front limit = limit := by
  rw [front, free]
  rfl

variable {limit : Nat} {assembly later : Assembly α}

theorem Ordered.mono (ordered : Ordered limit assembly) {further : Nat} (le : limit ≤ further) :
    Ordered further assembly := by
  have raised : assembly.front limit ≤ assembly.front further := by
    unfold front
    cases assembly.pending with
    | none => exact le
    | some => exact Nat.le_refl _
  obtain ⟨starts, same, rising⟩ := ordered.findings
  refine ⟨⟨starts, same, rising.raise raised⟩, ordered.bodies.raise raised, ?_⟩
  intro declaration place kept
  obtain ⟨named, before⟩ := ordered.pending declaration place kept
  exact ⟨named, before.trans_le le⟩

theorem Ordered.fewer (ordered : Ordered limit assembly)
    (told : later.diagnostics = assembly.diagnostics) (kept : later.pending = assembly.pending)
    (still : later.bodies <:+ assembly.bodies) : Ordered limit later := by
  have same : later.front limit = assembly.front limit := by rw [front, front, kept]
  refine ⟨?_, ?_, ?_⟩
  · rw [told, same]
    exact ordered.findings
  · rw [same]
    exact ordered.bodies.sublist (still.sublist.reverse.map _)
  · rw [kept]
    exact ordered.pending

/-- With no leaf kept back, one finding may be added that is placed in the next range, and a body that is
opened there. -/
theorem Ordered.extend (range : Span) (ordered : Ordered range.start assembly)
    (free : assembly.pending = none) (freeLater : later.pending = none) {found : Option Diagnostic}
    (told : later.diagnostics = assembly.diagnostics ++ found.toList)
    (inside : ∀ diagnostic ∈ found, diagnostic.BeginsIn range) (opened : Option OpenBody)
    (bodies : later.bodies = opened.toList ++ assembly.bodies)
    (begins : ∀ body ∈ opened, range.start ≤ body.span.start ∧ body.span.start < range.stop) :
    Ordered range.stop later := by
  obtain ⟨starts, same, rising⟩ := ordered.findings
  have around := ordered.bodies
  rw [front_of_pending free] at rising around
  constructor
  case findings =>
    rw [front_of_pending freeLater, told]
    cases found with
    | none =>
      rw [Option.toList_none, List.append_nil]
      exact ⟨starts, same, rising.raise range.start_le_stop⟩
    | some diagnostic =>
      obtain ⟨place, marked, low, high⟩ := inside diagnostic rfl
      refine ⟨starts ++ [place.start], ?_, rising.append low high⟩
      simp [same, Diagnostic.start?, marked]
  case bodies =>
    rw [front_of_pending freeLater, bodies, List.reverse_append, List.map_append]
    cases opened with
    | none =>
      rw [Option.toList_none, List.reverse_nil, List.map_nil, List.append_nil]
      exact around.raise range.start_le_stop
    | some body =>
      obtain ⟨low, high⟩ := begins body rfl
      exact around.append low high
  case pending =>
    rw [freeLater]
    nofun

theorem Ordered.report {range : Span} (ordered : Ordered range.start assembly)
    (free : assembly.pending = none) {diagnostic : Diagnostic} (inside : diagnostic.BeginsIn range) :
    Ordered range.stop (assembly.report diagnostic) := by
  have told : (assembly.report diagnostic).diagnostics = assembly.diagnostics ++
      (some diagnostic).toList := diagnostics_report assembly diagnostic
  refine ordered.extend range free free told ?_ none rfl nofun
  rintro found ⟨⟩
  exact inside

theorem Ordered.stray {brace : Span} (ordered : Ordered brace.start assembly)
    (free : assembly.pending = none) (inhabited : brace.start < brace.stop) :
    Ordered brace.stop ((assembly.report (.strayBlock brace)).push none brace) := by
  have told : ((assembly.report (.strayBlock brace)).push none brace).diagnostics =
      assembly.diagnostics ++ (some (Diagnostic.strayBlock brace)).toList :=
    diagnostics_report assembly (.strayBlock brace)
  refine ordered.extend brace free free told ?_ (some ⟨none, brace⟩) rfl ?_
  · rintro found ⟨⟩
    exact ⟨brace, rfl, Nat.le_refl _, inhabited⟩
  · rintro body ⟨⟩
    exact ⟨Nat.le_refl _, inhabited⟩

theorem Ordered.close {brace : Span} (ordered : Ordered brace.start assembly)
    (free : assembly.pending = none) (inhabited : brace.start < brace.stop) :
    Ordered brace.stop (assembly.close brace) := by
  unfold Assembly.close
  split
  next => exact ordered.report free ⟨brace, rfl, Nat.le_refl _, inhabited⟩
  next body bodies same =>
    have still : bodies <:+ assembly.bodies := same ▸ List.suffix_cons body bodies
    exact (ordered.mono inhabited.le).fewer rfl rfl still

theorem Ordered.keep {place : Span} (ordered : Ordered place.start assembly)
    (free : assembly.pending = none) {declaration : Declaration}
    (named : declaration.name.span.start = place.start) (inhabited : place.start < place.stop) :
    Ordered place.stop { assembly with pending := some (declaration, place) } := by
  have findings := ordered.findings
  have bodies := ordered.bodies
  rw [front_of_pending free] at findings bodies
  refine ⟨findings, bodies, ?_⟩
  rintro _ _ ⟨⟩
  exact ⟨named, inhabited⟩

theorem Ordered.released (ordered : Ordered limit assembly) {declaration : Declaration} {place : Span}
    (kept : assembly.pending = some (declaration, place)) :
    Ordered place.start { assembly with pending := none } := by
  have same : assembly.front limit = place.start := by
    rw [front, kept]
    rfl
  have findings := ordered.findings
  have bodies := ordered.bodies
  rw [same] at findings bodies
  exact ⟨findings, bodies, nofun⟩

section Lines

variable [Scalar α]

theorem declare_found (assembly : Assembly α) (declaration : Declaration) (kind : NodeKind)
    (span : Span) : ∃ found : Option Diagnostic,
      (assembly.declare declaration kind span).2.diagnostics = assembly.diagnostics ++ found.toList ∧
      ∀ diagnostic ∈ found, diagnostic.primarySpan = some declaration.name.span := by
  have silent : declaration.notes.filterMap Event.diagnostic? = [] := by
    simp [Declaration.notes, Event.diagnostic?]
  cases known : assembly.graph.node? (assembly.idOf declaration.name.value).path with
  | some existing =>
    rw [declare_known kind span known]
    let path := (assembly.idOf declaration.name.value).path
    let losesBody := existing.kind = .leaf && kind = .container
    refine ⟨some (.redeclared path declaration.name.span existing.span losesBody), ?_, ?_⟩
    · simp only [diagnostics, List.filterMap_append, silent, List.append_nil]
      rfl
    · rintro diagnostic ⟨⟩
      rfl
  | none =>
    rw [declare_new kind span known]
    refine ⟨none, ?_, fun _ member => absurd member (Option.not_mem_none _)⟩
    split <;> simp [diagnostics, silent]

theorem Ordered.declare (range : Span) (ordered : Ordered range.start assembly)
    (free : assembly.pending = none) {declaration : Declaration}
    (begins : range.start ≤ declaration.name.span.start)
    (ends : declaration.name.span.start < range.stop) (kind : NodeKind) {span : Span}
    (named : declaration.name.span.start = span.start) :
    Ordered range.stop (assembly.declare declaration kind span).2 ∧
      ∀ owner, Ordered range.stop ((assembly.declare declaration kind span).2.push owner span) := by
  obtain ⟨found, told, marked⟩ := declare_found assembly declaration kind span
  have freeLater := (pending_declare assembly declaration kind span).trans free
  have bodies := (sameBodies_declare assembly declaration kind span).bodies
  have inside : ∀ diagnostic ∈ found, diagnostic.BeginsIn range :=
    fun diagnostic member => ⟨_, marked diagnostic member, begins, ends⟩
  refine ⟨ordered.extend range free freeLater told inside none bodies nofun, ?_⟩
  intro owner
  refine ordered.extend range free freeLater told inside (some ⟨owner, span⟩)
    (congrArg (List.cons _) bodies) ?_
  rintro body ⟨⟩
  exact ⟨begins.trans_eq named, named.symm.trans_lt ends⟩

/-- The leaf that is kept back becomes a node or opens a body, with no line in between that counts. -/
theorem Ordered.release (ordered : Ordered limit assembly) {declaration : Declaration} {place : Span}
    (kept : assembly.pending = some (declaration, place)) (kind : NodeKind) {span : Span}
    (begins : span.start = place.start) {further : Nat} (le : limit ≤ further) :
    Ordered further (Assembly.declare { assembly with pending := none } declaration kind span).2 ∧
      ∀ owner, Ordered further
        ((Assembly.declare { assembly with pending := none } declaration kind span).2.push owner span) := by
  obtain ⟨named, before⟩ := ordered.pending declaration place kept
  have ahead := before.trans_le le
  exact (ordered.released kept).declare ⟨place.start, further, ahead.le⟩ rfl named.ge
    (named.trans_lt ahead) kind (named.trans begins.symm)

theorem Ordered.flush (ordered : Ordered limit assembly) : Ordered limit assembly.flush := by
  unfold Assembly.flush
  split
  next => exact ordered
  next declaration place kept => exact (ordered.release kept .leaf rfl (Nat.le_refl _)).1

/-- What a line is found to be stands in it, and so does the body that it opens; only the body of a leaf
that is kept back begins in front of it, at the leaf. -/
theorem Ordered.process {line : Line} (ordered : Ordered line.span.start assembly)
    (placed : line.Placed) : Ordered line.span.stop (assembly.process line) := by
  have flushed := ordered.flush
  have free := pending_flush assembly
  have inhabited := placed.inhabited
  have same := List.suffix_refl assembly.flush.bodies
  have ignored : Ordered line.span.stop (assembly.note (.ignored line.text)) :=
    (ordered.mono inhabited.le).fewer (diagnostics_ignored assembly line.text) rfl
      (List.suffix_refl _)
  unfold Assembly.process
  split
  next =>
    split
    next declaration place kept =>
      obtain ⟨-, before⟩ := ordered.pending declaration place kept
      exact (ordered.release kept .container (Nat.min_eq_left before.le) inhabited.le).2 _
    next none => exact ordered.stray none inhabited
  next => exact ignored
  next => exact ignored
  next declaration said =>
    have named := placed.container declaration said
    exact (flushed.declare line.span free named.ge (named.trans_lt inhabited) .container named).2 _
  next declaration said => exact flushed.keep free (placed.leaf declaration said) inhabited
  next => exact flushed.close free inhabited
  next => exact (flushed.mono inhabited.le).fewer rfl rfl same
  next => exact (flushed.mono inhabited.le).fewer rfl rfl same
  next diagnostic said => exact flushed.report free (placed.malformed diagnostic said)

theorem Ordered.foldl {lines : List Line} (ordered : Ordered limit assembly)
    (placed : ∀ line ∈ lines, line.Placed) (behind : ∀ line ∈ lines, limit ≤ line.span.start)
    (apart : lines.Pairwise fun earlier later => earlier.span.stop ≤ later.span.start) :
    ∃ further, Ordered further (lines.foldl Assembly.process assembly) := by
  induction lines generalizing limit assembly with
  | nil => exact ⟨limit, ordered⟩
  | cons line lines ih =>
    obtain ⟨here, placed⟩ := List.forall_mem_cons.mp placed
    obtain ⟨next, -⟩ := List.forall_mem_cons.mp behind
    obtain ⟨later, apart⟩ := List.pairwise_cons.mp apart
    exact ih ((ordered.mono next).process here) placed later apart

theorem ordered_behindLines (source : String) :
    ∃ limit, Ordered limit (behindLines source : Assembly α) := by
  have empty : Ordered 0 ({} : Assembly α) := .empty 0
  obtain ⟨limit, ordered⟩ := empty.foldl (fun line member => Line.placed_of_mem member)
    (fun line _ => Nat.zero_le line.span.start) (Line.laid_ofSource source).pairwise
  exact ⟨limit, ordered.flush⟩

end Lines

end Assembly

end BoxDiagram
