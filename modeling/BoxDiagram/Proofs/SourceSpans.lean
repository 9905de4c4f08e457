import BoxDiagram.Proofs.FindingGroups
import BoxDiagram.Proofs.NamedParts
import BoxDiagram.Proofs.ResolvedHops

/-!
All places that are handed out are places in the source. While the lines are taken in, an assembly holds
only spans that are cut out of the source: those of the leaf that is kept back, of the open bodies, of the
nodes and of what is marked in the findings. The hops and the layout add none but these, so whatever is
shown of a diagram or a refusal points into the source, at the text that it is about.
-/

namespace BoxDiagram

open Text

variable {α : Type} {text : List Char}

namespace Diagnostic

theorem within_singleton {diagnostic : Diagnostic} {label : Label} (marks : diagnostic.labels = [label])
    (partOf : label.span.PartOf text) : diagnostic.Within text := by
  rw [Within, marks]
  exact List.forall_mem_singleton.mpr partOf

theorem within_redeclared {path : String} {name first : Span} {losesBody : Bool}
    (named : name.PartOf text) (declared : first.PartOf text) :
    (redeclared path name first losesBody).Within text :=
  List.forall_mem_cons.mpr ⟨named, List.forall_mem_singleton.mpr declared⟩

theorem Within.withSecondaryLabel {diagnostic : Diagnostic} (within : diagnostic.Within text) {span : Span}
    (partOf : span.PartOf text) (remark : String) :
    (diagnostic.withSecondaryLabel span remark).Within text :=
  List.forall_mem_append.mpr ⟨within, List.forall_mem_singleton.mpr partOf⟩

theorem within_ambiguousEndpoint (name : String) {endpoint : Span} {candidates : List (String × Span)}
    (named : endpoint.PartOf text) (declared : ∀ candidate ∈ candidates, candidate.2.PartOf text) :
    (ambiguousEndpoint name endpoint candidates).Within text := by
  unfold ambiguousEndpoint
  extract_lets choices base
  exact List.foldlRecOn (motive := Within text) candidates _ (within_singleton rfl named)
    fun _ within candidate listed => within.withSecondaryLabel (declared candidate listed) "candidate"

end Diagnostic

namespace Assembly

/-- All that an assembly points to are parts of the text, and the leaf that is kept back stands in front of
a byte. -/
structure Sited (text : List Char) (limit : Nat) (assembly : Assembly α) : Prop where
  pending : ∀ declaration place, assembly.pending = some (declaration, place) →
    declaration.Begins text place ∧ place.stop ≤ limit
  bodies : ∀ body ∈ assembly.bodies, body.span.PartOf text
  nodes : ∀ node ∈ assembly.graph.nodes, node.span.PartOf text
  findings : ∀ diagnostic ∈ assembly.diagnostics, diagnostic.Within text

variable {limit : Nat} {assembly : Assembly α}

theorem Sited.empty (text : List Char) (limit : Nat) : Sited text limit ({} : Assembly α) :=
  ⟨nofun, List.forall_mem_nil _, List.forall_mem_nil _, List.forall_mem_nil _⟩

theorem Sited.mono (sited : assembly.Sited text limit) {further : Nat} (le : limit ≤ further) :
    assembly.Sited text further :=
  { sited with pending := fun declaration place kept =>
      (sited.pending declaration place kept).imp_right (·.trans le) }

theorem Sited.released (sited : assembly.Sited text limit) :
    Sited text limit { assembly with pending := none } :=
  ⟨nofun, sited.bodies, sited.nodes, sited.findings⟩

theorem Sited.report (sited : assembly.Sited text limit) {diagnostic : Diagnostic}
    (within : diagnostic.Within text) : (assembly.report diagnostic).Sited text limit := by
  refine ⟨sited.pending, sited.bodies, sited.nodes, ?_⟩
  rw [diagnostics_report]
  exact List.forall_mem_append.mpr ⟨sited.findings, List.forall_mem_singleton.mpr within⟩

theorem Sited.push (sited : assembly.Sited text limit) (owner : Option String) {span : Span}
    (partOf : span.PartOf text) : (assembly.push owner span).Sited text limit :=
  ⟨sited.pending, List.forall_mem_cons.mpr ⟨partOf, sited.bodies⟩, sited.nodes, sited.findings⟩

theorem Sited.close (sited : assembly.Sited text limit) {brace : Span} (partOf : brace.PartOf text) :
    (assembly.close brace).Sited text limit := by
  unfold Assembly.close
  split
  next => exact sited.report (Diagnostic.within_singleton rfl partOf)
  next body bodies same =>
    refine ⟨sited.pending, ?_, sited.nodes, sited.findings⟩
    exact fun other member => sited.bodies other (same ▸ List.mem_cons_of_mem body member)

theorem Sited.reportOpen (sited : assembly.Sited text limit) :
    assembly.reportOpen.Sited text limit := by
  refine ⟨sited.pending, List.forall_mem_nil _, sited.nodes, ?_⟩
  rw [diagnostics_reportOpen]
  refine List.forall_mem_append.mpr ⟨sited.findings, ?_⟩
  intro diagnostic member
  obtain ⟨body, listed, rfl⟩ := List.mem_map.mp member
  exact Diagnostic.within_singleton rfl (sited.bodies body (List.mem_reverse.mp listed))

theorem Sited.begins_keptEntry (sited : assembly.Sited text limit) :
    ∀ entry ∈ assembly.keptEntry, entry.declaration.Begins text entry.span := by
  intro entry member
  obtain ⟨waiting, waits, rfl⟩ := List.mem_map.mp member
  exact (sited.pending waiting.1 waiting.2 (Option.mem_toList.mp waits)).1

section Lines

variable [Scalar α]

/-- A declaration that stands in the text makes a node there, or marks its name and the node that is known. -/
theorem Sited.declare (sited : assembly.Sited text limit) {declaration : Declaration} {span : Span}
    (begins : declaration.Begins text span) (kind : NodeKind) :
    (assembly.declare declaration kind span).2.Sited text limit := by
  unfold Assembly.declare
  extract_lets list properties noted id merged
  have told : noted.Sited text limit := by
    refine ⟨sited.pending, sited.bodies, sited.nodes, ?_⟩
    have silent : noted.diagnostics = assembly.diagnostics := by
      simp [noted, diagnostics, Event.diagnostic?]
    rw [silent]
    exact sited.findings
  split
  next existing known =>
    have declared := told.nodes existing (List.mem_of_find?_eq_some known)
    have mergedSited : merged.Sited text limit := by
      refine ⟨told.pending, told.bodies, ?_, told.findings⟩
      intro node member
      obtain ⟨before, listed, rfl⟩ := List.mem_map.mp member
      have still := told.nodes before listed
      split <;> exact still
    exact mergedSited.report (Diagnostic.within_redeclared ⟨_, begins.name⟩ declared)
  next =>
    split
    next graph added =>
      obtain ⟨-, -, rfl⟩ := Graph.addNode_eq_ok_iff.mp added
      obtain ⟨rest, whole⟩ := begins.whole
      refine ⟨told.pending, told.bodies, ?_, told.findings⟩
      exact List.forall_mem_append.mpr ⟨told.nodes, List.forall_mem_singleton.mpr ⟨_, whole⟩⟩
    next => exact told

theorem Sited.openContainer (sited : assembly.Sited text limit) {declaration : Declaration} {span : Span}
    (begins : declaration.Begins text span) :
    (assembly.openContainer declaration span).Sited text limit := by
  obtain ⟨rest, whole⟩ := begins.whole
  exact (sited.declare begins .container).push _ ⟨_, whole⟩

theorem Sited.flush (sited : assembly.Sited text limit) : assembly.flush.Sited text limit := by
  unfold Assembly.flush
  split
  next => exact sited
  next declaration place kept => exact sited.released.declare (sited.pending declaration place kept).1 .leaf

theorem Sited.process {line : Line} (sited : assembly.Sited text line.span.start)
    (lineSited : line.Sited text) : (assembly.process line).Sited text line.span.stop := by
  have flushed := sited.flush
  have onward := line.span.start_le_stop
  have declared := lineSited.declared
  unfold Assembly.process
  cases said : line.statement with
  | blockOpen =>
    cases kept : assembly.pending with
    | none =>
      have stray : (Diagnostic.strayBlock line.span).Within text :=
        Diagnostic.within_singleton rfl lineSited.own
      exact ((sited.mono onward).report stray).push none lineSited.own
    | some waiting =>
      obtain ⟨begins, before⟩ := sited.pending waiting.1 waiting.2 kept
      exact (sited.released.mono onward).openContainer (begins.union lineSited.own before)
  | comment | ignorable =>
    have noted : (assembly.note (.ignored line.text)).Sited text line.span.start := by
      refine ⟨sited.pending, sited.bodies, sited.nodes, ?_⟩
      rw [diagnostics_ignored]
      exact sited.findings
    exact noted.mono onward
  | containerOpen declaration =>
    rw [said] at declared
    exact (flushed.mono onward).openContainer (declared declaration rfl)
  | leaf declaration =>
    rw [said] at declared
    refine ⟨?_, flushed.bodies, flushed.nodes, flushed.findings⟩
    rintro _ _ ⟨⟩
    exact ⟨declared declaration rfl, Nat.le_refl _⟩
  | containerClose => exact (flushed.mono onward).close lineSited.own
  | connection | title =>
    obtain ⟨pending, bodies, nodes, findings⟩ := flushed.mono onward
    exact ⟨pending, bodies, nodes, findings⟩
  | malformed diagnostic => exact (flushed.mono onward).report (lineSited.malformed diagnostic said)

theorem Sited.begins_lineEntries {line : Line} (sited : assembly.Sited text line.span.start)
    (lineSited : line.Sited text) :
    ∀ entry ∈ assembly.lineEntries line, entry.declaration.Begins text entry.span := by
  have declared := lineSited.declared
  have kept := sited.begins_keptEntry
  unfold lineEntries
  cases said : line.statement with
  | blockOpen =>
    intro entry member
    obtain ⟨waiting, waits, rfl⟩ := List.mem_map.mp member
    obtain ⟨begins, before⟩ := sited.pending waiting.1 waiting.2 (Option.mem_toList.mp waits)
    exact begins.union lineSited.own before
  | comment | ignorable => exact List.forall_mem_nil _
  | containerOpen declaration =>
    rw [said] at declared
    exact List.forall_mem_append.mpr ⟨kept, List.forall_mem_singleton.mpr (declared declaration rfl)⟩
  | leaf | containerClose | connection | title | malformed => exact kept

/-- Lines that stand in the text one behind the other are taken in there, and so is all that is entered
with them. -/
theorem Sited.foldl {lines : List Line} (sited : assembly.Sited text limit)
    (lineSited : ∀ line ∈ lines, line.Sited text) (behind : ∀ line ∈ lines, limit ≤ line.span.start)
    (apart : lines.Pairwise fun earlier later => earlier.span.stop ≤ later.span.start) :
    (∃ further, (lines.foldl Assembly.process assembly).Sited text further) ∧
      ∀ entry ∈ assembly.entries lines, entry.declaration.Begins text entry.span := by
  induction lines generalizing limit assembly with
  | nil => exact ⟨⟨limit, sited⟩, sited.begins_keptEntry⟩
  | cons line lines ih =>
    obtain ⟨here, lineSited⟩ := List.forall_mem_cons.mp lineSited
    obtain ⟨next, -⟩ := List.forall_mem_cons.mp behind
    obtain ⟨later, apart⟩ := List.pairwise_cons.mp apart
    have reached := sited.mono next
    obtain ⟨taken, entered⟩ := ih (reached.process here) lineSited later apart
    exact ⟨taken, List.forall_mem_append.mpr ⟨reached.begins_lineEntries here, entered⟩⟩

end Lines

section Hops

theorem Sited.within_resolve (sited : assembly.Sited text limit) {endpoint : Located String}
    (named : endpoint.span.PartOf text) {diagnostic : Diagnostic}
    (found : resolve assembly.graph endpoint = .error diagnostic) : diagnostic.Within text := by
  unfold resolve at found
  extract_lets name at found
  split at found
  next => cases found
  next =>
    split at found
    next =>
      cases found
      exact Diagnostic.within_singleton rfl named
    next => cases found
    next =>
      cases found
      refine Diagnostic.within_ambiguousEndpoint name named ?_
      intro candidate listed
      obtain ⟨node, member, rfl⟩ := List.mem_map.mp listed
      exact sited.nodes node (List.mem_filter.mp member).1

theorem Sited.resolved {later : Assembly α} {hops : List Hop} (sited : assembly.Sited text limit)
    (joins : ∀ hop ∈ hops, hop.Joins text) (resolves : Resolves hops assembly later) :
    later.Sited text limit := by
  obtain ⟨edges, grown, -⟩ := resolves.edges
  obtain ⟨found, told, fails⟩ := resolves.findings
  constructor
  case pending =>
    rw [resolves.pending]
    exact sited.pending
  case bodies =>
    rw [resolves.bodies]
    exact sited.bodies
  case nodes =>
    rw [grown]
    exact sited.nodes
  case findings =>
    rw [told]
    refine List.forall_mem_append.mpr ⟨sited.findings, ?_⟩
    intro diagnostic member
    obtain ⟨hop, listed, endpoint, own, failed⟩ := fails diagnostic member
    exact sited.within_resolve ⟨_, (joins hop listed).endpoint endpoint own⟩ failed

end Hops

section Source

variable [Scalar α] (source : String)

theorem sited_behindLines :
    (∃ limit, (behindLines source : Assembly α).Sited source.toList limit) ∧
      ∀ entry ∈ sourceEntries (α := α) source, entry.declaration.Begins source.toList entry.span := by
  have sited : ({} : Assembly α).Sited source.toList 0 := .empty source.toList 0
  obtain ⟨⟨limit, taken⟩, entered⟩ := sited.foldl (fun line member => Line.sited_of_mem member)
    (fun line _ => Nat.zero_le line.span.start) (Line.laid_ofSource source).pairwise
  exact ⟨⟨limit, taken.flush⟩, entered⟩

theorem joins_hops :
    ∀ hop ∈ (Line.ofSource source).flatMap (·.statement.hops), hop.Joins source.toList := by
  intro hop member
  obtain ⟨line, listed, said⟩ := List.mem_flatMap.mp member
  exact (Line.sited_of_mem listed).hops hop said

theorem sited_assemble : ∃ limit, (assemble source : Assembly α).Sited source.toList limit := by
  obtain ⟨⟨limit, sited⟩, -⟩ := sited_behindLines (α := α) source
  obtain ⟨pending, bodies, nodes, findings⟩ := sited.reportOpen
  have ended : Sited source.toList limit { (behindLines source : Assembly α).reportOpen with hops := [] } :=
    ⟨pending, bodies, nodes, findings⟩
  exact ⟨limit, ended.resolved (joins_hops source) (resolves_assemble source)⟩

end Source

end Assembly

/-- What a layout leaves alone tells which entry has made a node. -/
theorem Node.MadeBy.sameContent {first second : Node α} {entry : Entry} {entries : List Entry}
    (made : first.MadeBy entry entries) (same : first.SameContent second) : second.MadeBy entry entries := by
  obtain ⟨⟨sameId, sameKind, sameSpan⟩, before, after, split, earliest⟩ := made
  refine ⟨⟨?_, ?_, ?_⟩, before, after, split, ?_⟩
  · rw [sameId, same.id]
  · rw [sameKind, same.kind]
  · rw [sameSpan, same.span]
  · rwa [Node.path, same.id]

theorem Edge.MadeOf.sameContent {first second : Edge} {hop : Hop} {graph : Graph α}
    (made : first.MadeOf hop graph) (same : first.SameContent second) : second.MadeOf hop graph where
  source := by rw [made.source, same.source]
  target := by rw [made.target, same.target]
  kind := by rw [same.kind, made.kind]
  label := by rw [same.label, made.label]
  span := by rw [same.span, made.span]

section Diagram

open Assembly

variable [Scalar α] (settings : Settings α) (source : String)

theorem sameContent_ofSource :
    (parse source : Parsed α).graph.SameContent (Diagram.ofSource settings source).graph := by
  rw [Diagram.ofSource_eq]
  exact (parse source).graph.sameContent_layout settings

theorem nodes_ofSource : ∀ node ∈ (Diagram.ofSource settings source).graph.nodes,
    ∃ entry, node.MadeBy entry (sourceEntries (α := α) source) ∧
      ∃ rest, node.span.Cuts 0 source.toList (entry.declaration.name.value.toList ++ rest) := by
  intro node member
  obtain ⟨parsed, listed, same⟩ :=
    exists_of_forall₂ (sameContent_ofSource settings source).nodes node member
  obtain ⟨entry, first⟩ := (entered_parse source).made parsed listed
  have made := first.sameContent same
  obtain ⟨rest, whole⟩ := ((sited_behindLines (α := α) source).2 entry made.mem).whole
  rw [made.1.2.2] at whole
  exact ⟨entry, made, rest, whole⟩

theorem edges_ofSource : ∀ edge ∈ (Diagram.ofSource settings source).graph.edges,
    ∃ hop ∈ (Line.ofSource source).flatMap (·.statement.hops),
      edge.MadeOf hop (parse source : Parsed α).graph ∧
        ∃ between, edge.span.Cuts 0 source.toList
          (hop.source.value.toList ++ between ++ hop.target.value.toList) := by
  intro edge member
  obtain ⟨parsed, listed, same⟩ :=
    exists_of_forall₂ (sameContent_ofSource settings source).edges edge member
  obtain ⟨hop, said, joined⟩ := madeOf_parse source parsed listed
  have made := joined.sameContent same
  obtain ⟨between, whole⟩ := (joins_hops source hop said).whole
  rw [← made.span] at whole
  exact ⟨hop, said, made, between, whole⟩

theorem diagnostics_ofSource {diagnostic : Diagnostic}
    (found : diagnostic ∈ (Diagram.ofSource settings source).diagnostics) :
    diagnostic ∈ (parse source : Parsed α).diagnostics ∨
      ∃ edge ∈ (Diagram.ofSource settings source).graph.edges,
        diagnostic = .brokenCycle edge.source edge.target edge.span := by
  rw [Diagram.ofSource_eq] at found ⊢
  refine (List.mem_append.mp found).imp_right fun laidOut => ?_
  rw [Graph.diagnostics_layout] at laidOut
  obtain ⟨edge, flagged, rfl⟩ := List.mem_map.mp laidOut
  exact ⟨edge, (List.mem_filter.mp flagged).1, rfl⟩

theorem within_ofSource :
    ∀ diagnostic ∈ (Diagram.ofSource settings source).diagnostics, diagnostic.Within source.toList := by
  intro diagnostic found
  rcases diagnostics_ofSource settings source found with read | ⟨edge, member, rfl⟩
  · obtain ⟨limit, sited⟩ := sited_assemble (α := α) source
    exact sited.findings diagnostic read
  · obtain ⟨hop, -, -, between, whole⟩ := edges_ofSource settings source edge member
    exact Diagnostic.within_singleton rfl ⟨_, whole⟩

theorem endpoints_ofSource {diagnostic : Diagnostic}
    (found : diagnostic ∈ (Diagram.ofSource settings source).diagnostics)
    (concerns : diagnostic.concernsEndpoint = true) :
    ∃ hop ∈ (Line.ofSource source).flatMap (·.statement.hops), ∃ endpoint ∈ hop.endpoints,
      resolve (parse source : Parsed α).graph endpoint = .error diagnostic ∧
        diagnostic.primarySpan = some endpoint.span ∧
        endpoint.span.Cuts 0 source.toList endpoint.value.toList := by
  rcases diagnostics_ofSource settings source found with read | ⟨edge, -, rfl⟩
  · obtain ⟨hop, said, endpoint, own, fails⟩ := foundAt_parse source read concerns
    have cuts := (joins_hops source hop said).endpoint endpoint own
    exact ⟨hop, said, endpoint, own, fails, primarySpan_of_resolve fails, cuts⟩
  · cases concerns

/-- Whatever is shown of a source points into it, whether a strict run refuses the diagram or not. The text
at a node begins with its name as it was first declared, and the declarations are those of the lines, in
their order. The text at an edge begins with the name of the source and ends with that of the target, both
as written on the hop that the edge is made of. All labels of the findings mark slices of the source, and a
finding about an endpoint, which is what is wrong with the end of a hop, is placed at the text of that
end. -/
theorem diagram_pointsInto (isStrict : Bool) :
    let hops := (Line.ofSource source).flatMap (·.statement.hops)
    let entries := sourceEntries (α := α) source
    let parsed : Parsed α := parse source
    let diagram := Diagram.ofSource settings source
    (Diagram.build settings isStrict source = .ok diagram ∨
      Diagram.build settings isStrict source = .error (.strict diagram.diagnostics source)) ∧
    entries.map (·.declaration) = (Line.ofSource source).filterMap (·.statement.declaration?) ∧
    (∀ node ∈ diagram.graph.nodes, node.span.IsSlice source ∧
      ∃ entry, node.MadeBy entry entries ∧
        ∃ rest, node.span.Cuts 0 source.toList (entry.declaration.name.value.toList ++ rest)) ∧
    (∀ edge ∈ diagram.graph.edges, edge.span.IsSlice source ∧
      ∃ hop ∈ hops, edge.MadeOf hop parsed.graph ∧
        ∃ between, edge.span.Cuts 0 source.toList
          (hop.source.value.toList ++ between ++ hop.target.value.toList)) ∧
    ∀ diagnostic ∈ diagram.diagnostics,
      (∀ label ∈ diagnostic.labels, label.span.IsSlice source) ∧
      (diagnostic.concernsEndpoint = true →
        ∃ hop ∈ hops, ∃ endpoint ∈ hop.endpoints, resolve parsed.graph endpoint = .error diagnostic ∧
          diagnostic.primarySpan = some endpoint.span ∧
          endpoint.span.Cuts 0 source.toList endpoint.value.toList) := by
  intro hops entries parsed diagram
  refine ⟨?_, declarations_sourceEntries source, ?_, ?_, ?_⟩
  · by_cases accepted : isStrict = true → diagram.diagnostics = []
    · exact .inl (Diagram.build_accepted accepted)
    · obtain ⟨rfl, found⟩ := Classical.not_imp.mp accepted
      exact .inr (Diagram.build_refused found)
  · intro node member
    obtain ⟨entry, made, rest, whole⟩ := nodes_ofSource settings source node member
    exact ⟨Span.PartOf.isSlice ⟨_, whole⟩, entry, made, rest, whole⟩
  · intro edge member
    obtain ⟨hop, said, made, between, whole⟩ := edges_ofSource settings source edge member
    exact ⟨Span.PartOf.isSlice ⟨_, whole⟩, hop, said, made, between, whole⟩
  · intro diagnostic found
    refine ⟨?_, endpoints_ofSource settings source found⟩
    exact fun label marked => (within_ofSource settings source diagnostic found label marked).isSlice

/-- A declaration goes on to the brace that follows it, whatever blanks of several bytes are in between. -/
example :
    let diagram := Diagram.ofSource (.default : Settings Float32)
      "\u00a0é [x: 1]\u3000;\n \x7b\n\x7d\né -> b"
    diagram.graph.nodes.map (·.span) = [.ofLength 2 16] ∧
      diagram.diagnostics.map (·.primarySpan) = [some (.ofLength 27 1)] := by
  decide +kernel

end Diagram

end BoxDiagram
