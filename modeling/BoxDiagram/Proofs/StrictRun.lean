import BoxDiagram.Proofs.ParsedGraph

/-!
A run that stops where the graph refuses a node or an edge. The reader goes on there without the node or
the edge. But nodes are only declared under new paths and inside nodes of the graph, and the ends of a
hop are only resolved to nodes of the graph, so nothing is refused: the strict run does not stop.
-/

namespace BoxDiagram.Assembly

variable {α : Type} [Scalar α]

def strictDeclare (assembly : Assembly α) (declaration : Declaration) (kind : NodeKind) (span : Span) :
    Except GraphError (Option String × Assembly α) :=
  let properties := PropertyList.read ((declaration.properties.map (·.value)).getD "")
  let id := assembly.idOf declaration.name.value
  match assembly.graph.node? id.path with
  | some _ => .ok (assembly.declare declaration kind span)
  | none => do
    let _ ← assembly.graph.addNode (.declared id kind assembly.enclosing properties span)
    .ok (assembly.declare declaration kind span)

def strictFlush (assembly : Assembly α) : Except GraphError (Assembly α) :=
  match assembly.pending with
  | none => .ok assembly
  | some (declaration, span) => do
    let declared ← strictDeclare { assembly with pending := none } declaration .leaf span
    .ok declared.2

def strictOpen (assembly : Assembly α) (declaration : Declaration) (span : Span) :
    Except GraphError (Assembly α) := do
  let declared ← assembly.strictDeclare declaration .container span
  .ok (declared.2.push declared.1 span)

def strictProcess (assembly : Assembly α) (line : Line) : Except GraphError (Assembly α) :=
  match line.statement with
  | .blockOpen =>
    match assembly.pending with
    | some (declaration, span) =>
      strictOpen { assembly with pending := none } declaration (span.union line.span)
    | none => .ok ((assembly.report (.strayBlock line.span)).push none line.span)
  | .comment | .ignorable => .ok (assembly.note (.ignored line.text))
  | .containerOpen declaration => do
    let flushed ← assembly.strictFlush
    flushed.strictOpen declaration line.span
  | .leaf declaration => do
    let flushed ← assembly.strictFlush
    .ok { flushed with pending := some (declaration, line.span) }
  | .containerClose => do
    let flushed ← assembly.strictFlush
    .ok (flushed.close line.span)
  | .connection hops => do
    let flushed ← assembly.strictFlush
    .ok { flushed with hops := flushed.hops ++ hops }
  | .title text => do
    let flushed ← assembly.strictFlush
    .ok { flushed with graph := flushed.graph.setTitle (some text) }
  | .malformed diagnostic => do
    let flushed ← assembly.strictFlush
    .ok (flushed.report diagnostic)

omit [Scalar α] in
def strictConnect (assembly : Assembly α) (hop : Hop) : Except GraphError (Assembly α) :=
  match resolve assembly.graph hop.source, resolve assembly.graph hop.target with
  | .ok source, .ok target => do
    let _ ← assembly.graph.addEdge
      { source, target, kind := hop.kind, label := hop.label, span := hop.span }
    .ok (assembly.connect hop)
  | _, _ => .ok (assembly.connect hop)

def strictOfLines (lines : List Line) : Except GraphError (Assembly α) := do
  let processed ← lines.foldlM strictProcess {}
  let flushed ← processed.strictFlush
  let ended := flushed.reportOpen
  ended.hops.foldlM strictConnect { ended with hops := [] }

variable {assembly : Assembly α}

theorem Sound.addNode_declared (sound : assembly.Sound) {id : NodeId}
    (absent : assembly.graph.node? id.path = none) (kind : NodeKind) (properties : PropertyMap)
    (span : Span) :
    assembly.graph.addNode (.declared id kind assembly.enclosing properties span) =
      .ok { assembly.graph with
        nodes := assembly.graph.nodes ++ [.declared id kind assembly.enclosing properties span] } := by
  have new : assembly.graph.contains id.path = false := by
    simpa [Graph.node?, Graph.contains] using absent
  have enclosed : ∀ outer, assembly.enclosing = some outer → assembly.graph.contains outer = true := by
    intro outer inside
    obtain ⟨node, member, same, -⟩ := sound.enclosing inside
    exact Graph.contains_iff.mpr ⟨node, member, same⟩
  exact Graph.addNode_eq_ok_iff.mpr ⟨new, enclosed, rfl⟩

theorem Sound.strictDeclare (sound : assembly.Sound) (declaration : Declaration) (kind : NodeKind)
    (span : Span) :
    assembly.strictDeclare declaration kind span = .ok (assembly.declare declaration kind span) := by
  unfold Assembly.strictDeclare
  extract_lets properties id
  split
  next => rfl
  next absent =>
    rw [sound.addNode_declared absent]
    rfl

omit [Scalar α] in
theorem Sound.released (sound : assembly.Sound) : Sound { assembly with pending := none } :=
  ⟨sound.contained, sound.owners⟩

theorem Sound.strictFlush (sound : assembly.Sound) : assembly.strictFlush = .ok assembly.flush := by
  unfold Assembly.strictFlush Assembly.flush
  cases assembly.pending with
  | none => rfl
  | some kept =>
    obtain ⟨declaration, span⟩ := kept
    dsimp only
    rw [sound.released.strictDeclare]
    rfl

theorem Sound.strictOpen (sound : assembly.Sound) (declaration : Declaration) (span : Span) :
    assembly.strictOpen declaration span = .ok (assembly.openContainer declaration span) := by
  rw [Assembly.strictOpen, sound.strictDeclare]
  rfl

theorem Sound.strictProcess (sound : assembly.Sound) (line : Line) :
    assembly.strictProcess line = .ok (assembly.process line) := by
  unfold Assembly.strictProcess Assembly.process
  rw [sound.strictFlush]
  cases line.statement with
  | blockOpen =>
    cases assembly.pending with
    | none => rfl
    | some kept => exact sound.released.strictOpen _ _
  | containerOpen declaration => exact sound.flush.strictOpen _ _
  | leaf | containerClose | connection | title | comment | malformed | ignorable => rfl

omit [Scalar α] in
theorem contains_of_resolve {graph : Graph α} {endpoint : Located String} {path : String}
    (found : resolve graph endpoint = .ok path) : graph.contains path = true := by
  unfold resolve at found
  extract_lets name at found
  split at found
  next known => rwa [← Except.ok.inj found]
  next =>
    split at found
    next => cases found
    next node only =>
      cases found
      have member : node ∈ graph.withLocalName name := by simp [only]
      exact Graph.contains_iff.mpr ⟨node, (List.mem_filter.mp member).1, rfl⟩
    next => cases found

omit [Scalar α] in
theorem addEdge_resolved {graph : Graph α} {source target : Located String} {edge : Edge}
    (fromSource : resolve graph source = .ok edge.source)
    (fromTarget : resolve graph target = .ok edge.target) :
    graph.addEdge edge = .ok { graph with edges := graph.edges ++ [edge] } :=
  Graph.addEdge_eq_ok_iff.mpr ⟨contains_of_resolve fromSource, contains_of_resolve fromTarget, rfl⟩

omit [Scalar α] in
theorem strictConnect_eq (assembly : Assembly α) (hop : Hop) :
    assembly.strictConnect hop = .ok (assembly.connect hop) := by
  unfold strictConnect
  split
  next source target fromSource fromTarget =>
    rw [addEdge_resolved fromSource fromTarget]
    rfl
  next => rfl

/-- A strict run over lines is the run that goes on. -/
theorem Sound.foldlM_strictProcess (sound : assembly.Sound) (lines : List Line) :
    lines.foldlM Assembly.strictProcess assembly = .ok (lines.foldl Assembly.process assembly) := by
  induction lines generalizing assembly with
  | nil => rfl
  | cons line lines ih =>
    rw [List.foldlM_cons, sound.strictProcess, List.foldl_cons]
    exact ih (sound.process line)

omit [Scalar α] in
theorem foldlM_strictConnect (assembly : Assembly α) (hops : List Hop) :
    hops.foldlM strictConnect assembly = .ok (hops.foldl connect assembly) := by
  induction hops generalizing assembly with
  | nil => rfl
  | cons hop hops ih =>
    rw [List.foldlM_cons, strictConnect_eq, List.foldl_cons]
    exact ih _

/-- Every run over lines is one in which the graph takes all nodes and edges. -/
theorem strictOfLines_eq (lines : List Line) :
    strictOfLines lines = .ok (ofLines lines : Assembly α) := by
  rw [strictOfLines, Sound.empty.foldlM_strictProcess]
  show (lines.foldl process ({} : Assembly α)).strictFlush >>= _ = _
  rw [(sound_foldl_process lines).strictFlush]
  exact foldlM_strictConnect _ _

end BoxDiagram.Assembly
