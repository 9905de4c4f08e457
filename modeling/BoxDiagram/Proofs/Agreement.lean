import BoxDiagram.Proofs.Tally

/-!
Assemblies that go on alike. What an assembly does with a line depends on its graph, its open bodies and
the leaf that it keeps back. Notes, counters and the hops that are kept back have no part in it, so lines
that add only to these may be left out.
-/

namespace BoxDiagram

variable {α : Type}

def Declaration.list (declaration : Declaration) : String :=
  (declaration.properties.map (·.value)).getD ""

def Declaration.notes (declaration : Declaration) : List Event :=
  (PropertyList.keyless declaration.list).map Event.keyless

namespace Assembly

theorem diagnostics_ignored (assembly : Assembly α) (line : String) :
    (assembly.note (.ignored line)).diagnostics = assembly.diagnostics := by
  simp [diagnostics, note, Event.diagnostic?]

/-- The two go on alike: they differ in notes, in counters and in the hops that are kept back. -/
structure Agrees (first second : Assembly α) : Prop where
  graph : second.graph = first.graph
  bodies : second.bodies = first.bodies
  pending : second.pending = first.pending
  diagnostics : second.diagnostics = first.diagnostics

namespace Agrees

variable {first second third : Assembly α}

theorem refl (assembly : Assembly α) : Agrees assembly assembly := ⟨rfl, rfl, rfl, rfl⟩

theorem symm (agrees : Agrees first second) : Agrees second first :=
  ⟨agrees.graph.symm, agrees.bodies.symm, agrees.pending.symm, agrees.diagnostics.symm⟩

theorem trans (agrees : Agrees first second) (onward : Agrees second third) : Agrees first third :=
  ⟨onward.graph.trans agrees.graph, onward.bodies.trans agrees.bodies,
    onward.pending.trans agrees.pending, onward.diagnostics.trans agrees.diagnostics⟩

theorem ignored (assembly : Assembly α) (line : String) :
    Agrees assembly (assembly.note (.ignored line)) :=
  ⟨rfl, rfl, rfl, diagnostics_ignored assembly line⟩

theorem events (agrees : Agrees first second) (more : List Event) :
    Agrees { first with events := first.events ++ more }
      { second with events := second.events ++ more } := by
  have told : second.events.filterMap Event.diagnostic? = first.events.filterMap Event.diagnostic? :=
    agrees.diagnostics
  refine ⟨agrees.graph, agrees.bodies, agrees.pending, ?_⟩
  simp only [Assembly.diagnostics, List.filterMap_append, told]

theorem report (agrees : Agrees first second) (diagnostic : Diagnostic) :
    Agrees (first.report diagnostic) (second.report diagnostic) :=
  agrees.events [.reported diagnostic]

theorem push (agrees : Agrees first second) (owner : Option String) (span : Span) :
    Agrees (first.push owner span) (second.push owner span) :=
  ⟨agrees.graph, congrArg (List.cons (OpenBody.mk owner span)) agrees.bodies, agrees.pending,
    agrees.diagnostics⟩

theorem close (agrees : Agrees first second) (brace : Span) :
    Agrees (first.close brace) (second.close brace) := by
  unfold Assembly.close
  rw [agrees.bodies]
  split
  next => exact agrees.report _
  next => exact ⟨agrees.graph, rfl, agrees.pending, agrees.diagnostics⟩

theorem released (agrees : Agrees first second) :
    Agrees { first with pending := none } { second with pending := none } :=
  ⟨agrees.graph, agrees.bodies, rfl, agrees.diagnostics⟩

theorem idOf (agrees : Agrees first second) (name : String) : second.idOf name = first.idOf name := by
  rw [Assembly.idOf, Assembly.idOf, enclosing, enclosing, agrees.bodies]

end Agrees

section Declarations

variable [Scalar α] {assembly first second : Assembly α} {declaration : Declaration}

theorem declare_known {existing : Node α} (kind : NodeKind) (span : Span)
    (known : assembly.graph.node? (assembly.idOf declaration.name.value).path = some existing) :
    let path := (assembly.idOf declaration.name.value).path
    let losesBody := existing.kind = .leaf && kind = .container
    assembly.declare declaration kind span = (if losesBody then none else some path,
      { assembly with
        graph := assembly.graph.mergeProperties path (PropertyList.read declaration.list)
        events := assembly.events ++ declaration.notes ++
          [.reported (.redeclared path declaration.name.span existing.span losesBody)] }) := by
  intro path losesBody
  unfold declare
  extract_lets list properties noted id merged
  have found : noted.graph.node? id.path = some existing := known
  rw [found]
  rfl

theorem declare_new (kind : NodeKind) (span : Span)
    (new : assembly.graph.node? (assembly.idOf declaration.name.value).path = none) :
    let id := assembly.idOf declaration.name.value
    let events := assembly.events ++ declaration.notes
    assembly.declare declaration kind span =
      match assembly.graph.addNode (.declared id kind assembly.enclosing
        (PropertyList.read declaration.list) span) with
      | .ok graph => (some id.path, { assembly with graph, events })
      | .error _ => (none, { assembly with events }) := by
  intro own events
  unfold declare
  extract_lets list properties noted id merged
  have absent : noted.graph.node? id.path = none := new
  rw [absent]
  rfl

theorem Agrees.declare (agrees : Agrees first second) (declaration : Declaration) (kind : NodeKind)
    (span : Span) :
    (second.declare declaration kind span).1 = (first.declare declaration kind span).1 ∧
      Agrees (first.declare declaration kind span).2 (second.declare declaration kind span).2 := by
  have same := agrees.idOf declaration.name.value
  have noted := agrees.events declaration.notes
  cases found : first.graph.node? (first.idOf declaration.name.value).path with
  | some existing =>
    have again : second.graph.node? (second.idOf declaration.name.value).path = some existing := by
      rw [agrees.graph, same, found]
    rw [declare_known kind span found, declare_known kind span again, agrees.graph, same]
    exact ⟨rfl, rfl, agrees.bodies, agrees.pending, (noted.events [_]).diagnostics⟩
  | none =>
    have again : second.graph.node? (second.idOf declaration.name.value).path = none := by
      rw [agrees.graph, same, found]
    have inside : second.enclosing = first.enclosing := congrArg (List.findSome? _) agrees.bodies
    rw [declare_new kind span found, declare_new kind span again, agrees.graph, same, inside]
    split <;> exact ⟨rfl, rfl, agrees.bodies, agrees.pending, noted.diagnostics⟩

theorem Agrees.flush (agrees : Agrees first second) : Agrees first.flush second.flush := by
  unfold Assembly.flush
  rw [agrees.pending]
  split
  next => exact agrees
  next declaration span _ => exact (agrees.released.declare declaration .leaf span).2

theorem Agrees.openContainer (agrees : Agrees first second) (declaration : Declaration) (span : Span) :
    Agrees (first.openContainer declaration span) (second.openContainer declaration span) := by
  obtain ⟨owner, declared⟩ := agrees.declare declaration .container span
  have opened : second.openContainer declaration span =
      (second.declare declaration .container span).2.push
        (first.declare declaration .container span).1 span := by
    rw [← owner]
    rfl
  rw [opened]
  exact declared.push _ span

/-- What a line does, once the leaf that is kept back has been declared. -/
theorem Agrees.process_flush (agrees : Agrees first.flush second.flush) {line : Line}
    (ends : line.statement.isIgnorable = false) (other : line.statement ≠ .blockOpen) :
    Agrees (first.process line) (second.process line) := by
  unfold Assembly.process
  cases said : line.statement with
  | blockOpen => exact absurd said other
  | comment | ignorable => rw [said] at ends; cases ends
  | containerOpen declaration => exact agrees.openContainer declaration line.span
  | leaf declaration => exact ⟨agrees.graph, agrees.bodies, rfl, agrees.diagnostics⟩
  | containerClose => exact agrees.close line.span
  | connection hops => exact ⟨agrees.graph, agrees.bodies, agrees.pending, agrees.diagnostics⟩
  | title text =>
    exact ⟨congrArg (Graph.setTitle · (some text)) agrees.graph, agrees.bodies, agrees.pending,
      agrees.diagnostics⟩
  | malformed diagnostic => exact agrees.report diagnostic

theorem Agrees.process (agrees : Agrees first second) (line : Line) :
    Agrees (first.process line) (second.process line) := by
  cases said : line.statement with
  | blockOpen =>
    unfold Assembly.process
    rw [said, agrees.pending]
    dsimp only
    split
    next declaration span _ => exact agrees.released.openContainer declaration _
    next => exact (agrees.report _).push none line.span
  | comment | ignorable =>
    unfold Assembly.process
    rw [said]
    exact ((Agrees.ignored first line.text).symm.trans agrees).trans (.ignored second line.text)
  | containerOpen | leaf | containerClose | connection | title | malformed =>
    exact Agrees.process_flush agrees.flush (by rw [said]; rfl) (by rw [said]; nofun)

theorem Agrees.foldl (agrees : Agrees first second) (lines : List Line) :
    Agrees (lines.foldl Assembly.process first) (lines.foldl Assembly.process second) := by
  induction lines generalizing first second with
  | nil => exact agrees
  | cons line lines ih => exact ih (agrees.process line)

/-- A line that says nothing changes nothing that counts. -/
theorem agrees_ignorable (assembly : Assembly α) {line : Line}
    (ignorable : line.statement.isIgnorable = true) : Agrees assembly (assembly.process line) := by
  unfold process
  split
  case h_2 | h_3 => exact .ignored assembly line.text
  all_goals simp_all [Statement.isIgnorable]

end Declarations

section Ends

variable {first second : Assembly α}

theorem Agrees.reportOpen (agrees : Agrees first second) :
    Agrees first.reportOpen second.reportOpen := by
  unfold Assembly.reportOpen
  rw [agrees.bodies]
  exact ⟨agrees.graph, rfl, agrees.pending, (agrees.events _).diagnostics⟩

theorem Agrees.connect (agrees : Agrees first second) (hop : Hop) :
    Agrees (first.connect hop) (second.connect hop) := by
  unfold Assembly.connect
  rw [agrees.graph]
  split
  next =>
    split
    next => exact ⟨rfl, agrees.bodies, agrees.pending, agrees.diagnostics⟩
    next => exact agrees
  next => exact (agrees.report _).report _
  next => exact agrees.report _
  next => exact agrees.report _

theorem Agrees.connectAll (agrees : Agrees first second) (hops : second.hops = first.hops) :
    Agrees first.connectAll second.connectAll := by
  have run (hops : List Hop) {first second : Assembly α} (agrees : Agrees first second) :
      Agrees (hops.foldl Assembly.connect first) (hops.foldl Assembly.connect second) := by
    induction hops generalizing first second with
    | nil => exact agrees
    | cons hop hops ih => exact ih (agrees.connect hop)
  unfold Assembly.connectAll
  rw [hops]
  exact run first.hops ⟨agrees.graph, agrees.bodies, agrees.pending, agrees.diagnostics⟩

variable [Scalar α]

theorem hops_flush (assembly : Assembly α) : assembly.flush.hops = assembly.hops := by
  unfold flush
  split
  next => rfl
  next declaration span _ => exact (frame_declare _ declaration .leaf span).2.2.1

theorem hops_process (assembly : Assembly α) (line : Line) :
    (assembly.process line).hops = assembly.hops ++ line.statement.hops := by
  have flushed := hops_flush assembly
  have closed (brace : Span) : (assembly.flush.close brace).hops = assembly.hops := by
    rw [← flushed, close]
    split <;> rfl
  unfold process
  cases line.statement with
  | blockOpen =>
    dsimp only [Statement.hops]
    rw [List.append_nil]
    split
    next declaration span _ => exact (frame_declare _ declaration .container _).2.2.1
    next => rfl
  | comment | ignorable => exact (List.append_nil _).symm
  | containerOpen declaration =>
    have declared := (frame_declare assembly.flush declaration .container line.span).2.2.1
    exact (declared.trans flushed).trans (List.append_nil _).symm
  | containerClose => exact (closed line.span).trans (List.append_nil _).symm
  | connection hops => exact congrArg (· ++ hops) flushed
  | leaf | title | malformed => exact flushed.trans (List.append_nil _).symm

theorem hops_foldl (lines : List Line) (assembly : Assembly α) :
    (lines.foldl process assembly).hops = assembly.hops ++ lines.flatMap (·.statement.hops) := by
  induction lines generalizing assembly with
  | nil => exact (List.append_nil _).symm
  | cons line lines ih => rw [List.foldl_cons, ih, hops_process, List.append_assoc, List.flatMap_cons]

theorem Agrees.finish (agrees : Agrees first.flush second.flush) (hops : second.hops = first.hops) :
    Agrees first.finish second.finish := by
  apply agrees.reportOpen.connectAll
  show second.flush.hops = first.flush.hops
  rw [hops_flush, hops_flush, hops]

/-- Lines may be left out that say nothing. -/
theorem agrees_ofLines (before behind : List Line) {line : Line}
    (ignorable : line.statement.isIgnorable = true) :
    Agrees (ofLines (before ++ behind) : Assembly α) (ofLines (before ++ line :: behind)) := by
  have run : Agrees ((before ++ behind).foldl process ({} : Assembly α))
      ((before ++ line :: behind).foldl process {}) := by
    rw [List.foldl_append, List.foldl_append, List.foldl_cons]
    exact (agrees_ignorable _ ignorable).foldl behind
  have silent : line.statement.hops = [] := by
    cases said : line.statement <;> simp_all [Statement.isIgnorable, Statement.hops]
  refine run.flush.finish ?_
  simp only [hops_foldl, List.flatMap_append, List.flatMap_cons, silent, List.nil_append]

end Ends

end Assembly

end BoxDiagram
