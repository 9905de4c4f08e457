import BoxDiagram.Proofs.Agreement
import BoxDiagram.Proofs.StatementSpans
import Mathlib.Order.Hom.Basic
import Mathlib.Order.MinMax

/-!
Spans that move. When bytes are put into a text, the places behind them move and the others stay. Nothing
in the assembly of a graph looks at a span but to pass it on or to join it with another one, so a map of
places that keeps their order may be applied to the lines or to what is made of them, with the same
result.
-/

namespace BoxDiagram

variable {α : Type} (move : Nat →o Nat)

def Span.relocate (span : Span) : Span where
  start := move span.start
  stop := move span.stop
  start_le_stop := move.monotone span.start_le_stop

def Located.relocate {β : Type} (located : Located β) : Located β :=
  { located with span := located.span.relocate move }

def Declaration.relocate (declaration : Declaration) : Declaration where
  name := declaration.name.relocate move
  properties := declaration.properties.map (Located.relocate move)

def Hop.relocate (hop : Hop) : Hop :=
  { hop with source := hop.source.relocate move, target := hop.target.relocate move }

def Diagnostic.relocate (diagnostic : Diagnostic) : Diagnostic :=
  { diagnostic with
    labels := diagnostic.labels.map fun label =>
      { label with span := label.span.relocate move } }

def Statement.relocate : Statement → Statement
  | .containerOpen declaration => .containerOpen (declaration.relocate move)
  | .leaf declaration => .leaf (declaration.relocate move)
  | .connection hops => .connection (hops.map (Hop.relocate move))
  | .malformed diagnostic => .malformed (diagnostic.relocate move)
  | statement => statement

def Line.relocate (line : Line) : Line where
  text := line.text
  span := line.span.relocate move
  statement := line.statement.relocate move

def Node.relocate (node : Node α) : Node α := { node with span := node.span.relocate move }

def Edge.relocate (edge : Edge) : Edge := { edge with span := edge.span.relocate move }

def Graph.relocate (graph : Graph α) : Graph α where
  title := graph.title
  nodes := graph.nodes.map (Node.relocate move)
  edges := graph.edges.map (Edge.relocate move)

def OpenBody.relocate (body : OpenBody) : OpenBody := { body with span := body.span.relocate move }

def Event.relocate : Event → Event
  | .reported diagnostic => .reported (diagnostic.relocate move)
  | event => event

def Assembly.relocate (assembly : Assembly α) : Assembly α where
  graph := assembly.graph.relocate move
  bodies := assembly.bodies.map (OpenBody.relocate move)
  pending := assembly.pending.map fun kept => (kept.1.relocate move, kept.2.relocate move)
  hops := assembly.hops.map (Hop.relocate move)
  events := assembly.events.map (Event.relocate move)
  opened := assembly.opened
  closed := assembly.closed

def Parsed.relocate (parsed : Parsed α) : Parsed α where
  graph := parsed.graph.relocate move
  diagnostics := parsed.diagnostics.map (Diagnostic.relocate move)

section Shifts

variable {move} {first second : Nat}

theorem Span.relocate_shift {span : Span} (start : move (span.start + first) = span.start + second)
    (stop : move (span.stop + first) = span.stop + second) :
    (span.shift first).relocate move = span.shift second :=
  Span.ext start stop

theorem Located.relocate_shift {β : Type} {located : Located β}
    (moved : (located.span.shift first).relocate move = located.span.shift second) :
    (located.shift first).relocate move = located.shift second :=
  congrArg (Located.mk located.value) moved

theorem Declaration.relocate_shift {declaration : Declaration} (moved : ∀ span ∈ declaration.spans,
      (span.shift first).relocate move = span.shift second) :
    (declaration.shift first).relocate move = declaration.shift second := by
  obtain ⟨name, list⟩ := List.forall_mem_cons.mp moved
  have properties : (declaration.properties.map (Located.shift first)).map (Located.relocate move) =
      declaration.properties.map (Located.shift second) := by
    rw [Option.map_map]
    refine Option.map_congr fun located found => Located.relocate_shift (list _ ?_)
    simpa using ⟨located, found, rfl⟩
  exact congrArg₂ Declaration.mk (Located.relocate_shift name) properties

theorem Hop.relocate_shift {hop : Hop} (moved : ∀ span ∈ hop.spans,
      (span.shift first).relocate move = span.shift second) :
    (hop.shift first).relocate move = hop.shift second := by
  have source := moved hop.source.span (List.mem_pair.mpr (.inl rfl))
  have target := moved hop.target.span (List.mem_pair.mpr (.inr rfl))
  rw [Hop.shift, Hop.relocate, Located.relocate_shift source, Located.relocate_shift target, Hop.shift]

theorem Diagnostic.relocate_shift {diagnostic : Diagnostic} (moved : ∀ span ∈ diagnostic.spans,
      (span.shift first).relocate move = span.shift second) :
    (diagnostic.shift first).relocate move = diagnostic.shift second := by
  have labels : (diagnostic.shift first |>.relocate move).labels = (diagnostic.shift second).labels := by
    simp only [Diagnostic.relocate, Diagnostic.shift, List.map_map]
    refine List.map_congr_left fun label member => ?_
    exact congrArg (Label.mk · label.text label.isPrimary) (moved _ (List.mem_map_of_mem member))
  exact congrArg (fun labels => { diagnostic with labels }) labels

theorem Statement.relocate_shift {statement : Statement} (moved : ∀ span ∈ statement.spans,
      (span.shift first).relocate move = span.shift second) :
    (statement.shift first).relocate move = statement.shift second := by
  cases statement with
  | containerOpen => exact congrArg containerOpen (Declaration.relocate_shift moved)
  | leaf => exact congrArg leaf (Declaration.relocate_shift moved)
  | connection hops =>
    refine congrArg connection ?_
    rw [List.map_map]
    refine List.map_congr_left fun hop member => Hop.relocate_shift fun span own => ?_
    exact moved span (List.mem_flatMap_of_mem member own)
  | malformed => exact congrArg malformed (Diagnostic.relocate_shift moved)
  | blockOpen | containerClose | title | comment | ignorable => rfl

theorem Line.relocate_shift {line : Line} (moved : ∀ span ∈ line.spans,
      (span.shift first).relocate move = span.shift second) :
    (line.shift first).relocate move = line.shift second := by
  obtain ⟨place, statement⟩ := List.forall_mem_cons.mp moved
  exact congrArg₂ (Line.mk line.text) place (Statement.relocate_shift statement)

end Shifts

theorem Span.relocate_union (left right : Span) :
    (left.union right).relocate move = (left.relocate move).union (right.relocate move) :=
  Span.ext (move.monotone.map_min) (move.monotone.map_max)

theorem Hop.span_relocate (hop : Hop) : (hop.relocate move).span = hop.span.relocate move :=
  (Span.relocate_union move hop.source.span hop.target.span).symm

namespace Diagnostic

theorem relocate_ambiguousEndpoint (name : String) (endpoint : Span)
    (candidates : List (String × Span)) :
    (ambiguousEndpoint name endpoint candidates).relocate move =
      ambiguousEndpoint name (endpoint.relocate move)
        (candidates.map fun candidate => (candidate.1, candidate.2.relocate move)) := by
  have labelled (diagnostic : Diagnostic) :
      (candidates.foldl (fun diagnostic candidate =>
          diagnostic.withSecondaryLabel candidate.2 "candidate") diagnostic).relocate move =
        (candidates.map fun candidate => (candidate.1, candidate.2.relocate move)).foldl
          (fun diagnostic candidate => diagnostic.withSecondaryLabel candidate.2 "candidate")
          (diagnostic.relocate move) := by
    induction candidates generalizing diagnostic with
    | nil => rfl
    | cons candidate others ih =>
      rw [List.foldl_cons, ih, List.map_cons, List.foldl_cons]
      congr 1
      simp [relocate, withSecondaryLabel]
  rw [ambiguousEndpoint, labelled, ambiguousEndpoint, List.map_map]
  rfl

end Diagnostic

namespace Graph

theorem contains_relocate (graph : Graph α) (path : String) :
    (graph.relocate move).contains path = graph.contains path :=
  List.any_map

theorem node?_relocate (graph : Graph α) (path : String) :
    (graph.relocate move).node? path = (graph.node? path).map (Node.relocate move) :=
  List.find?_map ..

theorem withLocalName_relocate (graph : Graph α) (name : String) :
    (graph.relocate move).withLocalName name = (graph.withLocalName name).map (Node.relocate move) :=
  List.filter_map ..

theorem mergeProperties_relocate (graph : Graph α) (path : String) (later : PropertyMap) :
    (graph.relocate move).mergeProperties path later =
      (graph.mergeProperties path later).relocate move := by
  simp only [mergeProperties, modifyNode, relocate, List.map_map]
  congr 2
  funext node
  rw [Function.comp_apply, Function.comp_apply, apply_ite (Node.relocate move)]
  rfl

theorem addNode_relocate (graph : Graph α) (node : Node α) :
    (graph.relocate move).addNode (node.relocate move) =
      (graph.addNode node).map (Graph.relocate move) := by
  have behind : ({ graph with nodes := graph.nodes ++ [node] } : Graph α).relocate move =
      { graph.relocate move with nodes := (graph.relocate move).nodes ++ [node.relocate move] } := by
    simp [relocate]
  have same : (node.relocate move).path = node.path := rfl
  have inside : (node.relocate move).parent = node.parent := rfl
  unfold addNode
  rw [contains_relocate, same, inside, ← behind]
  split
  next => rfl
  next =>
    split
    next parent _ =>
      rw [contains_relocate]
      split <;> rfl
    next => rfl

theorem addEdge_relocate (graph : Graph α) (edge : Edge) :
    (graph.relocate move).addEdge (edge.relocate move) =
      (graph.addEdge edge).map (Graph.relocate move) := by
  have behind : ({ graph with edges := graph.edges ++ [edge] } : Graph α).relocate move =
      { graph.relocate move with edges := (graph.relocate move).edges ++ [edge.relocate move] } := by
    simp [relocate]
  have source : (edge.relocate move).source = edge.source := rfl
  have target : (edge.relocate move).target = edge.target := rfl
  unfold addEdge
  rw [source, target, contains_relocate, contains_relocate, ← behind]
  split
  next => rfl
  next => split <;> rfl

end Graph

namespace Assembly

variable (assembly : Assembly α)

theorem diagnostics_relocate :
    (assembly.relocate move).diagnostics = assembly.diagnostics.map (Diagnostic.relocate move) := by
  unfold diagnostics relocate
  rw [List.filterMap_map, List.map_filterMap]
  refine List.filterMap_congr fun event _ => ?_
  cases event <;> rfl

theorem note_relocate (event : Event) :
    (assembly.relocate move).note (event.relocate move) = (assembly.note event).relocate move := by
  simp [note, relocate]

theorem report_relocate (diagnostic : Diagnostic) :
    (assembly.relocate move).report (diagnostic.relocate move) =
      (assembly.report diagnostic).relocate move :=
  note_relocate move assembly (.reported diagnostic)

theorem close_relocate (brace : Span) :
    (assembly.relocate move).close (brace.relocate move) = (assembly.close brace).relocate move := by
  obtain ⟨graph, bodies, pending, hops, events, opened, closed⟩ := assembly
  cases bodies with
  | nil => exact report_relocate move _ (.unmatchedClose brace)
  | cons => rfl

theorem enclosing_relocate : (assembly.relocate move).enclosing = assembly.enclosing :=
  List.findSome?_map

theorem idOf_relocate (name : String) : (assembly.relocate move).idOf name = assembly.idOf name := by
  rw [idOf, idOf, enclosing_relocate]

section Resolution

variable (graph : Graph α)

/-- What an endpoint names does not depend on where anything stands; what is found does. -/
theorem resolve_relocate (endpoint : Located String) :
    resolve (graph.relocate move) (endpoint.relocate move) =
      (resolve graph endpoint).mapError (Diagnostic.relocate move) := by
  have value : (endpoint.relocate move).value = endpoint.value := rfl
  unfold resolve
  dsimp only
  rw [value, Graph.contains_relocate, Graph.withLocalName_relocate]
  split
  next => rfl
  next =>
    rcases graph.withLocalName (Text.normalize endpoint.value) with _ | ⟨node, _ | ⟨other, others⟩⟩
    · rfl
    · rfl
    · refine congrArg Except.error ?_
      rw [Diagnostic.relocate_ambiguousEndpoint, ← List.map_cons, List.map_map, List.map_map]
      rfl

theorem connect_relocate (hop : Hop) :
    (assembly.relocate move).connect (hop.relocate move) = (assembly.connect hop).relocate move := by
  have source : resolve (assembly.relocate move).graph (hop.relocate move).source = _ :=
    resolve_relocate move assembly.graph hop.source
  have target : resolve (assembly.relocate move).graph (hop.relocate move).target = _ :=
    resolve_relocate move assembly.graph hop.target
  unfold connect
  rw [source, target]
  cases resolve assembly.graph hop.source with
  | ok source =>
    cases resolve assembly.graph hop.target with
    | ok target =>
      let edge : Edge := { source, target, kind := hop.kind, label := hop.label, span := hop.span }
      have added : (assembly.relocate move).graph.addEdge
          { source, target, kind := (hop.relocate move).kind, label := (hop.relocate move).label,
            span := (hop.relocate move).span } =
          (assembly.graph.addEdge edge).map (Graph.relocate move) := by
        rw [Hop.span_relocate]
        exact Graph.addEdge_relocate move assembly.graph edge
      dsimp only [Except.mapError]
      rw [added]
      cases assembly.graph.addEdge edge <;> rfl
    | error target => exact report_relocate move assembly target
  | error source =>
    cases resolve assembly.graph hop.target with
    | ok target => exact report_relocate move assembly source
    | error target =>
      show ((assembly.relocate move).report (source.relocate move)).report (target.relocate move) = _
      rw [report_relocate, report_relocate]

theorem connectAll_relocate : (assembly.relocate move).connectAll = assembly.connectAll.relocate move := by
  have run (start : Assembly α) :
      (assembly.hops.map (Hop.relocate move)).foldl connect (start.relocate move) =
        (assembly.hops.foldl connect start).relocate move := by
    rw [List.foldl_map]
    exact List.foldl_hom (relocate move) fun earlier hop => connect_relocate move earlier hop
  exact run { assembly with hops := [] }

end Resolution

theorem reportOpen_relocate :
    (assembly.relocate move).reportOpen = assembly.reportOpen.relocate move := by
  simp only [reportOpen, relocate, List.map_append, ← List.map_reverse, List.map_map]
  rfl

section Lines

variable [Scalar α]

theorem declare_relocate (declaration : Declaration) (kind : NodeKind) (span : Span) :
    (assembly.relocate move).declare (declaration.relocate move) kind (span.relocate move) =
      ((assembly.declare declaration kind span).1,
        (assembly.declare declaration kind span).2.relocate move) := by
  have list : (declaration.relocate move).list = declaration.list := by
    rw [Declaration.list, Declaration.relocate, Option.map_map]
    rfl
  have notes : (declaration.relocate move).notes = declaration.notes.map (Event.relocate move) := by
    rw [Declaration.notes, list, Declaration.notes, List.map_map]
    rfl
  have id : (assembly.relocate move).idOf (declaration.relocate move).name.value =
      assembly.idOf declaration.name.value := idOf_relocate move assembly _
  cases found : assembly.graph.node? (assembly.idOf declaration.name.value).path with
  | some existing =>
    have again : (assembly.relocate move).graph.node?
        ((assembly.relocate move).idOf (declaration.relocate move).name.value).path =
          some (existing.relocate move) := by
      rw [id]
      exact (Graph.node?_relocate move _ _).trans (congrArg (Option.map _) found)
    rw [declare_known kind span found, declare_known kind _ again, id, list, notes]
    refine Prod.ext rfl ?_
    simp only [relocate, Graph.mergeProperties_relocate, List.map_append]
    rfl
  | none =>
    have again : (assembly.relocate move).graph.node?
        ((assembly.relocate move).idOf (declaration.relocate move).name.value).path = none := by
      rw [id]
      exact (Graph.node?_relocate move _ _).trans (congrArg (Option.map _) found)
    have added : (assembly.relocate move).graph.addNode (.declared
          (assembly.idOf declaration.name.value) kind assembly.enclosing
          (PropertyList.read declaration.list) (span.relocate move)) = _ :=
      Graph.addNode_relocate move assembly.graph (.declared (assembly.idOf declaration.name.value) kind
        assembly.enclosing (PropertyList.read declaration.list) span)
    rw [declare_new kind span found, declare_new kind _ again, id, list, notes, enclosing_relocate, added]
    cases assembly.graph.addNode (.declared (assembly.idOf declaration.name.value) kind
        assembly.enclosing (PropertyList.read declaration.list) span) <;>
      simp only [relocate, List.map_append] <;> rfl

theorem flush_relocate : (assembly.relocate move).flush = assembly.flush.relocate move := by
  obtain ⟨graph, bodies, pending, hops, events, opened, closed⟩ := assembly
  cases pending with
  | none => rfl
  | some kept =>
    let released : Assembly α := ⟨graph, bodies, none, hops, events, opened, closed⟩
    exact congrArg Prod.snd (declare_relocate move released kept.1 .leaf kept.2)

theorem openContainer_relocate (declaration : Declaration) (span : Span) :
    (assembly.relocate move).openContainer (declaration.relocate move) (span.relocate move) =
      (assembly.openContainer declaration span).relocate move := by
  rw [openContainer, declare_relocate]
  rfl

theorem process_relocate (line : Line) :
    (assembly.relocate move).process (line.relocate move) = (assembly.process line).relocate move := by
  obtain ⟨text, place, statement⟩ := line
  cases statement with
  | blockOpen =>
    obtain ⟨graph, bodies, pending, hops, events, opened, closed⟩ := assembly
    cases pending with
    | none =>
      have reported := report_relocate move ⟨graph, bodies, none, hops, events, opened, closed⟩
        (.strayBlock place)
      exact congrArg (push · none (place.relocate move)) reported
    | some kept =>
      obtain ⟨declaration, span⟩ := kept
      have opened := openContainer_relocate move ⟨graph, bodies, none, hops, events, opened, closed⟩
        declaration (span.union place)
      rw [Span.relocate_union] at opened
      exact opened
  | comment | ignorable => exact note_relocate move assembly (.ignored text)
  | containerOpen declaration =>
    show (assembly.relocate move).flush.openContainer _ _ = _
    rw [flush_relocate]
    exact openContainer_relocate move assembly.flush declaration place
  | leaf declaration =>
    simp only [process, Line.relocate, Statement.relocate, flush_relocate]
    rfl
  | containerClose =>
    show (assembly.relocate move).flush.close _ = _
    rw [flush_relocate]
    exact close_relocate move assembly.flush place
  | connection hops =>
    simp only [process, Line.relocate, Statement.relocate, flush_relocate]
    simp [relocate]
  | title text =>
    simp only [process, Line.relocate, Statement.relocate, flush_relocate]
    rfl
  | malformed diagnostic =>
    show (assembly.relocate move).flush.report _ = _
    rw [flush_relocate]
    exact report_relocate move assembly.flush diagnostic

theorem finish_relocate : (assembly.relocate move).finish = assembly.finish.relocate move := by
  rw [finish, flush_relocate, reportOpen_relocate, connectAll_relocate, finish]

theorem ofLines_relocate (lines : List Line) :
    (ofLines (lines.map (Line.relocate move)) : Assembly α) = (ofLines lines).relocate move := by
  have run (start : Assembly α) :
      (lines.map (Line.relocate move)).foldl process (start.relocate move) =
        (lines.foldl process start).relocate move := by
    rw [List.foldl_map]
    exact List.foldl_hom (relocate move) fun earlier line => process_relocate move earlier line
  have started : (lines.map (Line.relocate move)).foldl process ({} : Assembly α) = _ := run {}
  rw [ofLines, started, finish_relocate, ofLines]

end Lines

end Assembly

end BoxDiagram
