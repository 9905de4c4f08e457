import BoxDiagram.Proofs.OutlineGraph
import BoxDiagram.Proofs.StrictRun

/-!
Where the names of nodes come from. Each node has the normal form of a name that a line declares, behind
the path of the container around it if there is one. So the graph of a source is fit for a layout: its
paths are those of different nodes, containers come before what is inside them, edges end at nodes, and
the graph has refused nothing.
-/

namespace BoxDiagram

variable {α : Type}

def Statement.Declares (statement : Statement) (declaration : Declaration) : Prop :=
  statement = .containerOpen declaration ∨ statement = .leaf declaration

/-- A node is named for one of some declarations, inside the node around it. -/
structure Node.NamedFor (declared : Declaration → Prop) (node : Node α) : Prop where
  outer : node.id.outer = node.parent
  localName : ∃ declaration, declared declaration ∧
    node.id.localName = Text.normalize declaration.name.value

namespace Declared

theorem of_append {later earlier : List (Node α)} (declared : Declared (later ++ earlier)) :
    Declared earlier := by
  induction later with
  | nil => exact declared
  | cons node later ih =>
    cases declared with
    | cons _ _ rest => exact ih rest

end Declared

namespace Graph

theorem WellFormed.parent_before {graph : Graph α} (wellFormed : graph.WellFormed)
    {before after : List (Node α)} {node : Node α} (nodes : graph.nodes = before ++ node :: after)
    {outer : String} (inside : node.parent = some outer) : ∃ parent ∈ before, parent.path = outer := by
  have declared := wellFormed.declared
  rw [nodes, List.reverse_append, List.reverse_cons, List.append_assoc] at declared
  cases declared.of_append with
  | cons _ enclosed _ => simpa using enclosed outer inside

end Graph

namespace Assembly

structure Named (declared : Declaration → Prop) (assembly : Assembly α) : Prop where
  pending : ∀ declaration span, assembly.pending = some (declaration, span) → declared declaration
  nodes : ∀ node ∈ assembly.graph.nodes, node.NamedFor declared

theorem outer_idOf (assembly : Assembly α) (name : String) :
    (assembly.idOf name).outer = assembly.enclosing := by
  unfold idOf
  split
  next outer inside => exact inside.symm
  next outside => exact outside.symm

theorem localName_idOf (assembly : Assembly α) (name : String) :
    (assembly.idOf name).localName = Text.normalize name := by
  unfold idOf
  split <;> rfl

theorem nodes_connect (assembly : Assembly α) (hop : Hop) :
    (assembly.connect hop).graph.nodes = assembly.graph.nodes := by
  unfold connect
  split
  next =>
    split
    next graph added =>
      obtain ⟨-, -, rfl⟩ := Graph.addEdge_eq_ok_iff.mp added
      rfl
    next => rfl
  all_goals rfl

theorem nodes_foldl_connect (assembly : Assembly α) (hops : List Hop) :
    (hops.foldl connect assembly).graph.nodes = assembly.graph.nodes := by
  induction hops generalizing assembly with
  | nil => rfl
  | cons hop hops ih => rw [List.foldl_cons, ih, nodes_connect]

variable {assembly : Assembly α} {declared : Declaration → Prop}

theorem Named.close (named : assembly.Named declared) (brace : Span) :
    (assembly.close brace).Named declared := by
  unfold Assembly.close
  split
  next => exact ⟨named.pending, named.nodes⟩
  next => exact ⟨named.pending, named.nodes⟩

variable [Scalar α]

/-- A declaration merges properties into a node, adds a node of its name, or is refused. -/
theorem graph_declare (assembly : Assembly α) (declaration : Declaration) (kind : NodeKind)
    (span : Span) :
    (∃ path later, (assembly.declare declaration kind span).2.graph =
      assembly.graph.mergeProperties path later) ∨
    (∃ properties, assembly.graph.addNode
      (.declared (assembly.idOf declaration.name.value) kind assembly.enclosing properties span) =
        .ok (assembly.declare declaration kind span).2.graph) ∨
    (assembly.declare declaration kind span).2.graph = assembly.graph := by
  unfold Assembly.declare
  extract_lets list properties noted id
  split
  next => exact .inl ⟨_, _, rfl⟩
  next =>
    split
    next graph added => exact .inr (.inl ⟨properties, added⟩)
    next => exact .inr (.inr rfl)

theorem Named.declare (named : assembly.Named declared) {declaration : Declaration}
    (made : declared declaration) (kind : NodeKind) (span : Span) :
    (assembly.declare declaration kind span).2.Named declared := by
  refine ⟨?_, ?_⟩
  · rw [pending_declare]
    exact named.pending
  · rcases graph_declare assembly declaration kind span with ⟨path, later, same⟩ | ⟨_, added⟩ | same
    · rw [same]
      intro node member
      obtain ⟨earlier, listed, rfl⟩ := List.mem_map.mp member
      have kept := named.nodes earlier listed
      split
      next => exact ⟨kept.outer, kept.localName⟩
      next => exact kept
    · obtain ⟨-, -, same⟩ := Graph.addNode_eq_ok_iff.mp added
      rw [same]
      intro node member
      rcases List.mem_append.mp member with earlier | last
      · exact named.nodes node earlier
      · rw [List.mem_singleton.mp last]
        exact ⟨outer_idOf assembly _, declaration, made, localName_idOf assembly _⟩
    · rw [same]
      exact named.nodes

theorem Named.flush (named : assembly.Named declared) : assembly.flush.Named declared := by
  unfold Assembly.flush
  split
  next => exact named
  next declaration span kept =>
    have released : Named declared { assembly with pending := none } := ⟨nofun, named.nodes⟩
    exact released.declare (named.pending declaration span kept) .leaf span

theorem Named.openContainer (named : assembly.Named declared) {declaration : Declaration}
    (made : declared declaration) (span : Span) :
    (assembly.openContainer declaration span).Named declared := by
  have opened := named.declare made .container span
  exact ⟨opened.pending, opened.nodes⟩

theorem Named.process (named : assembly.Named declared) {line : Line}
    (makes : ∀ declaration, line.statement.Declares declaration → declared declaration) :
    (assembly.process line).Named declared := by
  have flushed := named.flush
  unfold Assembly.process
  split
  next =>
    split
    next declaration span kept =>
      have released : Named declared { assembly with pending := none } := ⟨nofun, named.nodes⟩
      exact released.openContainer (named.pending declaration span kept) _
    next => exact ⟨named.pending, named.nodes⟩
  next => exact ⟨named.pending, named.nodes⟩
  next => exact ⟨named.pending, named.nodes⟩
  next declaration means => exact flushed.openContainer (makes declaration (.inl means)) line.span
  next declaration means =>
    refine ⟨?_, flushed.nodes⟩
    rintro other span ⟨⟩
    exact makes declaration (.inr means)
  next => exact flushed.close line.span
  next => exact ⟨flushed.pending, flushed.nodes⟩
  next => exact ⟨flushed.pending, flushed.nodes⟩
  next => exact ⟨flushed.pending, flushed.nodes⟩

theorem namedFor_ofLines (lines : List Line) :
    ∀ node ∈ (ofLines lines : Assembly α).graph.nodes, node.NamedFor fun declaration =>
      ∃ line ∈ lines, line.statement.Declares declaration := by
  have start : Named (fun declaration => ∃ line ∈ lines, line.statement.Declares declaration)
      ({} : Assembly α) := ⟨nofun, by simp⟩
  have processed := List.foldlRecOn lines Assembly.process start fun _ named line member =>
    named.process fun _ declares => ⟨line, member, declares⟩
  have ended := processed.flush.nodes
  rwa [ofLines, finish, connectAll, nodes_foldl_connect]

end Assembly

variable [Scalar α]

/-- Whatever the source is, its graph is fit for a layout: no two nodes have the same path; a node that
is inside another one is behind it, that one is a container, and the path of the node is its path, a
dot and the own name of the node; own names are normal forms of declared ones; the ends of edges are
nodes; and a run that stops where the graph refuses a node or an edge gives the same. -/
theorem parse_wellFormed (source : String) :
    ((parse source : Parsed α).graph.nodes.map Node.path).Nodup ∧
    (∀ before node after, (parse source : Parsed α).graph.nodes = before ++ node :: after →
      (∃ line ∈ Line.ofSource source, ∃ declaration, line.statement.Declares declaration ∧
        node.id.localName = Text.normalize declaration.name.value) ∧
      (node.parent = none → node.path = node.id.localName) ∧
      ∀ outer, node.parent = some outer → ∃ parent ∈ before, parent.path = outer ∧
        parent.kind = .container ∧ node.path = parent.path ++ "." ++ node.id.localName) ∧
    (∀ edge ∈ (parse source : Parsed α).graph.edges,
      (parse source : Parsed α).graph.contains edge.source = true ∧
        (parse source : Parsed α).graph.contains edge.target = true) ∧
    Assembly.strictOfLines (Line.ofSource source) = .ok (assemble source : Assembly α) := by
  have contained : (parse source : Parsed α).graph.Contained := contained_parse source
  refine ⟨contained.wellFormed.nodup_paths, ?_, contained.wellFormed.endpoints,
    Assembly.strictOfLines_eq _⟩
  intro before node after nodes
  have member : node ∈ (parse source : Parsed α).graph.nodes := by simp [nodes]
  have named := Assembly.namedFor_ofLines (Line.ofSource source) node member
  obtain ⟨declaration, ⟨line, listed, declares⟩, localName⟩ := named.localName
  refine ⟨⟨line, listed, declaration, declares, localName⟩, ?_, ?_⟩
  · intro outside
    rw [Node.path, NodeId.path, named.outer, outside]
  · intro outer inside
    obtain ⟨parent, earlier, same⟩ := contained.wellFormed.parent_before nodes inside
    have parentMember : parent ∈ (parse source : Parsed α).graph.nodes := by simp [nodes, earlier]
    have isContainer : parent.isContainer = true :=
      contained.leavesEmpty parent parentMember node member (by rw [inside, same])
    refine ⟨parent, earlier, same, by simpa [Node.isContainer] using isContainer, ?_⟩
    rw [Node.path, NodeId.path, named.outer, inside, same]

end BoxDiagram
