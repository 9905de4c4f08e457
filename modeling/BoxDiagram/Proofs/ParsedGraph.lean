import BoxDiagram.Parse
import BoxDiagram.Proofs.Scopes

/-!
The graph of a source. Each line keeps the graph well formed and the open bodies those of containers,
and nodes are only declared inside open bodies. So whatever the source is, the graph in the end is
well formed and only its containers hold nodes.
-/

namespace BoxDiagram

variable {α : Type}

theorem Declared.map {nodes : List (Node α)} (declared : Declared nodes) {change : Node α → Node α}
    (path : ∀ node, (change node).path = node.path)
    (parent : ∀ node, (change node).parent = node.parent) : Declared (nodes.map change) := by
  induction declared with
  | nil => exact .nil
  | cons fresh enclosed _ ih =>
    rw [List.map_cons]
    refine .cons ?_ ?_ ih
    · intro other member
      obtain ⟨earlier, listed, rfl⟩ := List.mem_map.mp member
      rw [path, path]
      exact fresh earlier listed
    · intro outer inside
      rw [parent] at inside
      obtain ⟨other, listed, same⟩ := enclosed outer inside
      exact ⟨change other, List.mem_map_of_mem listed, (path other).trans same⟩

namespace Graph

def HasContainer (graph : Graph α) (path : String) : Prop :=
  ∃ node ∈ graph.nodes, node.path = path ∧ node.isContainer = true

variable {graph next : Graph α}

theorem Contained.empty : Contained ({} : Graph α) where
  wellFormed := .empty
  leavesEmpty := by simp [LeavesEmpty]

theorem Contained.addNode {node : Node α} (contained : graph.Contained)
    (enclosed : ∀ outer, node.parent = some outer → graph.HasContainer outer)
    (added : graph.addNode node = .ok next) : next.Contained := by
  refine ⟨contained.wellFormed.addNode added, ?_⟩
  obtain ⟨new, -, rfl⟩ := addNode_eq_ok_iff.mp added
  -- Nothing is inside the new node yet, as no node has had its path.
  have unused : ∀ path, graph.contains path = true → node.path ≠ path := by
    rintro path known rfl
    rw [new] at known
    cases known
  intro outer outerMember inner innerMember inside
  rcases List.mem_append.mp innerMember with earlier | last
  · obtain ⟨parent, parentMember, same⟩ := contained.wellFormed.parent_mem earlier inside
    rcases List.mem_append.mp outerMember with outerEarlier | outerLast
    · exact contained.leavesEmpty outer outerEarlier inner earlier inside
    · rw [List.mem_singleton.mp outerLast] at same
      exact absurd same.symm (unused parent.path (contains_iff.mpr ⟨parent, parentMember, rfl⟩))
  · rw [List.mem_singleton.mp last] at inside
    obtain ⟨parent, parentMember, same, isContainer⟩ := enclosed outer.path inside
    rcases List.mem_append.mp outerMember with outerEarlier | outerLast
    · rwa [contained.wellFormed.eq_of_path outerEarlier parentMember same.symm]
    · rw [List.mem_singleton.mp outerLast] at same
      exact absurd same.symm (unused parent.path (contains_iff.mpr ⟨parent, parentMember, rfl⟩))

theorem Contained.addEdge {edge : Edge} (contained : graph.Contained)
    (added : graph.addEdge edge = .ok next) : next.Contained := by
  refine ⟨contained.wellFormed.addEdge added, ?_⟩
  obtain ⟨-, -, rfl⟩ := addEdge_eq_ok_iff.mp added
  exact contained.leavesEmpty

theorem Contained.mapNodes (contained : graph.Contained) {change : Node α → Node α}
    (path : ∀ node, (change node).path = node.path)
    (parent : ∀ node, (change node).parent = node.parent)
    (kind : ∀ node, (change node).kind = node.kind) :
    Contained { graph with nodes := graph.nodes.map change } := by
  refine ⟨⟨?_, ?_⟩, ?_⟩
  · rw [← List.map_reverse]
    exact contained.wellFormed.declared.map path parent
  · intro edge member
    simpa [contains, path] using contained.wellFormed.endpoints edge member
  · intro outer outerMember inner innerMember inside
    obtain ⟨around, aroundMember, rfl⟩ := List.mem_map.mp outerMember
    obtain ⟨node, member, rfl⟩ := List.mem_map.mp innerMember
    rw [path, parent] at inside
    have isContainer := contained.leavesEmpty around aroundMember node member inside
    simpa [Node.isContainer, kind] using isContainer

theorem HasContainer.mapNodes {outer : String} (container : graph.HasContainer outer)
    {change : Node α → Node α} (path : ∀ node, (change node).path = node.path)
    (kind : ∀ node, (change node).kind = node.kind) :
    HasContainer { graph with nodes := graph.nodes.map change } outer := by
  obtain ⟨node, member, same, isContainer⟩ := container
  refine ⟨change node, List.mem_map_of_mem member, (path node).trans same, ?_⟩
  simpa [Node.isContainer, kind] using isContainer

theorem Contained.mergeProperties (contained : graph.Contained) (path : String)
    (later : PropertyMap) : (graph.mergeProperties path later).Contained := by
  apply contained.mapNodes <;> intro node <;> split <;> rfl

theorem HasContainer.addNode {node : Node α} {path : String} (container : graph.HasContainer path)
    (added : graph.addNode node = .ok next) : next.HasContainer path := by
  obtain ⟨-, -, rfl⟩ := addNode_eq_ok_iff.mp added
  obtain ⟨other, member, found⟩ := container
  exact ⟨other, List.mem_append_left _ member, found⟩

theorem HasContainer.mergeProperties {outer : String} (container : graph.HasContainer outer)
    (path : String) (later : PropertyMap) : (graph.mergeProperties path later).HasContainer outer := by
  apply container.mapNodes <;> intro node <;> split <;> rfl

end Graph

namespace Assembly

/-- What holds of a graph in the making: bodies are only open for containers. -/
structure Sound (assembly : Assembly α) : Prop where
  contained : assembly.graph.Contained
  owners : ∀ body ∈ assembly.bodies, ∀ owner, body.owner = some owner →
    assembly.graph.HasContainer owner

theorem Sound.empty : Sound ({} : Assembly α) := ⟨.empty, by simp⟩

variable {assembly : Assembly α}

theorem Sound.enclosing (sound : assembly.Sound) {outer : String}
    (inside : assembly.enclosing = some outer) : assembly.graph.HasContainer outer := by
  obtain ⟨body, member, own⟩ := List.exists_of_findSome?_eq_some inside
  exact sound.owners body member outer own

theorem Sound.push (sound : assembly.Sound) {owner : Option String}
    (container : ∀ path, owner = some path → assembly.graph.HasContainer path) (span : Span) :
    (assembly.push owner span).Sound := by
  refine ⟨sound.contained, ?_⟩
  intro body member path own
  rcases List.mem_cons.mp member with rfl | earlier
  · exact container path own
  · exact sound.owners body earlier path own

theorem Sound.close (sound : assembly.Sound) (brace : Span) : (assembly.close brace).Sound := by
  unfold Assembly.close
  split
  next => exact ⟨sound.contained, sound.owners⟩
  next first rest bodies =>
    refine ⟨sound.contained, ?_⟩
    intro body member
    exact sound.owners body (bodies ▸ List.mem_cons_of_mem _ member)

theorem contained_connect (contained : assembly.graph.Contained) (hop : Hop) :
    (assembly.connect hop).graph.Contained := by
  unfold connect
  split
  next =>
    split
    next _ added => exact contained.addEdge added
    next => exact contained
  all_goals exact contained

variable [Scalar α]

theorem Sound.declare (sound : assembly.Sound) (declaration : Declaration) (kind : NodeKind)
    (span : Span) :
    (assembly.declare declaration kind span).2.Sound ∧
      (kind = .container → ∀ owner, (assembly.declare declaration kind span).1 = some owner →
        (assembly.declare declaration kind span).2.graph.HasContainer owner) := by
  unfold Assembly.declare
  simp only
  split
  next existing found =>
    refine ⟨⟨sound.contained.mergeProperties _ _, ?_⟩, ?_⟩
    · intro body member owner own
      exact (sound.owners body member owner own).mergeProperties _ _
    · intro isContainer owner own
      split at own
      next => cases own
      next keeps =>
        cases own
        refine Graph.HasContainer.mergeProperties ⟨existing, List.mem_of_find?_eq_some found, ?_, ?_⟩ _ _
        · simpa using List.find?_some found
        · cases same : existing.kind <;> simp_all [Node.isContainer]
  next =>
    split
    next graph added =>
      have inside : ∀ outer, assembly.enclosing = some outer → assembly.graph.HasContainer outer :=
        fun _ => sound.enclosing
      refine ⟨⟨sound.contained.addNode inside added, ?_⟩, ?_⟩
      · intro body member owner own
        exact (sound.owners body member owner own).addNode added
      · intro isContainer owner own
        cases own
        obtain ⟨-, -, rfl⟩ := Graph.addNode_eq_ok_iff.mp added
        refine ⟨_, List.mem_append_right _ (List.mem_singleton_self _), rfl, ?_⟩
        simp [Node.isContainer, Node.declared, isContainer]
    next => exact ⟨⟨sound.contained, sound.owners⟩, by simp⟩

theorem Sound.flush (sound : assembly.Sound) : assembly.flush.Sound := by
  unfold Assembly.flush
  split
  next => exact sound
  next declaration span _ =>
    have released : Assembly.Sound { assembly with pending := none } :=
      ⟨sound.contained, sound.owners⟩
    exact (released.declare declaration .leaf span).1

theorem Sound.openContainer (sound : assembly.Sound) (declaration : Declaration) (span : Span) :
    (assembly.openContainer declaration span).Sound := by
  obtain ⟨declared, container⟩ := sound.declare declaration .container span
  exact declared.push (container rfl) span

theorem Sound.process (sound : assembly.Sound) (line : Line) : (assembly.process line).Sound := by
  have flushed := sound.flush
  unfold Assembly.process
  split
  next =>
    split
    next declaration span _ =>
      have released : Assembly.Sound { assembly with pending := none } :=
        ⟨sound.contained, sound.owners⟩
      exact released.openContainer declaration _
    next =>
      have reported : (assembly.report (.strayBlock line.span)).Sound :=
        ⟨sound.contained, sound.owners⟩
      exact reported.push (by simp) line.span
  next => exact ⟨sound.contained, sound.owners⟩
  next => exact ⟨sound.contained, sound.owners⟩
  next declaration _ => exact flushed.openContainer declaration line.span
  next => exact ⟨flushed.contained, flushed.owners⟩
  next => exact flushed.close line.span
  next => exact ⟨flushed.contained, flushed.owners⟩
  next text =>
    refine ⟨⟨⟨flushed.contained.wellFormed.declared, flushed.contained.wellFormed.endpoints⟩,
      flushed.contained.leavesEmpty⟩, flushed.owners⟩
  next => exact ⟨flushed.contained, flushed.owners⟩

theorem sound_foldl_process (lines : List Line) :
    (lines.foldl Assembly.process ({} : Assembly α)).Sound :=
  List.foldlRecOn lines _ .empty fun _ sound line _ => sound.process line

theorem contained_ofLines (lines : List Line) : (ofLines lines : Assembly α).graph.Contained :=
  List.foldlRecOn (motive := fun assembly : Assembly α => assembly.graph.Contained) _ _
    (sound_foldl_process lines).flush.contained
    fun _ contained hop _ => contained_connect contained hop

end Assembly

/-- Whatever the source is, its graph is well formed and only containers hold nodes. -/
theorem contained_parse [Scalar α] (source : String) : (parse source : Parsed α).graph.Contained :=
  Assembly.contained_ofLines _

end BoxDiagram
