import BoxDiagram.Proofs.Ancestry

/-!
The way out of a node. From a node one goes to its parent, from there to the parent of that, and so on.
In a well-formed graph this ends and meets no node twice, as every parent is declared before what it
encloses; so "is around" is a strict order, and each step inward is one level deeper.
-/

namespace BoxDiagram.Graph

variable {α : Type}

/-- The nodes that are met when one goes out from parent to parent, beginning at a path. The way ends
where there is no parent or no node under its path. -/
inductive Walk (graph : Graph α) : Option String → List (Node α) → Prop where
  | stop {outer : Option String} (ends : outer.bind graph.node? = none) : Walk graph outer []
  | step {outer : String} {node : Node α} {further : List (Node α)}
      (found : graph.node? outer = some node) (walk : Walk graph node.parent further) :
      Walk graph (some outer) (node :: further)

theorem Walk.unique {graph : Graph α} {outer : Option String} {first second : List (Node α)}
    (walk : graph.Walk outer first) (other : graph.Walk outer second) : second = first := by
  induction walk generalizing second with
  | stop ends =>
    cases other with
    | stop => rfl
    | step found => cases ends.symm.trans found
  | step found _ ih =>
    cases other with
    | stop ends => cases found.symm.trans ends
    | step again onward =>
      cases found.symm.trans again
      rw [ih onward]

theorem mem_of_node? {graph : Graph α} {path : String} {node : Node α}
    (found : graph.node? path = some node) : node ∈ graph.nodes ∧ node.path = path :=
  ⟨List.mem_of_find?_eq_some found, by simpa using List.find?_some found⟩

theorem ancestors_of_absent {graph : Graph α} {path : String} (absent : graph.node? path = none) :
    graph.ancestors path = [] := by
  simp only [ancestors, absent]

theorem exists_of_isAncestor {graph : Graph α} {outer inner : String}
    (around : graph.isAncestor outer inner = true) :
    (∃ node ∈ graph.nodes, node.path = outer) ∧ ∃ node ∈ graph.nodes, node.path = inner := by
  obtain ⟨node, met, same⟩ := List.any_eq_true.mp around
  refine ⟨⟨node, WellFormed.ancestors_subset graph inner node met, by simpa using same⟩, ?_⟩
  cases found : graph.node? inner with
  | none =>
    rw [ancestors_of_absent found] at met
    cases met
  | some node => exact ⟨node, mem_of_node? found⟩

namespace WellFormed

variable {graph : Graph α}

/-- The nodes around a node are those that are met on the way out. -/
theorem walk_ancestors (wellFormed : graph.WellFormed) (path : String) :
    graph.Walk ((graph.node? path).bind Node.parent) (graph.ancestors path) := by
  cases found : graph.node? path with
  | none =>
    rw [ancestors_of_absent found]
    exact .stop rfl
  | some node =>
    obtain ⟨member, rfl⟩ := mem_of_node? found
    rw [Option.bind_some]
    clear found
    induction node, member using wellFormed.outward_induction with
    | root node member outermost =>
      rw [wellFormed.ancestors_root member outermost, outermost]
      exact .stop rfl
    | inner node member outer outerMember inside ih =>
      rw [wellFormed.ancestors_inner member outerMember inside, inside]
      exact .step (wellFormed.node?_path outerMember) ih

theorem walk_iff (wellFormed : graph.WellFormed) (path : String) (met : List (Node α)) :
    graph.Walk ((graph.node? path).bind Node.parent) met ↔ met = graph.ancestors path := by
  have walk := wellFormed.walk_ancestors path
  constructor
  · exact fun other => walk.unique other
  · rintro rfl
    exact walk

theorem nodup_ancestors (wellFormed : graph.WellFormed) (path : String) :
    ((graph.ancestors path).map Node.path).Nodup := by
  cases found : graph.node? path with
  | none =>
    rw [ancestors_of_absent found]
    exact List.nodup_nil
  | some node =>
    have part := (outward_sublist graph.nodes.reverse node.parent).map Node.path
    have apart := wellFormed.declared.nodup_paths
    simp only [ancestors, found]
    exact apart.sublist part

theorem ancestors_trans (wellFormed : graph.WellFormed) {outer middle inner : Node α}
    (member : inner ∈ graph.nodes) (first : middle ∈ graph.ancestors inner.path)
    (second : outer ∈ graph.ancestors middle.path) : outer ∈ graph.ancestors inner.path := by
  have middleMember := ancestors_subset graph inner.path middle first
  have inside : middle ∈ graph.lineage inner.path := by
    rw [wellFormed.lineage_eq member]
    exact List.mem_cons_of_mem _ first
  have outside : outer ∈ graph.lineage middle.path := by
    rw [wellFormed.lineage_eq middleMember]
    exact List.mem_cons_of_mem _ second
  have through := wellFormed.lineage_trans member inside outside
  rw [wellFormed.lineage_eq member] at through
  rcases List.mem_cons.mp through with rfl | around
  · have inward := wellFormed.depth_lt member first
    have outward := wellFormed.depth_lt middleMember second
    omega
  · exact around

theorem isAncestor_self (wellFormed : graph.WellFormed) (path : String) :
    graph.isAncestor path path = false := by
  apply Bool.eq_false_iff.mpr
  intro around
  obtain ⟨-, node, member, rfl⟩ := exists_of_isAncestor around
  have deeper := wellFormed.depth_lt member ((wellFormed.isAncestor_iff member node.path).mp around)
  exact Nat.lt_irrefl _ deeper

theorem isAncestor_trans (wellFormed : graph.WellFormed) {outer middle inner : String}
    (first : graph.isAncestor outer middle = true) (second : graph.isAncestor middle inner = true) :
    graph.isAncestor outer inner = true := by
  obtain ⟨⟨outermost, outerMember, rfl⟩, between, middleMember, rfl⟩ := exists_of_isAncestor first
  obtain ⟨-, innermost, innerMember, rfl⟩ := exists_of_isAncestor second
  rw [wellFormed.isAncestor_iff outerMember] at first ⊢
  rw [wellFormed.isAncestor_iff middleMember] at second
  exact wellFormed.ancestors_trans innerMember second first

theorem depth_of_parent (wellFormed : graph.WellFormed) {node : Node α} (member : node ∈ graph.nodes)
    {outer : String} (inside : node.parent = some outer) :
    graph.depth node.path = graph.depth outer + 1 := by
  obtain ⟨parent, parentMember, rfl⟩ := wellFormed.parent_mem member inside
  exact wellFormed.depth_inner member parentMember inside

end WellFormed

end BoxDiagram.Graph
