import BoxDiagram.Graph
import Mathlib.Data.List.Nodup

/-!
What a graph keeps while nodes and edges are added: paths are unique, the node around a node is
declared before it, and the ends of an edge are nodes. The nodes are followed latest first, the
order in which they are searched for the nodes around them.
-/

namespace BoxDiagram

variable {α : Type}

inductive Declared : List (Node α) → Prop where
  | nil : Declared []
  | cons {node : Node α} {earlier : List (Node α)}
      (fresh : ∀ other ∈ earlier, other.path ≠ node.path)
      (enclosed : ∀ outer, node.parent = some outer → ∃ other ∈ earlier, other.path = outer)
      (rest : Declared earlier) : Declared (node :: earlier)

namespace Declared

theorem eq_of_path {nodes : List (Node α)} (declared : Declared nodes) {first second : Node α}
    (firstMember : first ∈ nodes) (secondMember : second ∈ nodes)
    (same : first.path = second.path) : first = second := by
  induction declared with
  | nil => cases firstMember
  | cons fresh _ _ ih =>
    rcases List.mem_cons.mp firstMember with rfl | firstEarlier
    · rcases List.mem_cons.mp secondMember with rfl | secondEarlier
      · rfl
      · exact absurd same.symm (fresh second secondEarlier)
    · rcases List.mem_cons.mp secondMember with rfl | secondEarlier
      · exact absurd same (fresh first firstEarlier)
      · exact ih firstEarlier secondEarlier

theorem nodup_paths {nodes : List (Node α)} (declared : Declared nodes) :
    (nodes.map Node.path).Nodup := by
  induction declared with
  | nil => simp
  | cons fresh _ _ ih =>
    rw [List.map_cons, List.nodup_cons]
    refine ⟨?_, ih⟩
    intro again
    obtain ⟨other, member, same⟩ := List.mem_map.mp again
    exact fresh other member same

theorem parent_mem {nodes : List (Node α)} (declared : Declared nodes) {node : Node α}
    (member : node ∈ nodes) {outer : String} (inside : node.parent = some outer) :
    ∃ parent ∈ nodes, parent.path = outer := by
  induction declared with
  | nil => cases member
  | cons _ enclosed _ ih =>
    rcases List.mem_cons.mp member with rfl | earlier
    · obtain ⟨parent, found, same⟩ := enclosed outer inside
      exact ⟨parent, List.mem_cons_of_mem _ found, same⟩
    · obtain ⟨parent, found, same⟩ := ih earlier
      exact ⟨parent, List.mem_cons_of_mem _ found, same⟩

end Declared

namespace Graph

structure WellFormed (graph : Graph α) : Prop where
  declared : Declared graph.nodes.reverse
  endpoints : ∀ edge ∈ graph.edges,
    graph.contains edge.source = true ∧ graph.contains edge.target = true

/-- The graphs that come about by adding nodes and edges, starting from nothing. -/
inductive Grown : Graph α → Prop where
  | empty : Grown {}
  | addNode {graph next : Graph α} (node : Node α) (grown : Grown graph)
      (added : graph.addNode node = .ok next) : Grown next
  | addEdge {graph next : Graph α} (edge : Edge) (grown : Grown graph)
      (added : graph.addEdge edge = .ok next) : Grown next

theorem contains_iff {graph : Graph α} {path : String} :
    graph.contains path = true ↔ ∃ node ∈ graph.nodes, node.path = path := by
  simp [contains]

/-- A node is added exactly under a new path and inside a node of the graph. -/
theorem addNode_eq_ok_iff {graph next : Graph α} {node : Node α} :
    graph.addNode node = .ok next ↔
      graph.contains node.path = false ∧
        (∀ outer, node.parent = some outer → graph.contains outer = true) ∧
        next = { graph with nodes := graph.nodes ++ [node] } := by
  unfold addNode
  cases known : graph.contains node.path with
  | true => simp
  | false =>
    cases inside : node.parent with
    | none => simp [eq_comm (a := next)]
    | some outer =>
      cases enclosed : graph.contains outer with
      | true => simp [enclosed, eq_comm (a := next)]
      | false => simp [enclosed]

theorem addEdge_eq_ok_iff {graph next : Graph α} {edge : Edge} :
    graph.addEdge edge = .ok next ↔
      graph.contains edge.source = true ∧ graph.contains edge.target = true ∧
        next = { graph with edges := graph.edges ++ [edge] } := by
  unfold addEdge
  cases graph.contains edge.source <;> cases graph.contains edge.target <;> simp [eq_comm (a := next)]

theorem WellFormed.empty : WellFormed ({} : Graph α) where
  declared := .nil
  endpoints := by simp

theorem WellFormed.addNode {graph next : Graph α} {node : Node α} (wellFormed : graph.WellFormed)
    (added : graph.addNode node = .ok next) : next.WellFormed := by
  obtain ⟨new, enclosed, rfl⟩ := addNode_eq_ok_iff.mp added
  constructor
  · rw [List.reverse_append, List.reverse_singleton, List.singleton_append]
    refine .cons ?_ ?_ wellFormed.declared
    · intro other member same
      have known := contains_iff.mpr ⟨other, List.mem_reverse.mp member, same⟩
      simp [new] at known
    · intro outer inside
      simpa [contains] using enclosed outer inside
  · intro edge member
    have ends := wellFormed.endpoints edge member
    simp only [contains, List.any_append, Bool.or_eq_true] at ends ⊢
    exact ⟨.inl ends.1, .inl ends.2⟩

theorem WellFormed.addEdge {graph next : Graph α} {edge : Edge} (wellFormed : graph.WellFormed)
    (added : graph.addEdge edge = .ok next) : next.WellFormed := by
  obtain ⟨source, target, rfl⟩ := addEdge_eq_ok_iff.mp added
  refine ⟨wellFormed.declared, ?_⟩
  intro other member
  rcases List.mem_append.mp member with earlier | last
  · exact wellFormed.endpoints other earlier
  · rw [List.mem_singleton.mp last]
    exact ⟨source, target⟩

theorem Grown.wellFormed {graph : Graph α} (grown : Grown graph) : graph.WellFormed := by
  induction grown with
  | empty => exact .empty
  | addNode _ _ added ih => exact ih.addNode added
  | addEdge _ _ added ih => exact ih.addEdge added

/-- What every successful step keeps, a successful run of steps keeps. -/
theorem foldlM_induction {β ε σ : Type} {motive : σ → Prop} {step : σ → β → Except ε σ}
    (keep : ∀ state item next, motive state → step state item = .ok next → motive next)
    (items : List β) {first last : σ} (start : motive first)
    (run : items.foldlM step first = .ok last) : motive last := by
  induction items generalizing first with
  | nil =>
    cases run
    exact start
  | cons item rest ih =>
    rw [List.foldlM_cons] at run
    cases made : step first item with
    | error error => simp [made, bind, Except.bind] at run
    | ok second =>
      rw [made] at run
      exact ih (keep first item second start made) run

theorem Grown.addNodes {graph next : Graph α} (grown : Grown graph) (nodes : List (Node α))
    (added : nodes.foldlM Graph.addNode graph = .ok next) : Grown next :=
  foldlM_induction (fun _ node _ grown added => grown.addNode node added) nodes grown added

theorem Grown.addEdges {graph next : Graph α} (grown : Grown graph) (edges : List Edge)
    (added : edges.foldlM Graph.addEdge graph = .ok next) : Grown next :=
  foldlM_induction (fun _ edge _ grown added => grown.addEdge edge added) edges grown added

namespace WellFormed

variable {graph : Graph α}

theorem eq_of_path (wellFormed : graph.WellFormed) {first second : Node α}
    (firstMember : first ∈ graph.nodes) (secondMember : second ∈ graph.nodes)
    (same : first.path = second.path) : first = second :=
  wellFormed.declared.eq_of_path (List.mem_reverse.mpr firstMember)
    (List.mem_reverse.mpr secondMember) same

theorem nodup_paths (wellFormed : graph.WellFormed) : (graph.nodes.map Node.path).Nodup := by
  have reversed := wellFormed.declared.nodup_paths
  rwa [List.map_reverse, List.nodup_reverse] at reversed

theorem node?_path (wellFormed : graph.WellFormed) {node : Node α} (member : node ∈ graph.nodes) :
    graph.node? node.path = some node := by
  unfold node?
  cases found : graph.nodes.find? (·.path = node.path) with
  | none =>
    have absent := List.find?_eq_none.mp found node member
    simp at absent
  | some other =>
    have same : other.path = node.path := by simpa using List.find?_some found
    rw [wellFormed.eq_of_path (List.mem_of_find?_eq_some found) member same]

theorem parent_mem (wellFormed : graph.WellFormed) {node : Node α} (member : node ∈ graph.nodes)
    {outer : String} (inside : node.parent = some outer) :
    ∃ parent ∈ graph.nodes, parent.path = outer := by
  obtain ⟨parent, found, same⟩ :=
    wellFormed.declared.parent_mem (List.mem_reverse.mpr member) inside
  exact ⟨parent, List.mem_reverse.mp found, same⟩

end WellFormed

end Graph

end BoxDiagram
