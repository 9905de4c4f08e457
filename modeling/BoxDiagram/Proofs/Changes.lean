import BoxDiagram.Proofs.DeclaredNames
import BoxDiagram.Proofs.OutwardWalks
import BoxDiagram.Proofs.Relayout

/-!
What a graph keeps through all that can be done to it. A change may be refused, and then the graph is as
it was. All others leave the graph well formed: apart from adding a node or an edge, a change touches
neither paths and parents nor the ends of edges. Labels need only be written down where a node is added
and where properties are merged into one.
-/

namespace BoxDiagram

variable {α : Type}

inductive Change (α : Type) where
  | addNode (node : Node α)
  | addEdge (edge : Edge)
  | setTitle (title : Option String)
  | mergeProperties (path : String) (later : PropertyMap)
  | setRank (path : String) (rank : Option Nat)
  | setPosition (path : String) (position : Option (Point α))
  | setSize (path : String) (size : Size α)
  | setBackEdge (index : Nat) (isBackEdge : Bool)
  | clearLayout
  | layout (settings : Settings α)

inductive Graph.Refuses (graph : Graph α) : Change α → GraphError → Prop where
  | duplicate {node : Node α} (taken : graph.contains node.path = true) :
      Refuses graph (.addNode node) (.duplicateNode node.path)
  | orphan {node : Node α} {outer : String} (new : graph.contains node.path = false)
      (inside : node.parent = some outer) (absent : graph.contains outer = false) :
      Refuses graph (.addNode node) (.unknownParent node.path outer)
  | source {edge : Edge} (absent : graph.contains edge.source = false) :
      Refuses graph (.addEdge edge) (.unknownEndpoint edge.source)
  | target {edge : Edge} (known : graph.contains edge.source = true)
      (absent : graph.contains edge.target = false) :
      Refuses graph (.addEdge edge) (.unknownEndpoint edge.target)

namespace Graph

def outline (graph : Graph α) : List (String × Option String) × List (String × String) :=
  (graph.nodes.map fun node => (node.path, node.parent),
    graph.edges.map fun edge => (edge.source, edge.target))

end Graph

theorem Declared.congr {first second : List (Node α)} (declared : Declared first)
    (same : second.map (fun node => (node.path, node.parent)) =
      first.map fun node => (node.path, node.parent)) : Declared second := by
  induction declared generalizing second with
  | nil =>
    rw [List.map_eq_nil_iff.mp same]
    exact .nil
  | @cons node earlier fresh enclosed _ ih =>
    obtain ⟨other, rest, rfl, own, others⟩ := List.map_eq_cons_iff.mp same
    obtain ⟨path, parent⟩ := Prod.mk.inj own
    have paths : rest.map Node.path = earlier.map Node.path := by
      have firsts := congrArg (List.map Prod.fst) others
      rwa [List.map_map, List.map_map] at firsts
    have known (outer : String) : (∃ node ∈ rest, node.path = outer) ↔
        ∃ node ∈ earlier, node.path = outer := by
      rw [← List.mem_map, ← List.mem_map, paths]
    refine .cons ?_ ?_ (ih others)
    · intro node member again
      obtain ⟨twin, listed, twice⟩ := (known other.path).mp ⟨node, member, again⟩
      exact fresh twin listed (twice.trans path)
    · intro outer inside
      exact (known outer).mpr (enclosed outer (parent.symm.trans inside))

namespace Graph

variable {graph next : Graph α}

theorem WellFormed.of_outline (wellFormed : graph.WellFormed) (same : next.outline = graph.outline) :
    next.WellFormed := by
  obtain ⟨nodes, edges⟩ := Prod.mk.inj same
  have paths : next.nodes.map Node.path = graph.nodes.map Node.path := by
    have firsts := congrArg (List.map Prod.fst) nodes
    rwa [List.map_map, List.map_map] at firsts
  have known : next.contains = graph.contains := by
    funext path
    rw [Bool.eq_iff_iff, contains_iff, contains_iff, ← List.mem_map, ← List.mem_map, paths]
  constructor
  · apply wellFormed.declared.congr
    rw [List.map_reverse, List.map_reverse, nodes]
  · intro edge member
    have ends : (edge.source, edge.target) ∈ next.edges.map fun edge => (edge.source, edge.target) :=
      List.mem_map_of_mem member
    rw [edges] at ends
    obtain ⟨other, listed, same⟩ := List.mem_map.mp ends
    obtain ⟨source, target⟩ := Prod.mk.inj same
    rw [known, ← source, ← target]
    exact wellFormed.endpoints other listed

def labels (graph : Graph α) : List String := graph.nodes.map Node.label

theorem outline_modifyNode (graph : Graph α) (path : String) {change : Node α → Node α}
    (named : ∀ node, (change node).path = node.path)
    (inside : ∀ node, (change node).parent = node.parent) :
    (graph.modifyNode path change).outline = graph.outline := by
  simp only [outline, modifyNode, List.map_map, Prod.mk.injEq, and_true]
  apply List.map_congr_left
  intro node _
  rw [Function.comp_apply]
  split
  · rw [named, inside]
  · rfl

theorem labels_modifyNode (graph : Graph α) (path : String) {change : Node α → Node α}
    (labelled : ∀ node, (change node).label = node.label) :
    (graph.modifyNode path change).labels = graph.labels := by
  simp only [labels, modifyNode, List.map_map]
  apply List.map_congr_left
  intro node _
  rw [Function.comp_apply]
  split
  · exact labelled node
  · rfl

theorem outline_setBackEdge (graph : Graph α) (index : Nat) (isBackEdge : Bool) :
    (graph.setBackEdge index isBackEdge).outline = graph.outline := by
  have ends : (graph.edges.modify index ({ · with isBackEdge })).map
      (fun edge => (edge.source, edge.target)) =
      graph.edges.map fun edge => (edge.source, edge.target) := by
    apply List.ext_getElem
    · simp
    · intro place _ _
      simp only [List.getElem_map, List.getElem_modify]
      split <;> rfl
  simp only [outline, setBackEdge, ends]

theorem SameContent.outline_eq (same : graph.SameContent next) : next.outline = graph.outline := by
  unfold outline
  rw [map_eq_of_forall₂ same.nodes, map_eq_of_forall₂ same.edges]
  · rintro left right ⟨source, target, -⟩
    rw [source, target]
  · rintro left right ⟨id, -, parent, -⟩
    rw [Node.path, Node.path, id, parent]

theorem SameContent.labels_eq (same : graph.SameContent next) : next.labels = graph.labels := by
  apply map_eq_of_forall₂ same.nodes
  rintro left right ⟨id, -, -, properties, -⟩
  rw [Node.label, Node.label, id, properties]

variable [Scalar α]

def change (graph : Graph α) : Change α → Except GraphError (Graph α)
  | .addNode node => graph.addNode node
  | .addEdge edge => graph.addEdge edge
  | .setTitle title => .ok (graph.setTitle title)
  | .mergeProperties path later => .ok (graph.mergeProperties path later)
  | .setRank path rank => .ok (graph.setRank path rank)
  | .setPosition path position => .ok (graph.setPosition path position)
  | .setSize path size => .ok (graph.setSize path size)
  | .setBackEdge index isBackEdge => .ok (graph.setBackEdge index isBackEdge)
  | .clearLayout => .ok graph.clearLayout
  | .layout settings => .ok (graph.layout settings).1

theorem change_eq_error_iff (graph : Graph α) (change : Change α) (error : GraphError) :
    graph.change change = .error error ↔ graph.Refuses change error := by
  constructor
  · intro refused
    cases change with
    | addNode node =>
      simp only [Graph.change, addNode] at refused
      split at refused
      next taken =>
        cases refused
        exact .duplicate taken
      next new =>
        split at refused
        next outer inside =>
          split at refused
          next => cases refused
          next absent =>
            cases refused
            exact .orphan (by simpa using new) inside (by simpa using absent)
        next => cases refused
    | addEdge edge =>
      simp only [Graph.change, addEdge] at refused
      split at refused
      next absent =>
        cases refused
        exact .source (by simpa using absent)
      next known =>
        split at refused
        next absent =>
          cases refused
          exact .target (by simpa using known) (by simpa using absent)
        next => cases refused
    | setTitle | mergeProperties | setRank | setPosition | setSize | setBackEdge | clearLayout | layout =>
      cases refused
  · intro refuses
    cases refuses with
    | duplicate taken => simp [Graph.change, addNode, taken]
    | orphan new inside absent => simp [Graph.change, addNode, new, inside, absent]
    | source absent => simp [Graph.change, addEdge, absent]
    | target known absent => simp [Graph.change, addEdge, known, absent]

theorem WellFormed.change (wellFormed : graph.WellFormed) {change : Change α}
    (made : graph.change change = .ok next) : next.WellFormed := by
  cases change with
  | addNode node => exact wellFormed.addNode made
  | addEdge edge => exact wellFormed.addEdge made
  | setTitle title =>
    cases made
    exact wellFormed.of_outline rfl
  | mergeProperties path _ | setRank path _ | setPosition path _ | setSize path _ =>
    cases made
    exact wellFormed.of_outline (graph.outline_modifyNode path (fun _ => rfl) fun _ => rfl)
  | setBackEdge index isBackEdge =>
    cases made
    exact wellFormed.of_outline (graph.outline_setBackEdge index isBackEdge)
  | clearLayout =>
    cases made
    exact wellFormed.of_outline (by simp [outline, Graph.clearLayout, Node.clear, Node.path])
  | layout settings =>
    cases made
    exact wellFormed.of_outline (graph.sameContent_layout settings).outline_eq

end Graph

/-- A graph with the labels of its nodes as they were last written down. -/
structure LabelledGraph (α : Type) where
  graph : Graph α := {}
  labels : List String := []

namespace LabelledGraph

variable [Scalar α]

/-- Makes a change, unless the graph refuses it. A label is written down for a node that is added, and
again for the node that properties are merged into. -/
def change (labelled : LabelledGraph α) (change : Change α) : LabelledGraph α :=
  match labelled.graph.change change with
  | .error _ => labelled
  | .ok graph =>
    { graph
      labels := match change with
        | .addNode node => labelled.labels ++ [node.label]
        | .mergeProperties path _ =>
          List.zipWith (fun label node => if node.path = path then node.label else label)
            labelled.labels graph.nodes
        | _ => labelled.labels }

structure Kept (labelled : LabelledGraph α) : Prop where
  wellFormed : labelled.graph.WellFormed
  labels : labelled.labels = labelled.graph.labels

omit [Scalar α] in
theorem Kept.empty : Kept ({} : LabelledGraph α) := ⟨.empty, rfl⟩

variable {labelled : LabelledGraph α}

theorem change_of_error {change : Change α} {error : GraphError}
    (refused : labelled.graph.change change = .error error) : labelled.change change = labelled := by
  rw [LabelledGraph.change, refused]

omit [Scalar α] in
/-- After a merge only the label of the node at the path need be written down anew. -/
theorem labels_mergeProperties (graph : Graph α) (path : String) (later : PropertyMap) :
    List.zipWith (fun label (node : Node α) => if node.path = path then node.label else label)
      graph.labels (graph.mergeProperties path later).nodes =
      (graph.mergeProperties path later).labels := by
  simp only [Graph.labels, Graph.mergeProperties, Graph.modifyNode, List.zipWith_map, List.zipWith_self,
    List.map_map]
  apply List.map_congr_left
  intro node _
  rw [Function.comp_apply]
  by_cases asked : node.path = path
  · rw [if_pos asked]
    exact if_pos asked
  · rw [if_neg asked]
    exact if_neg asked

theorem Kept.change (kept : labelled.Kept) (change : Change α) : (labelled.change change).Kept := by
  cases made : labelled.graph.change change with
  | error => rwa [change_of_error made]
  | ok graph =>
    have wellFormed := kept.wellFormed.change made
    rw [LabelledGraph.change, made]
    refine ⟨wellFormed, ?_⟩
    cases change with
    | addNode node =>
      obtain ⟨-, -, rfl⟩ := Graph.addNode_eq_ok_iff.mp made
      simp [kept.labels, Graph.labels]
    | addEdge edge =>
      obtain ⟨-, -, rfl⟩ := Graph.addEdge_eq_ok_iff.mp made
      exact kept.labels
    | mergeProperties path later =>
      cases made
      dsimp only
      rw [kept.labels]
      exact labels_mergeProperties _ path later
    | setRank path _ | setPosition path _ | setSize path _ =>
      cases made
      refine kept.labels.trans (Eq.symm ?_)
      exact labelled.graph.labels_modifyNode path fun _ => rfl
    | setTitle | setBackEdge =>
      cases made
      exact kept.labels
    | clearLayout =>
      cases made
      refine kept.labels.trans ?_
      simp [Graph.labels, Graph.clearLayout, Node.clear, Node.label]
    | layout settings =>
      cases made
      exact kept.labels.trans (labelled.graph.sameContent_layout settings).labels_eq.symm

theorem kept_foldl (changes : List (Change α)) : (changes.foldl change ({} : LabelledGraph α)).Kept :=
  List.foldlRecOn changes _ .empty fun _ kept change _ => kept.change change

end LabelledGraph

variable [Scalar α]

end BoxDiagram
