import BoxDiagram.Proofs.Exact
import BoxDiagram.Proofs.ParsedGraph
import BoxDiagram.Proofs.Relayout
import BoxDiagram.Proofs.RenamedLayers

/-!
A layout does not depend on names. Boxes are drafted and placed in the order of the scopes and of the
nodes, which new names do not change, so the node at an index gets the same rank and the same box, and
the edge at an index the same flag. Titles, properties, labels, spans and kinds of edges are not looked
at at all.
-/

namespace BoxDiagram

variable {α : Type} {rename : String → String}

namespace Placement

open Ranking (renamedTable renamedTable_map lookup_renamedTable)

theorem groupByRank_renamed {rankOf other : String → Nat}
    (same : ∀ member, other (rename member) = rankOf member) (members : List String) :
    groupByRank other (members.map rename) = (groupByRank rankOf members).map (List.map rename) := by
  rw [Layers.groupByRank_eq_byRank, Layers.groupByRank_eq_byRank, Layers.byRank_renamed same]

theorem layersOf_renamed (injective : rename.Injective) {ranking other : Ranking}
    (same : ∀ member, other.rankOf (rename member) = ranking.rankOf member) (layering : Layering)
    (scope : Scope) :
    layersOf (layering.renamed rename) other (scope.renamed rename) =
      (layersOf layering ranking scope).map (List.map rename) := by
  have listed : ((layering.renamed rename).layersOf (scope.renamed rename).container).layers =
      (layering.layersOf scope.container).layers.map (List.map rename) :=
    congrArg Layers.layers (layering.layersOf_renamed injective scope.container)
  have unlisted := groupByRank_renamed same scope.members
  unfold layersOf
  rw [listed]
  cases (layering.layersOf scope.container).layers with
  | nil => exact unlisted
  | cons => rfl

variable [Scalar α]

theorem placeLayer_renamed (settings : Settings α) (primary band secondary : α)
    (layer : SizedLayer α) :
    placeLayer settings primary band secondary (renamedTable rename layer) =
      renamedTable rename (placeLayer settings primary band secondary layer) := by
  induction layer generalizing secondary with
  | nil => rfl
  | cons entry rest ih =>
    exact congrArg (List.cons _) (ih (secondary + (entry.2.height + settings.nodeSpacing)))

theorem thickness_renamed (layer : SizedLayer α) :
    thickness (renamedTable rename layer) = thickness layer := by
  rw [thickness, thickness, renamedTable, List.map_map]
  rfl

theorem length_renamed (spacing : α) (layer : SizedLayer α) :
    length spacing (renamedTable rename layer) = length spacing layer := by
  rw [length, length, renamedTable, List.map_map, List.length_map]
  rfl

theorem placeLayers_renamed (settings : Settings α) (width primary : α)
    (layers : List (SizedLayer α)) :
    placeLayers settings width primary (layers.map (renamedTable rename)) =
      ((placeLayers settings width primary layers).1.map (Prod.map rename id),
        (placeLayers settings width primary layers).2) := by
  induction layers generalizing primary with
  | nil => rfl
  | cons layer rest ih =>
    simp only [List.map_cons, placeLayers, thickness_renamed, length_renamed, ih, placeLayer_renamed,
      List.map_append]
    rfl

theorem placeScope_renamed (settings : Settings α) {sizeOf other : String → Size α}
    (same : ∀ member, other (rename member) = sizeOf member) (layers : List (List String)) :
    placeScope settings other (layers.map (List.map rename)) =
      ((placeScope settings sizeOf layers).1,
        renamedTable rename (placeScope settings sizeOf layers).2) := by
  have sized : (layers.map (List.map rename)).map
      (·.map fun member => (member, settings.orientation.along (other member))) =
        (layers.map (·.map fun member => (member, settings.orientation.along (sizeOf member)))).map
          (renamedTable rename) := by
    rw [List.map_map, List.map_map]
    refine List.map_congr_left fun layer _ => ?_
    rw [Function.comp_apply, Function.comp_apply, renamedTable_map, List.map_map]
    exact List.map_congr_left fun member _ =>
      congrArg (fun size => (rename member, settings.orientation.along size)) (same member)
  have lengths (sized : List (SizedLayer α)) :
      (sized.map (renamedTable rename)).map (length settings.nodeSpacing) =
        sized.map (length settings.nodeSpacing) := by
    rw [List.map_map]
    exact List.map_congr_left fun layer _ => length_renamed settings.nodeSpacing layer
  simp only [placeScope, sized, lengths, placeLayers_renamed, List.isEmpty_map]
  rfl

structure DraftRenamed (rename : String → String) (first second : Draft α) : Prop where
  sizeOf : ∀ path, second.sizeOf (rename path) = first.sizeOf path
  offsetOf : ∀ path, second.offsetOf (rename path) = first.offsetOf path

variable (injective : rename.Injective)
include injective

omit [Scalar α] in
theorem DraftRenamed.setSize {first second : Draft α} (same : DraftRenamed rename first second)
    (path : String) (size : Size α) :
    DraftRenamed rename (first.setSize path size) (second.setSize (rename path) size) := by
  refine ⟨fun other => ?_, same.offsetOf⟩
  simp only [Draft.sizeOf_setSize, injective.eq_iff, same.sizeOf]

theorem DraftRenamed.setOffsets {first second : Draft α} (same : DraftRenamed rename first second)
    (origin : Point α) (offsets : List (String × Point α)) :
    DraftRenamed rename (first.setOffsets origin offsets)
      (second.setOffsets origin (renamedTable rename offsets)) := by
  induction offsets generalizing first second with
  | nil => exact same
  | cons entry rest ih =>
    refine ih ⟨same.sizeOf, fun other => ?_⟩
    simp only [Prod.map, id, Draft.offsetOf_setOffset, injective.eq_iff, same.offsetOf]

theorem DraftRenamed.sizeContainer {first second : Draft α}
    (same : DraftRenamed rename first second) (settings : Settings α) (content : Size α)
    (container : Option String) :
    DraftRenamed rename (sizeContainer settings first content container)
      (sizeContainer settings second content (container.map rename)) := by
  cases container with
  | none => exact same
  | some outer => exact same.setSize injective outer _

theorem DraftRenamed.draftScope {first second : Draft α} (same : DraftRenamed rename first second)
    {ranking other : Ranking}
    (ranked : ∀ member, other.rankOf (rename member) = ranking.rankOf member)
    (settings : Settings α) (layering : Layering) (scope : Scope) :
    DraftRenamed rename (draftScope settings layering ranking first scope)
      (draftScope settings (layering.renamed rename) other second (scope.renamed rename)) := by
  have origin : scopeOrigin settings (scope.renamed rename).container =
      scopeOrigin settings scope.container := by
    obtain ⟨container, members⟩ := scope
    cases container <;> rfl
  rw [draftScope_eq, draftScope_eq, layersOf_renamed injective ranked,
    placeScope_renamed settings same.sizeOf, origin]
  exact (same.sizeContainer injective settings _ scope.container).setOffsets injective _ _

theorem draftRenamed_initialDraft (graph : Graph α) (settings : Settings α) :
    DraftRenamed rename (initialDraft graph settings)
      (initialDraft (graph.renamed rename) settings) := by
  refine ⟨fun path => ?_, fun _ => rfl⟩
  simp only [initialDraft, graph.node?_renamed injective, Option.map_map]
  rfl

theorem draftRenamed_draft (graph : Graph α) (layering : Layering) (settings : Settings α) :
    DraftRenamed rename (draft graph graph.ranking layering settings)
      (draft (graph.renamed rename) (graph.renamed rename).ranking (layering.renamed rename)
        settings) := by
  unfold draft
  rw [graph.scopes_renamed injective, List.foldl_map]
  exact List.foldl_rel (draftRenamed_initialDraft injective graph settings) fun scope _ _ _ same =>
    same.draftScope injective (graph.rankOf_renamed injective) settings layering scope

theorem boxes_renamed (graph : Graph α) (layering : Layering) (settings : Settings α) :
    ((graph.renamed rename).placement (graph.renamed rename).ranking (layering.renamed rename)
      settings).boxes =
        renamedTable rename (graph.placement graph.ranking layering settings).boxes := by
  have same := draftRenamed_draft injective graph layering settings
  simp only [Graph.placement]
  generalize draft graph graph.ranking layering settings = first at same ⊢
  generalize draft (graph.renamed rename) _ _ settings = second at same ⊢
  rw [Graph.nodes_renamed, List.foldl_map]
  show graph.nodes.foldl _ (renamedTable rename []) = _
  refine List.foldl_hom (renamedTable rename) fun boxes node => ?_
  have around : outerCorner (renamedTable rename boxes) (node.parent.map rename) =
      outerCorner boxes node.parent := by
    cases node.parent with
    | none => rfl
    | some outer =>
      simp only [outerCorner, Option.map_some, Option.bind_some, lookup_renamedTable injective]
  have box : draftBox second (rename node.path) = draftBox first node.path := by
    rw [draftBox, draftBox, same.offsetOf, same.sizeOf]
  rw [placeNode_eq, placeNode_eq, Node.path_renamed, Node.parent_renamed, around, box]
  unfold renamedTable
  rw [List.map_append]
  rfl

end Placement

def Node.outcome (node : Node α) : Option Nat × Option (Point α) × Size α :=
  (node.rank, node.position, node.size)

namespace Graph

/-- The second graph is the first one under other names: nodes and edges stand in the same order, the
kinds of nodes are kept, and no two nodes get one name. All else may differ. -/
structure Renames (rename : String → String) (graph other : Graph α) : Prop where
  injective : ∀ first ∈ graph.nodes, ∀ second ∈ graph.nodes,
    rename first.path = rename second.path → first.path = second.path
  nodes : other.nodes.map (fun node => (node.path, node.kind, node.parent)) =
    graph.nodes.map fun node => (rename node.path, node.kind, node.parent.map rename)
  edges : other.edges.map (fun edge => (edge.source, edge.target)) =
    graph.edges.map fun edge => (rename edge.source, rename edge.target)

variable [Scalar α]

/-- What a graph and its copy under other names have in common is all that is left of them when what no
layout looks at is dropped. -/
theorem Renames.renamed_eq {graph other : Graph α} (renames : Renames rename graph other) :
    other.renamed id = graph.renamed rename := by
  have nodes := congrArg (List.map fun (entry : String × NodeKind × Option String) =>
    (Node.declared ⟨none, entry.1⟩ entry.2.1 entry.2.2 {} .zero : Node α)) renames.nodes
  have edges := congrArg (List.map fun (entry : String × String) =>
    { source := entry.1, target := entry.2, kind := .directed, label := none, span := .zero : Edge })
    renames.edges
  rw [List.map_map, List.map_map] at nodes edges
  have own : (Node.renamed id : Node α → Node α) = fun node =>
      .declared ⟨none, node.path⟩ node.kind node.parent {} .zero := by
    funext node
    rw [Node.renamed, Option.map_id_fun]
    rfl
  rw [renamed, renamed, own]
  exact congrArg₂ (fun nodes edges => ({ nodes, edges } : Graph α)) nodes edges

theorem WellFormed.renamed_congr {graph : Graph α} (wellFormed : graph.WellFormed)
    {first second : String → String}
    (agree : ∀ node ∈ graph.nodes, first node.path = second node.path) :
    graph.renamed first = graph.renamed second := by
  have known : ∀ path, graph.contains path = true → first path = second path := by
    intro path contained
    obtain ⟨node, member, rfl⟩ := contains_iff.mp contained
    exact agree node member
  have nodes : graph.nodes.map (Node.renamed first) = graph.nodes.map (Node.renamed second) := by
    refine List.map_congr_left fun node member => ?_
    have parent : node.parent.map first = node.parent.map second := by
      refine Option.map_congr fun outer inside => ?_
      obtain ⟨around, found, same⟩ := wellFormed.parent_mem member inside
      exact known outer (contains_iff.mpr ⟨around, found, same⟩)
    rw [Node.renamed, Node.renamed, agree node member, parent]
  have edges : graph.edges.map (Edge.renamed first) = graph.edges.map (Edge.renamed second) := by
    refine List.map_congr_left fun edge member => ?_
    obtain ⟨source, target⟩ := wellFormed.endpoints edge member
    rw [Edge.renamed, Edge.renamed, known _ source, known _ target]
  rw [renamed, renamed, nodes, edges]

section Layout

variable (injective : rename.Injective) (graph : Graph α) (settings : Settings α)
include injective

theorem outcome_writeNode_renamed {node : Node α} (member : node ∈ graph.nodes) :
    (writeNode (graph.renamed rename).ranking ((graph.renamed rename).ownPlacement settings)
      (node.renamed rename)).outcome =
        (writeNode graph.ranking (graph.ownPlacement settings) node).outcome := by
  have ranked := graph.rank?_renamed injective node.path
  have placed : ((graph.renamed rename).ownPlacement settings).bounds? (rename node.path) =
      (graph.ownPlacement settings).bounds? node.path := by
    have boxes := Placement.boxes_renamed injective graph
      (graph.layering graph.ranking settings.orderingSweeps) settings
    simp only [ownPlacement, Placement.bounds?]
    rw [graph.layering_renamed injective, boxes, Ranking.lookup_renamedTable injective]
  obtain ⟨box, placement⟩ := graph.exists_box graph.ranking
    (graph.layering graph.ranking settings.orderingSweeps) settings member
  have placement : (graph.ownPlacement settings).bounds? node.path = some box := placement
  unfold writeNode
  simp only [Node.path_renamed, ranked, placed, placement]
  rfl

theorem layout_renamed :
    ((graph.renamed rename).layout settings).1.nodes.map Node.outcome =
        (graph.layout settings).1.nodes.map Node.outcome ∧
      ((graph.renamed rename).layout settings).1.edges.map Edge.isBackEdge =
        (graph.layout settings).1.edges.map Edge.isBackEdge := by
  have cleared : (graph.renamed rename).clearLayout = graph.clearLayout.renamed rename := by
    simp only [clearLayout, renamed, List.map_map]
    rfl
  have flagged := graph.clearLayout.backEdges_renamed injective
  unfold layout writeLayout
  rw [cleared]
  constructor
  · simp only [nodes_renamed, List.map_map]
    exact List.map_congr_left fun node member =>
      graph.clearLayout.outcome_writeNode_renamed injective settings member
  · simp only [edges_renamed, List.zipIdx_map, List.map_map]
    refine List.map_congr_left fun entry _ => ?_
    exact congrArg (List.contains · entry.2) flagged

end Layout

/-- Names do not matter to a layout: when the nodes of a graph get other names, no two of them the same
one, and titles, properties, labels, spans and kinds of edges change as they like, every node is laid out
to the same rank, position and size as before and every edge is flagged as before. -/
theorem layout_anonymous {graph other : Graph α} (wellFormed : graph.WellFormed)
    (renames : Renames rename graph other) (settings : Settings α) :
    (other.layout settings).1.nodes.map Node.outcome =
        (graph.layout settings).1.nodes.map Node.outcome ∧
      (other.layout settings).1.edges.map Edge.isBackEdge =
        (graph.layout settings).1.edges.map Edge.isBackEdge := by
  have apart : ∀ first ∈ graph.nodes.map Node.path, ∀ second ∈ graph.nodes.map Node.path,
      rename first = rename second → first = second := by
    simpa using renames.injective
  obtain ⟨total, injective, agree⟩ := exists_injective (graph.nodes.map Node.path) apart
  have same : other.renamed id = graph.renamed total := by
    rw [renames.renamed_eq]
    exact wellFormed.renamed_congr fun node member => (agree _ (List.mem_map_of_mem member)).symm
  obtain ⟨ownNodes, ownEdges⟩ := other.layout_renamed Function.injective_id settings
  obtain ⟨nodes, edges⟩ := graph.layout_renamed injective settings
  rw [← same] at nodes edges
  exact ⟨ownNodes.symm.trans nodes, ownEdges.symm.trans edges⟩

/-- Two diagrams of one shape. In the second one the names sort the other way, and labels, properties and
kinds of edges are others. -/
theorem layout_anonymous_sources :
    let graph := (parse "App \x7b\nWeb [x: 1]\nDB [x: 1]\n\x7d\nWeb -> DB -> Web" : Parsed ℚ).graph
    let other := (parse "Zoo \x7b\nCat [label: Tom]\nAnt [x: 1]\n\x7d\nCat <-> Ant : bites\nAnt -> Cat" :
      Parsed ℚ).graph
    let rename := fun path =>
      if path = "App" then "Zoo" else if path = "App.Web" then "Zoo.Cat" else "Zoo.Ant"
    graph.WellFormed ∧ Renames rename graph other ∧
      (other.layout .default).1.nodes.map Node.outcome =
        (graph.layout .default).1.nodes.map Node.outcome ∧
      (other.layout .default).1.edges.map Edge.isBackEdge =
        (graph.layout .default).1.edges.map Edge.isBackEdge := by
  intro graph other rename
  have wellFormed : graph.WellFormed := (contained_parse _).wellFormed
  have renames : Renames rename graph other :=
    ⟨by decide +kernel, by decide +kernel, by decide +kernel⟩
  exact ⟨wellFormed, renames, layout_anonymous wellFormed renames .default⟩

end Graph

end BoxDiagram
