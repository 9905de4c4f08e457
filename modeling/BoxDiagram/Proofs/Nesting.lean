import BoxDiagram.Proofs.Boxes
import BoxDiagram.Proofs.ParsedGraph

/-!
Boxes nest as the nodes do. The box of a container with members is the smallest one around the boxes
of its children, grown by the padding on every side and by the header on top, so the box of a node
lies in the boxes of all nodes around it, however deep it is.
-/

namespace BoxDiagram.Graph

variable {graph : Graph ℚ} {ranking : Ranking} {layering : Layering} {settings : Settings ℚ}

theorem Contained.boxed_encloses (contained : graph.Contained)
    (ordered : graph.OrderedFor ranking layering) (sound : settings.Sound) {outer inner : String}
    (around : graph.isAncestor outer inner = true) :
    (graph.placement ranking layering settings).Boxed Bounds.Encloses outer inner := by
  have wellFormed := contained.wellFormed
  obtain ⟨outerNode, inAncestors, outerPath⟩ := List.any_eq_true.mp around
  have known : ∃ node ∈ graph.nodes, node.path = inner := by
    cases found : graph.node? inner with
    | none => simp [ancestors, found] at inAncestors
    | some node => exact ⟨node, List.mem_of_find?_eq_some found, by simpa using List.find?_some found⟩
  obtain ⟨innerNode, innerMember, rfl⟩ := known
  have outerMember := WellFormed.ancestors_subset graph _ outerNode inAncestors
  have inLineage : outerNode ∈ graph.lineage innerNode.path := by
    rw [wellFormed.lineage_eq innerMember]
    exact List.mem_cons_of_mem _ inAncestors
  obtain ⟨outerBox, outerPlaced⟩ :=
    wellFormed.exists_bounds ranking layering settings outerMember
  obtain ⟨innerBox, innerPlaced⟩ :=
    wellFormed.exists_bounds ranking layering settings innerMember
  have encloses := wellFormed.encloses_lineage contained.leavesEmpty ordered.layeredBy sound
    innerMember inLineage outerPlaced innerPlaced
  rw [decide_eq_true_iff.mp outerPath] at outerPlaced
  exact ⟨outerBox, innerBox, outerPlaced, innerPlaced, encloses⟩

/-- Every node gets a box. The box of a container is the hull of the boxes of its children with the
space around it, and holds the boxes of all nodes inside it. The graphs of sources are such that only
containers hold nodes. -/
theorem boxes_nested :
    (∀ source : String, (parse source : Parsed ℚ).graph.Contained) ∧
      ∀ (graph : Graph ℚ) (ranking : Ranking) (layering : Layering) (settings : Settings ℚ),
        graph.Contained → graph.OrderedFor ranking layering → settings.validate = .ok () →
          let placement := graph.placement ranking layering settings
          (∀ node ∈ graph.nodes, ∃ box, placement.bounds? node.path = some box) ∧
          (∀ container ∈ graph.nodes, graph.children container.path ≠ [] →
            ∃ hull, Bounds.mergeAll ((graph.children container.path).filterMap
                fun child => placement.bounds? child.path) = some hull ∧
              placement.bounds? container.path = some (hull.grow
                { top := settings.containerPadding + settings.containerHeader
                  right := settings.containerPadding
                  bottom := settings.containerPadding
                  left := settings.containerPadding })) ∧
          ∀ outer inner, graph.isAncestor outer inner = true →
            placement.Boxed Bounds.Encloses outer inner := by
  refine ⟨fun source => contained_parse source, ?_⟩
  intro graph ranking layering settings contained ordered valid placement
  have sound := Settings.sound_of_validate valid
  have layered := ordered.layeredBy
  refine ⟨fun _ => contained.wellFormed.exists_bounds ranking layering settings, ?_,
    fun _ _ => contained.boxed_encloses ordered sound⟩
  intro container member inhabited
  obtain ⟨child, found⟩ := List.exists_mem_of_ne_nil _ inhabited
  obtain ⟨childMember, inside⟩ := mem_members_iff.mp found
  have isContainer := contained.leavesEmpty container member child childMember inside
  have filled := isFilled_of_inside isContainer childMember inside
  obtain ⟨hull, isHull, placed⟩ := contained.wellFormed.bounds?_container layered sound member filled
  exact ⟨hull, isHull.mergeAll, placed⟩

def nestedBoxes : Graph ℚ where
  nodes := [node ⟨none, "Out"⟩ .container none, node ⟨some "Out", "In"⟩ .container (some "Out"),
    node ⟨some "Out.In", "Leaf"⟩ .leaf (some "Out.In"), node ⟨some "Out", "Side"⟩ .leaf (some "Out"),
    node ⟨none, "Free"⟩ .leaf none]
where
  node (id : NodeId) (kind : NodeKind) (parent : Option String) : Node ℚ :=
    { id, kind, parent, properties := {}, span := .zero, rank := none, position := none,
      size := ⟨0, 0⟩ }

theorem nestedBoxes_contained : nestedBoxes.Contained where
  wellFormed := Grown.wellFormed (Grown.empty.addNodes nestedBoxes.nodes (by rfl))
  leavesEmpty := by unfold LeavesEmpty; decide +kernel

theorem nestedBoxes_nested :
    nestedBoxes.Contained ∧ nestedBoxes.OrderedFor nestedBoxes.ranking {} ∧
      (Settings.default : Settings ℚ).validate = .ok () ∧
      (nestedBoxes.placement nestedBoxes.ranking {} .default).Boxed Bounds.Encloses "Out"
        "Out.In.Leaf" ∧
      ∃ hull : Bounds ℚ,
        Bounds.mergeAll ((nestedBoxes.children "Out").filterMap fun child =>
          (nestedBoxes.placement nestedBoxes.ranking {} .default).bounds? child.path) = some hull ∧
        (nestedBoxes.placement nestedBoxes.ranking {} .default).bounds? "Out" =
          some (hull.grow { top := 30 + 30, right := 30, bottom := 30, left := 30 }) :=
  have valid : (Settings.default : Settings ℚ).validate = .ok () := by rfl
  have nested := boxes_nested.2 nestedBoxes nestedBoxes.ranking {} .default nestedBoxes_contained
    (.inl rfl) valid
  have ⟨hull, merged, placed⟩ := nested.2.1 (nestedBoxes.nodes.head (by decide)) (by decide)
    (by decide +kernel)
  ⟨nestedBoxes_contained, .inl rfl, valid, nested.2.2 "Out" "Out.In.Leaf" (by decide +kernel), hull,
    merged, placed⟩

end BoxDiagram.Graph
