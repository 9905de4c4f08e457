import BoxDiagram.Proofs.Exact
import BoxDiagram.Proofs.Nesting
import BoxDiagram.Proofs.Relayout
import BoxDiagram.Proofs.Renaming

/-!
The two orientations. A scope is laid out in the same way along the primary and the secondary axis in both;
only the points and sizes that come out are turned. When a container keeps the same space on all sides,
turned contents have turned containers, and so one layout is the mirror image of the other.
-/

namespace BoxDiagram

variable {α : Type}

namespace Settings

def downward (settings : Settings α) : Settings α := { settings with orientation := .topToBottom }

/-- The settings with ranks that go on to the right, and nodes of transposed sizes. -/
def rightward (settings : Settings α) : Settings α :=
  { settings with
    orientation := .leftToRight
    leafSize := settings.leafSize.transpose
    containerSize := settings.containerSize.transpose }

end Settings

namespace Placement

def swapOffsets (offsets : List (String × Point α)) : List (String × Point α) :=
  offsets.map (Prod.map id Point.swap)

def transposeBoxes (boxes : List (String × Bounds α)) : List (String × Bounds α) :=
  boxes.map (Prod.map id Bounds.transpose)

theorem lookup_transposeBoxes (boxes : List (String × Bounds α)) (path : String) :
    (transposeBoxes boxes).lookup path = (boxes.lookup path).map Bounds.transpose :=
  lookup_rename Function.injective_id Bounds.transpose boxes path

structure DraftMirrored (first second : Draft α) : Prop where
  sizeOf : ∀ path, second.sizeOf path = (first.sizeOf path).transpose
  offsetOf : ∀ path, second.offsetOf path = (first.offsetOf path).swap

variable [Scalar α]

omit [Scalar α] in
theorem turned_downward (settings : Settings α) :
    Turned Point.swap settings.rightward settings.downward :=
  ⟨rfl, rfl, fun _ _ => rfl⟩

/-- From transposed sizes a scope is laid out downward as it is laid out to the right from the sizes. -/
theorem placeScope_downward (settings : Settings α) {sizeOf transposed : String → Size α}
    (mirrored : ∀ member, transposed member = (sizeOf member).transpose) (layers : List (List String)) :
    placeScope settings.downward transposed layers =
      ((placeScope settings.rightward sizeOf layers).1.transpose,
        swapOffsets (placeScope settings.rightward sizeOf layers).2) :=
  (turned_downward settings).placeScope Size.transpose (fun _ => rfl)
    (fun member => congrArg Size.transpose (mirrored member)) layers

section Draft

variable {settings : Settings α} {first second : Draft α}

omit [Scalar α] in
theorem DraftMirrored.setSize (same : DraftMirrored first second) (path : String) (size : Size α) :
    DraftMirrored (first.setSize path size) (second.setSize path size.transpose) := by
  refine ⟨fun other => ?_, same.offsetOf⟩
  rw [Draft.sizeOf_setSize, Draft.sizeOf_setSize, same.sizeOf, apply_ite Size.transpose]

theorem DraftMirrored.setOffsets (same : DraftMirrored first second) (origin : Point α)
    (offsets : List (String × Point α)) :
    DraftMirrored (first.setOffsets origin offsets)
      (second.setOffsets origin.swap (swapOffsets offsets)) := by
  induction offsets generalizing first second with
  | nil => exact same
  | cons entry rest ih =>
    refine ih ⟨same.sizeOf, fun other => ?_⟩
    rw [Draft.offsetOf_setOffset, Draft.offsetOf_setOffset, same.offsetOf, apply_ite Point.swap]
    rfl

theorem draftMirrored_initialDraft (graph : Graph α) (settings : Settings α) :
    DraftMirrored (initialDraft graph settings.rightward) (initialDraft graph settings.downward) := by
  refine ⟨fun path => ?_, fun _ => rfl⟩
  simp only [initialDraft]
  cases (graph.node? path).map Node.kind with
  | none => rfl
  | some kind => cases kind <;> rfl

variable (even : settings.containerPadding + settings.containerHeader = settings.containerPadding)
include even

theorem containerInsets_even :
    containerInsets settings = Insets.uniform settings.containerPadding := by
  rw [containerInsets, even]
  rfl

theorem scopeOrigin_swap (container : Option String) :
    (scopeOrigin settings container).swap = scopeOrigin settings container := by
  cases container with
  | none => rfl
  | some container =>
    rw [scopeOrigin, containerInsets_even even]
    rfl

theorem DraftMirrored.sizeContainer (same : DraftMirrored first second) (content : Size α)
    (container : Option String) :
    DraftMirrored (sizeContainer settings first content container)
      (sizeContainer settings second content.transpose container) := by
  cases container with
  | none => exact same
  | some container =>
    have padded : content.transpose.pad (containerInsets settings) =
        (content.pad (containerInsets settings)).transpose := by
      rw [containerInsets_even even]
      rfl
    rw [Placement.sizeContainer, Placement.sizeContainer, padded]
    exact same.setSize container _

theorem DraftMirrored.draftScope (same : DraftMirrored first second) (layering : Layering)
    (ranking : Ranking) (scope : Scope) :
    DraftMirrored (draftScope settings.rightward layering ranking first scope)
      (draftScope settings.downward layering ranking second scope) := by
  rw [draftScope_eq, draftScope_eq, placeScope_downward settings same.sizeOf]
  have placed := (same.sizeContainer even
    (placeScope settings.rightward first.sizeOf (layersOf layering ranking scope)).1
    scope.container).setOffsets (scopeOrigin settings scope.container)
    (placeScope settings.rightward first.sizeOf (layersOf layering ranking scope)).2
  rw [scopeOrigin_swap even] at placed
  obtain ⟨container, members⟩ := scope
  cases container with
  | none => exact placed
  | some container => exact placed

theorem draftMirrored_draft (graph : Graph α) (ranking : Ranking) (layering : Layering) :
    DraftMirrored (draft graph ranking layering settings.rightward)
      (draft graph ranking layering settings.downward) :=
  List.foldl_rel (draftMirrored_initialDraft graph settings)
    fun scope _ _ _ same => same.draftScope even layering ranking scope

theorem boxes_mirrored (graph : Graph α) (ranking : Ranking) (layering : Layering) :
    (graph.placement ranking layering settings.downward).boxes =
      transposeBoxes (graph.placement ranking layering settings.rightward).boxes := by
  have same := draftMirrored_draft even graph ranking layering
  simp only [Graph.placement]
  generalize draft graph ranking layering settings.rightward = first at same ⊢
  generalize draft graph ranking layering settings.downward = second at same ⊢
  show graph.nodes.foldl _ (transposeBoxes []) = _
  refine List.foldl_hom transposeBoxes fun boxes node => ?_
  have box : draftBox second node.path = (draftBox first node.path).transpose := by
    rw [draftBox, same.offsetOf, same.sizeOf]
    rfl
  have around : outerCorner (transposeBoxes boxes) node.parent = (outerCorner boxes node.parent).swap := by
    cases node.parent with
    | none => rfl
    | some outer =>
      simp only [outerCorner, Option.bind_some, lookup_transposeBoxes]
      cases boxes.lookup outer <;> rfl
  rw [placeNode_eq, placeNode_eq, box, around, transposeBoxes, transposeBoxes, List.map_append]
  rfl

end Draft

end Placement

namespace Graph

theorem exists_mirrored [Scalar α] (graph : Graph α) (ranking : Ranking) (layering : Layering)
    {settings : Settings α} (headless : settings.containerHeader = Scalar.ofNat 0)
    (neutral : settings.containerPadding + Scalar.ofNat 0 = settings.containerPadding) :
    ∀ node ∈ graph.nodes, ∃ box,
      (graph.placement ranking layering settings.rightward).bounds? node.path = some box ∧
      (graph.placement ranking layering settings.downward).bounds? node.path = some box.transpose := by
  intro node member
  obtain ⟨box, placed⟩ := graph.exists_box ranking layering settings.rightward member
  have mirrored := Placement.boxes_mirrored (by rw [headless, neutral]) graph ranking layering
  refine ⟨box, placed, ?_⟩
  rw [Placement.bounds?] at placed ⊢
  rw [mirrored, Placement.lookup_transposeBoxes, placed]
  rfl

/-- Without space for names the two orientations are mirror images, whatever the ranking and the order:
a node laid out downward has the box that it has to the right with transposed sizes, its axes exchanged.
All that is asked of the numbers is that adding nothing to the padding does not change it; in exact
arithmetic this is so. -/
theorem placement_mirrored :
    (∀ (α : Type) [Scalar α] (graph : Graph α) (ranking : Ranking) (layering : Layering)
      (settings : Settings α), settings.containerHeader = Scalar.ofNat 0 →
        settings.containerPadding + Scalar.ofNat 0 = settings.containerPadding →
          ∀ node ∈ graph.nodes, ∃ box,
            (graph.placement ranking layering settings.rightward).bounds? node.path = some box ∧
            (graph.placement ranking layering settings.downward).bounds? node.path =
              some box.transpose) ∧
      ∀ (graph : Graph ℚ) (ranking : Ranking) (layering : Layering) (settings : Settings ℚ),
        settings.containerHeader = 0 → ∀ node ∈ graph.nodes, ∃ box,
          (graph.placement ranking layering settings.rightward).bounds? node.path = some box ∧
          (graph.placement ranking layering settings.downward).bounds? node.path =
            some box.transpose := by
  constructor
  · intro α _ graph ranking layering settings headless neutral
    exact graph.exists_mirrored ranking layering headless neutral
  · intro graph ranking layering settings headless
    exact graph.exists_mirrored ranking layering headless (add_zero _)

/-- A leaf inside two boxes, to the right and downward. -/
theorem nestedBoxes_mirrored :
    let settings : Settings ℚ := { Settings.default with containerHeader := 0 }
    settings.containerHeader = 0 ∧ (∃ node ∈ nestedBoxes.nodes, node.path = "Out.In.Leaf") ∧ ∃ box,
      (nestedBoxes.placement nestedBoxes.ranking {} settings.rightward).bounds? "Out.In.Leaf" = some box ∧
      (nestedBoxes.placement nestedBoxes.ranking {} settings.downward).bounds? "Out.In.Leaf" =
        some box.transpose := by
  intro settings
  have member : nestedBoxes.nodes.get ⟨2, by decide⟩ ∈ nestedBoxes.nodes := List.get_mem _ _
  exact ⟨rfl, ⟨_, member, by decide +kernel⟩,
    placement_mirrored.2 nestedBoxes nestedBoxes.ranking {} settings rfl _ member⟩

end Graph

end BoxDiagram
