import BoxDiagram.Proofs.Bands
import BoxDiagram.Proofs.Draft

/-!
The boxes of a placement over exact numbers. The members of a scope are where its layers put them,
moved to the corner of the content of the node around them. The box of a container is therefore the
hull of its children with the space around it, and nodes that are apart do not overlap.
-/

namespace BoxDiagram

namespace Placement

def sized (settings : Settings ℚ) (sizeOf : String → Size ℚ) (layers : List (List String)) :
    List (SizedLayer ℚ) :=
  layers.map (·.map fun member => (member, settings.orientation.along (sizeOf member)))

def rows (settings : Settings ℚ) (sizeOf : String → Size ℚ) (layers : List (List String)) :
    List (List (String × Bounds ℚ)) :=
  slots settings
    (Scalar.largest ((sized settings sizeOf layers).map (length settings.nodeSpacing))) 0
    (sized settings sizeOf layers)

section Rows

variable {settings : Settings ℚ} {sizeOf : String → Size ℚ} {layers : List (List String)}

theorem rows_names (settings : Settings ℚ) (sizeOf : String → Size ℚ) (layers : List (List String)) :
    (rows settings sizeOf layers).map (·.map Prod.fst) = layers := by
  rw [rows, slots_names, sized, List.map_map]
  exact List.map_id'' (fun layer => by simp [Function.comp_def]) layers

theorem placeScope_offsets (settings : Settings ℚ) (sizeOf : String → Size ℚ)
    (layers : List (List String)) :
    (placeScope settings sizeOf layers).2 =
      (rows settings sizeOf layers).flatten.map (offsetOf settings) := by
  rw [placeScope, placeLayers_eq]
  simp only [Scalar.ofNat_rat, Nat.cast_zero]
  rfl

theorem placeScope_content (filled : layers ≠ []) :
    (placeScope settings sizeOf layers).1 = settings.orientation.along
      ⟨0 + extent settings (sized settings sizeOf layers) - settings.rankSpacing,
        Scalar.largest ((sized settings sizeOf layers).map (length settings.nodeSpacing))⟩ := by
  have unequal : layers.isEmpty = false := by simpa using filled
  rw [placeScope, placeLayers_eq]
  simp only [Scalar.ofNat_rat, Nat.cast_zero, unequal]
  rfl

theorem proper_sized (nonneg : ∀ path, 0 ≤ (sizeOf path).width ∧ 0 ≤ (sizeOf path).height)
    (inhabited : ∀ layer ∈ layers, layer ≠ []) : Proper (sized settings sizeOf layers) := by
  intro layer found
  obtain ⟨names, listed, rfl⟩ := List.mem_map.mp found
  refine ⟨by simpa using inhabited names listed, ?_⟩
  intro entry member
  obtain ⟨name, -, rfl⟩ := List.mem_map.mp member
  cases settings.orientation with
  | leftToRight => exact nonneg name
  | topToBottom => exact (nonneg name).symm

theorem turn_slot (sound : settings.Sound) {slot : String × Bounds ℚ}
    (found : slot ∈ (rows settings sizeOf layers).flatten) :
    settings.orientation.turn slot.2 = .ofCorner (offsetOf settings slot).2 (sizeOf slot.1) := by
  obtain ⟨row, listed, inRow⟩ := List.mem_flatten.mp found
  obtain ⟨layer, member, start, -, -, rfl⟩ := mem_slots sound listed
  obtain ⟨entry, inLayer, name, box⟩ := mem_layerSlots inRow
  obtain ⟨names, -, rfl⟩ := List.mem_map.mp member
  obtain ⟨path, -, rfl⟩ := List.mem_map.mp inLayer
  have corner : slot.2 = .ofCorner ⟨slot.2.minX, slot.2.minY⟩
      (settings.orientation.along (sizeOf slot.1)) := by
    rw [name, box]
    rfl
  calc
    _ = settings.orientation.turn (.ofCorner ⟨slot.2.minX, slot.2.minY⟩
        (settings.orientation.along (sizeOf slot.1))) := congrArg _ corner
    _ = _ := settings.orientation.turn_ofCorner _ _ _

theorem isHull_rows (sound : settings.Sound)
    (nonneg : ∀ path, 0 ≤ (sizeOf path).width ∧ 0 ≤ (sizeOf path).height)
    (inhabited : ∀ layer ∈ layers, layer ≠ []) (filled : layers ≠ []) :
    (Bounds.ofCorner .zero (placeScope settings sizeOf layers).1).IsHull
      ((rows settings sizeOf layers).flatten.map fun slot => settings.orientation.turn slot.2) := by
  have proper : Proper (sized settings sizeOf layers) := proper_sized nonneg inhabited
  have content := @isHull_slots settings _ 0 _ sound proper (by simpa [sized] using filled) rfl
  have turned := settings.orientation.isHull_turn content
  rw [List.map_map] at turned
  have corner : settings.orientation.point (0 : ℚ) 0 = .zero := by
    cases settings.orientation <;> rfl
  have whole := settings.orientation.turn_ofCorner 0 0
    (placeScope settings sizeOf layers).1
  rw [corner] at whole
  have area (primary secondary : ℚ) :
      Bounds.ofCorner ⟨0, 0⟩ ⟨primary, secondary⟩ = ⟨0, 0, primary, secondary⟩ := by
    simp [Bounds.ofCorner]
  rw [← whole, placeScope_content filled, Orientation.along_along, area]
  exact turned

theorem placeScope_nonneg (sound : settings.Sound) (sizeOf : String → Size ℚ)
    (layers : List (List String)) :
    0 ≤ (placeScope settings sizeOf layers).1.width ∧
      0 ≤ (placeScope settings sizeOf layers).1.height := by
  have across := Scalar.largest_nonneg
    ((sized settings sizeOf layers).map (length settings.nodeSpacing))
  cases layers with
  | nil =>
    have empty : (placeScope settings sizeOf []).1 = settings.orientation.along ⟨0, 0⟩ := rfl
    rw [empty]
    cases settings.orientation <;> exact ⟨le_refl 0, le_refl 0⟩
  | cons layer rest =>
    have along : 0 ≤ 0 + extent settings (sized settings sizeOf (layer :: rest)) -
        settings.rankSpacing := by
      have first := thickness_nonneg
        (layer.map fun member => (member, settings.orientation.along (sizeOf member)))
      have others := extent_nonneg sound (sized settings sizeOf rest)
      rw [sized, List.map_cons, extent_cons]
      rw [sized] at others
      linarith
    rw [placeScope_content (by simp)]
    cases settings.orientation with
    | leftToRight => exact ⟨along, across⟩
    | topToBottom => exact ⟨across, along⟩

end Rows

def Nonnegative (draft : Draft ℚ) : Prop :=
  ∀ path, 0 ≤ (draft.sizeOf path).width ∧ 0 ≤ (draft.sizeOf path).height

theorem nonnegative_initialDraft (graph : Graph ℚ) {settings : Settings ℚ} (sound : settings.Sound) :
    Nonnegative (initialDraft graph settings) := by
  intro path
  simp only [initialDraft]
  split
  · exact ⟨sound.leafWidth.le, sound.leafHeight.le⟩
  · exact ⟨sound.containerWidth.le, sound.containerHeight.le⟩
  · exact ⟨le_refl 0, le_refl 0⟩

theorem Nonnegative.draftScope {settings : Settings ℚ} (sound : settings.Sound)
    (layering : Layering) (ranking : Ranking) {draft : Draft ℚ} (nonneg : Nonnegative draft)
    (scope : Scope) : Nonnegative (draftScope settings layering ranking draft scope) := by
  intro path
  by_cases own : scope.container = some path
  · have content := placeScope_nonneg sound draft.sizeOf (layersOf layering ranking scope)
    have padding := sound.containerPadding
    have header := sound.containerHeader
    rw [sizeOf_draftScope_container own]
    simp only [Size.pad, containerInsets, Insets.withTop, Insets.uniform, Insets.horizontal,
      Insets.vertical]
    constructor <;> linarith
  · rw [sizeOf_draftScope_other own]
    exact nonneg path

theorem nonnegative_draft (graph : Graph ℚ) (ranking : Ranking) (layering : Layering)
    {settings : Settings ℚ} (sound : settings.Sound) :
    Nonnegative (draft graph ranking layering settings) :=
  List.foldlRecOn _ _ (nonnegative_initialDraft graph sound)
    fun _ nonneg scope _ => nonneg.draftScope sound layering ranking scope

def contentCorner (settings : Settings ℚ) (placement : Placement ℚ) (container : Option String) :
    Point ℚ :=
  (scopeOrigin settings container).add (outerCorner placement.boxes container)

def Boxed (placement : Placement ℚ) (related : Bounds ℚ → Bounds ℚ → Prop)
    (first second : String) : Prop :=
  ∃ firstBox secondBox, placement.bounds? first = some firstBox ∧
    placement.bounds? second = some secondBox ∧ related firstBox secondBox

end Placement

namespace Graph

variable {graph : Graph ℚ} {ranking : Ranking} {layering : Layering} {settings : Settings ℚ}

def scopeRows (graph : Graph ℚ) (ranking : Ranking) (layering : Layering) (settings : Settings ℚ)
    (scope : Scope) : List (List (String × Bounds ℚ)) :=
  Placement.rows settings (Placement.draft graph ranking layering settings).sizeOf
    (Placement.layersOf layering ranking scope)

theorem scopeRows_names (graph : Graph ℚ) (ranking : Ranking) (layering : Layering)
    (settings : Settings ℚ) (scope : Scope) :
    (graph.scopeRows ranking layering settings scope).map (·.map Prod.fst) =
      Placement.layersOf layering ranking scope :=
  Placement.rows_names ..

theorem slot_listed {scope : Scope} {slot : String × Bounds ℚ}
    (found : slot ∈ (graph.scopeRows ranking layering settings scope).flatten) :
    slot.1 ∈ (Placement.layersOf layering ranking scope).flatten := by
  rw [← scopeRows_names graph ranking layering settings, ← List.map_flatten]
  exact List.mem_map_of_mem found

theorem exists_slot (graph : Graph ℚ) (settings : Settings ℚ) {scope : Scope} {path : String}
    (listed : path ∈ (Placement.layersOf layering ranking scope).flatten) :
    ∃ slot ∈ (graph.scopeRows ranking layering settings scope).flatten, slot.1 = path := by
  rw [← scopeRows_names graph ranking layering settings, ← List.map_flatten] at listed
  exact List.mem_map.mp listed

/-- The members of a scope are where its layers put them, moved to the content around them. -/
theorem WellFormed.bounds?_slot (wellFormed : graph.WellFormed)
    (layered : graph.LayeredBy ranking layering) (sound : settings.Sound) {scope : Scope}
    (listed : scope ∈ graph.scopes) {slot : String × Bounds ℚ}
    (found : slot ∈ (graph.scopeRows ranking layering settings scope).flatten) :
    (graph.placement ranking layering settings).bounds? slot.1 =
      some ((settings.orientation.turn slot.2).translate
        (Placement.contentCorner settings (graph.placement ranking layering settings)
          scope.container)) := by
  have member := (layered scope listed).perm.mem_iff.mp (slot_listed found)
  obtain ⟨node, nodeMember, inside, path⟩ := (mem_members_of_listed listed).mp member
  have offset : (Placement.draft graph ranking layering settings).offsetOf slot.1 =
      (Placement.scopeOrigin settings scope.container).add (Placement.offsetOf settings slot).2 := by
    apply (wellFormed.fits_draft layered settings listed).members (Placement.offsetOf settings slot)
    rw [Placement.placeScope_offsets]
    exact List.mem_map_of_mem found
  have placed := wellFormed.bounds?_placement ranking layering settings nodeMember
  rw [path, inside, Placement.draftBox, offset, Bounds.ofCorner_add,
    ← Placement.turn_slot sound found, Bounds.translate_translate] at placed
  exact placed

theorem WellFormed.exists_bounds_slot (wellFormed : graph.WellFormed)
    (layered : graph.LayeredBy ranking layering) (sound : settings.Sound) {scope : Scope}
    (listed : scope ∈ graph.scopes) {path : String} (member : path ∈ scope.members) :
    ∃ slot ∈ (graph.scopeRows ranking layering settings scope).flatten, slot.1 = path ∧
      (graph.placement ranking layering settings).bounds? path =
        some ((settings.orientation.turn slot.2).translate
          (Placement.contentCorner settings (graph.placement ranking layering settings)
            scope.container)) := by
  obtain ⟨slot, found, rfl⟩ := exists_slot graph settings ((layered scope listed).perm.mem_iff.mpr member)
  exact ⟨slot, found, rfl, wellFormed.bounds?_slot layered sound listed found⟩

theorem WellFormed.isHull_members (wellFormed : graph.WellFormed)
    (layered : graph.LayeredBy ranking layering) (sound : settings.Sound) {scope : Scope}
    (listed : scope ∈ graph.scopes) :
    ((Bounds.ofCorner .zero (Placement.placeScope settings
        (Placement.draft graph ranking layering settings).sizeOf
        (Placement.layersOf layering ranking scope)).1).translate
      (Placement.contentCorner settings (graph.placement ranking layering settings)
        scope.container)).IsHull
      (scope.members.filterMap (graph.placement ranking layering settings).bounds?) := by
  have layers := layered scope listed
  have filled : Placement.layersOf layering ranking scope ≠ [] := by
    intro none
    have empty := layers.perm
    rw [none] at empty
    exact members_ne_nil listed empty.nil_eq.symm
  have content := Placement.isHull_rows sound
    (Placement.nonnegative_draft graph ranking layering sound) layers.inhabited filled
  refine (content.translate _).congr ?_
  intro box
  rw [List.map_map, List.mem_map, List.mem_filterMap]
  constructor
  · rintro ⟨slot, found, rfl⟩
    exact ⟨slot.1, layers.perm.mem_iff.mp (slot_listed found),
      wellFormed.bounds?_slot layered sound listed found⟩
  · rintro ⟨path, member, same⟩
    obtain ⟨slot, found, -, placed⟩ :=
      wellFormed.exists_bounds_slot layered sound listed member
    exact ⟨slot, found, Option.some.inj (placed.symm.trans same)⟩

/-- A container with members is the hull of their boxes with the space around it. -/
theorem WellFormed.bounds?_container (wellFormed : graph.WellFormed)
    (layered : graph.LayeredBy ranking layering) (sound : settings.Sound) {container : Node ℚ}
    (member : container ∈ graph.nodes) (filled : graph.isFilled container = true) :
    ∃ hull : Bounds ℚ,
      hull.IsHull ((graph.children container.path).filterMap
        fun child => (graph.placement ranking layering settings).bounds? child.path) ∧
      (graph.placement ranking layering settings).bounds? container.path =
        some (hull.grow (Placement.containerInsets settings)) := by
  have listed : graph.scope (some container.path) ∈ graph.scopes :=
    mem_scopes_iff.mpr (.inl ⟨container, member, filled, rfl⟩)
  have hull := wellFormed.isHull_members layered sound listed
  have members : (graph.scope (some container.path)).members =
      (graph.children container.path).map Node.path := rfl
  rw [members, List.filterMap_map] at hull
  refine ⟨_, hull, ?_⟩
  have placed := wellFormed.bounds?_placement ranking layering settings member
  have size := (wellFormed.fits_draft layered settings listed).container container.path rfl
  rw [Placement.draftBox, size, ← Bounds.ofCorner_add] at placed
  have corner : Placement.contentCorner settings (graph.placement ranking layering settings)
      (some container.path) = (Placement.containerInsets settings).origin.add
        ((Placement.outerCorner (graph.placement ranking layering settings).boxes
          container.parent).add
            ((Placement.draft graph ranking layering settings).offsetOf container.path)) := by
    rw [Placement.bounds?] at placed
    simp only [Placement.contentCorner, Placement.scopeOrigin, Placement.outerCorner,
      Option.bind_some, placed]
    rfl
  rw [placed, Bounds.ofCorner_pad, ← corner]
  rfl

theorem WellFormed.exists_bounds (wellFormed : graph.WellFormed) (ranking : Ranking)
    (layering : Layering) (settings : Settings ℚ) {node : Node ℚ} (member : node ∈ graph.nodes) :
    ∃ box, (graph.placement ranking layering settings).bounds? node.path = some box :=
  ⟨_, wellFormed.bounds?_placement ranking layering settings member⟩

theorem WellFormed.encloses_child (wellFormed : graph.WellFormed) (leavesEmpty : graph.LeavesEmpty)
    (layered : graph.LayeredBy ranking layering) (sound : settings.Sound) {outer inner : Node ℚ}
    (outerMember : outer ∈ graph.nodes) (innerMember : inner ∈ graph.nodes)
    (inside : inner.parent = some outer.path) {outerBox innerBox : Bounds ℚ}
    (outerPlaced : (graph.placement ranking layering settings).bounds? outer.path = some outerBox)
    (innerPlaced : (graph.placement ranking layering settings).bounds? inner.path = some innerBox) :
    outerBox.Encloses innerBox := by
  have isContainer := leavesEmpty outer outerMember inner innerMember inside
  have filled := isFilled_of_inside isContainer innerMember inside
  obtain ⟨hull, isHull, placed⟩ := wellFormed.bounds?_container layered sound outerMember filled
  have child : inner ∈ graph.children outer.path := by simpa [children] using ⟨innerMember, inside⟩
  have inHull := isHull.encloses innerBox (List.mem_filterMap.mpr ⟨inner, child, innerPlaced⟩)
  have padding := sound.containerPadding
  have header := sound.containerHeader
  rw [Option.some.inj (outerPlaced.symm.trans placed)]
  refine (hull.encloses_grow ?_ ?_ ?_ ?_).trans inHull <;>
    simp only [Placement.containerInsets, Insets.withTop, Insets.uniform] <;> linarith

/-- The box of a node lies in the boxes of all nodes around it. -/
theorem WellFormed.encloses_lineage (wellFormed : graph.WellFormed)
    (leavesEmpty : graph.LeavesEmpty) (layered : graph.LayeredBy ranking layering)
    (sound : settings.Sound) {outer inner : Node ℚ} (innerMember : inner ∈ graph.nodes)
    (around : outer ∈ graph.lineage inner.path) {outerBox innerBox : Bounds ℚ}
    (outerPlaced : (graph.placement ranking layering settings).bounds? outer.path = some outerBox)
    (innerPlaced : (graph.placement ranking layering settings).bounds? inner.path = some innerBox) :
    outerBox.Encloses innerBox := by
  induction inner, innerMember using wellFormed.outward_induction generalizing innerBox with
  | root inner member outermost =>
    rw [wellFormed.lineage_eq member, wellFormed.ancestors_root member outermost,
      List.mem_singleton] at around
    subst around
    rw [Option.some.inj (outerPlaced.symm.trans innerPlaced)]
    exact .refl innerBox
  | inner inner member parent parentMember inside ih =>
    rw [wellFormed.lineage_inner member parentMember inside] at around
    rcases List.mem_cons.mp around with rfl | further
    · rw [Option.some.inj (outerPlaced.symm.trans innerPlaced)]
      exact .refl innerBox
    · obtain ⟨parentBox, parentPlaced⟩ :=
        wellFormed.exists_bounds ranking layering settings parentMember
      exact (ih further parentPlaced).trans (wellFormed.encloses_child leavesEmpty layered sound
        parentMember member inside parentPlaced innerPlaced)

end Graph

end BoxDiagram
