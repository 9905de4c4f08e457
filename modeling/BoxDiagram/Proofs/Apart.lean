import BoxDiagram.Proofs.Nesting

/-!
Boxes keep their distance. Members of one layer are a node gap apart along the secondary axis, and a
member of a later layer begins a rank gap behind the end of every member of an earlier one. Nodes of
which neither is around the other one are in different members of some scope, and their boxes are in
the boxes of these.
-/

namespace BoxDiagram.Graph

theorem related_of_pairwise {β : Type} {related : β → β → Prop} {list : List β}
    (pairwise : list.Pairwise related) {first second : β} (firstMember : first ∈ list)
    (secondMember : second ∈ list) (different : first ≠ second) :
    related first second ∨ related second first := by
  induction pairwise with
  | nil => cases firstMember
  | cons onward _ ih =>
    rcases List.mem_cons.mp firstMember with rfl | firstLater
    · rcases List.mem_cons.mp secondMember with rfl | secondLater
      · exact absurd rfl different
      · exact .inl (onward second secondLater)
    · rcases List.mem_cons.mp secondMember with rfl | secondLater
      · exact .inr (onward first firstLater)
      · exact ih firstLater secondLater

variable {graph : Graph ℚ} {ranking : Ranking} {layering : Layering} {settings : Settings ℚ}

/-- Members of a later layer begin behind the end of the members of an earlier one. -/
theorem WellFormed.pairwise_spacedAlong (wellFormed : graph.WellFormed)
    (layered : graph.LayeredBy ranking layering) (sound : settings.Sound) {scope : Scope}
    (listed : scope ∈ graph.scopes) :
    (Placement.layersOf layering ranking scope).Pairwise fun earlier later =>
      ∀ first ∈ earlier, ∀ second ∈ later, ∀ firstBox secondBox,
        (graph.placement ranking layering settings).bounds? first = some firstBox →
        (graph.placement ranking layering settings).bounds? second = some secondBox →
        settings.orientation.SpacedAlong settings.rankSpacing firstBox secondBox := by
  rw [← scopeRows_names graph ranking layering settings, List.pairwise_map]
  refine (Placement.pairwise_slots sound).imp_of_mem ?_
  intro upper lower upperListed lowerListed spaced first firstFound second secondFound
  obtain ⟨left, inUpper, rfl⟩ := List.mem_map.mp firstFound
  obtain ⟨right, inLower, rfl⟩ := List.mem_map.mp secondFound
  intro firstBox secondBox firstPlaced secondPlaced
  rw [wellFormed.bounds?_slot layered sound listed (List.mem_flatten.mpr ⟨upper, upperListed, inUpper⟩),
    Option.some.injEq] at firstPlaced
  rw [wellFormed.bounds?_slot layered sound listed (List.mem_flatten.mpr ⟨lower, lowerListed, inLower⟩),
    Option.some.injEq] at secondPlaced
  rw [← firstPlaced, ← secondPlaced, Orientation.spacedAlong_moved]
  exact spaced left inUpper right inLower

theorem WellFormed.spacedAcross (wellFormed : graph.WellFormed)
    (layered : graph.LayeredBy ranking layering) (sound : settings.Sound) {scope : Scope}
    (listed : scope ∈ graph.scopes) {layer : List String}
    (inLayers : layer ∈ Placement.layersOf layering ranking scope) {first second : String}
    (firstMember : first ∈ layer) (secondMember : second ∈ layer) (different : first ≠ second)
    {firstBox secondBox : Bounds ℚ}
    (firstPlaced : (graph.placement ranking layering settings).bounds? first = some firstBox)
    (secondPlaced : (graph.placement ranking layering settings).bounds? second = some secondBox) :
    settings.orientation.SpacedAcross settings.nodeSpacing firstBox secondBox := by
  rw [← scopeRows_names graph ranking layering settings] at inLayers
  obtain ⟨row, rowListed, rfl⟩ := List.mem_map.mp inLayers
  obtain ⟨left, leftFound, rfl⟩ := List.mem_map.mp firstMember
  obtain ⟨right, rightFound, rfl⟩ := List.mem_map.mp secondMember
  rw [wellFormed.bounds?_slot layered sound listed (List.mem_flatten.mpr ⟨row, rowListed, leftFound⟩),
    Option.some.injEq] at firstPlaced
  rw [wellFormed.bounds?_slot layered sound listed (List.mem_flatten.mpr ⟨row, rowListed, rightFound⟩),
    Option.some.injEq] at secondPlaced
  rw [← firstPlaced, ← secondPlaced, Orientation.spacedAcross_moved]
  obtain ⟨sizedLayer, member, start, -, -, rfl⟩ := Placement.mem_slots sound rowListed
  have unsigned := (Placement.proper_sized (Placement.nonnegative_draft graph ranking layering sound)
    (layered scope listed).inhabited sizedLayer member).2
  exact related_of_pairwise (Placement.pairwise_layerSlots sound.nodeSpacing unsigned) leftFound
    rightFound fun same => different (congrArg Prod.fst same)

theorem WellFormed.siblings_intersects (wellFormed : graph.WellFormed)
    (layered : graph.LayeredBy ranking layering) (sound : settings.Sound) {scope : Scope}
    (listed : scope ∈ graph.scopes) {first second : String} (firstMember : first ∈ scope.members)
    (secondMember : second ∈ scope.members) (different : first ≠ second)
    {firstBox secondBox : Bounds ℚ}
    (firstPlaced : (graph.placement ranking layering settings).bounds? first = some firstBox)
    (secondPlaced : (graph.placement ranking layering settings).bounds? second = some secondBox) :
    firstBox.intersects secondBox = false := by
  have perm := (layered scope listed).perm
  obtain ⟨upper, upperListed, inUpper⟩ := List.mem_flatten.mp (perm.mem_iff.mpr firstMember)
  obtain ⟨lower, lowerListed, inLower⟩ := List.mem_flatten.mp (perm.mem_iff.mpr secondMember)
  by_cases same : upper = lower
  · subst same
    exact (wellFormed.spacedAcross layered sound listed upperListed inUpper inLower different
      firstPlaced secondPlaced).intersects sound.nodeSpacing
  · have along := wellFormed.pairwise_spacedAlong layered sound listed
    rcases related_of_pairwise along upperListed lowerListed same with before | behind
    · exact ((before first inUpper second inLower _ _ firstPlaced secondPlaced).intersects
        sound.rankSpacing).1
    · exact ((behind second inLower first inUpper _ _ secondPlaced firstPlaced).intersects
        sound.rankSpacing).2

/-- The boxes of nodes apart do not overlap: they lie in the boxes of different members of a scope. -/
theorem WellFormed.apart_intersects (wellFormed : graph.WellFormed) (leavesEmpty : graph.LeavesEmpty)
    (layered : graph.LayeredBy ranking layering) (sound : settings.Sound) {first second : Node ℚ}
    (firstMember : first ∈ graph.nodes) (secondMember : second ∈ graph.nodes)
    (apart : graph.Apart first.path second.path) :
    (graph.placement ranking layering settings).Boxed (fun first second =>
      first.intersects second = false) first.path second.path := by
  obtain ⟨left, aroundFirst, right, aroundSecond, different, sameScope⟩ :=
    wellFormed.exists_siblings firstMember secondMember apart
  have leftMember := lineage_subset graph _ left aroundFirst
  have rightMember := lineage_subset graph _ right aroundSecond
  have listed := wellFormed.scope_listed leavesEmpty leftMember
  obtain ⟨leftBox, leftPlaced⟩ := wellFormed.exists_bounds ranking layering settings leftMember
  obtain ⟨rightBox, rightPlaced⟩ := wellFormed.exists_bounds ranking layering settings rightMember
  obtain ⟨firstBox, firstPlaced⟩ := wellFormed.exists_bounds ranking layering settings firstMember
  obtain ⟨secondBox, secondPlaced⟩ :=
    wellFormed.exists_bounds ranking layering settings secondMember
  refine ⟨firstBox, secondBox, firstPlaced, secondPlaced, ?_⟩
  apply Bounds.intersects_of_encloses
  · exact wellFormed.encloses_lineage leavesEmpty layered sound firstMember aroundFirst leftPlaced
      firstPlaced
  · exact wellFormed.encloses_lineage leavesEmpty layered sound secondMember aroundSecond rightPlaced
      secondPlaced
  · exact wellFormed.siblings_intersects layered sound listed
      (mem_scope_iff.mpr ⟨left, leftMember, rfl, rfl⟩)
      (mem_scope_iff.mpr ⟨right, rightMember, sameScope.symm, rfl⟩) different leftPlaced rightPlaced

/-- The boxes of nodes apart do not overlap. The layers of the siblings of a node part them, siblings
in one layer are a node gap apart, and siblings in a later layer begin a rank gap behind the end of
all in an earlier one. -/
theorem Contained.boxes_apart (contained : graph.Contained)
    (ordered : graph.OrderedFor ranking layering) (valid : settings.validate = .ok ()) :
    (∀ first ∈ graph.nodes, ∀ second ∈ graph.nodes, graph.Apart first.path second.path →
      (graph.placement ranking layering settings).Boxed (fun first second =>
        first.intersects second = false) first.path second.path) ∧
    ∀ node ∈ graph.nodes,
      let siblings := (graph.scope node.parent).members
      let layers := Placement.layersOf layering ranking (graph.scope node.parent)
      layers.flatten.Perm siblings ∧
      (∀ layer ∈ layers, ∀ first ∈ layer, ∀ second ∈ layer, first ≠ second →
        (graph.placement ranking layering settings).Boxed
          (settings.orientation.SpacedAcross settings.nodeSpacing) first second) ∧
      layers.Pairwise fun earlier later => ∀ first ∈ earlier, ∀ second ∈ later,
        (graph.placement ranking layering settings).Boxed
          (settings.orientation.SpacedAlong settings.rankSpacing) first second := by
  have sound := Settings.sound_of_validate valid
  have layered := ordered.layeredBy
  have wellFormed := contained.wellFormed
  refine ⟨fun _ firstMember _ secondMember => wellFormed.apart_intersects contained.leavesEmpty
    layered sound firstMember secondMember, ?_⟩
  intro node member siblings layers
  have listed := wellFormed.scope_listed contained.leavesEmpty member
  have perm := (layered _ listed).perm
  have boxed : ∀ layer ∈ layers, ∀ path ∈ layer, ∃ box,
      (graph.placement ranking layering settings).bounds? path = some box := by
    intro layer inLayers path inLayer
    obtain ⟨sibling, siblingMember, -, rfl⟩ := mem_scope_iff.mp
      (perm.mem_iff.mp (List.mem_flatten.mpr ⟨layer, inLayers, inLayer⟩))
    exact wellFormed.exists_bounds ranking layering settings siblingMember
  refine ⟨perm, ?_, ?_⟩
  · intro layer inLayers first firstMember second secondMember different
    obtain ⟨firstBox, firstPlaced⟩ := boxed layer inLayers first firstMember
    obtain ⟨secondBox, secondPlaced⟩ := boxed layer inLayers second secondMember
    exact ⟨firstBox, secondBox, firstPlaced, secondPlaced, wellFormed.spacedAcross layered sound
      listed inLayers firstMember secondMember different firstPlaced secondPlaced⟩
  · refine (wellFormed.pairwise_spacedAlong layered sound listed).imp_of_mem ?_
    intro earlier later earlierListed laterListed spaced first firstMember second secondMember
    obtain ⟨firstBox, firstPlaced⟩ := boxed earlier earlierListed first firstMember
    obtain ⟨secondBox, secondPlaced⟩ := boxed later laterListed second secondMember
    exact ⟨firstBox, secondBox, firstPlaced, secondPlaced,
      spaced first firstMember second secondMember firstBox secondBox firstPlaced secondPlaced⟩

theorem nestedBoxes_apart :
    nestedBoxes.Contained ∧ nestedBoxes.OrderedFor nestedBoxes.ranking {} ∧
      (Settings.default : Settings ℚ).validate = .ok () ∧
      (nestedBoxes.placement nestedBoxes.ranking {} .default).Boxed
        (fun first second => first.intersects second = false) "Out.In.Leaf" "Free" ∧
      (nestedBoxes.placement nestedBoxes.ranking {} .default).Boxed
        (Orientation.leftToRight.SpacedAcross 50) "Out.In" "Out.Side" :=
  have valid : (Settings.default : Settings ℚ).validate = .ok () := by rfl
  have apart : nestedBoxes.Apart "Out.In.Leaf" "Free" := by unfold Apart; decide +kernel
  have spaced := nestedBoxes_contained.boxes_apart (.inl rfl) valid
  let leaf := nestedBoxes.nodes.get ⟨2, by decide⟩
  let side := nestedBoxes.nodes.get ⟨3, by decide⟩
  let free := nestedBoxes.nodes.get ⟨4, by decide⟩
  ⟨nestedBoxes_contained, .inl rfl, valid,
    spaced.1 leaf (List.get_mem ..) free (List.get_mem ..) apart,
    (spaced.2 side (List.get_mem ..)).2.1 ["Out.In", "Out.Side"] (by decide +kernel)
      "Out.In" (by decide) "Out.Side" (by decide) (by decide)⟩

end BoxDiagram.Graph
