import BoxDiagram.Proofs.ForwardBoxes

/-!
The extent of a diagram. Every box lies in the box of a node that is inside no other, so the boxes of
these nodes alone have the extent of all. It begins at the margin, which the layers of the outermost scope
touch on both axes. The margin enters into the offsets of the outermost nodes only, and the other boxes
follow them.
-/

namespace BoxDiagram

theorem Bounds.IsHull.extend {whole : Bounds ℚ} {boxes others : List (Bounds ℚ)}
    (hull : whole.IsHull boxes) (listed : boxes ⊆ others)
    (inside : ∀ box ∈ others, ∃ outer ∈ boxes, outer.Encloses box) : whole.IsHull others := by
  obtain ⟨encloses, ⟨left, leftMember, minX⟩, ⟨top, topMember, minY⟩, ⟨right, rightMember, maxX⟩,
    bottom, bottomMember, maxY⟩ := hull
  refine ⟨fun box member => ?_, ⟨left, listed leftMember, minX⟩, ⟨top, listed topMember, minY⟩,
    ⟨right, listed rightMember, maxX⟩, bottom, listed bottomMember, maxY⟩
  obtain ⟨outer, outerMember, around⟩ := inside box member
  exact (encloses outer outerMember).trans around

theorem lookup_of_mem {β : Type} {table : List (String × β)} (nodup : (table.map Prod.fst).Nodup)
    {entry : String × β} (member : entry ∈ table) : table.lookup entry.1 = some entry.2 := by
  induction table with
  | nil => cases member
  | cons first rest ih =>
    obtain ⟨fresh, nodup⟩ := List.nodup_cons.mp nodup
    rcases List.mem_cons.mp member with rfl | later
    · exact List.lookup_cons_self
    · have different : (entry.1 == first.1) = false :=
        beq_false_of_ne fun same => fresh (same ▸ List.mem_map_of_mem later)
      rw [List.lookup_cons, different, ih nodup later]

theorem Placement.outerCorner_of_placed {placement : Placement ℚ} {path : String} {box : Bounds ℚ}
    (placed : placement.bounds? path = some box) :
    outerCorner placement.boxes (some path) = box.corner := by
  rw [bounds?] at placed
  rw [outerCorner, Option.bind_some, placed]

def Settings.addMargin (settings : Settings ℚ) (distance : ℚ) : Settings ℚ :=
  { settings with margin := settings.margin + distance }

/-- The second node has the box of the first one, moved by a distance to the right and downward, and is
the same in all but its position. -/
def Node.Shifted (distance : ℚ) (before after : Node ℚ) : Prop :=
  ∃ box : Bounds ℚ, before.bounds = some box ∧
    after.bounds = some (box.translate ⟨distance, distance⟩) ∧
    after = { before with position := some (box.corner.add ⟨distance, distance⟩) }

namespace Graph

variable {graph : Graph ℚ} {ranking : Ranking} {layering : Layering} {settings : Settings ℚ}

section Whole

theorem WellFormed.mem_boxes_iff (wellFormed : graph.WellFormed) {box : Bounds ℚ} :
    box ∈ (graph.placement ranking layering settings).boxes.map Prod.snd ↔
      ∃ node ∈ graph.nodes,
        (graph.placement ranking layering settings).bounds? node.path = some box := by
  have names : (graph.placement ranking layering settings).boxes.map Prod.fst =
      graph.nodes.map Node.path :=
    Placement.placeNodes_names _ graph.nodes []
  constructor
  · intro member
    obtain ⟨entry, listed, rfl⟩ := List.mem_map.mp member
    have named : entry.1 ∈ graph.nodes.map Node.path := names ▸ List.mem_map_of_mem listed
    obtain ⟨node, nodeMember, same⟩ := List.mem_map.mp named
    refine ⟨node, nodeMember, ?_⟩
    rw [same]
    exact lookup_of_mem (names ▸ wellFormed.nodup_paths) listed
  · rintro ⟨node, -, found⟩
    obtain ⟨before, after, same, -⟩ := List.lookup_eq_some_iff.mp found
    simp [same]

theorem Contained.isHull_boxes (contained : graph.Contained) (layered : graph.LayeredBy ranking layering)
    (sound : settings.Sound) {whole : Bounds ℚ}
    (hull : whole.IsHull ((graph.scope none).members.filterMap
      (graph.placement ranking layering settings).bounds?)) :
    whole.IsHull ((graph.placement ranking layering settings).boxes.map Prod.snd) := by
  have wellFormed := contained.wellFormed
  refine hull.extend ?_ ?_
  · intro box member
    obtain ⟨path, listed, placed⟩ := List.mem_filterMap.mp member
    obtain ⟨node, nodeMember, -, rfl⟩ := mem_scope_iff.mp listed
    exact wellFormed.mem_boxes_iff.mpr ⟨node, nodeMember, placed⟩
  · intro box member
    obtain ⟨node, nodeMember, placed⟩ := wellFormed.mem_boxes_iff.mp member
    obtain ⟨root, around, outermost⟩ := wellFormed.exists_mem_lineage nodeMember (.inl rfl)
    have rootMember := WellFormed.lineage_subset graph _ root around
    obtain ⟨outer, outerPlaced⟩ := wellFormed.exists_bounds ranking layering settings rootMember
    refine ⟨outer, List.mem_filterMap.mpr ⟨root.path, ?_, outerPlaced⟩, ?_⟩
    · exact mem_scope_iff.mpr ⟨root, rootMember, outermost, rfl⟩
    · exact wellFormed.encloses_lineage contained.leavesEmpty layered sound nodeMember around outerPlaced
        placed

/-- There is a box around the outermost nodes; it is the box around all nodes and begins at the margin. -/
theorem Contained.exists_whole (contained : graph.Contained) (layered : graph.LayeredBy ranking layering)
    (sound : settings.Sound) (inhabited : graph.nodes ≠ []) :
    ∃ whole : Bounds ℚ,
      Bounds.mergeAll ((graph.scope none).members.filterMap
        (graph.placement ranking layering settings).bounds?) = some whole ∧
      (graph.placement ranking layering settings).total = some whole ∧
      whole.corner = ⟨settings.margin, settings.margin⟩ := by
  obtain ⟨node, member⟩ := List.exists_mem_of_ne_nil _ inhabited
  obtain ⟨root, around, outermost⟩ := contained.wellFormed.exists_mem_lineage member (.inl rfl)
  have listed : graph.scope none ∈ graph.scopes := by
    have scope := contained.wellFormed.scope_listed contained.leavesEmpty
      (WellFormed.lineage_subset graph _ root around)
    rwa [outermost] at scope
  have hull := contained.wellFormed.isHull_members layered sound listed
  refine ⟨_, hull.mergeAll, (contained.isHull_boxes layered sound hull).mergeAll, ?_⟩
  have container : (graph.scope none).container = none := rfl
  simp [container, Bounds.corner, Bounds.translate, Bounds.ofCorner, Placement.contentCorner,
    Placement.scopeOrigin, Placement.outerCorner, Point.add, Point.zero]

end Whole

section Margin

variable (settings : Settings ℚ) (distance : ℚ)

theorem placeScope_addMargin (sizeOf : String → Size ℚ) (layers : List (List String)) :
    Placement.placeScope (settings.addMargin distance) sizeOf layers =
      Placement.placeScope settings sizeOf layers := by
  have turned : Placement.Turned id settings (settings.addMargin distance) :=
    ⟨rfl, rfl, fun _ _ => rfl⟩
  rw [turned.placeScope id (fun _ => rfl) (fun _ => rfl) layers, Prod.map_id]
  simp

theorem sizeOf_addMargin (graph : Graph ℚ) (ranking : Ranking) (layering : Layering) :
    (Placement.draft graph ranking layering (settings.addMargin distance)).sizeOf =
      (Placement.draft graph ranking layering settings).sizeOf := by
  refine List.foldl_rel (r := fun first second : Draft ℚ => first.sizeOf = second.sizeOf) rfl ?_
  intro scope _ first second same
  funext path
  by_cases own : scope.container = some path
  · rw [Placement.sizeOf_draftScope_container own, Placement.sizeOf_draftScope_container own, same,
      placeScope_addMargin]
    rfl
  · rw [Placement.sizeOf_draftScope_other own, Placement.sizeOf_draftScope_other own, same]

variable (contained : graph.Contained) (layered : graph.LayeredBy ranking layering)
include contained layered

/-- The margin enters into an offset through the origin of the scope only. -/
theorem Contained.exists_offset {node : Node ℚ} (member : node ∈ graph.nodes) :
    ∃ offset, (Placement.draft graph ranking layering settings).offsetOf node.path =
        (Placement.scopeOrigin settings node.parent).add offset ∧
      (Placement.draft graph ranking layering (settings.addMargin distance)).offsetOf node.path =
        (Placement.scopeOrigin (settings.addMargin distance) node.parent).add offset := by
  have listed := contained.wellFormed.scope_listed contained.leavesEmpty member
  have named : node.path ∈ (Placement.placeScope settings
      (Placement.draft graph ranking layering settings).sizeOf
      (Placement.layersOf layering ranking (graph.scope node.parent))).2.map Prod.fst := by
    rw [Placement.placeScope_names]
    exact (layered _ listed).perm.mem_iff.mpr (mem_scope_iff.mpr ⟨node, member, rfl, rfl⟩)
  obtain ⟨entry, found, same⟩ := List.mem_map.mp named
  rw [← same]
  refine ⟨entry.2, (contained.wellFormed.fits_draft layered settings listed).members entry found, ?_⟩
  apply (contained.wellFormed.fits_draft layered (settings.addMargin distance) listed).members entry
  rwa [sizeOf_addMargin, placeScope_addMargin]

theorem Contained.draftBox_addMargin {node : Node ℚ} (member : node ∈ graph.nodes) :
    Placement.draftBox (Placement.draft graph ranking layering (settings.addMargin distance)) node.path =
      (Placement.draftBox (Placement.draft graph ranking layering settings) node.path).translate
        (if node.parent = none then ⟨distance, distance⟩ else .zero) := by
  obtain ⟨offset, before, after⟩ := contained.exists_offset settings distance layered member
  rw [Placement.draftBox, Placement.draftBox, before, after, sizeOf_addMargin]
  cases node.parent with
  | none =>
    apply Bounds.ext <;>
      simp only [Bounds.translate, Bounds.ofCorner, Placement.scopeOrigin, Point.add,
        Settings.addMargin, if_pos] <;>
      ring
  | some outer =>
    apply Bounds.ext <;>
      simp [Bounds.translate, Bounds.ofCorner, Placement.scopeOrigin, Placement.containerInsets,
        Point.zero, Settings.addMargin]

/-- Every box is moved by as much as the margin is changed. -/
theorem Contained.bounds?_addMargin {node : Node ℚ} (member : node ∈ graph.nodes) :
    (graph.placement ranking layering (settings.addMargin distance)).bounds? node.path =
      ((graph.placement ranking layering settings).bounds? node.path).map
        (·.translate ⟨distance, distance⟩) := by
  have wellFormed := contained.wellFormed
  have drafted {node : Node ℚ} (member : node ∈ graph.nodes) :=
    contained.draftBox_addMargin settings distance layered member
  induction node, member using wellFormed.outward_induction with
  | root node member outermost =>
    have corner (boxes : List (String × Bounds ℚ)) : Placement.outerCorner boxes none = .zero := rfl
    rw [wellFormed.bounds?_placement ranking layering _ member,
      wellFormed.bounds?_placement ranking layering _ member, drafted member, outermost, corner, corner,
      if_pos rfl, Option.map_some, Bounds.translate_translate, Bounds.translate_translate]
    simp [Point.add, Point.zero]
  | inner node member outer outerMember inside ih =>
    obtain ⟨box, placed⟩ := wellFormed.exists_bounds ranking layering settings outerMember
    rw [placed, Option.map_some] at ih
    have before := Placement.outerCorner_of_placed placed
    have after := Placement.outerCorner_of_placed ih
    have moved : (box.translate ⟨distance, distance⟩).corner = box.corner.add ⟨distance, distance⟩ := rfl
    rw [wellFormed.bounds?_placement ranking layering _ member,
      wellFormed.bounds?_placement ranking layering _ member, drafted member, inside, before, after,
      moved, if_neg (Option.some_ne_none _), Option.map_some, Bounds.translate_translate,
      Bounds.translate_translate]
    simp [Point.add, Point.zero]

end Margin

theorem writeNode_moved (ranking : Ranking) (node : Node ℚ) {placement other : Placement ℚ}
    {box : Bounds ℚ} {offset : Point ℚ} (placed : placement.bounds? node.path = some box)
    (moved : other.bounds? node.path = some (box.translate offset)) :
    writeNode ranking other node =
      { writeNode ranking placement node with position := some (box.corner.add offset) } := by
  have size : (box.translate offset).size = box.size := by
    simp [Bounds.size, Bounds.width, Bounds.height, Bounds.translate]
  simp only [writeNode, placed, moved, size]
  rfl

theorem parent_writeNode (ranking : Ranking) (placement : Placement ℚ) (node : Node ℚ) :
    (writeNode ranking placement node).parent = node.parent := by
  unfold writeNode
  split <;> rfl

theorem WellFormed.bounds_writeLayout (wellFormed : graph.WellFormed) :
    (graph.writeLayout ranking (graph.placement ranking layering settings)).bounds =
      Bounds.mergeAll ((graph.scope none).members.filterMap
        (graph.placement ranking layering settings).bounds?) := by
  generalize placed : graph.placement ranking layering settings = placement
  have roots : (graph.writeLayout ranking placement).roots =
      graph.roots.map (writeNode ranking placement) := by
    simp only [Graph.roots, writeLayout, List.filter_map]
    congr 1
    exact List.filter_congr fun node _ => by rw [Function.comp_apply, parent_writeNode]
  have members : (graph.scope none).members = graph.roots.map Node.path := rfl
  rw [Graph.bounds, roots, members, List.filterMap_map, List.filterMap_map]
  congr 1
  refine List.filterMap_congr fun node member => ?_
  obtain ⟨box, found⟩ :=
    wellFormed.exists_bounds ranking layering settings (List.mem_filter.mp member).1
  rw [placed] at found
  exact (bounds_writeNode node found).trans found.symm

theorem Contained.shifted_writeNode (contained : graph.Contained) (settings : Settings ℚ) (distance : ℚ)
    {node : Node ℚ} (member : node ∈ graph.nodes) :
    Node.Shifted distance (writeNode graph.ranking (graph.ownPlacement settings) node)
      (writeNode graph.ranking (graph.ownPlacement (settings.addMargin distance)) node) := by
  have layered : graph.LayeredBy graph.ranking (graph.layering graph.ranking settings.orderingSweeps) :=
    OrderedFor.layeredBy (.inr ⟨_, rfl⟩)
  obtain ⟨box, placed⟩ := contained.wellFormed.exists_bounds graph.ranking
    (graph.layering graph.ranking settings.orderingSweeps) settings member
  have moved := contained.bounds?_addMargin settings distance layered member
  rw [placed, Option.map_some] at moved
  exact ⟨box, bounds_writeNode node placed, bounds_writeNode node moved,
    writeNode_moved graph.ranking node placed moved⟩

/-- For the diagram of a source with nodes the box around the outermost nodes is the box around all, and
it begins at the margin on both axes. A change of the margin moves every box by as much, to the right and
downward, and leaves all sizes as they are. -/
theorem layout_extent (source : String) {settings : Settings ℚ} (valid : settings.validate = .ok ())
    (inhabited : (parse source : Parsed ℚ).graph.nodes ≠ []) :
    let graph := (parse source : Parsed ℚ).graph
    (∃ whole : Bounds ℚ, (graph.layout settings).1.bounds = some whole ∧
      (graph.clearLayout.ownPlacement settings).total = some whole ∧
      whole.corner = ⟨settings.margin, settings.margin⟩) ∧
    ∀ distance : ℚ, List.Forall₂ (Node.Shifted distance) (graph.layout settings).1.nodes
      (graph.layout (settings.addMargin distance)).1.nodes := by
  have contained : (parse source : Parsed ℚ).graph.Contained := contained_parse source
  generalize (parse source : Parsed ℚ).graph = graph at contained inhabited
  have cleared : graph.clearLayout.Contained := contained.clearLayout
  constructor
  · have layered : graph.clearLayout.LayeredBy graph.clearLayout.ranking
        (graph.clearLayout.layering graph.clearLayout.ranking settings.orderingSweeps) :=
      OrderedFor.layeredBy (.inr ⟨_, rfl⟩)
    have filled : graph.clearLayout.nodes ≠ [] := by simpa [clearLayout] using inhabited
    obtain ⟨whole, roots, all, corner⟩ :=
      cleared.exists_whole layered (Settings.sound_of_validate valid) filled
    exact ⟨whole, cleared.wellFormed.bounds_writeLayout.trans roots, all, corner⟩
  · intro distance
    refine List.forall₂_map_left_iff.mpr (List.forall₂_map_right_iff.mpr (List.forall₂_same.mpr ?_))
    exact fun node member => cleared.shifted_writeNode settings distance member

/-- A diagram with two leaves in a box and one beside it, and a margin that is larger by ten. -/
theorem layout_extent_beside :
    let graph := (parse "App \x7b\nWeb [x: 1]\nDB [x: 1]\n\x7d\nWeb -> DB\nUser -> App" : Parsed ℚ).graph
    let settings : Settings ℚ := .default
    settings.validate = .ok () ∧ graph.nodes ≠ [] ∧
      (∃ whole : Bounds ℚ, (graph.layout settings).1.bounds = some whole ∧ whole.corner = ⟨50, 50⟩) ∧
      List.Forall₂ (Node.Shifted 10) (graph.layout settings).1.nodes
        (graph.layout (settings.addMargin 10)).1.nodes := by
  intro graph settings
  have valid : settings.validate = .ok () := by rfl
  have inhabited : graph.nodes ≠ [] := by decide +kernel
  obtain ⟨⟨whole, roots, -, corner⟩, shifted⟩ := layout_extent _ valid inhabited
  exact ⟨valid, inhabited, ⟨whole, roots, corner⟩, shifted 10⟩

end Graph

end BoxDiagram
