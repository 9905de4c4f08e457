import BoxDiagram.Proofs.Scopes

/-!
The draft of a placement. Laying out a scope changes the size of its container and the offsets of its
members, and nothing else; as inner scopes come first, no later scope disturbs an earlier one. In the
finished draft every scope therefore fits the sizes that the draft has in the end. The boxes follow
the draft from the outside in.
-/

namespace BoxDiagram

variable {α : Type}

namespace Draft

theorem sizeOf_setSize (draft : Draft α) (path other : String) (size : Size α) :
    (draft.setSize path size).sizeOf other = if other = path then size else draft.sizeOf other := rfl

theorem offsetOf_setOffset (draft : Draft α) (path other : String) (offset : Point α) :
    (draft.setOffset path offset).offsetOf other =
      if other = path then offset else draft.offsetOf other := rfl

variable [Scalar α]

def setOffsets (draft : Draft α) (origin : Point α) (offsets : List (String × Point α)) : Draft α :=
  offsets.foldl (fun draft (member, offset) => draft.setOffset member (origin.add offset)) draft

theorem sizeOf_setOffsets (draft : Draft α) (origin : Point α)
    (offsets : List (String × Point α)) : (draft.setOffsets origin offsets).sizeOf = draft.sizeOf := by
  induction offsets generalizing draft with
  | nil => rfl
  | cons entry rest ih => exact ih (draft.setOffset entry.1 (origin.add entry.2))

theorem offsetOf_setOffsets_other (draft : Draft α) (origin : Point α)
    {offsets : List (String × Point α)} {path : String} (other : path ∉ offsets.map Prod.fst) :
    (draft.setOffsets origin offsets).offsetOf path = draft.offsetOf path := by
  induction offsets generalizing draft with
  | nil => rfl
  | cons entry rest ih =>
    rw [List.map_cons, List.mem_cons, not_or] at other
    obtain ⟨different, later⟩ := other
    calc
      _ = (draft.setOffset entry.1 (origin.add entry.2)).offsetOf path := ih _ later
      _ = draft.offsetOf path := by rw [offsetOf_setOffset, if_neg different]

theorem offsetOf_setOffsets_of_mem (draft : Draft α) (origin : Point α)
    {offsets : List (String × Point α)} (nodup : (offsets.map Prod.fst).Nodup)
    {entry : String × Point α} (member : entry ∈ offsets) :
    (draft.setOffsets origin offsets).offsetOf entry.1 = origin.add entry.2 := by
  induction offsets generalizing draft with
  | nil => cases member
  | cons first rest ih =>
    rw [List.map_cons, List.nodup_cons] at nodup
    obtain ⟨fresh, nodup⟩ := nodup
    rcases List.mem_cons.mp member with rfl | later
    · calc
        _ = (draft.setOffset entry.1 (origin.add entry.2)).offsetOf entry.1 :=
          offsetOf_setOffsets_other _ origin fresh
        _ = origin.add entry.2 := by rw [offsetOf_setOffset, if_pos rfl]
    · exact ih _ nodup later

end Draft

namespace Placement

variable [Scalar α]

theorem placeLayer_names (settings : Settings α) (primary band secondary : α)
    (layer : SizedLayer α) :
    (placeLayer settings primary band secondary layer).map Prod.fst = layer.map Prod.fst := by
  induction layer generalizing secondary with
  | nil => rfl
  | cons entry rest ih => rw [placeLayer, List.map_cons, ih, List.map_cons]

theorem placeLayers_names (settings : Settings α) (width primary : α)
    (layers : List (SizedLayer α)) :
    (placeLayers settings width primary layers).1.map Prod.fst =
      (layers.map (·.map Prod.fst)).flatten := by
  induction layers generalizing primary with
  | nil => rfl
  | cons layer rest ih =>
    simp only [placeLayers, List.map_append, placeLayer_names, ih, List.map_cons, List.flatten_cons]

theorem placeScope_names (settings : Settings α) (sizeOf : String → Size α)
    (layers : List (List String)) :
    (placeScope settings sizeOf layers).2.map Prod.fst = layers.flatten := by
  simp only [placeScope, placeLayers_names, List.map_map]
  congr 1
  exact List.map_id'' (fun layer => by simp [Function.comp_def]) layers

theorem placeScope_congr {settings : Settings α} {first second : String → Size α}
    {layers : List (List String)} (agree : ∀ member ∈ layers.flatten, first member = second member) :
    placeScope settings first layers = placeScope settings second layers := by
  have sized : layers.map (·.map fun member => (member, settings.orientation.along (first member))) =
      layers.map (·.map fun member => (member, settings.orientation.along (second member))) := by
    apply List.map_congr_left
    intro layer listed
    apply List.map_congr_left
    intro member inLayer
    rw [agree member (List.mem_flatten.mpr ⟨layer, listed, inLayer⟩)]
  simp only [placeScope, sized]

/-- Settings that leave the same gaps and turn the points of the first ones. -/
structure Turned (turn : Point α → Point α) (first second : Settings α) : Prop where
  rankSpacing : second.rankSpacing = first.rankSpacing
  nodeSpacing : second.nodeSpacing = first.nodeSpacing
  point : ∀ primary secondary,
    second.orientation.point primary secondary = turn (first.orientation.point primary secondary)

section Turned

variable {turn : Point α → Point α} {first second : Settings α}

theorem Turned.placeLayer (turned : Turned turn first second) (primary band secondary : α)
    (layer : SizedLayer α) :
    placeLayer second primary band secondary layer =
      (placeLayer first primary band secondary layer).map (Prod.map id turn) := by
  induction layer generalizing secondary with
  | nil => rfl
  | cons entry rest ih =>
    rw [Placement.placeLayer, Placement.placeLayer, turned.point, turned.nodeSpacing, ih]
    rfl

theorem Turned.placeLayers (turned : Turned turn first second) (width primary : α)
    (layers : List (SizedLayer α)) :
    placeLayers second width primary layers =
      ((placeLayers first width primary layers).1.map (Prod.map id turn),
        (placeLayers first width primary layers).2) := by
  induction layers generalizing primary with
  | nil => rfl
  | cons layer rest ih =>
    simp only [Placement.placeLayers, turned.placeLayer, turned.nodeSpacing, turned.rankSpacing, ih,
      List.map_append]

/-- From sizes that have the same extents along the axes the same scope comes out, turned. -/
theorem Turned.placeScope (turned : Turned turn first second) (turnSize : Size α → Size α)
    (along : ∀ size, second.orientation.along size = turnSize (first.orientation.along size))
    {sizeOf other : String → Size α}
    (sizes : ∀ member, second.orientation.along (other member) = first.orientation.along (sizeOf member))
    (layers : List (List String)) :
    placeScope second other layers =
      (turnSize (placeScope first sizeOf layers).1,
        (placeScope first sizeOf layers).2.map (Prod.map id turn)) := by
  simp only [Placement.placeScope, sizes, along, turned.placeLayers, turned.nodeSpacing,
    turned.rankSpacing]

end Turned

def scopeOrigin (settings : Settings α) : Option String → Point α
  | some _ => (containerInsets settings).origin
  | none => ⟨settings.margin, settings.margin⟩

def sizeContainer (settings : Settings α) (draft : Draft α) (content : Size α) :
    Option String → Draft α
  | some container => draft.setSize container (content.pad (containerInsets settings))
  | none => draft

theorem sizeOf_sizeContainer_other (settings : Settings α) (draft : Draft α) (content : Size α)
    {container : Option String} {path : String} (other : container ≠ some path) :
    (sizeContainer settings draft content container).sizeOf path = draft.sizeOf path := by
  cases container with
  | none => rfl
  | some outer =>
    have different : path ≠ outer := fun same => other (same ▸ rfl)
    rw [sizeContainer, Draft.sizeOf_setSize, if_neg different]

theorem offsetOf_sizeContainer (settings : Settings α) (draft : Draft α) (content : Size α)
    (container : Option String) :
    (sizeContainer settings draft content container).offsetOf = draft.offsetOf := by
  cases container <;> rfl

section Scope

variable {settings : Settings α} {layering : Layering} {ranking : Ranking} {draft : Draft α}
  {scope : Scope}

theorem draftScope_eq (settings : Settings α) (layering : Layering) (ranking : Ranking)
    (draft : Draft α) (scope : Scope) :
    draftScope settings layering ranking draft scope =
      (sizeContainer settings draft
          (placeScope settings draft.sizeOf (layersOf layering ranking scope)).1
          scope.container).setOffsets (scopeOrigin settings scope.container)
        (placeScope settings draft.sizeOf (layersOf layering ranking scope)).2 := by
  obtain ⟨container, members⟩ := scope
  cases container <;> rfl

theorem sizeOf_draftScope_other {path : String} (other : scope.container ≠ some path) :
    (draftScope settings layering ranking draft scope).sizeOf path = draft.sizeOf path := by
  rw [draftScope_eq, Draft.sizeOf_setOffsets, sizeOf_sizeContainer_other settings draft _ other]

theorem sizeOf_draftScope_container {container : String} (own : scope.container = some container) :
    (draftScope settings layering ranking draft scope).sizeOf container =
      (placeScope settings draft.sizeOf (layersOf layering ranking scope)).1.pad
        (containerInsets settings) := by
  rw [draftScope_eq, Draft.sizeOf_setOffsets, own, sizeContainer, Draft.sizeOf_setSize, if_pos rfl]

theorem offsetOf_draftScope_other {path : String}
    (other : path ∉ (layersOf layering ranking scope).flatten) :
    (draftScope settings layering ranking draft scope).offsetOf path = draft.offsetOf path := by
  rw [← placeScope_names settings draft.sizeOf] at other
  rw [draftScope_eq, Draft.offsetOf_setOffsets_other _ _ other, offsetOf_sizeContainer]

theorem offsetOf_draftScope_member (nodup : (layersOf layering ranking scope).flatten.Nodup)
    {entry : String × Point α}
    (member : entry ∈ (placeScope settings draft.sizeOf (layersOf layering ranking scope)).2) :
    (draftScope settings layering ranking draft scope).offsetOf entry.1 =
      (scopeOrigin settings scope.container).add entry.2 := by
  rw [← placeScope_names settings draft.sizeOf] at nodup
  rw [draftScope_eq, Draft.offsetOf_setOffsets_of_mem _ _ nodup member]

end Scope

/-- The draft agrees with laying out a scope: its container has the size of the content and the space
around it, and its members are where the layers put them. -/
structure Fits (settings : Settings α) (layering : Layering) (ranking : Ranking) (draft : Draft α)
    (scope : Scope) : Prop where
  container : ∀ container, scope.container = some container →
    draft.sizeOf container =
      (placeScope settings draft.sizeOf (layersOf layering ranking scope)).1.pad
        (containerInsets settings)
  members : ∀ entry ∈ (placeScope settings draft.sizeOf (layersOf layering ranking scope)).2,
    draft.offsetOf entry.1 = (scopeOrigin settings scope.container).add entry.2

section Fits

variable {settings : Settings α} {layering : Layering} {ranking : Ranking} {draft : Draft α}

theorem fits_draftScope {scope : Scope}
    (perm : (layersOf layering ranking scope).flatten.Perm scope.members)
    (nodup : scope.members.Nodup) (outside : ∀ member ∈ scope.members, scope.container ≠ some member) :
    Fits settings layering ranking (draftScope settings layering ranking draft scope) scope := by
  have same : placeScope settings (draftScope settings layering ranking draft scope).sizeOf
      (layersOf layering ranking scope) =
        placeScope settings draft.sizeOf (layersOf layering ranking scope) := by
    apply placeScope_congr
    intro member listed
    exact sizeOf_draftScope_other (outside member (perm.mem_iff.mp listed))
  constructor
  · intro container own
    rw [same, sizeOf_draftScope_container own]
  · intro entry member
    rw [same] at member
    exact offsetOf_draftScope_member (perm.nodup_iff.mpr nodup) member

/-- A scope goes on to fit when a later scope is laid out. -/
theorem Fits.later {scope later : Scope} (fits : Fits settings layering ranking draft scope)
    (before : Graph.ListedBefore scope later) (disjoint : scope.members.Disjoint later.members)
    (perm : (layersOf layering ranking scope).flatten.Perm scope.members)
    (laterPerm : (layersOf layering ranking later).flatten.Perm later.members) :
    Fits settings layering ranking (draftScope settings layering ranking draft later) scope := by
  obtain ⟨different, outside⟩ := before
  have same : placeScope settings (draftScope settings layering ranking draft later).sizeOf
      (layersOf layering ranking scope) =
        placeScope settings draft.sizeOf (layersOf layering ranking scope) := by
    apply placeScope_congr
    intro member listed
    exact sizeOf_draftScope_other fun own => outside member own (perm.mem_iff.mp listed)
  constructor
  · intro container own
    rw [same, sizeOf_draftScope_other fun other => different (own.trans other.symm)]
    exact fits.container container own
  · intro entry member
    rw [same] at member
    have listed : entry.1 ∈ (layersOf layering ranking scope).flatten := by
      rw [← placeScope_names settings draft.sizeOf]
      exact List.mem_map_of_mem member
    rw [offsetOf_draftScope_other fun other =>
      disjoint (perm.mem_iff.mp listed) (laterPerm.mem_iff.mp other)]
    exact fits.members entry member

end Fits

end Placement

namespace Graph

variable {graph : Graph α} {ranking : Ranking} {layering : Layering}

def LayeredBy (graph : Graph α) (ranking : Ranking) (layering : Layering) : Prop :=
  ∀ scope ∈ graph.scopes,
    RankLayers ranking.rankOf scope.members (Placement.layersOf layering ranking scope)

theorem OrderedFor.layeredBy (ordered : graph.OrderedFor ranking layering) :
    graph.LayeredBy ranking layering :=
  fun _ => ordered.rankLayers

theorem WellFormed.disjoint_members (wellFormed : graph.WellFormed) {first second : Scope}
    (firstListed : first ∈ graph.scopes) (secondListed : second ∈ graph.scopes)
    (different : first.container ≠ second.container) : first.members.Disjoint second.members := by
  intro path firstMember secondMember
  obtain ⟨left, leftMember, leftInside, leftPath⟩ :=
    (mem_members_of_listed firstListed).mp firstMember
  obtain ⟨right, rightMember, rightInside, rightPath⟩ :=
    (mem_members_of_listed secondListed).mp secondMember
  have same := wellFormed.eq_of_path leftMember rightMember (leftPath.trans rightPath.symm)
  exact different (leftInside.symm.trans ((congrArg Node.parent same).trans rightInside))

theorem WellFormed.container_not_mem (wellFormed : graph.WellFormed) {scope : Scope}
    (listed : scope ∈ graph.scopes) : ∀ member ∈ scope.members, scope.container ≠ some member := by
  intro member found own
  obtain ⟨node, nodeMember, inside, rfl⟩ := (mem_members_of_listed listed).mp found
  rw [own] at inside
  have deeper := wellFormed.depth_inner nodeMember nodeMember inside
  omega

variable [Scalar α]

theorem WellFormed.fits_foldl (wellFormed : graph.WellFormed)
    (layered : graph.LayeredBy ranking layering) (settings : Settings α) (draft : Draft α)
    {scopes : List Scope} (known : ∀ scope ∈ scopes, scope ∈ graph.scopes)
    (ordered : scopes.Pairwise ListedBefore) :
    ∀ scope ∈ scopes, Placement.Fits settings layering ranking
      (scopes.foldl (Placement.draftScope settings layering ranking) draft) scope := by
  induction scopes using List.reverseRecOn with
  | nil => simp
  | append_singleton earlier last ih =>
    obtain ⟨earlierOrdered, -, before⟩ := List.pairwise_append.mp ordered
    have lastListed := known last (by simp)
    have lastPerm := (layered last lastListed).perm
    intro scope member
    rw [List.foldl_append, List.foldl_cons, List.foldl_nil]
    rcases List.mem_append.mp member with found | final
    · have listed := known scope member
      have apart := before scope found last (List.mem_singleton_self last)
      have fits := ih (fun scope found => known scope (List.mem_append_left _ found))
        earlierOrdered scope found
      exact fits.later apart (wellFormed.disjoint_members listed lastListed apart.1)
        (layered scope listed).perm lastPerm
    · rw [List.mem_singleton.mp final]
      refine Placement.fits_draftScope lastPerm ?_ (wellFormed.container_not_mem lastListed)
      rw [← scope_container lastListed]
      exact wellFormed.nodup_scope last.container

theorem WellFormed.fits_draft (wellFormed : graph.WellFormed)
    (layered : graph.LayeredBy ranking layering) (settings : Settings α) {scope : Scope}
    (listed : scope ∈ graph.scopes) :
    Placement.Fits settings layering ranking (Placement.draft graph ranking layering settings) scope :=
  wellFormed.fits_foldl layered settings _ (fun _ => id) wellFormed.pairwise_scopes scope listed

end Graph

namespace Placement

theorem lookup_append_of_fresh {boxes : List (String × Bounds α)} {path : String}
    (fresh : path ∉ boxes.map Prod.fst) (box : Bounds α) :
    (boxes ++ [(path, box)]).lookup path = some box := by
  rw [List.lookup_append, List.lookup_eq_none_iff.mpr]
  · simp
  · intro entry member
    have different : path ≠ entry.1 := fun same => fresh (same ▸ List.mem_map_of_mem member)
    simpa using different

theorem lookup_append_other (boxes : List (String × Bounds α)) {path last : String}
    (different : path ≠ last) (box : Bounds α) :
    (boxes ++ [(last, box)]).lookup path = boxes.lookup path := by
  have unequal : (path == last) = false := by simpa using different
  simp [List.lookup_append, List.lookup_cons, unequal]

variable [Scalar α]

def outerCorner (boxes : List (String × Bounds α)) (parent : Option String) : Point α :=
  match parent.bind (boxes.lookup ·) with
  | some outer => outer.corner
  | none => .zero

theorem outerCorner_append_other (boxes : List (String × Bounds α)) {parent : Option String}
    {last : String} (other : parent ≠ some last) (box : Bounds α) :
    outerCorner (boxes ++ [(last, box)]) parent = outerCorner boxes parent := by
  cases parent with
  | none => rfl
  | some outer =>
    have different : outer ≠ last := fun same => other (congrArg some same)
    simp only [outerCorner, Option.bind_some, lookup_append_other boxes different]

def draftBox (draft : Draft α) (path : String) : Bounds α :=
  .ofCorner (draft.offsetOf path) (draft.sizeOf path)

theorem placeNode_eq (draft : Draft α) (boxes : List (String × Bounds α)) (node : Node α) :
    placeNode draft boxes node =
      boxes ++ [(node.path, (draftBox draft node.path).translate (outerCorner boxes node.parent))] :=
  rfl

theorem placeNodes_names (draft : Draft α) (nodes : List (Node α))
    (boxes : List (String × Bounds α)) :
    (nodes.foldl (placeNode draft) boxes).map Prod.fst = boxes.map Prod.fst ++ nodes.map Node.path := by
  induction nodes generalizing boxes with
  | nil => simp
  | cons node rest ih => simp [ih, placeNode_eq]

theorem lookup_placeNodes (draft : Draft α) {nodes : List (Node α)} (declared : Declared nodes) :
    let boxes := nodes.reverse.foldl (placeNode draft) []
    ∀ node ∈ nodes, boxes.lookup node.path =
      some ((draftBox draft node.path).translate (outerCorner boxes node.parent)) := by
  induction declared with
  | nil => simp
  | @cons last earlier fresh enclosed rest ih =>
    simp only [List.reverse_cons, List.foldl_append, List.foldl_cons, List.foldl_nil, placeNode_eq]
    generalize placed : earlier.reverse.foldl (placeNode draft) [] = boxes at ih
    have names : boxes.map Prod.fst = (earlier.map Node.path).reverse := by
      rw [← placed, placeNodes_names, List.map_nil, List.nil_append, List.map_reverse]
    have unplaced : last.path ∉ boxes.map Prod.fst := by
      rw [names, List.mem_reverse]
      intro again
      obtain ⟨other, member, same⟩ := List.mem_map.mp again
      exact fresh other member same
    -- The node around a node is placed before it, so what is placed last is not around any.
    have onward : ∀ outer, (∃ other ∈ earlier, other.path = outer) → outer ≠ last.path := by
      rintro _ ⟨other, member, rfl⟩
      exact fresh other member
    intro node member
    rcases List.mem_cons.mp member with rfl | found
    · rw [lookup_append_of_fresh unplaced, outerCorner_append_other]
      intro own
      exact onward _ (enclosed _ own) rfl
    · rw [lookup_append_other boxes (fresh node found), outerCorner_append_other]
      · exact ih node found
      · intro own
        exact onward _ (rest.parent_mem found own) rfl

end Placement

/-- The box of a node is its box in the draft, moved to the corner of the node around it. -/
theorem Graph.WellFormed.bounds?_placement [Scalar α] {graph : Graph α} (wellFormed : graph.WellFormed)
    (ranking : Ranking) (layering : Layering) (settings : Settings α) {node : Node α}
    (member : node ∈ graph.nodes) :
    (graph.placement ranking layering settings).bounds? node.path =
      some ((Placement.draftBox (Placement.draft graph ranking layering settings) node.path).translate
        (Placement.outerCorner (graph.placement ranking layering settings).boxes node.parent)) := by
  have placed := Placement.lookup_placeNodes
    (Placement.draft graph ranking layering settings) wellFormed.declared
  rw [List.reverse_reverse] at placed
  exact placed node (List.mem_reverse.mpr member)

end BoxDiagram
