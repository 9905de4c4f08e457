import BoxDiagram.Proofs.NumberedLayers

/-!
Positions and the sorting of one numbered layer. The positions are entered layer by layer, so each member
has the position that it is listed at when no member is in two layers. A layer is sorted by the sums and
counts of the positions that its links lead to, and ends as the numbers of the layer sorted by name.
-/

namespace BoxDiagram.Numbered

open Layers

/-- Adds the position of the far end of a link to the sum for the near end, and counts it. -/
def collect? (positions : List Nat) (isUpper : Bool) (sums : Nat → Nat × Nat) (link : Nat × Nat) :
    Option (Nat → Nat × Nat) := do
  let (member, neighbour) := if isUpper then link else link.swap
  let position ← positions[neighbour]?
  some (Function.update sums member ((sums member).1 + position, (sums member).2 + 1))

def mean? (positions : List Nat) (sums : Nat → Nat × Nat) (member : Nat) : Option Float32 :=
  match sums member with
  | (_, 0) => (positions[member]?).map toSingle
  | (sum, count + 1) => some (toSingle sum / toSingle (count + 1))

def sortLayer? (grid : Grid) (layer gap : Nat) (positions : List Nat) : Option Grid := do
  let links ← grid.gaps[gap]?
  let sums ← links.foldlM (collect? positions (gap == layer)) fun _ => (0, 0)
  let entries ← grid.layers[layer]?
  let keyed ← entries.mapM fun member => (mean? positions sums member).map fun mean => (mean, member)
  let sorted := (keyed.mergeSort fun left right => left.1 ≤ right.1).map Prod.snd
  let layers ← modifyAt? grid.layers layer fun _ => sorted
  some { grid with layers }

variable {members : List String} {layers : List (List String)} {gaps : List (List (String × String))}

def position (layers : List (List String)) : String → Nat :=
  layers.foldl (fun positions layer =>
    layer.zipIdx.foldl (fun positions entry => Function.update positions entry.1 entry.2) positions)
    fun _ => 0

section Positions

theorem place?_eq (nodup : members.Nodup) {member : String} (known : member ∈ members)
    (value : String → Nat) (entered : Nat) :
    place? (members.map value) (members.idxOf member, entered) =
      some (members.map (Function.update value member entered)) := by
  have within : members.idxOf member < members.length := List.idxOf_lt_length_of_mem known
  have changed : (members.map value).modify (members.idxOf member) (fun _ => entered) =
      members.map (Function.update value member entered) := by
    apply List.ext_getElem
    · simp
    · intro number _ later
      have bound : number < members.length := by simpa using later
      rw [List.getElem_modify, List.getElem_map, List.getElem_map, Function.update_apply]
      have here : members.idxOf member = number ↔ members[number] = member := by
        constructor
        · rintro rfl
          exact List.getElem_idxOf within
        · rintro rfl
          exact nodup.idxOf_getElem number bound
      simp only [here]
  rw [place?, modifyAt?, if_pos (by rwa [List.length_map]), changed]

theorem positions?_eq (nodup : members.Nodup) (known : ∀ layer ∈ layers, layer ⊆ members) :
    positions? members.length (layers.map (·.map members.idxOf)) =
      some (members.map (position layers)) := by
  have empty : List.replicate members.length 0 = members.map fun _ => 0 := by simp
  rw [positions?, List.foldlM_map, empty]
  apply foldlM_image (fun value : String → Nat => members.map value) (fun _ => True) _ trivial
  intro value _ layer listed
  refine ⟨?_, trivial⟩
  rw [List.zipIdx_map, List.foldlM_map]
  apply foldlM_image (fun value : String → Nat => members.map value) (fun _ => True) _ trivial
  intro value _ entry member
  refine ⟨place?_eq nodup (known layer listed ?_) value entry.2, trivial⟩
  exact List.fst_mem_of_mem_zipIdx member

theorem foldl_update_of_mem {entries : List (String × Nat)} (nodup : (entries.map Prod.fst).Nodup)
    {member : String} {entered : Nat} (listed : (member, entered) ∈ entries) (start : String → Nat) :
    entries.foldl (fun positions entry => Function.update positions entry.1 entry.2) start member =
      entered := by
  induction entries using List.reverseRecOn with
  | nil => cases listed
  | append_singleton entries last ih =>
    rw [List.map_append, List.nodup_append] at nodup
    obtain ⟨earlier, -, apart⟩ := nodup
    rw [List.foldl_concat]
    rcases List.mem_append.mp listed with before | here
    · have other : member ≠ last.1 :=
        apart member (List.mem_map_of_mem before) last.1 (by simp)
      rw [Function.update_of_ne other, ih earlier before]
    · rw [← List.mem_singleton.mp here, Function.update_self]

/-- No member is in two layers, so each has the position that it is listed at. -/
theorem position_of_mem (nodup : layers.flatten.Nodup) {layer : List String} (listed : layer ∈ layers)
    {member : String} (known : member ∈ layer) : position layers member = layer.idxOf member := by
  have entries : position layers = (layers.flatMap List.zipIdx).foldl
      (fun positions entry => Function.update positions entry.1 entry.2) fun _ => 0 := by
    rw [List.foldl_flatMap]
    rfl
  have keys : (layers.flatMap List.zipIdx).map Prod.fst = layers.flatten := by
    rw [List.map_flatMap, List.flatten_eq_flatMap]
    simp [List.zipIdx_map_fst]
  rw [entries]
  apply foldl_update_of_mem (by rwa [keys])
  refine List.mem_flatMap.mpr ⟨layer, listed, ?_⟩
  rw [zipIdx_eq_map_idxOf (List.nodup_flatten.mp nodup |>.1 layer listed)]
  exact List.mem_map_of_mem known

end Positions

section Sorting

variable {value : String → Nat} {gap : List (String × String)}

def collected (members : List String) (value : String → Nat) (gap : List (String × String))
    (number : Nat) : Nat × Nat :=
  let far := (gap.filter fun link => members.idxOf link.2 = number).map fun link => value link.1
  (far.foldr (· + ·) 0, far.length)

theorem foldlM_collect (within : ∀ link ∈ gap, link.1 ∈ members) (sums : Nat → Nat × Nat) :
    (links members gap).foldlM (collect? (members.map value) false) sums =
      some fun number =>
        ((sums number).1 + (collected members value gap number).1,
          (sums number).2 + (collected members value gap number).2) := by
  induction gap generalizing sums with
  | nil => rfl
  | cons link rest ih =>
    obtain ⟨known, others⟩ := List.forall_mem_cons.mp within
    have first : collect? (members.map value) false sums (Prod.map members.idxOf members.idxOf link) =
        some (Function.update sums (members.idxOf link.2)
          ((sums (members.idxOf link.2)).1 + value link.1, (sums (members.idxOf link.2)).2 + 1)) := by
      simp [collect?, table_lookup known]
    rw [links, List.map_cons, List.foldlM_cons, first, ← links]
    refine (ih others _).trans (congrArg some ?_)
    funext number
    by_cases here : members.idxOf link.2 = number
    · subst here
      simp [collected]
      omega
    · simp [collected, here, Function.update_of_ne (Ne.symm here)]

theorem mean?_eq {passed layer : List String} (within : ∀ link ∈ gap, link.2 ∈ members)
    (far : ∀ link ∈ gap, value link.1 = passed.idxOf link.1) {member : String}
    (known : member ∈ members) (own : value member = layer.idxOf member) :
    mean? (members.map value) (collected members value gap) (members.idxOf member) =
      some (barycenter passed gap layer member) := by
  have near : (gap.filter fun link => members.idxOf link.2 = members.idxOf member) =
      gap.filter (·.2 = member) := by
    apply List.filter_congr
    intro link listed
    rw [decide_eq_decide]
    exact List.idxOf_inj (within link listed)
  have positions : (gap.filter (·.2 = member)).map (fun link => value link.1) =
      (gap.filter (·.2 = member)).map fun link => passed.idxOf link.1 :=
    List.map_congr_left fun link listed => far link (List.mem_filter.mp listed).1
  unfold mean? barycenter collected
  simp only [near, positions]
  cases (gap.filter (·.2 = member)).map fun link => passed.idxOf link.1 with
  | nil => simp [table_lookup known, own]
  | cons first rest => rfl

/-- The links of the gap that a layer is sorted by, from the layer passed to the layer that is sorted. -/
def toward (isUpper : Bool) (gap : List (String × String)) : List (String × String) :=
  if isUpper then gap.map Prod.swap else gap

theorem foldlM_collect_toward (value : String → Nat) {isUpper : Bool}
    (within : ∀ link ∈ toward isUpper gap, link.1 ∈ members) :
    (links members gap).foldlM (collect? (members.map value) isUpper) (fun _ => (0, 0)) =
      some (collected members value (toward isUpper gap)) := by
  have turned : (links members gap).foldlM (collect? (members.map value) isUpper) (fun _ => (0, 0)) =
      (links members (toward isUpper gap)).foldlM (collect? (members.map value) false)
        fun _ => (0, 0) := by
    cases isUpper with
    | false => rfl
    | true =>
      have swapped : links members (toward true gap) = (links members gap).map Prod.swap := by
        simp [links, toward]
      rw [swapped, List.foldlM_map]
      rfl
  rw [turned, foldlM_collect within]
  simp

theorem mergeSort_numbered (entries : List (Float32 × String)) (number : String → Nat) :
    ((entries.map (Prod.map id number)).mergeSort fun left right => left.1 ≤ right.1).map Prod.snd =
      ((entries.mergeSort fun left right => left.1 ≤ right.1).map Prod.snd).map number := by
  have sorted : (entries.mergeSort fun left right => left.1 ≤ right.1).map (Prod.map id number) =
      (entries.map (Prod.map id number)).mergeSort fun left right => left.1 ≤ right.1 :=
    List.map_mergeSort fun _ _ _ _ => rfl
  rw [← sorted, List.map_map, List.map_map]
  rfl

/-- Sorting a layer by numbers is sorting it by names. -/
theorem sortLayer?_eq {place gapPlace : Nat} {passed layer : List String}
    (layerAt : layers[place]? = some layer) (gapAt : gaps[gapPlace]? = some gap)
    (within : ∀ link ∈ toward (gapPlace == place) gap, link.1 ∈ passed ∧ link.2 ∈ layer)
    (passedKnown : passed ⊆ members) (layerKnown : layer ⊆ members)
    (passedValue : ∀ member ∈ passed, value member = passed.idxOf member)
    (layerValue : ∀ member ∈ layer, value member = layer.idxOf member) :
    sortLayer? (.of members layers gaps) place gapPlace (members.map value) =
      some (.of members (layers.set place (reorder passed (toward (gapPlace == place) gap) layer))
        gaps) := by
  have sums := foldlM_collect_toward value
    fun link listed => passedKnown (within link listed).1
  have keyed : (layer.map members.idxOf).mapM (fun number =>
        (mean? (members.map value) (collected members value (toward (gapPlace == place) gap)) number).map
          fun mean => (mean, number)) =
      some ((layer.map fun member =>
        (barycenter passed (toward (gapPlace == place) gap) layer member, member)).map
          (Prod.map id members.idxOf)) := by
    rw [List.mapM_map, List.map_map]
    apply mapM_eq_map
    intro member listed
    rw [Function.comp_apply, mean?_eq (fun link listed => layerKnown (within link listed).2)
      (fun link listed => passedValue _ (within link listed).1) (layerKnown listed)
      (layerValue member listed)]
    rfl
  have bound : place < layers.length := (List.getElem?_eq_some_iff.mp layerAt).1
  have changed (entries : List String) :
      modifyAt? (layers.map (·.map members.idxOf)) place (fun _ => entries.map members.idxOf) =
        some ((layers.set place entries).map (·.map members.idxOf)) := by
    rw [modifyAt?, if_pos (by rwa [List.length_map])]
    congr 1
    apply List.ext_getElem?
    intro number
    rw [List.getElem?_modify, List.getElem?_map, List.getElem?_map, List.getElem?_set]
    by_cases here : place = number
    · subst here
      simp [bound]
    · simp [here]
  unfold sortLayer?
  simp only [Grid.of, List.getElem?_map, gapAt, layerAt, Option.map_some, Option.bind_eq_bind,
    Option.bind_some, sums, keyed, mergeSort_numbered]
  rw [← reorder, changed, Option.bind_some]

end Sorting

end BoxDiagram.Numbered
