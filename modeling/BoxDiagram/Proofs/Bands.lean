import BoxDiagram.Proofs.Exact

/-!
One scope over exact numbers. Each layer lies in a band of its own along the primary axis, bands are
a rank gap apart, and within a band the members are a node gap apart. The content of the scope is the
hull of its members: the widest member of the first and of the last band touch its ends, and so do the
outer members of the longest layer.
-/

namespace BoxDiagram.Placement

/-- The boxes of the members of a layer, the primary axis taken as `x`. -/
def layerSlots (spacing primary band : ℚ) : ℚ → SizedLayer ℚ → List (String × Bounds ℚ)
  | _, [] => []
  | secondary, (member, extent) :: rest =>
    (member, .ofCorner ⟨primary + (band - extent.width) / 2, secondary⟩ extent) ::
      layerSlots spacing primary band (secondary + (extent.height + spacing)) rest

def slots (settings : Settings ℚ) (width : ℚ) : ℚ → List (SizedLayer ℚ) →
    List (List (String × Bounds ℚ))
  | _, [] => []
  | primary, layer :: rest =>
    layerSlots settings.nodeSpacing primary (thickness layer)
        ((width - length settings.nodeSpacing layer) / 2) layer ::
      slots settings width (primary + (thickness layer + settings.rankSpacing)) rest

def reach (spacing : ℚ) (layer : SizedLayer ℚ) : ℚ := (layer.map (·.2.height + spacing)).sum

def extent (settings : Settings ℚ) (layers : List (SizedLayer ℚ)) : ℚ :=
  (layers.map fun layer => thickness layer + settings.rankSpacing).sum

def Unsigned (layer : SizedLayer ℚ) : Prop := ∀ entry ∈ layer, 0 ≤ entry.2.width ∧ 0 ≤ entry.2.height

theorem Unsigned.tail {entry : String × Size ℚ} {rest : SizedLayer ℚ}
    (unsigned : Unsigned (entry :: rest)) : Unsigned rest :=
  fun other later => unsigned other (List.mem_cons_of_mem _ later)

def offsetOf (settings : Settings ℚ) (slot : String × Bounds ℚ) : String × Point ℚ :=
  (slot.1, settings.orientation.point slot.2.minX slot.2.minY)

theorem placeLayer_eq (settings : Settings ℚ) (primary band secondary : ℚ) (layer : SizedLayer ℚ) :
    placeLayer settings primary band secondary layer =
      (layerSlots settings.nodeSpacing primary band secondary layer).map (offsetOf settings) := by
  induction layer generalizing secondary with
  | nil => rfl
  | cons entry rest ih =>
    rw [placeLayer, ih]
    rfl

theorem extent_cons (settings : Settings ℚ) (layer : SizedLayer ℚ) (rest : List (SizedLayer ℚ)) :
    extent settings (layer :: rest) =
      thickness layer + settings.rankSpacing + extent settings rest := by
  simp [extent]

theorem placeLayers_eq (settings : Settings ℚ) (width primary : ℚ) (layers : List (SizedLayer ℚ)) :
    placeLayers settings width primary layers =
      ((slots settings width primary layers).flatten.map (offsetOf settings),
        primary + extent settings layers) := by
  induction layers generalizing primary with
  | nil => simp [placeLayers, slots, extent]
  | cons layer rest ih =>
    have stop : primary + extent settings (layer :: rest) =
        primary + (thickness layer + settings.rankSpacing) + extent settings rest := by
      rw [extent_cons]
      ring
    simp only [placeLayers, ih, placeLayer_eq, slots, stop, List.flatten_cons, List.map_append,
      Scalar.half_rat]

theorem layerSlots_names (spacing primary band secondary : ℚ) (layer : SizedLayer ℚ) :
    (layerSlots spacing primary band secondary layer).map Prod.fst = layer.map Prod.fst := by
  induction layer generalizing secondary with
  | nil => rfl
  | cons entry rest ih => rw [layerSlots, List.map_cons, ih, List.map_cons]

theorem slots_names (settings : Settings ℚ) (width primary : ℚ) (layers : List (SizedLayer ℚ)) :
    (slots settings width primary layers).map (·.map Prod.fst) = layers.map (·.map Prod.fst) := by
  induction layers generalizing primary with
  | nil => rfl
  | cons layer rest ih => rw [slots, List.map_cons, ih, layerSlots_names, List.map_cons]

section Layer

variable {spacing primary band secondary : ℚ} {layer : SizedLayer ℚ}

theorem reach_cons (spacing : ℚ) (entry : String × Size ℚ) (rest : SizedLayer ℚ) :
    reach spacing (entry :: rest) = entry.2.height + spacing + reach spacing rest := by
  simp [reach]

theorem reach_nonneg (gap : 0 ≤ spacing) (unsigned : Unsigned layer) : 0 ≤ reach spacing layer := by
  induction layer with
  | nil => simp [reach]
  | cons entry rest ih =>
    have first := (unsigned entry List.mem_cons_self).2
    have others := ih unsigned.tail
    rw [reach_cons]
    linarith

theorem length_eq (inhabited : layer ≠ []) : length spacing layer = reach spacing layer - spacing := by
  induction layer with
  | nil => exact absurd rfl inhabited
  | cons entry rest ih =>
    rw [reach_cons]
    cases rest with
    | nil => simp [length, reach, Scalar.sum_rat]
    | cons next others =>
      have onward := ih (by simp)
      simp only [length, Scalar.sum_rat, List.map_cons, List.sum_cons, List.length_cons,
        Nat.add_sub_cancel, Scalar.ofNat_rat] at onward ⊢
      push_cast
      linarith

theorem mem_layerSlots {slot : String × Bounds ℚ}
    (found : slot ∈ layerSlots spacing primary band secondary layer) :
    ∃ entry ∈ layer, slot.1 = entry.1 ∧
      slot.2 = .ofCorner ⟨primary + (band - entry.2.width) / 2, slot.2.minY⟩ entry.2 := by
  induction layer generalizing secondary with
  | nil => cases found
  | cons entry rest ih =>
    rw [layerSlots] at found
    rcases List.mem_cons.mp found with rfl | later
    · exact ⟨entry, List.mem_cons_self, rfl, rfl⟩
    · obtain ⟨other, member, same⟩ := ih later
      exact ⟨other, List.mem_cons_of_mem _ member, same⟩

theorem layerSlots_primary (wide : ∀ entry ∈ layer, entry.2.width ≤ band) {slot : String × Bounds ℚ}
    (found : slot ∈ layerSlots spacing primary band secondary layer) :
    primary ≤ slot.2.minX ∧ slot.2.maxX ≤ primary + band := by
  obtain ⟨entry, member, -, box⟩ := mem_layerSlots found
  have width := wide entry member
  rw [box]
  simp only [Bounds.ofCorner]
  constructor <;> linarith

theorem layerSlots_secondary (gap : 0 ≤ spacing) (unsigned : Unsigned layer)
    {slot : String × Bounds ℚ} (found : slot ∈ layerSlots spacing primary band secondary layer) :
    secondary ≤ slot.2.minY ∧ slot.2.maxY + spacing ≤ secondary + reach spacing layer := by
  induction layer generalizing secondary with
  | nil => cases found
  | cons entry rest ih =>
    have first := (unsigned entry List.mem_cons_self).2
    have others := reach_nonneg gap unsigned.tail
    rw [layerSlots] at found
    rw [reach_cons]
    rcases List.mem_cons.mp found with rfl | later
    · simp only [Bounds.ofCorner]
      constructor <;> linarith
    · obtain ⟨low, high⟩ := ih unsigned.tail later
      constructor <;> linarith

theorem pairwise_layerSlots (gap : 0 ≤ spacing) (unsigned : Unsigned layer) :
    (layerSlots spacing primary band secondary layer).Pairwise fun left right =>
      left.2.maxY + spacing ≤ right.2.minY := by
  induction layer generalizing secondary with
  | nil => exact .nil
  | cons entry rest ih =>
    refine .cons ?_ (ih unsigned.tail)
    intro slot later
    have low := (layerSlots_secondary gap unsigned.tail later).1
    simp only [Bounds.ofCorner]
    linarith

theorem exists_first_slot (inhabited : layer ≠ []) :
    ∃ slot ∈ layerSlots spacing primary band secondary layer, slot.2.minY = secondary := by
  cases layer with
  | nil => exact absurd rfl inhabited
  | cons entry rest => exact ⟨_, List.mem_cons_self, rfl⟩

theorem exists_last_slot (inhabited : layer ≠ []) :
    ∃ slot ∈ layerSlots spacing primary band secondary layer,
      slot.2.maxY + spacing = secondary + reach spacing layer := by
  induction layer generalizing secondary with
  | nil => exact absurd rfl inhabited
  | cons entry rest ih =>
    rw [reach_cons]
    by_cases last : rest = []
    · refine ⟨_, List.mem_cons_self, ?_⟩
      simp only [Bounds.ofCorner, last, reach, List.map_nil, List.sum_nil]
      ring
    · obtain ⟨slot, later, touches⟩ := @ih (secondary + (entry.2.height + spacing)) last
      refine ⟨slot, List.mem_cons_of_mem _ later, ?_⟩
      linarith

theorem width_le_thickness {entry : String × Size ℚ} (member : entry ∈ layer) :
    entry.2.width ≤ thickness layer :=
  Scalar.le_largest (List.mem_map.mpr ⟨entry, member, rfl⟩)

theorem exists_widest (inhabited : layer ≠ []) (unsigned : Unsigned layer) :
    ∃ entry ∈ layer, entry.2.width = thickness layer := by
  apply List.mem_map.mp (Scalar.largest_mem (by simpa using inhabited) _)
  intro width found
  obtain ⟨entry, member, rfl⟩ := List.mem_map.mp found
  exact (unsigned entry member).1

theorem mem_layer_slots {entry : String × Size ℚ} (member : entry ∈ layer) :
    ∃ slot ∈ layerSlots spacing primary band secondary layer,
      slot.2.minX = primary + (band - entry.2.width) / 2 ∧
        slot.2.maxX = slot.2.minX + entry.2.width := by
  induction layer generalizing secondary with
  | nil => cases member
  | cons first rest ih =>
    rcases List.mem_cons.mp member with rfl | later
    · exact ⟨_, List.mem_cons_self, rfl, rfl⟩
    · obtain ⟨slot, found, same⟩ := @ih (secondary + (first.2.height + spacing)) later
      exact ⟨slot, List.mem_cons_of_mem _ found, same⟩

end Layer

section Layers

variable {settings : Settings ℚ} {width primary : ℚ} {layers : List (SizedLayer ℚ)}

theorem thickness_nonneg (layer : SizedLayer ℚ) : 0 ≤ thickness layer := Scalar.largest_nonneg _

theorem extent_nonneg (sound : settings.Sound) (layers : List (SizedLayer ℚ)) :
    0 ≤ extent settings layers := by
  have gap := sound.rankSpacing
  induction layers with
  | nil => simp [extent]
  | cons layer rest ih =>
    have first := thickness_nonneg layer
    rw [extent_cons]
    linarith

/-- Each layer has a band of its own in what the layers take up. -/
theorem mem_slots (sound : settings.Sound) {row : List (String × Bounds ℚ)}
    (found : row ∈ slots settings width primary layers) :
    ∃ layer ∈ layers, ∃ start, primary ≤ start ∧
      start + (thickness layer + settings.rankSpacing) ≤ primary + extent settings layers ∧
      row = layerSlots settings.nodeSpacing start (thickness layer)
        ((width - length settings.nodeSpacing layer) / 2) layer := by
  have gap := sound.rankSpacing
  induction layers generalizing primary with
  | nil => cases found
  | cons layer rest ih =>
    have first := thickness_nonneg layer
    have others := extent_nonneg sound rest
    rw [slots] at found
    rw [extent_cons]
    rcases List.mem_cons.mp found with rfl | later
    · exact ⟨layer, List.mem_cons_self, primary, le_refl primary, by linarith, rfl⟩
    · obtain ⟨other, member, start, low, high, same⟩ := ih later
      exact ⟨other, List.mem_cons_of_mem _ member, start, by linarith, by linarith, same⟩

theorem exists_row {layer : SizedLayer ℚ} (member : layer ∈ layers) :
    ∃ start, layerSlots settings.nodeSpacing start (thickness layer)
      ((width - length settings.nodeSpacing layer) / 2) layer ∈
        slots settings width primary layers := by
  induction layers generalizing primary with
  | nil => cases member
  | cons first rest ih =>
    rw [slots]
    rcases List.mem_cons.mp member with rfl | later
    · exact ⟨primary, List.mem_cons_self⟩
    · obtain ⟨start, found⟩ :=
        @ih (primary + (thickness first + settings.rankSpacing)) later
      exact ⟨start, List.mem_cons_of_mem _ found⟩

theorem row_primary {layer : SizedLayer ℚ} {spacing start secondary : ℚ}
    {slot : String × Bounds ℚ}
    (found : slot ∈ layerSlots spacing start (thickness layer) secondary layer) :
    start ≤ slot.2.minX ∧ slot.2.maxX ≤ start + thickness layer :=
  layerSlots_primary (fun _ member => width_le_thickness member) found

/-- Every member of a later layer begins a rank gap behind the end of all of an earlier one. -/
theorem pairwise_slots (sound : settings.Sound) :
    (slots settings width primary layers).Pairwise fun earlier later =>
      ∀ first ∈ earlier, ∀ second ∈ later,
        first.2.maxX + settings.rankSpacing ≤ second.2.minX := by
  induction layers generalizing primary with
  | nil => exact .nil
  | cons layer rest ih =>
    refine .cons ?_ ih
    intro row later first firstFound second secondFound
    have before := (row_primary firstFound).2
    obtain ⟨other, -, start, low, -, rfl⟩ := mem_slots sound later
    have behind := (row_primary secondFound).1
    linarith

def Proper (layers : List (SizedLayer ℚ)) : Prop := ∀ layer ∈ layers, layer ≠ [] ∧ Unsigned layer

theorem Proper.tail {layer : SizedLayer ℚ} {rest : List (SizedLayer ℚ)}
    (proper : Proper (layer :: rest)) : Proper rest :=
  fun other later => proper other (List.mem_cons_of_mem _ later)

theorem length_nonneg {spacing : ℚ} {layer : SizedLayer ℚ} (gap : 0 ≤ spacing)
    (inhabited : layer ≠ []) (unsigned : Unsigned layer) : 0 ≤ length spacing layer := by
  rw [length_eq inhabited]
  cases layer with
  | nil => exact absurd rfl inhabited
  | cons entry rest =>
    have first := (unsigned entry List.mem_cons_self).2
    have others := reach_nonneg gap unsigned.tail
    rw [reach_cons]
    linarith

theorem touches_first {layer : SizedLayer ℚ} {spacing start secondary : ℚ} (inhabited : layer ≠ [])
    (unsigned : Unsigned layer) :
    ∃ slot ∈ layerSlots spacing start (thickness layer) secondary layer,
      slot.2.minX = start ∧ slot.2.maxX = start + thickness layer := by
  obtain ⟨entry, member, widest⟩ := exists_widest inhabited unsigned
  obtain ⟨slot, found, left, right⟩ :=
    @mem_layer_slots spacing start (thickness layer) secondary layer entry member
  rw [widest, sub_self, zero_div, add_zero] at left
  exact ⟨slot, found, left, by rw [right, left, widest]⟩

theorem touches_last (proper : Proper layers) (filled : layers ≠ []) :
    ∃ slot ∈ (slots settings width primary layers).flatten,
      slot.2.maxX + settings.rankSpacing = primary + extent settings layers := by
  induction layers generalizing primary with
  | nil => exact absurd rfl filled
  | cons layer rest ih =>
    rw [slots, List.flatten_cons, extent_cons]
    by_cases last : rest = []
    · obtain ⟨inhabited, unsigned⟩ := proper layer List.mem_cons_self
      obtain ⟨slot, found, -, right⟩ := touches_first inhabited unsigned
      refine ⟨slot, List.mem_append_left _ found, ?_⟩
      simp only [last, extent, List.map_nil, List.sum_nil, right]
      ring
    · obtain ⟨slot, found, touches⟩ :=
        @ih (primary + (thickness layer + settings.rankSpacing)) proper.tail last
      refine ⟨slot, List.mem_append_right _ found, ?_⟩
      linarith

/-- The members of layers fill what the layers take up, on all four sides. -/
theorem isHull_slots (sound : settings.Sound) (proper : Proper layers) (filled : layers ≠ [])
    (longest : width = Scalar.largest (layers.map (length settings.nodeSpacing))) :
    Bounds.IsHull ⟨primary, 0, primary + extent settings layers - settings.rankSpacing, width⟩
      ((slots settings width primary layers).flatten.map Prod.snd) := by
  have gap := sound.nodeSpacing
  have widest : ∃ layer ∈ layers, length settings.nodeSpacing layer = width := by
    rw [longest]
    apply List.mem_map.mp (Scalar.largest_mem (by simpa using filled) _)
    intro value found
    obtain ⟨layer, member, rfl⟩ := List.mem_map.mp found
    exact length_nonneg gap (proper layer member).1 (proper layer member).2
  obtain ⟨layer, member, full⟩ := widest
  obtain ⟨inhabited, unsigned⟩ := proper layer member
  obtain ⟨start, row⟩ := @exists_row settings width primary layers layer member
  rw [full, sub_self, zero_div] at row
  constructor
  · intro box found
    obtain ⟨slot, listed, rfl⟩ := List.mem_map.mp found
    obtain ⟨other, mine, inRow⟩ := List.mem_flatten.mp listed
    obtain ⟨layer, member, start, low, high, rfl⟩ := mem_slots sound mine
    obtain ⟨inhabited, unsigned⟩ := proper layer member
    have across := row_primary inRow
    have along := layerSlots_secondary gap unsigned inRow
    have short : length settings.nodeSpacing layer ≤ width := by
      rw [longest]
      exact Scalar.le_largest (List.mem_map_of_mem member)
    rw [length_eq inhabited] at along short
    constructor <;> simp only <;> linarith
  · cases layers with
    | nil => exact absurd rfl filled
    | cons first rest =>
      obtain ⟨inhabited, unsigned⟩ := proper first List.mem_cons_self
      obtain ⟨slot, found, touches, -⟩ := touches_first inhabited unsigned
      exact ⟨slot.2, List.mem_map_of_mem (List.mem_flatten.mpr ⟨_, List.mem_cons_self, found⟩), touches⟩
  · obtain ⟨slot, found, touches⟩ := exists_first_slot inhabited
    exact ⟨slot.2, List.mem_map_of_mem (List.mem_flatten.mpr ⟨_, row, found⟩), touches⟩
  · obtain ⟨slot, found, touches⟩ := touches_last proper filled
    exact ⟨slot.2, List.mem_map_of_mem found, by simp only; linarith⟩
  · obtain ⟨slot, found, touches⟩ := exists_last_slot inhabited
    rw [length_eq inhabited] at full
    exact ⟨slot.2, List.mem_map_of_mem (List.mem_flatten.mpr ⟨_, row, found⟩), by simp only; linarith⟩

end Layers

end BoxDiagram.Placement
