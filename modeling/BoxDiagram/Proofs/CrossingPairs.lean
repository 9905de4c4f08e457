import BoxDiagram.Proofs.Scopes
import Mathlib.Algebra.BigOperators.Fin

/-!
Crossings told by pairs of edges. Two edges cross when they run between the same two neighbouring layers
and their upper ends stand in the opposite order to their lower ends, whichever way the edges lead. No
edge runs between two pairs of layers, so the counts of the gaps add up to the number of pairs that cross.
-/

namespace BoxDiagram.Layers

def CrossBetween (upper lower : List String) (first second : String × String) : Prop :=
  ∃ left ∈ [first, first.swap], ∃ right ∈ [second, second.swap],
    [left.1, right.1].Sublist upper ∧ [right.2, left.2].Sublist lower ∨
      [right.1, left.1].Sublist upper ∧ [left.2, right.2].Sublist lower

def CrossIn (layers : List (List String)) (first second : String × String) : Prop :=
  ∃ neighbours ∈ layers.zip layers.tail, CrossBetween neighbours.1 neighbours.2 first second

instance (upper lower : List String) : DecidableRel (CrossBetween upper lower) :=
  fun first second => inferInstanceAs (Decidable (∃ left ∈ [first, first.swap],
    ∃ right ∈ [second, second.swap],
      [left.1, right.1].Sublist upper ∧ [right.2, left.2].Sublist lower ∨
        [right.1, left.1].Sublist upper ∧ [left.2, right.2].Sublist lower))

instance (layers : List (List String)) : DecidableRel (CrossIn layers) :=
  fun first second => inferInstanceAs (Decidable (∃ neighbours ∈ layers.zip layers.tail,
    CrossBetween neighbours.1 neighbours.2 first second))

/-- The number of pairs of edges that cross, each pair taken once. -/
def pairsCrossing (edges : List (String × String)) (layers : List (List String)) : Nat :=
  (Finset.univ.filter fun pair : Fin edges.length × Fin edges.length =>
    pair.1 < pair.2 ∧ CrossIn layers edges[pair.1] edges[pair.2]).card

section Pairs

variable {β : Type}

def pairCount (related : β → β → Prop) [DecidableRel related] : List β → Nat
  | [] => 0
  | first :: rest => rest.countP (related first ·) + pairCount related rest

theorem countP_eq_sum (test : β → Bool) (items : List β) :
    items.countP test = ∑ place : Fin items.length, if test items[place] then 1 else 0 := by
  have listed : items.countP test = (items.map fun item => if test item then 1 else 0).sum := by
    induction items with
    | nil => rfl
    | cons first rest ih => rw [List.countP_cons, List.map_cons, List.sum_cons, ih, Nat.add_comm]
  exact listed.trans (Fin.sum_univ_fun_getElem items _).symm

variable (related : β → β → Prop) [DecidableRel related]

theorem pairCount_eq_card (items : List β) :
    pairCount related items =
      (Finset.univ.filter fun pair : Fin items.length × Fin items.length =>
        pair.1 < pair.2 ∧ related items[pair.1] items[pair.2]).card := by
  rw [Finset.card_filter, Fintype.sum_prod_type]
  induction items with
  | nil => rfl
  | cons first rest ih =>
    -- pairs with the first item, then pairs of later ones
    rw [pairCount, ih, countP_eq_sum]
    refine Eq.trans ?_ (Fin.sum_univ_succ (n := rest.length) _).symm
    congr 1
    · refine Eq.trans ?_ (Fin.sum_univ_succ (n := rest.length) _).symm
      simp
    · apply Finset.sum_congr rfl
      intro place _
      refine Eq.trans ?_ (Fin.sum_univ_succ (n := rest.length) _).symm
      simp

variable {related} {first second : β → β → Prop} [DecidableRel first] [DecidableRel second]

theorem pairCount_congr (same : ∀ left right, first left right ↔ second left right) (items : List β) :
    pairCount first items = pairCount second items := by
  induction items with
  | nil => rfl
  | cons item rest ih => simp only [pairCount, ih, same]

theorem pairCount_eq_zero (never : ∀ left right, ¬related left right) (items : List β) :
    pairCount related items = 0 := by
  induction items with
  | nil => rfl
  | cons item rest ih => simp [pairCount, ih, never]

theorem countP_or {left right : β → Prop} [DecidablePred left] [DecidablePred right]
    (apart : ∀ item, left item → ¬right item) (items : List β) :
    items.countP (fun item => left item ∨ right item) =
      items.countP (left ·) + items.countP (right ·) := by
  induction items with
  | nil => rfl
  | cons item rest ih =>
    have other := apart item
    by_cases left item <;> by_cases right item <;> simp_all <;> omega

theorem pairCount_or (apart : ∀ left right, first left right → ¬second left right) (items : List β) :
    pairCount (fun left right => first left right ∨ second left right) items =
      pairCount first items + pairCount second items := by
  induction items with
  | nil => rfl
  | cons item rest ih =>
    rw [pairCount, pairCount, pairCount, ih, countP_or (apart item)]
    omega

/-- The crossings of the items that have a place are counted over all items. -/
theorem crossingPairs_filterMap (place? : β → Option (Nat × Nat)) (items : List β) :
    crossingPairs (items.filterMap place?) =
      pairCount (fun left right => ∃ first ∈ place? left, ∃ second ∈ place? right,
        cross first second = true) items := by
  induction items with
  | nil => rfl
  | cons item rest ih =>
    rw [List.filterMap_cons, pairCount, ← ih]
    cases placed : place? item with
    | none => simp
    | some first =>
      rw [crossingPairs, List.countP_filterMap]
      congr 2
      funext other
      cases place? other <;> simp

end Pairs

section Gap

variable {upper lower : List String}

def link? (upper lower : List String) (edge : String × String) : Option (String × String) :=
  if edge.1 ∈ upper ∧ edge.2 ∈ lower then some edge
  else if edge.2 ∈ upper ∧ edge.1 ∈ lower then some edge.swap else none

theorem gap_eq (edges : List (String × String)) (upper lower : List String) :
    gap edges upper lower = edges.filterMap (link? upper lower) := by
  unfold gap link?
  simp only [Bool.and_eq_true, List.contains_iff_mem]
  rfl

theorem link?_eq_some_iff (apart : upper.Disjoint lower) {edge link : String × String} :
    link? upper lower edge = some link ↔
      link ∈ [edge, edge.swap] ∧ link.1 ∈ upper ∧ link.2 ∈ lower := by
  obtain ⟨source, target⟩ := edge
  obtain ⟨top, bottom⟩ := link
  unfold link?
  grind [List.Disjoint]

def ends (upper lower : List String) (link : String × String) : Nat × Nat :=
  (upper.idxOf link.1, lower.idxOf link.2)

theorem pair_sublist_iff {layer : List String} (nodup : layer.Nodup) {left right : String} :
    [left, right].Sublist layer ↔
      left ∈ layer ∧ right ∈ layer ∧ layer.idxOf left < layer.idxOf right := by
  induction layer with
  | nil => simp
  | cons first rest ih =>
    obtain ⟨fresh, nodup⟩ := List.nodup_cons.mp nodup
    rw [List.cons_sublist_cons']
    grind

theorem crossBetween_iff (upperNodup : upper.Nodup) (lowerNodup : lower.Nodup)
    (apart : upper.Disjoint lower) {first second : String × String} :
    CrossBetween upper lower first second ↔
      ∃ left ∈ link? upper lower first, ∃ right ∈ link? upper lower second,
        cross (ends upper lower left) (ends upper lower right) = true := by
  simp only [CrossBetween, Option.mem_def, link?_eq_some_iff apart, pair_sublist_iff upperNodup,
    pair_sublist_iff lowerNodup, cross, ends, Bool.or_eq_true, Bool.and_eq_true]
  grind

/-- The crossings in a gap are those of all edges, whether they run through the gap or not. -/
theorem gapCrossings_gap (upperNodup : upper.Nodup) (lowerNodup : lower.Nodup)
    (apart : upper.Disjoint lower) (edges : List (String × String)) :
    gapCrossings upper lower (gap edges upper lower) =
      pairCount (CrossBetween upper lower) edges := by
  have placed : (gap edges upper lower).map (ends upper lower) =
      edges.filterMap fun edge => (link? upper lower edge).map (ends upper lower) := by
    rw [gap_eq, List.map_filterMap]
  calc
    gapCrossings upper lower (gap edges upper lower)
      = crossingPairs ((gap edges upper lower).map (ends upper lower)) := rfl
    _ = pairCount (CrossBetween upper lower) edges := by
      rw [placed, crossingPairs_filterMap]
      apply pairCount_congr
      intro first second
      rw [crossBetween_iff upperNodup lowerNodup apart]
      simp [-Prod.exists]

end Gap

section Layered

variable {upper lower : List String} {rest layers : List (List String)} {first second : String × String}

theorem crossIn_cons_cons : CrossIn (upper :: lower :: rest) first second ↔
    CrossBetween upper lower first second ∨ CrossIn (lower :: rest) first second := by
  simp [CrossIn]

theorem CrossBetween.exists_link (cross : CrossBetween upper lower first second) :
    ∃ link ∈ [first, first.swap], link.1 ∈ upper ∧ link.2 ∈ lower := by
  obtain ⟨left, turned, right, -, ordered⟩ := cross
  refine ⟨left, turned, ?_⟩
  rcases ordered with ⟨above, below⟩ | ⟨above, below⟩
  all_goals exact ⟨above.subset (by simp), below.subset (by simp)⟩

theorem CrossIn.mem_flatten (cross : CrossIn layers first second) :
    first.1 ∈ layers.flatten ∧ first.2 ∈ layers.flatten := by
  obtain ⟨⟨upper, lower⟩, neighbours, cross⟩ := cross
  obtain ⟨link, turned, above, below⟩ := cross.exists_link
  obtain ⟨upperListed, lowerListed⟩ := List.of_mem_zip neighbours
  have top := List.mem_flatten.mpr ⟨upper, upperListed, above⟩
  have bottom := List.mem_flatten.mpr ⟨lower, List.mem_of_mem_tail lowerListed, below⟩
  rcases List.mem_pair.mp turned with rfl | rfl
  · exact ⟨top, bottom⟩
  · exact ⟨bottom, top⟩

theorem countCrossings_gaps (edges : List (String × String)) (nodup : layers.flatten.Nodup) :
    countCrossings layers (gaps edges layers) = pairsCrossing edges layers := by
  rw [pairsCrossing, ← pairCount_eq_card]
  induction layers with
  | nil => exact (pairCount_eq_zero (by simp [CrossIn]) edges).symm
  | cons upper rest ih =>
    cases rest with
    | nil => exact (pairCount_eq_zero (by simp [CrossIn]) edges).symm
    | cons lower rest =>
      obtain ⟨upperNodup, behindNodup, apart⟩ := List.nodup_append.mp nodup
      have lowerNodup : lower.Nodup := (List.nodup_append.mp behindNodup).1
      have disjoint : upper.Disjoint (lower :: rest).flatten :=
        fun path above below => apart path above path below rfl
      have once : ∀ first second, CrossBetween upper lower first second →
          ¬CrossIn (lower :: rest) first second := by
        intro first second above below
        obtain ⟨source, target⟩ := below.mem_flatten
        obtain ⟨link, turned, inside, -⟩ := above.exists_link
        rcases List.mem_pair.mp turned with rfl | rfl
        · exact disjoint inside source
        · exact disjoint inside target
      calc
        countCrossings (upper :: lower :: rest) (gaps edges (upper :: lower :: rest))
          = gapCrossings upper lower (gap edges upper lower) +
              countCrossings (lower :: rest) (gaps edges (lower :: rest)) := rfl
        _ = pairCount (CrossBetween upper lower) edges + pairCount (CrossIn (lower :: rest)) edges := by
          rw [ih behindNodup, gapCrossings_gap upperNodup lowerNodup
            (List.disjoint_of_subset_right (List.subset_append_left ..) disjoint)]
        _ = pairCount (CrossIn (upper :: lower :: rest)) edges := by
          rw [← pairCount_or once]
          exact pairCount_congr (fun first second => crossIn_cons_cons.symm) edges

theorem gap_perm (edges : List (String × String)) {upper upper' lower lower' : List String}
    (above : upper.Perm upper') (below : lower.Perm lower') :
    gap edges upper lower = gap edges upper' lower' := by
  rw [gap_eq, gap_eq]
  congr 1
  funext edge
  simp only [link?, above.mem_iff, below.mem_iff]

/-- The gaps stay the same when the order within layers changes. -/
theorem gaps_rearranged (edges : List (String × String)) {next : List (List String)}
    (same : Rearranged layers next) : gaps edges layers = gaps edges next := by
  induction same with
  | nil => rfl
  | cons above rest ih =>
    cases rest with
    | nil => rfl
    | cons below rest => rw [gaps, gaps, gap_perm edges above below, ih]

end Layered

end BoxDiagram.Layers
