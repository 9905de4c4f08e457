import BoxDiagram.Placement
import Mathlib.Algebra.BigOperators.Group.List.Basic
import Mathlib.Algebra.Order.Field.Rat
import Mathlib.Data.List.Induction
import Mathlib.Tactic.Linarith
import Mathlib.Tactic.Ring

/-!
Geometry over exact numbers. All definitions of coordinates are read over the rationals here; the
box that `mergeAll` gives is the one that encloses the others and is touched on every side.
-/

namespace BoxDiagram

instance : Scalar ℚ where
  ofNat := Nat.cast
  larger := max
  smaller := min
  isFinite _ := true
  decidableLT := inferInstance
  decidableLE := inferInstance

namespace Scalar

@[simp] theorem ofNat_rat (count : Nat) : (ofNat count : ℚ) = count := rfl

@[simp] theorem larger_rat (left right : ℚ) : larger left right = max left right := rfl

@[simp] theorem half_rat (value : ℚ) : half value = value / 2 := rfl

theorem foldl_add (values : List ℚ) (start : ℚ) :
    values.foldl (· + ·) start = start + values.sum := by
  induction values generalizing start with
  | nil => simp
  | cons first rest ih => rw [List.foldl_cons, ih, List.sum_cons, add_assoc]

theorem sum_rat (values : List ℚ) : sum values = values.sum := by
  cases values with
  | nil => rfl
  | cons first rest => exact (foldl_add rest first).trans List.sum_cons.symm

theorem largest_append (values : List ℚ) (last : ℚ) :
    largest (values ++ [last]) = max (largest values) last := by
  simp [largest]

theorem largest_nonneg (values : List ℚ) : 0 ≤ largest values := by
  induction values using List.reverseRecOn with
  | nil => exact le_refl 0
  | append_singleton values last ih =>
    rw [largest_append]
    exact le_max_of_le_left ih

theorem le_largest {values : List ℚ} {value : ℚ} (member : value ∈ values) :
    value ≤ largest values := by
  induction values using List.reverseRecOn with
  | nil => cases member
  | append_singleton values last ih =>
    rw [largest_append]
    rcases List.mem_append.mp member with earlier | final
    · exact le_max_of_le_left (ih earlier)
    · rw [List.mem_singleton.mp final]
      exact le_max_right _ _

theorem largest_mem {values : List ℚ} (inhabited : values ≠ [])
    (nonneg : ∀ value ∈ values, 0 ≤ value) : largest values ∈ values := by
  induction values using List.reverseRecOn with
  | nil => exact absurd rfl inhabited
  | append_singleton values last ih =>
    rw [largest_append]
    by_cases empty : values = []
    · have least : 0 ≤ last := nonneg last (by simp)
      simp [empty, largest, least]
    · have earlier := ih empty fun value member => nonneg value (List.mem_append_left _ member)
      rcases max_choice (largest values) last with same | same
      · rw [same]
        exact List.mem_append_left _ earlier
      · rw [same]
        exact List.mem_append_right _ (List.mem_singleton_self last)

end Scalar

namespace Bounds

theorem ext {first second : Bounds ℚ} (minX : first.minX = second.minX)
    (minY : first.minY = second.minY) (maxX : first.maxX = second.maxX)
    (maxY : first.maxY = second.maxY) : first = second := by
  cases first; cases second; simp_all

structure Encloses (outer inner : Bounds ℚ) : Prop where
  minX : outer.minX ≤ inner.minX
  minY : outer.minY ≤ inner.minY
  maxX : inner.maxX ≤ outer.maxX
  maxY : inner.maxY ≤ outer.maxY

theorem Encloses.refl (box : Bounds ℚ) : box.Encloses box :=
  ⟨le_refl _, le_refl _, le_refl _, le_refl _⟩

theorem Encloses.trans {first second third : Bounds ℚ} (left : first.Encloses second)
    (right : second.Encloses third) : first.Encloses third :=
  ⟨left.minX.trans right.minX, left.minY.trans right.minY, right.maxX.trans left.maxX,
    right.maxY.trans left.maxY⟩

theorem intersects_of_encloses {first second outer other : Bounds ℚ}
    (firstIn : outer.Encloses first) (secondIn : other.Encloses second)
    (apart : outer.intersects other = false) : first.intersects second = false := by
  simp only [intersects, Bool.and_eq_false_iff, decide_eq_false_iff_not, not_lt] at apart ⊢
  obtain ⟨_, _, _, _⟩ := firstIn
  obtain ⟨_, _, _, _⟩ := secondIn
  rcases apart with ((left | right) | above) | below
  · exact .inl (.inl (.inl (by linarith)))
  · exact .inl (.inl (.inr (by linarith)))
  · exact .inl (.inr (by linarith))
  · exact .inr (by linarith)

/-- The smallest rectangle around some boxes: it encloses them and each side touches one. -/
structure IsHull (whole : Bounds ℚ) (boxes : List (Bounds ℚ)) : Prop where
  encloses : ∀ box ∈ boxes, whole.Encloses box
  minX : ∃ box ∈ boxes, box.minX = whole.minX
  minY : ∃ box ∈ boxes, box.minY = whole.minY
  maxX : ∃ box ∈ boxes, box.maxX = whole.maxX
  maxY : ∃ box ∈ boxes, box.maxY = whole.maxY

theorem foldl_merge_encloses (boxes : List (Bounds ℚ)) (start : Bounds ℚ) :
    ∀ box ∈ start :: boxes, (boxes.foldl merge start).Encloses box := by
  induction boxes generalizing start with
  | nil =>
    intro box member
    rw [List.mem_singleton.mp member]
    exact .refl start
  | cons next rest ih =>
    intro box member
    rw [List.foldl_cons]
    have merged := ih (start.merge next) (start.merge next) List.mem_cons_self
    have first : (start.merge next).Encloses start :=
      ⟨min_le_left _ _, min_le_left _ _, le_max_left _ _, le_max_left _ _⟩
    have second : (start.merge next).Encloses next :=
      ⟨min_le_right _ _, min_le_right _ _, le_max_right _ _, le_max_right _ _⟩
    rcases List.mem_cons.mp member with rfl | later
    · exact merged.trans first
    · rcases List.mem_cons.mp later with rfl | last
      · exact merged.trans second
      · exact ih (start.merge next) box (List.mem_cons_of_mem _ last)

theorem encloses_foldl_merge {whole : Bounds ℚ} (boxes : List (Bounds ℚ)) (start : Bounds ℚ)
    (encloses : ∀ box ∈ start :: boxes, whole.Encloses box) :
    whole.Encloses (boxes.foldl merge start) := by
  induction boxes generalizing start with
  | nil => exact encloses start List.mem_cons_self
  | cons next rest ih =>
    rw [List.foldl_cons]
    apply ih
    intro box member
    rcases List.mem_cons.mp member with rfl | later
    · have first := encloses start List.mem_cons_self
      have second := encloses next (List.mem_cons_of_mem _ List.mem_cons_self)
      exact ⟨le_min first.minX second.minX, le_min first.minY second.minY,
        max_le first.maxX second.maxX, max_le first.maxY second.maxY⟩
    · exact encloses box (List.mem_cons_of_mem _ (List.mem_cons_of_mem _ later))

theorem IsHull.mergeAll {whole : Bounds ℚ} {boxes : List (Bounds ℚ)} (hull : whole.IsHull boxes) :
    Bounds.mergeAll boxes = some whole := by
  obtain ⟨encloses, minX, minY, maxX, maxY⟩ := hull
  cases boxes with
  | nil => simp at minX
  | cons start rest =>
    have outer := encloses_foldl_merge rest start encloses
    have inner := foldl_merge_encloses rest start
    rw [Bounds.mergeAll, Option.some.injEq]
    obtain ⟨left, leftMember, leftTouches⟩ := minX
    obtain ⟨top, topMember, topTouches⟩ := minY
    obtain ⟨right, rightMember, rightTouches⟩ := maxX
    obtain ⟨bottom, bottomMember, bottomTouches⟩ := maxY
    apply ext
    · exact le_antisymm (leftTouches ▸ (inner left leftMember).minX) outer.minX
    · exact le_antisymm (topTouches ▸ (inner top topMember).minY) outer.minY
    · exact le_antisymm outer.maxX (rightTouches ▸ (inner right rightMember).maxX)
    · exact le_antisymm outer.maxY (bottomTouches ▸ (inner bottom bottomMember).maxY)

theorem IsHull.congr {whole : Bounds ℚ} {boxes others : List (Bounds ℚ)}
    (hull : whole.IsHull boxes) (same : ∀ box, box ∈ boxes ↔ box ∈ others) : whole.IsHull others := by
  obtain ⟨encloses, minX, minY, maxX, maxY⟩ := hull
  constructor <;> simpa only [← same]

theorem Encloses.translate {outer inner : Bounds ℚ} (encloses : outer.Encloses inner)
    (offset : Point ℚ) : (outer.translate offset).Encloses (inner.translate offset) := by
  obtain ⟨minX, minY, maxX, maxY⟩ := encloses
  constructor <;> simpa [Bounds.translate]

theorem IsHull.translate {whole : Bounds ℚ} {boxes : List (Bounds ℚ)} (hull : whole.IsHull boxes)
    (offset : Point ℚ) : (whole.translate offset).IsHull (boxes.map (·.translate offset)) := by
  obtain ⟨encloses, minX, minY, maxX, maxY⟩ := hull
  constructor
  · intro moved found
    obtain ⟨box, member, rfl⟩ := List.mem_map.mp found
    exact (encloses box member).translate offset
  all_goals simpa [Bounds.translate]

theorem IsHull.transpose {whole : Bounds ℚ} {boxes : List (Bounds ℚ)} (hull : whole.IsHull boxes) :
    whole.transpose.IsHull (boxes.map transpose) := by
  obtain ⟨encloses, minX, minY, maxX, maxY⟩ := hull
  constructor
  · intro turned found
    obtain ⟨box, member, rfl⟩ := List.mem_map.mp found
    obtain ⟨minX, minY, maxX, maxY⟩ := encloses box member
    exact ⟨minY, minX, maxY, maxX⟩
  all_goals simpa [Bounds.transpose]

theorem ofCorner_pad (corner : Point ℚ) (content : Size ℚ) (insets : Insets ℚ) :
    ofCorner corner (content.pad insets) =
      ((ofCorner .zero content).translate (insets.origin.add corner)).grow insets := by
  apply ext <;>
    simp only [ofCorner, Size.pad, Insets.horizontal, Insets.vertical, Insets.origin, Point.add,
      Point.zero, Bounds.translate, Bounds.grow, Scalar.ofNat_rat, Nat.cast_zero] <;>
    ring

theorem encloses_grow (box : Bounds ℚ) {insets : Insets ℚ} (top : 0 ≤ insets.top)
    (right : 0 ≤ insets.right) (bottom : 0 ≤ insets.bottom) (left : 0 ≤ insets.left) :
    (box.grow insets).Encloses box := by
  constructor <;> simpa [Bounds.grow]

theorem translate_translate (box : Bounds ℚ) (first second : Point ℚ) :
    (box.translate first).translate second = box.translate (first.add second) := by
  apply ext <;> simp only [Bounds.translate, Point.add] <;> ring

theorem ofCorner_add (first second : Point ℚ) (size : Size ℚ) :
    ofCorner (first.add second) size = (ofCorner second size).translate first := by
  apply ext <;> simp only [ofCorner, Bounds.translate, Point.add] <;> ring

end Bounds

namespace Orientation

/-- The rectangle with the primary axis as `x`; also the way back. -/
def turn (orientation : Orientation) (box : Bounds ℚ) : Bounds ℚ :=
  match orientation with
  | .leftToRight => box
  | .topToBottom => box.transpose

@[simp] theorem turn_turn (orientation : Orientation) (box : Bounds ℚ) :
    orientation.turn (orientation.turn box) = box := by
  cases orientation <;> rfl

theorem turn_translate (orientation : Orientation) (box : Bounds ℚ) (offset : Point ℚ) :
    orientation.turn (box.translate offset) =
      (orientation.turn box).translate (orientation.point offset.x offset.y) := by
  cases orientation <;> rfl

theorem turn_ofCorner (orientation : Orientation) (primary secondary : ℚ) (size : Size ℚ) :
    orientation.turn (.ofCorner ⟨primary, secondary⟩ (orientation.along size)) =
      .ofCorner (orientation.point primary secondary) size := by
  cases orientation <;> rfl

theorem along_along (orientation : Orientation) (size : Size ℚ) :
    orientation.along (orientation.along size) = size := by
  cases orientation <;> rfl

theorem isHull_turn (orientation : Orientation) {whole : Bounds ℚ} {boxes : List (Bounds ℚ)}
    (hull : whole.IsHull boxes) : (orientation.turn whole).IsHull (boxes.map orientation.turn) := by
  cases orientation with
  | leftToRight => exact (List.map_id boxes).symm ▸ hull
  | topToBottom => exact hull.transpose

/-- The second rectangle begins at least a gap behind the end of the first along the primary axis. -/
def SpacedAlong (orientation : Orientation) (gap : ℚ) (first second : Bounds ℚ) : Prop :=
  (orientation.turn first).maxX + gap ≤ (orientation.turn second).minX

def SpacedAcross (orientation : Orientation) (gap : ℚ) (first second : Bounds ℚ) : Prop :=
  (orientation.turn first).maxY + gap ≤ (orientation.turn second).minY ∨
    (orientation.turn second).maxY + gap ≤ (orientation.turn first).minY

theorem spacedAlong_moved (orientation : Orientation) (gap : ℚ) (first second : Bounds ℚ)
    (offset : Point ℚ) :
    orientation.SpacedAlong gap ((orientation.turn first).translate offset)
      ((orientation.turn second).translate offset) ↔ first.maxX + gap ≤ second.minX := by
  simp only [SpacedAlong, turn_translate, turn_turn]
  simp only [Bounds.translate, add_right_comm _ _ gap, add_le_add_iff_right]

theorem spacedAcross_moved (orientation : Orientation) (gap : ℚ) (first second : Bounds ℚ)
    (offset : Point ℚ) :
    orientation.SpacedAcross gap ((orientation.turn first).translate offset)
      ((orientation.turn second).translate offset) ↔
        first.maxY + gap ≤ second.minY ∨ second.maxY + gap ≤ first.minY := by
  simp only [SpacedAcross, turn_translate, turn_turn]
  simp only [Bounds.translate, add_right_comm _ _ gap, add_le_add_iff_right]

theorem SpacedAlong.intersects {orientation : Orientation} {gap : ℚ} {first second : Bounds ℚ}
    (spaced : orientation.SpacedAlong gap first second) (nonneg : 0 ≤ gap) :
    first.intersects second = false ∧ second.intersects first = false := by
  unfold SpacedAlong at spaced
  cases orientation <;>
    simp only [turn, Bounds.transpose] at spaced <;>
    simp only [Bounds.intersects, Bool.and_eq_false_iff, decide_eq_false_iff_not, not_lt] <;>
    grind

theorem SpacedAcross.intersects {orientation : Orientation} {gap : ℚ} {first second : Bounds ℚ}
    (spaced : orientation.SpacedAcross gap first second) (nonneg : 0 ≤ gap) :
    first.intersects second = false := by
  unfold SpacedAcross at spaced
  cases orientation <;>
    simp only [turn, Bounds.transpose] at spaced <;>
    simp only [Bounds.intersects, Bool.and_eq_false_iff, decide_eq_false_iff_not, not_lt] <;>
    grind

end Orientation

/-- Settings that a layout accepts: no length is negative and every size is positive. -/
structure Settings.Sound (settings : Settings ℚ) : Prop where
  rankSpacing : 0 ≤ settings.rankSpacing
  nodeSpacing : 0 ≤ settings.nodeSpacing
  containerPadding : 0 ≤ settings.containerPadding
  containerHeader : 0 ≤ settings.containerHeader
  margin : 0 ≤ settings.margin
  leafWidth : 0 < settings.leafSize.width
  leafHeight : 0 < settings.leafSize.height
  containerWidth : 0 < settings.containerSize.width
  containerHeight : 0 < settings.containerSize.height

theorem Settings.sound_of_validate {settings : Settings ℚ} (valid : settings.validate = .ok ()) :
    settings.Sound := by
  unfold validate at valid
  split at valid
  next => cases valid
  next accepted =>
    unfold fault? at accepted
    split at accepted
    next => cases accepted
    next lengths =>
      rw [Option.map_eq_none_iff] at accepted
      have nonneg : 0 ≤ settings.rankSpacing ∧ 0 ≤ settings.nodeSpacing ∧
          0 ≤ settings.containerPadding ∧ 0 ≤ settings.containerHeader ∧ 0 ≤ settings.margin := by
        simpa [Settings.lengths, isLength, Scalar.isFinite] using List.find?_eq_none.mp lengths
      have positive : (0 < settings.leafSize.width ∧ 0 < settings.leafSize.height) ∧
          0 < settings.containerSize.width ∧ 0 < settings.containerSize.height := by
        simpa [sizes, isSide, Scalar.isFinite] using List.find?_eq_none.mp accepted
      obtain ⟨rankSpacing, nodeSpacing, containerPadding, containerHeader, margin⟩ := nonneg
      obtain ⟨⟨leafWidth, leafHeight⟩, containerWidth, containerHeight⟩ := positive
      constructor <;> assumption

end BoxDiagram
