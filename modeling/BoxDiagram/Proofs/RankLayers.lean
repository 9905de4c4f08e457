import BoxDiagram.Placement
import BoxDiagram.Proofs.LongestChain
import Mathlib.Data.List.Forall2
import Mathlib.Data.List.Perm.Basic

/-!
The layers of a scope. Whether they come from sweeps or from the ranks alone, they part the members
of the scope by rank, in increasing order; sweeps only change the order within layers. Grouping by
insertion gives the same layers as going through the ranks.
-/

namespace BoxDiagram

open Ranking

structure RankLayers (rankOf : String → Nat) (members : List String) (layers : List (List String)) :
    Prop where
  perm : layers.flatten.Perm members
  inhabited : ∀ layer ∈ layers, layer ≠ []
  level : ∀ layer ∈ layers, ∀ first ∈ layer, ∀ second ∈ layer, rankOf first = rankOf second
  increasing : layers.Pairwise fun upper lower =>
    ∀ first ∈ upper, ∀ second ∈ lower, rankOf first < rankOf second

namespace Layers

variable {rankOf : String → Nat} {members : List String}

def group (rankOf : String → Nat) (members : List String) (rank : Nat) : Option (Nat × List String) :=
  if members.filter (rankOf · = rank) = [] then none
  else some (rank, members.filter (rankOf · = rank))

def groups (rankOf : String → Nat) (members : List String) (ranks : List Nat) :
    List (Nat × List String) :=
  ranks.filterMap (group rankOf members)

theorem group_eq_some_iff {rank other : Nat} {layer : List String} :
    group rankOf members rank = some (other, layer) ↔
      other = rank ∧ layer = members.filter (rankOf · = rank) ∧ layer ≠ [] := by
  unfold group
  split <;> grind

theorem mem_groups_iff {ranks : List Nat} {rank : Nat} {layer : List String} :
    (rank, layer) ∈ groups rankOf members ranks ↔
      rank ∈ ranks ∧ layer = members.filter (rankOf · = rank) ∧ layer ≠ [] := by
  simp only [groups, List.mem_filterMap, group_eq_some_iff]
  constructor
  · rintro ⟨other, member, rfl, found⟩
    exact ⟨member, found⟩
  · rintro ⟨member, found⟩
    exact ⟨rank, member, rfl, found⟩

theorem byRank_eq (rankOf : String → Nat) (members : List String) :
    byRank rankOf members =
      (groups rankOf members (List.range ((members.map rankOf).foldl max 0 + 1))).map Prod.snd := by
  unfold byRank groups
  rw [List.map_filterMap]
  congr 1
  funext rank
  cases layer : members.filter (rankOf · = rank) <;> simp [group, layer]

theorem flatten_groups (ranks : List Nat) :
    ((groups rankOf members ranks).map Prod.snd).flatten =
      ranks.flatMap fun rank => members.filter (rankOf · = rank) := by
  induction ranks with
  | nil => rfl
  | cons rank rest ih =>
    rw [List.flatMap_cons, ← ih, groups, List.filterMap_cons, ← groups]
    cases layer : members.filter (rankOf · = rank) <;> simp [group, layer]

theorem flatMap_filter_perm (rankOf : String → Nat) (members : List String) (bound : Nat) :
    ((List.range bound).flatMap fun rank => members.filter (rankOf · = rank)).Perm
      (members.filter (rankOf · < bound)) := by
  induction bound with
  | zero => simp
  | succ bound ih =>
    rw [List.range_succ, List.flatMap_append, List.flatMap_singleton]
    have parts := List.filter_append_perm (fun member => decide (rankOf member < bound))
      (members.filter (rankOf · < bound + 1))
    rw [List.filter_filter, List.filter_filter] at parts
    refine ((ih.append_right _).trans (List.Perm.of_eq ?_)).trans parts
    congr 1 <;> apply List.filter_congr <;> intro member _ <;> grind

theorem rank_lt_bound {member : String} (known : member ∈ members) :
    rankOf member < (members.map rankOf).foldl max 0 + 1 :=
  Nat.lt_succ_of_le (le_foldl_max_of_mem (List.mem_map_of_mem known) 0)

theorem pairwise_groups {ranks : List Nat} (increasing : ranks.Pairwise (· < ·)) :
    (groups rankOf members ranks).Pairwise fun left right => left.1 < right.1 := by
  apply List.Pairwise.filterMap _ _ increasing
  intro first second lower left leftFound right rightFound
  obtain ⟨leftRank, leftLayer⟩ := left
  obtain ⟨rightRank, rightLayer⟩ := right
  obtain ⟨rfl, -⟩ := group_eq_some_iff.mp leftFound
  obtain ⟨rfl, -⟩ := group_eq_some_iff.mp rightFound
  exact lower

theorem rankLayers_byRank (rankOf : String → Nat) (members : List String) :
    RankLayers rankOf members (byRank rankOf members) := by
  rw [byRank_eq]
  have layerOf : ∀ entry ∈ groups rankOf members
      (List.range ((members.map rankOf).foldl max 0 + 1)),
      entry.2 = members.filter (rankOf · = entry.1) ∧ entry.2 ≠ [] :=
    fun entry member => (mem_groups_iff.mp member).2
  have rankIn : ∀ entry ∈ groups rankOf members
      (List.range ((members.map rankOf).foldl max 0 + 1)),
      ∀ member ∈ entry.2, rankOf member = entry.1 := by
    intro entry found member known
    rw [(layerOf entry found).1, List.mem_filter] at known
    exact of_decide_eq_true known.2
  constructor
  case perm =>
    rw [flatten_groups]
    refine (flatMap_filter_perm rankOf members _).trans (List.Perm.of_eq ?_)
    exact List.filter_eq_self.mpr fun member known => decide_eq_true (rank_lt_bound known)
  case inhabited =>
    intro layer found
    obtain ⟨entry, member, rfl⟩ := List.mem_map.mp found
    exact (layerOf entry member).2
  case level =>
    intro layer found first firstKnown second secondKnown
    obtain ⟨entry, member, rfl⟩ := List.mem_map.mp found
    rw [rankIn entry member first firstKnown, rankIn entry member second secondKnown]
  case increasing =>
    rw [List.pairwise_map]
    refine (pairwise_groups List.pairwise_lt_range).imp_of_mem ?_
    intro upper lower upperMember lowerMember less first firstKnown second secondKnown
    rw [rankIn upper upperMember first firstKnown, rankIn lower lowerMember second secondKnown]
    exact less

theorem group_append_of_ne {member : String} {rank : Nat} (other : rankOf member ≠ rank) :
    group rankOf (members ++ [member]) rank = group rankOf members rank := by
  simp [group, List.filter_append, other]

theorem group_append_self (member : String) :
    group rankOf (members ++ [member]) (rankOf member) =
      some (rankOf member, members.filter (rankOf · = rankOf member) ++ [member]) := by
  simp [group, List.filter_append]

theorem groups_append_of_not_mem {member : String} {ranks : List Nat}
    (absent : rankOf member ∉ ranks) :
    groups rankOf (members ++ [member]) ranks = groups rankOf members ranks := by
  apply List.filterMap_congr
  intro rank known
  exact group_append_of_ne fun same => absent (same ▸ known)

theorem insertByRank_of_lt {rank : Nat} {member : String} {entries : List (Nat × List String)}
    (lowest : ∀ entry ∈ entries, rank < entry.1) :
    Placement.insertByRank rank member entries = (rank, [member]) :: entries := by
  cases entries with
  | nil => rfl
  | cons entry rest => simp [Placement.insertByRank, lowest entry List.mem_cons_self]

theorem insertByRank_groups {member : String} {ranks : List Nat}
    (increasing : ranks.Pairwise (· < ·)) (known : rankOf member ∈ ranks) :
    Placement.insertByRank (rankOf member) member (groups rankOf members ranks) =
      groups rankOf (members ++ [member]) ranks := by
  induction ranks with
  | nil => cases known
  | cons rank rest ih =>
    obtain ⟨lowest, restIncreasing⟩ := List.pairwise_cons.mp increasing
    by_cases same : rankOf member = rank
    · have absent : rankOf member ∉ rest := fun again =>
        absurd (lowest _ again) (by omega)
      have above : ∀ entry ∈ groups rankOf members rest, rankOf member < entry.1 := by
        intro entry found
        rw [same]
        exact lowest entry.1 (mem_groups_iff.mp found).1
      rw [groups, groups, List.filterMap_cons, List.filterMap_cons, ← groups, ← groups,
        groups_append_of_not_mem absent, ← same, group_append_self]
      cases layer : members.filter (rankOf · = rankOf member) with
      | nil => simpa [group, layer] using insertByRank_of_lt above
      | cons first others => simp [group, layer, Placement.insertByRank]
    · have later : rankOf member ∈ rest := (List.mem_cons.mp known).resolve_left same
      have below : rank < rankOf member := lowest _ later
      rw [groups, groups, List.filterMap_cons, List.filterMap_cons, ← groups, ← groups,
        group_append_of_ne same, ← ih restIncreasing later]
      cases layer : members.filter (rankOf · = rank) with
      | nil => simp [group, layer]
      | cons first others =>
        have behind : ¬ rankOf member < rank := by omega
        simp [group, layer, Placement.insertByRank, same, behind]

theorem foldl_insertByRank_groups (members added : List String) {ranks : List Nat}
    (increasing : ranks.Pairwise (· < ·)) (known : ∀ member ∈ added, rankOf member ∈ ranks) :
    added.foldl (fun groups member => Placement.insertByRank (rankOf member) member groups)
        (groups rankOf members ranks) =
      groups rankOf (members ++ added) ranks := by
  induction added generalizing members with
  | nil => simp
  | cons member rest ih =>
    rw [List.foldl_cons, insertByRank_groups increasing (known member List.mem_cons_self),
      ih _ fun other later => known other (List.mem_cons_of_mem _ later), List.append_assoc,
      List.singleton_append]

/-- Grouping by insertion gives the first layers of a scope. -/
theorem groupByRank_eq_byRank (rankOf : String → Nat) (members : List String) :
    Placement.groupByRank rankOf members = byRank rankOf members := by
  have empty : groups rankOf [] (List.range ((members.map rankOf).foldl max 0 + 1)) = [] := by
    simp [groups, group]
  have ranked : ∀ member ∈ members,
      rankOf member ∈ List.range ((members.map rankOf).foldl max 0 + 1) :=
    fun _ known => List.mem_range.mpr (rank_lt_bound known)
  have inserted := foldl_insertByRank_groups [] members List.pairwise_lt_range ranked
  rw [empty, List.nil_append] at inserted
  rw [byRank_eq, ← inserted]
  rfl

end Layers

def Rearranged : List (List String) → List (List String) → Prop :=
  List.Forall₂ List.Perm

namespace Rearranged

theorem refl (layers : List (List String)) : Rearranged layers layers :=
  List.forall₂_same.mpr fun layer _ => List.Perm.refl layer

theorem trans {first second third : List (List String)} (left : Rearranged first second)
    (right : Rearranged second third) : Rearranged first third := by
  induction left generalizing third with
  | nil => exact right
  | cons same _ ih =>
    cases right with
    | cons onward rest => exact .cons (same.trans onward) (ih rest)

theorem reverse {before after : List (List String)} (same : Rearranged before after) :
    Rearranged before.reverse after.reverse :=
  List.forall₂_reverse_iff.mpr same

theorem exists_before {before after : List (List String)} (same : Rearranged before after) :
    ∀ layer ∈ after, ∃ old ∈ before, old.Perm layer := by
  induction same with
  | nil => simp
  | cons first _ ih =>
    intro layer found
    rcases List.mem_cons.mp found with rfl | later
    · exact ⟨_, List.mem_cons_self, first⟩
    · obtain ⟨old, member, perm⟩ := ih layer later
      exact ⟨old, List.mem_cons_of_mem _ member, perm⟩

theorem better {start next : List (List String)} {best : Layers} {crossings : Nat}
    (nextSame : Rearranged start next) (bestSame : Rearranged start best.layers) :
    Rearranged start (if crossings < best.crossings then ⟨next, crossings⟩ else best).layers := by
  split
  · exact nextSame
  · exact bestSame

end Rearranged

theorem RankLayers.rearrange {rankOf : String → Nat} {members : List String}
    {before after : List (List String)} (layers : RankLayers rankOf members before)
    (same : Rearranged before after) : RankLayers rankOf members after := by
  constructor
  case perm => exact (List.Perm.flatten_congr same).symm.trans layers.perm
  case inhabited =>
    intro layer found empty
    obtain ⟨old, member, perm⟩ := same.exists_before layer found
    rw [empty, List.perm_nil] at perm
    exact layers.inhabited old member perm
  case level =>
    intro layer found first firstKnown second secondKnown
    obtain ⟨old, member, perm⟩ := same.exists_before layer found
    exact layers.level old member first (perm.mem_iff.mpr firstKnown) second
      (perm.mem_iff.mpr secondKnown)
  case increasing =>
    have increasing := layers.increasing
    clear layers
    induction same with
    | nil => exact .nil
    | cons head rest ih =>
      obtain ⟨below, others⟩ := List.pairwise_cons.mp increasing
      refine .cons ?_ (ih others)
      intro lower found first firstKnown second secondKnown
      obtain ⟨old, member, perm⟩ := Rearranged.exists_before rest lower found
      exact below old member first (head.mem_iff.mpr firstKnown) second
        (perm.mem_iff.mpr secondKnown)

namespace Layers

theorem reorder_perm (passed : List String) (links : List (String × String)) (layer : List String) :
    (reorder passed links layer).Perm layer := by
  unfold reorder
  refine ((List.mergeSort_perm _ _).map Prod.snd).trans (List.Perm.of_eq ?_)
  rw [List.map_map]
  exact List.map_id layer

theorem rearranged_sweepDown (layers : List (List String))
    (gaps : List (List (String × String))) : Rearranged layers (sweepDown layers gaps) := by
  fun_induction sweepDown layers gaps with
  | case1 passed layer rest links gaps ih =>
    refine .cons (List.Perm.refl passed) (Rearranged.trans ?_ ih)
    exact .cons (reorder_perm passed links layer).symm (Rearranged.refl rest)
  | case2 => exact Rearranged.refl _

theorem rearranged_sweepUp (layers : List (List String)) (gaps : List (List (String × String))) :
    Rearranged layers (sweepUp layers gaps) := by
  have swept := (rearranged_sweepDown layers.reverse (gaps.reverse.map (·.map Prod.swap))).reverse
  rwa [List.reverse_reverse] at swept

theorem rearranged_improve {gaps : List (List (String × String))} {start : List (List String)}
    (sweeps : Nat) (isDown : Bool) {current : List (List String)} {best : Layers}
    (currentSame : Rearranged start current) (bestSame : Rearranged start best.layers) :
    Rearranged start (improve gaps sweeps isDown current best).layers := by
  induction sweeps generalizing isDown current best with
  | zero => exact bestSame
  | succ sweeps ih =>
    unfold improve
    split
    next settled => exact bestSame
    next crossing =>
      have nextSame : Rearranged start
          (if isDown then sweepDown current gaps else sweepUp current gaps) := by
        split
        · exact currentSame.trans (rearranged_sweepDown current gaps)
        · exact currentSame.trans (rearranged_sweepUp current gaps)
      exact ih (!isDown) nextSame (nextSame.better bestSame)

/-- The layers of a scope after any number of sweeps part its members by rank. -/
theorem rankLayers_ofMembers (rankOf : String → Nat) (members : List String)
    (edges : List (String × String)) (sweeps : Nat) :
    RankLayers rankOf members (ofMembers rankOf members edges sweeps).layers :=
  (rankLayers_byRank rankOf members).rearrange
    (rearranged_improve sweeps true (Rearranged.refl _) (Rearranged.refl _))

end Layers

end BoxDiagram
