import BoxDiagram.Proofs.Scopes
import Mathlib.Data.Finset.Sort
import Mathlib.Data.List.InsertIdx

/-!
Members grouped by rank as it is done in place. A placement without an ordering looks for the group of a
member by halving the groups so far, and an ordering has one layer for each rank that occurs and puts
each member at the end of the layer of its rank. Both give the layers of the ranks in their order, so a
placement by an ordering that was not swept is the one without an ordering.
-/

namespace BoxDiagram

open Ranking

namespace Placement

/-- Looks for a key among keys that increase, between two places: the place of the key, or else the place
where it belongs. -/
def search (keys : List Nat) (key low high : Nat) (inside : high ≤ keys.length) : Except Nat Nat :=
  if between : low < high then
    let middle := low + (high - low) / 2
    if keys[middle] = key then .ok middle
    else if keys[middle] < key then search keys key (middle + 1) high inside
    else search keys key low middle (by omega)
  else .error low
termination_by high - low

/-- Puts a member at the end of the group of its rank, or makes a group for it where it belongs. -/
def insertBySearch (rank : Nat) (member : String) (groups : List (Nat × List String)) :
    List (Nat × List String) :=
  match search (groups.map Prod.fst) rank 0 (groups.map Prod.fst).length (Nat.le_refl _) with
  | .ok place => groups.modify place fun (other, group) => (other, group ++ [member])
  | .error place => groups.insertIdx place (rank, [member])

def groupBySearch (rankOf : String → Nat) (members : List String) : List (List String) :=
  (members.foldl (fun groups member => insertBySearch (rankOf member) member groups) []).map Prod.snd

section Search

variable {keys : List Nat} {key : Nat}

theorem lt_of_mem_take (increasing : keys.Pairwise (· < ·)) {middle : Nat}
    (known : middle < keys.length) (below : keys[middle] < key) :
    ∀ other ∈ keys.take (middle + 1), other < key := by
  intro other member
  obtain ⟨index, within, rfl⟩ := List.mem_take_iff_getElem.mp member
  have bound : index ≤ middle := by omega
  rcases Nat.lt_or_eq_of_le bound with earlier | rfl
  · have less := List.pairwise_iff_getElem.mp increasing index middle (by omega) known earlier
    omega
  · exact below

theorem lt_of_mem_drop (increasing : keys.Pairwise (· < ·)) {middle : Nat}
    (known : middle < keys.length) (above : key < keys[middle]) :
    ∀ other ∈ keys.drop middle, key < other := by
  intro other member
  obtain ⟨offset, within, rfl⟩ := List.mem_drop_iff_getElem.mp member
  cases offset with
  | zero => exact above
  | succ offset =>
    have less := List.pairwise_iff_getElem.mp increasing middle (middle + (offset + 1)) known
      (by omega) (by omega)
    omega

/-- What is found: the key behind lesser ones, or else a place between lesser and greater ones. -/
def Finds (keys : List Nat) (key : Nat) : Except Nat Nat → Prop
  | .ok place => ∃ lower upper, keys = lower ++ key :: upper ∧ lower.length = place ∧
      ∀ other ∈ lower, other < key
  | .error place => ∃ lower upper, keys = lower ++ upper ∧ lower.length = place ∧
      (∀ other ∈ lower, other < key) ∧ ∀ other ∈ upper, key < other

/-- The keys in front of the two places are less and those behind them are greater, all the way. -/
theorem finds_searchFrom (increasing : keys.Pairwise (· < ·)) {low high : Nat}
    (inside : high ≤ keys.length) (ordered : low ≤ high)
    (before : ∀ other ∈ keys.take low, other < key)
    (behind : ∀ other ∈ keys.drop high, key < other) :
    Finds keys key (search keys key low high inside) := by
  fun_induction search keys key low high inside with
  | case1 low high inside between middle here =>
    have known : middle < keys.length := by omega
    refine ⟨keys.take middle, keys.drop (middle + 1), ?_, by simp; omega, ?_⟩
    · rw [← here, List.cons_getElem_drop_succ, List.take_append_drop]
    · intro other member
      obtain ⟨index, within, rfl⟩ := List.mem_take_iff_getElem.mp member
      have less := List.pairwise_iff_getElem.mp increasing index middle (by omega) known (by omega)
      omega
  | case2 low high inside between middle other below ih =>
    exact ih (by omega) (lt_of_mem_take increasing (by omega) below) behind
  | case3 low high inside between middle other least ih =>
    have above : key < keys[middle] := by omega
    exact ih (by omega) before (lt_of_mem_drop increasing (by omega) above)
  | case4 low high inside closed =>
    have same : high = low := by omega
    rw [same] at behind
    exact ⟨keys.take low, keys.drop low, (List.take_append_drop low keys).symm, by simp; omega, before,
      behind⟩

end Search

theorem insertByRank_append {rank : Nat} (member : String) {lower : List (Nat × List String)}
    (below : ∀ entry ∈ lower, entry.1 < rank) (upper : List (Nat × List String)) :
    insertByRank rank member (lower ++ upper) = lower ++ insertByRank rank member upper := by
  induction lower with
  | nil => rfl
  | cons entry lower ih =>
    obtain ⟨first, below⟩ := List.forall_mem_cons.mp below
    have behind : ¬rank < entry.1 := by omega
    have other : rank ≠ entry.1 := by omega
    rw [List.cons_append, insertByRank, if_neg behind, if_neg other, ih below, List.cons_append]

/-- Searching for the group of a rank and going through the groups come to the same. -/
theorem insertBySearch_eq {groups : List (Nat × List String)}
    (increasing : (groups.map Prod.fst).Pairwise (· < ·)) (rank : Nat) (member : String) :
    insertBySearch rank member groups = insertByRank rank member groups := by
  have finds : Finds (groups.map Prod.fst) rank
      (search (groups.map Prod.fst) rank 0 (groups.map Prod.fst).length (Nat.le_refl _)) :=
    finds_searchFrom increasing (Nat.le_refl _) (Nat.zero_le _) (by simp)
      (by rw [List.drop_length]; exact List.forall_mem_nil _)
  unfold insertBySearch
  generalize search (groups.map Prod.fst) rank 0 (groups.map Prod.fst).length (Nat.le_refl _) = found
    at finds
  cases found with
  | ok place =>
    obtain ⟨lowerKeys, upperKeys, cut, rfl, below⟩ := finds
    obtain ⟨lower, further, rfl, rfl, rest⟩ := List.map_eq_append_iff.mp cut
    obtain ⟨⟨other, group⟩, upper, rfl, rfl, rfl⟩ := List.map_eq_cons_iff.mp rest
    rw [insertByRank_append member (fun entry known => below entry.1 (List.mem_map_of_mem known)),
      insertByRank, if_neg (Nat.lt_irrefl other), if_pos rfl, List.length_map]
    exact List.modifyTailIdx_add _ 0 lower _
  | error place =>
    obtain ⟨lowerKeys, upperKeys, cut, rfl, below, above⟩ := finds
    obtain ⟨lower, upper, rfl, rfl, rfl⟩ := List.map_eq_append_iff.mp cut
    rw [insertByRank_append member (fun entry known => below entry.1 (List.mem_map_of_mem known)),
      Layers.insertByRank_of_lt fun entry known => above entry.1 (List.mem_map_of_mem known),
      List.length_map]
    exact List.modifyTailIdx_add _ 0 lower upper

theorem groupBySearch_eq_groupByRank (rankOf : String → Nat) (members : List String) :
    groupBySearch rankOf members = groupByRank rankOf members := by
  have empty (ranks : List Nat) : Layers.groups rankOf [] ranks = [] := by
    simp [Layers.groups, Layers.group]
  unfold groupBySearch groupByRank
  congr 1
  induction members using List.reverseRecOn with
  | nil => rfl
  | append_singleton members last ih =>
    have ranked : ∀ member ∈ members,
        rankOf member ∈ List.range ((members.map rankOf).foldl max 0 + 1) :=
      fun _ known => List.mem_range.mpr (Layers.rank_lt_bound known)
    have sofar := Layers.foldl_insertByRank_groups [] members List.pairwise_lt_range ranked
    have increasing : ((members.foldl
        (fun groups member => insertByRank (rankOf member) member groups) []).map Prod.fst).Pairwise
          (· < ·) := by
      rw [empty] at sofar
      rw [sofar, List.pairwise_map]
      exact Layers.pairwise_groups List.pairwise_lt_range
    rw [List.foldl_concat, List.foldl_concat, ih, insertBySearch_eq increasing]

end Placement

namespace Layers

variable {rankOf : String → Nat} {members : List String}

def distinctRanks (rankOf : String → Nat) (members : List String) : List Nat :=
  (members.map rankOf).toFinset.sort

def fill (rankOf : String → Nat) (ranks : List Nat) (members : List String) : List (List String) :=
  members.foldl (fun layers member => layers.modify (ranks.idxOf (rankOf member)) (· ++ [member]))
    (List.replicate ranks.length [])

theorem modify_layers {ranks : List Nat} {member : String} (known : rankOf member ∈ ranks)
    (nodup : ranks.Nodup) (members : List String) :
    (ranks.map fun rank => members.filter (rankOf · = rank)).modify (ranks.idxOf (rankOf member))
        (· ++ [member]) =
      ranks.map fun rank => (members ++ [member]).filter (rankOf · = rank) := by
  induction ranks with
  | nil => cases known
  | cons rank rest ih =>
    obtain ⟨fresh, nodup⟩ := List.nodup_cons.mp nodup
    by_cases same : rankOf member = rank
    · have others : ∀ other ∈ rest, members.filter (rankOf · = other) =
          (members ++ [member]).filter (rankOf · = other) := by
        intro other listed
        have different : rankOf member ≠ other := by
          intro equal
          exact fresh (same ▸ equal ▸ listed)
        simp [List.filter_append, different]
      subst same
      simp [List.idxOf_cons_self, List.map_congr_left others]
    · have later : rankOf member ∈ rest := (List.mem_cons.mp known).resolve_left same
      rw [List.idxOf_cons_ne _ (Ne.symm same), List.map_cons, List.modify_succ_cons, ih later nodup]
      simp [List.filter_append, same]

theorem fill_eq {ranks : List Nat} (nodup : ranks.Nodup)
    (known : ∀ member ∈ members, rankOf member ∈ ranks) :
    fill rankOf ranks members = ranks.map fun rank => members.filter (rankOf · = rank) := by
  induction members using List.reverseRecOn with
  | nil => simp [fill]
  | append_singleton members last ih =>
    obtain ⟨earlier, final⟩ := List.forall_mem_append.mp known
    have layers := ih earlier
    unfold fill at layers ⊢
    rw [List.foldl_concat, layers, modify_layers (final last (List.mem_singleton_self last)) nodup]

theorem groups_eq_map (ranks : List Nat) :
    (groups rankOf members ranks).map Prod.snd =
      (ranks.filter (· ∈ members.map rankOf)).map fun rank => members.filter (rankOf · = rank) := by
  induction ranks with
  | nil => rfl
  | cons rank rest ih =>
    have inhabited : members.filter (rankOf · = rank) = [] ↔ rank ∉ members.map rankOf := by
      simp [List.filter_eq_nil_iff]
    by_cases occurs : rank ∈ members.map rankOf
    · have some : members.filter (rankOf · = rank) ≠ [] := fun none => inhabited.mp none occurs
      rw [groups, List.filterMap_cons, ← groups, group, if_neg some, List.map_cons, ih,
        List.filter_cons_of_pos (by simpa using occurs), List.map_cons]
    · have none : members.filter (rankOf · = rank) = [] := inhabited.mpr occurs
      rw [groups, List.filterMap_cons, ← groups, group, if_pos none, ih,
        List.filter_cons_of_neg (by simpa using occurs)]

/-- The layers of the ranks that occur are the first layers of a scope. -/
theorem fill_distinctRanks (rankOf : String → Nat) (members : List String) :
    fill rankOf (distinctRanks rankOf members) members = byRank rankOf members := by
  have occurs : ∀ rank, rank ∈ distinctRanks rankOf members ↔ rank ∈ members.map rankOf := by
    intro rank
    rw [distinctRanks, Finset.mem_sort, List.mem_toFinset]
  have bounded : ∀ rank ∈ members.map rankOf, rank < (members.map rankOf).foldl max 0 + 1 :=
    fun _ found => Nat.lt_succ_of_le (le_foldl_max_of_mem found 0)
  have ranks : (List.range ((members.map rankOf).foldl max 0 + 1)).filter (· ∈ members.map rankOf) =
      distinctRanks rankOf members := by
    apply List.Pairwise.eq_of_mem_iff (List.pairwise_lt_range.filter _)
      (Finset.sortedLT_sort _).pairwise
    intro rank
    rw [List.mem_filter, List.mem_range, decide_eq_true_iff, ← occurs]
    exact and_iff_right_of_imp fun found => bounded rank ((occurs rank).mp found)
  have known : ∀ member ∈ members, rankOf member ∈ distinctRanks rankOf members :=
    fun member found => (occurs _).mpr (List.mem_map_of_mem found)
  have nodup : (distinctRanks rankOf members).Nodup := Finset.sort_nodup _ _
  rw [fill_eq nodup known, byRank_eq, groups_eq_map, ranks]

end Layers

namespace Graph

variable {α : Type} {graph : Graph α} {ranking : Ranking}

theorem layersOf_unswept {scope : Scope} (listed : scope ∈ graph.scopes) :
    ((graph.layering ranking 0).layersOf scope.container).layers =
      Layers.byRank ranking.rankOf scope.members := by
  rw [layersOf_layering listed]
  rfl

theorem layersOf_unordered (ranking : Ranking) (scope : Scope) :
    Placement.layersOf {} ranking scope = Placement.groupByRank ranking.rankOf scope.members := by
  unfold Placement.layersOf
  cases scope.container <;> rfl

theorem layersOf_fallback {scope : Scope} (listed : scope ∈ graph.scopes) :
    Placement.layersOf (graph.layering ranking 0) ranking scope = Placement.layersOf {} ranking scope := by
  rw [layersOf_unordered, Layers.groupByRank_eq_byRank]
  unfold Placement.layersOf
  rw [layersOf_unswept listed]
  split
  next empty => rw [Layers.groupByRank_eq_byRank]
  next => rfl

variable [Scalar α]

/-- Two layerings that give the listed scopes the same layers give the same boxes. -/
theorem placement_congr {first second : Layering}
    (same : ∀ scope ∈ graph.scopes,
      Placement.layersOf second ranking scope = Placement.layersOf first ranking scope)
    (settings : Settings α) :
    graph.placement ranking second settings = graph.placement ranking first settings := by
  have drafts : Placement.draft graph ranking second settings =
      Placement.draft graph ranking first settings := by
    apply List.foldl_ext
    intro draft scope listed
    rw [Placement.draftScope, same scope listed, Placement.draftScope]
  rw [placement, drafts, placement]

/-- A placement without an ordering is the one by the ordering that was not swept, whatever the ranking
is: the groups that are searched for are the layers of the ranks that occur. -/
theorem placement_fallback (graph : Graph α) (ranking : Ranking) (settings : Settings α) :
    graph.placement ranking {} settings =
        graph.placement ranking (graph.layering ranking 0) settings ∧
      ∀ scope ∈ graph.scopes,
        Placement.layersOf {} ranking scope =
          Placement.groupBySearch ranking.rankOf scope.members ∧
        ((graph.layering ranking 0).layersOf scope.container).layers =
          Layers.fill ranking.rankOf (Layers.distinctRanks ranking.rankOf scope.members)
            scope.members ∧
        Placement.groupBySearch ranking.rankOf scope.members =
          Layers.fill ranking.rankOf (Layers.distinctRanks ranking.rankOf scope.members)
            scope.members := by
  have searched (scope : Scope) : Placement.groupBySearch ranking.rankOf scope.members =
      Layers.byRank ranking.rankOf scope.members := by
    rw [Placement.groupBySearch_eq_groupByRank, Layers.groupByRank_eq_byRank]
  refine ⟨(placement_congr (fun _ => layersOf_fallback) settings).symm, ?_⟩
  intro scope listed
  refine ⟨?_, ?_, ?_⟩
  · rw [layersOf_unordered, Placement.groupBySearch_eq_groupByRank]
  · rw [layersOf_unswept listed, Layers.fill_distinctRanks]
  · rw [searched, Layers.fill_distinctRanks]

end Graph

end BoxDiagram
