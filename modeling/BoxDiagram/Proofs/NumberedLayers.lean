import BoxDiagram.Proofs.RankGroups
import Mathlib.Logic.Function.Basic

/-!
Layers as they are found in place. The members of a scope are told by their numbers, and what is known
of them stands in tables: the layer of each member, its position in that layer, the links between two
layers. Every look-up may fail, as a number may lie outside its table; there is no result then. A table
over the members is the list of what the members are mapped to, so looking up the number of a member
never fails, and what is put in place of one entry is the table of a changed map.
-/

namespace BoxDiagram.Numbered

open Layers

/-- The layers by the numbers of their members, and the links between neighbouring layers by the numbers
of their ends, the upper one first. -/
structure Grid where
  layers : List (List Nat)
  gaps : List (List (Nat × Nat))

def modifyAt? {β : Type} (entries : List β) (place : Nat) (change : β → β) : Option (List β) :=
  if place < entries.length then some (entries.modify place change) else none

/-- The number of the layer of each member, by its rank among the ranks that occur. -/
def layerNumbers? (rankOf : String → Nat) (ranks : List Nat) (members : List String) :
    Option (List Nat) :=
  members.mapM fun member => ranks.idxOf? (rankOf member)

def fill? (count : Nat) (layerNumbers : List Nat) : Option (List (List Nat)) :=
  layerNumbers.zipIdx.foldlM (fun layers (layer, number) => modifyAt? layers layer (· ++ [number]))
    (List.replicate count [])

/-- Adds an edge to the links below the layer of its upper end, when the other end is in the layer below
that. Edges to or from others than members are left out. -/
def addLink? (members : List String) (layerNumbers : List Nat) (gaps : List (List (Nat × Nat)))
    (edge : String × String) : Option (List (List (Nat × Nat))) :=
  match members.idxOf? edge.1, members.idxOf? edge.2 with
  | some first, some second => do
    let firstLayer ← layerNumbers[first]?
    let secondLayer ← layerNumbers[second]?
    let (upper, lower) := if firstLayer < secondLayer then (first, second) else (second, first)
    let upperLayer ← layerNumbers[upper]?
    let lowerLayer ← layerNumbers[lower]?
    if lowerLayer = upperLayer + 1 then modifyAt? gaps upperLayer (· ++ [(upper, lower)]) else some gaps
  | _, _ => some gaps

def grid? (rankOf : String → Nat) (members : List String) (edges : List (String × String)) :
    Option Grid := do
  let ranks := distinctRanks rankOf members
  let layerNumbers ← layerNumbers? rankOf ranks members
  let layers ← fill? ranks.length layerNumbers
  let gaps ← edges.foldlM (addLink? members layerNumbers) (List.replicate (layers.length - 1) [])
  some ⟨layers, gaps⟩

def place? (positions : List Nat) (entry : Nat × Nat) : Option (List Nat) :=
  modifyAt? positions entry.1 fun _ => entry.2

def positions? (count : Nat) (layers : List (List Nat)) : Option (List Nat) :=
  layers.foldlM (fun positions layer => layer.zipIdx.foldlM place? positions) (List.replicate count 0)

def links (members : List String) (gap : List (String × String)) : List (Nat × Nat) :=
  gap.map (Prod.map members.idxOf members.idxOf)

def Grid.of (members : List String) (layers : List (List String))
    (gaps : List (List (String × String))) : Grid :=
  ⟨layers.map (·.map members.idxOf), gaps.map (links members)⟩

variable {β γ : Type} {members : List String}

theorem mapM_eq_map {items : List β} {read : β → Option γ} {value : β → γ}
    (each : ∀ item ∈ items, read item = some (value item)) : items.mapM read = some (items.map value) := by
  induction items with
  | nil => rfl
  | cons item rest ih =>
    obtain ⟨first, others⟩ := List.forall_mem_cons.mp each
    simp [first, ih others]

/-- Steps over tables that follow steps over what the tables are made from. -/
theorem foldlM_image {σ τ : Type} (image : σ → τ) {step? : τ → β → Option τ} {step : σ → β → σ}
    (good : σ → Prop) {items : List β}
    (follows : ∀ state, good state → ∀ item ∈ items,
      step? (image state) item = some (image (step state item)) ∧ good (step state item))
    {state : σ} (start : good state) :
    items.foldlM step? (image state) = some (image (items.foldl step state)) := by
  induction items generalizing state with
  | nil => rfl
  | cons item rest ih =>
    obtain ⟨made, kept⟩ := follows state start item List.mem_cons_self
    rw [List.foldlM_cons, made, List.foldl_cons]
    exact ih (fun state good item member => follows state good item (List.mem_cons_of_mem _ member)) kept

theorem idxOf?_of_mem [BEq β] [LawfulBEq β] {items : List β} {item : β} (member : item ∈ items) :
    items.idxOf? item = some (items.idxOf item) := by
  rw [List.idxOf?, List.findIdx?_eq_some_iff_findIdx_eq]
  exact ⟨List.idxOf_lt_length_of_mem member, rfl⟩

theorem modifyAt?_map {entries : List β} {place : Nat} (within : place < entries.length)
    (image : β → γ) {change : γ → γ} {origin : β → β}
    (same : ∀ entry, change (image entry) = image (origin entry)) :
    modifyAt? (entries.map image) place change = some ((entries.modify place origin).map image) := by
  have changed : (entries.map image).modify place change = (entries.modify place origin).map image := by
    apply List.ext_getElem?
    intro index
    simp only [List.getElem?_modify, List.getElem?_map]
    split <;> cases entries[index]? <;> simp [same]
  rw [modifyAt?, if_pos (by rwa [List.length_map]), changed]

theorem table_lookup {value : String → β} {member : String} (known : member ∈ members) :
    (members.map value)[members.idxOf member]? = some (value member) := by
  rw [List.getElem?_map, List.getElem?_idxOf known, Option.map_some]

theorem zipIdx_eq_map_idxOf (nodup : members.Nodup) :
    members.zipIdx = members.map fun member => (member, members.idxOf member) := by
  apply List.ext_getElem
  · simp
  · intro index _ _
    simp [nodup.idxOf_getElem]

section Fill

variable {rankOf : String → Nat}

theorem layerNumbers?_eq {ranks : List Nat} (known : ∀ member ∈ members, rankOf member ∈ ranks) :
    layerNumbers? rankOf ranks members =
      some (members.map fun member => ranks.idxOf (rankOf member)) :=
  mapM_eq_map fun member listed => idxOf?_of_mem (known member listed)

theorem fill?_eq (nodup : members.Nodup) {ranks : List Nat}
    (known : ∀ member ∈ members, rankOf member ∈ ranks) :
    fill? ranks.length (members.map fun member => ranks.idxOf (rankOf member)) =
      some ((fill rankOf ranks members).map (·.map members.idxOf)) := by
  have numbered : (members.map fun member => ranks.idxOf (rankOf member)).zipIdx =
      members.map fun member => (ranks.idxOf (rankOf member), members.idxOf member) := by
    rw [List.zipIdx_map, zipIdx_eq_map_idxOf nodup, List.map_map]
    rfl
  have empty : List.replicate ranks.length ([] : List Nat) =
      (List.replicate ranks.length []).map (·.map members.idxOf) := by
    simp
  rw [fill?, numbered, List.foldlM_map, empty]
  apply foldlM_image (List.map (List.map members.idxOf)) (fun layers => layers.length = ranks.length)
  · intro layers length member listed
    refine ⟨modifyAt?_map ?_ _ fun layer => by simp, by simp [length]⟩
    rw [length]
    exact List.idxOf_lt_length_of_mem (known member listed)
  · simp

end Fill

section Links

variable {layerOf : String → Nat} {layers : List (List String)} {edges : List (String × String)}

def newLinks (members : List String) (layerOf : String → Nat) (edge : String × String) (number : Nat) :
    List (String × String) :=
  if edge.1 ∈ members ∧ edge.2 ∈ members then
    if layerOf edge.1 = number ∧ layerOf edge.2 = number + 1 then [edge]
    else if layerOf edge.2 = number ∧ layerOf edge.1 = number + 1 then [edge.swap] else []
  else []

def addLink (members : List String) (layerOf : String → Nat) (gaps : List (List (String × String)))
    (edge : String × String) : List (List (String × String)) :=
  gaps.mapIdx fun number links => links ++ newLinks members layerOf edge number

def HeldBy (members : List String) (layerOf : String → Nat) (layers : List (List String)) : Prop :=
  ∀ number layer, layers[number]? = some layer →
    ∀ member, member ∈ layer ↔ member ∈ members ∧ layerOf member = number

theorem getElem?_gaps (edges : List (String × String)) (layers : List (List String)) (number : Nat) :
    (gaps edges layers)[number]? =
      (layers[number]?).bind fun upper => (layers[number + 1]?).map fun lower => gap edges upper lower := by
  fun_induction gaps edges layers generalizing number with
  | case1 upper lower rest ih =>
    cases number with
    | zero => rfl
    | succ number => simpa using ih number
  | case2 layers short =>
    rcases layers with _ | ⟨upper, _ | ⟨lower, rest⟩⟩
    · rfl
    · cases number <;> simp
    · exact absurd rfl (short upper lower rest)

theorem gap_concat (edges : List (String × String)) (edge : String × String) (upper lower : List String) :
    gap (edges ++ [edge]) upper lower = gap edges upper lower ++
      if edge.1 ∈ upper ∧ edge.2 ∈ lower then [edge]
      else if edge.2 ∈ upper ∧ edge.1 ∈ lower then [edge.swap] else [] := by
  unfold gap
  rw [List.filterMap_append]
  congr 1
  obtain ⟨source, target⟩ := edge
  by_cases down : source ∈ upper ∧ target ∈ lower
  · simp [down]
  · by_cases up : target ∈ upper ∧ source ∈ lower
    · simp [down, up]
    · simp [down, up]

/-- One more edge adds one link at most. -/
theorem gaps_concat (held : HeldBy members layerOf layers) (edges : List (String × String))
    (edge : String × String) :
    gaps (edges ++ [edge]) layers = addLink members layerOf (gaps edges layers) edge := by
  apply List.ext_getElem?
  intro number
  rw [addLink, List.getElem?_mapIdx, getElem?_gaps, getElem?_gaps]
  cases upperAt : layers[number]? with
  | none => rfl
  | some upper =>
    cases lowerAt : layers[number + 1]? with
    | none => rfl
    | some lower =>
      have inUpper := held number upper upperAt
      have inLower := held (number + 1) lower lowerAt
      simp only [Option.bind_some, Option.map_some, gap_concat, inUpper, inLower, newLinks]
      grind

theorem foldl_addLink (held : HeldBy members layerOf layers) (edges : List (String × String)) :
    edges.foldl (addLink members layerOf) (List.replicate (layers.length - 1) []) = gaps edges layers := by
  induction edges using List.reverseRecOn with
  | nil =>
    apply List.ext_getElem?
    intro number
    rw [List.foldl_nil, getElem?_gaps, List.getElem?_replicate]
    cases upperAt : layers[number]? with
    | none => grind
    | some upper => cases lowerAt : layers[number + 1]? <;> grind [gap]
  | append_singleton edges edge ih => rw [List.foldl_concat, ih, gaps_concat held]

theorem modify_eq_addLink {gaps : List (List (String × String))} {edge : String × String} (place : Nat)
    (link : String × String)
    (added : ∀ number, newLinks members layerOf edge number = if number = place then [link] else []) :
    gaps.modify place (· ++ [link]) = addLink members layerOf gaps edge := by
  apply List.ext_getElem?
  intro number
  rw [addLink, List.getElem?_mapIdx, List.getElem?_modify, added]
  by_cases here : place = number <;> cases gaps[number]? <;> simp [here, eq_comm]

theorem addLink_of_none {gaps : List (List (String × String))} {edge : String × String}
    (none : ∀ number, newLinks members layerOf edge number = []) :
    addLink members layerOf gaps edge = gaps := by
  apply List.ext_getElem <;> simp [addLink, none]

theorem addLink?_eq {gaps : List (List (String × String))}
    (within : ∀ member ∈ members, layerOf member ≤ gaps.length) (edge : String × String) :
    addLink? members (members.map layerOf) (gaps.map (links members)) edge =
      some ((addLink members layerOf gaps edge).map (links members)) := by
  by_cases known : edge.1 ∈ members ∧ edge.2 ∈ members
  · obtain ⟨first, second⟩ := known
    have firstBound := within edge.1 first
    have secondBound := within edge.2 second
    unfold addLink?
    rw [idxOf?_of_mem first, idxOf?_of_mem second]
    simp only [first, second, table_lookup, Option.bind_eq_bind, Option.bind_some]
    by_cases down : layerOf edge.1 < layerOf edge.2
    · simp only [down, if_true, first, second, table_lookup, Option.bind_some]
      split
      next below =>
        rw [← modify_eq_addLink (layerOf edge.1) edge]
        · exact modifyAt?_map (by omega) _ fun gap => by simp [links, Prod.map]
        · intro number
          grind [newLinks]
      next apart => rw [addLink_of_none fun number => by grind [newLinks]]
    · simp only [down, if_false, first, second, table_lookup, Option.bind_some]
      split
      next below =>
        rw [← modify_eq_addLink (layerOf edge.2) edge.swap]
        · exact modifyAt?_map (by omega) _ fun gap => by simp [links, Prod.map]
        · intro number
          grind [newLinks]
      next apart => rw [addLink_of_none fun number => by grind [newLinks]]
  · rw [addLink_of_none fun number => if_neg known]
    unfold addLink?
    split
    next first second firstFound secondFound =>
      have firstKnown : edge.1 ∈ members := by
        by_contra absent
        simp [List.idxOf?_eq_none_iff.mpr absent] at firstFound
      have secondKnown : edge.2 ∈ members := by
        by_contra absent
        simp [List.idxOf?_eq_none_iff.mpr absent] at secondFound
      exact absurd ⟨firstKnown, secondKnown⟩ known
    next => rfl

end Links

/-- The first layers are found in place, with the links between them. -/
theorem grid?_eq (nodup : members.Nodup) (rankOf : String → Nat) (edges : List (String × String)) :
    grid? rankOf members edges =
      some (.of members (byRank rankOf members) (gaps edges (byRank rankOf members))) := by
  have occurs : ∀ member ∈ members, rankOf member ∈ distinctRanks rankOf members := by
    intro member listed
    rw [distinctRanks, Finset.mem_sort, List.mem_toFinset]
    exact List.mem_map_of_mem listed
  have ranksNodup : (distinctRanks rankOf members).Nodup := Finset.sort_nodup _ _
  have layers : byRank rankOf members =
      (distinctRanks rankOf members).map fun rank => members.filter (rankOf · = rank) := by
    rw [← fill_distinctRanks, fill_eq ranksNodup occurs]
  have held : HeldBy members (fun member => (distinctRanks rankOf members).idxOf (rankOf member))
      (byRank rankOf members) := by
    intro number layer found member
    rw [layers, List.getElem?_map, Option.map_eq_some_iff] at found
    obtain ⟨rank, rankAt, rfl⟩ := found
    obtain ⟨within, rfl⟩ := List.getElem?_eq_some_iff.mp rankAt
    rw [List.mem_filter, decide_eq_true_iff]
    refine and_congr_right fun listed => ⟨fun same => ?_, fun same => ?_⟩
    · simp only [same, ranksNodup.idxOf_getElem]
    · subst same
      rw [List.getElem_idxOf]
  unfold grid?
  simp only [layerNumbers?_eq occurs, fill?_eq nodup occurs, fill_distinctRanks, Option.bind_eq_bind,
    Option.bind_some, List.length_map]
  have count : (byRank rankOf members).length = (distinctRanks rankOf members).length := by
    rw [layers, List.length_map]
  have empty : List.replicate ((byRank rankOf members).length - 1) ([] : List (Nat × Nat)) =
      (List.replicate ((byRank rankOf members).length - 1) []).map (links members) := by
    simp [links]
  rw [empty, foldlM_image (List.map (links members))
    (fun gaps => gaps.length = (byRank rankOf members).length - 1), foldl_addLink held]
  · rfl
  · intro gaps length edge _
    refine ⟨addLink?_eq ?_ edge, by simp [addLink, length]⟩
    intro member listed
    have bound := List.idxOf_lt_length_of_mem (occurs member listed)
    rw [length, count]
    omega
  · simp

end BoxDiagram.Numbered
