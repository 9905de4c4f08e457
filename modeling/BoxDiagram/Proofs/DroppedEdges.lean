import BoxDiagram.Proofs.BackEdges
import BoxDiagram.Proofs.RenamedRanks

/-!
Edges without influence on ranks. Without some edges the others move up to smaller indices in the same
order. When the edges left out have no constraints, the constraints that remain are the same ones with
other indices, in the same order, so the search flags the same edges and the ranks are the same.
-/

namespace BoxDiagram

section Lists

variable {β γ : Type}

/-- The items that stay when those at some places are left out, with the places where they were. -/
def keptAt (dropped : List Nat) (items : List β) : List (β × Nat) :=
  items.zipIdx.filter fun entry => !dropped.contains entry.2

def dropAt (dropped : List Nat) (items : List β) : List β := (keptAt dropped items).map Prod.fst

/-- Where the item at a place was before others were left out; behind the last item, any place behind it. -/
def placeBefore (dropped : List Nat) (items : List β) (place : Nat) : Nat :=
  ((keptAt dropped items)[place]?).elim (items.length + place) Prod.snd

variable {dropped : List Nat}

theorem mem_keptAt {items : List β} {entry : β × Nat} :
    entry ∈ keptAt dropped items ↔ items[entry.2]? = some entry.1 ∧ entry.2 ∉ dropped := by
  obtain ⟨item, place⟩ := entry
  simp [keptAt, List.mk_mem_zipIdx_iff_getElem?]

theorem keptAt_map (change : β → γ) (items : List β) :
    keptAt dropped (items.map change) = (keptAt dropped items).map (Prod.map change id) := by
  rw [keptAt, keptAt, List.zipIdx_map, List.filter_map]
  rfl

theorem dropAt_map (change : β → γ) (items : List β) :
    dropAt dropped (items.map change) = (dropAt dropped items).map change := by
  rw [dropAt, dropAt, keptAt_map, List.map_map, List.map_map]
  rfl

theorem zipIdx_dropAt (dropped : List Nat) (items : List β) :
    (dropAt dropped items).zipIdx.map (Prod.map id (placeBefore dropped items)) =
      keptAt dropped items := by
  rw [dropAt, List.zipIdx_map, List.map_map]
  calc
    _ = (keptAt dropped items).zipIdx.map Prod.fst := by
      apply List.map_congr_left
      intro entry listed
      have found := List.mk_mem_zipIdx_iff_getElem?.mp listed
      simp only [Function.comp_apply, Prod.map, id, placeBefore, found, Option.elim_some]
    _ = keptAt dropped items := List.zipIdx_map_fst _ _

theorem placeBefore_lt_iff (dropped : List Nat) (items : List β) (place : Nat) :
    placeBefore dropped items place < items.length ↔ place < (dropAt dropped items).length := by
  rw [dropAt, List.length_map, placeBefore]
  cases found : (keptAt dropped items)[place]? with
  | none =>
    have behind := List.getElem?_eq_none_iff.mp found
    simp only [Option.elim_none]
    omega
  | some entry =>
    have within := (List.getElem?_eq_some_iff.mp found).1
    have before := (mem_keptAt.mp (List.mem_of_getElem? found)).1
    simp only [Option.elim_some, within, iff_true]
    exact (List.getElem?_eq_some_iff.mp before).1

theorem placeBefore_injective (dropped : List Nat) (items : List β) :
    (placeBefore dropped items).Injective := by
  have nodup : ((keptAt dropped items).map Prod.snd).Nodup := by
    refine List.Nodup.sublist (List.filter_sublist.map Prod.snd) ?_
    rw [List.zipIdx_map_snd]
    exact List.nodup_range'
  have listed (place : Nat) (within : place < (keptAt dropped items).length) :
      ((keptAt dropped items).map Prod.snd)[place]? = some (placeBefore dropped items place) := by
    simp [placeBefore, within]
  intro first second same
  have together : first < (keptAt dropped items).length ↔ second < (keptAt dropped items).length := by
    rw [← List.length_map (f := Prod.fst), ← dropAt, ← placeBefore_lt_iff, ← placeBefore_lt_iff, same]
  by_cases within : first < (keptAt dropped items).length
  · apply (List.getElem?_inj (by simpa using within) nodup).mp
    rw [listed first within, listed second (together.mp within), same]
  · have other : ¬second < (keptAt dropped items).length := fun less => within (together.mpr less)
    rw [placeBefore, placeBefore, List.getElem?_eq_none (Nat.le_of_not_lt within),
      List.getElem?_eq_none (Nat.le_of_not_lt other)] at same
    exact Nat.add_left_cancel same

theorem flatMap_filter_of_nil {items : List β} {keep : β → Bool} {parts : β → List γ}
    (empty : ∀ item ∈ items, keep item = false → parts item = []) :
    (items.filter keep).flatMap parts = items.flatMap parts := by
  induction items with
  | nil => rfl
  | cons item rest ih =>
    obtain ⟨first, others⟩ := List.forall_mem_cons.mp empty
    cases kept : keep item with
    | true => rw [List.filter_cons_of_pos kept, List.flatMap_cons, List.flatMap_cons, ih others]
    | false =>
      rw [List.filter_cons_of_neg (by simp [kept]), List.flatMap_cons, first kept, List.nil_append,
        ih others]

variable {items : List β}

theorem flatMap_keptAt {parts : β × Nat → List γ}
    (empty : ∀ place ∈ dropped, ∀ item, items[place]? = some item → parts (item, place) = []) :
    (keptAt dropped items).flatMap parts = items.zipIdx.flatMap parts := by
  apply flatMap_filter_of_nil
  intro entry listed left
  have chosen : entry.2 ∈ dropped := by simpa using left
  exact empty entry.2 chosen entry.1 (List.mk_mem_zipIdx_iff_getElem?.mp listed)

theorem filterMap_dropAt {part : β → Option γ}
    (empty : ∀ place ∈ dropped, ∀ item, items[place]? = some item → part item = none) :
    (dropAt dropped items).filterMap part = items.filterMap part := by
  have parts : ∀ place ∈ dropped, ∀ item, items[place]? = some item →
      (fun entry : β × Nat => (part entry.1).toList) (item, place) = [] := by
    intro place chosen item found
    simp [empty place chosen item found]
  calc
    _ = (keptAt dropped items).flatMap fun entry => (part entry.1).toList := by
      rw [dropAt, List.filterMap_map, List.filterMap_eq_flatMap_toList]
      rfl
    _ = (items.zipIdx.map Prod.fst).filterMap part := by
      rw [flatMap_keptAt parts, List.filterMap_map, List.filterMap_eq_flatMap_toList]
      rfl
    _ = items.filterMap part := by rw [List.zipIdx_map_fst]

theorem dropAt_zipIdx_map (make : β × Nat → γ) :
    dropAt dropped (items.zipIdx.map make) = (keptAt dropped items).map make := by
  have twice : items.zipIdx.zipIdx = items.zipIdx.map fun entry => (entry, entry.2) :=
    List.ext_getElem (by simp) (by simp)
  rw [dropAt, keptAt, keptAt, List.zipIdx_map, twice, List.map_map, List.filter_map, List.map_map]
  rfl

end Lists

namespace Ranking

/-- Ranks do not depend on the indices of the edges. -/
theorem ofConstraints_changed (relabel : Nat → Nat) (constraints : List Constraint)
    (atoms : List String) :
    ofConstraints (constraints.map (Constraint.changed id relabel)) atoms =
      ofConstraints constraints atoms := by
  have sources (atom : String) :
      ((constraints.map (Constraint.changed id relabel)).filter (·.target = atom)).map (·.source) =
        (constraints.filter (·.target = atom)).map (·.source) := by
    rw [List.filter_map, List.map_map]
    rfl
  simp only [ofConstraints, sources]

end Ranking

namespace Graph

variable {α : Type}

def withoutEdges (graph : Graph α) (dropped : List Nat) : Graph α :=
  { graph with edges := dropAt dropped graph.edges }

/-- An edge between a node and itself, or a node around it. -/
def IsLoop (graph : Graph α) (edge : Edge) : Prop :=
  edge.source = edge.target ∨ graph.isAncestor edge.source edge.target = true ∨
    graph.isAncestor edge.target edge.source = true

instance (graph : Graph α) (edge : Edge) : Decidable (graph.IsLoop edge) :=
  inferInstanceAs (Decidable (_ ∨ _ ∨ _))

variable {graph : Graph α} {dropped : List Nat}

theorem WellFormed.constraintsOf_eq_nil (wellFormed : graph.WellFormed) {edge : Edge} {index : Nat}
    (found : graph.edges[index]? = some edge) (loop : graph.IsLoop edge) :
    constraintsOf graph.atomLineages edge index = [] := by
  apply List.eq_nil_iff_forall_not_mem.mpr
  intro constraint listed
  have same : constraint.edge = index := by
    unfold constraintsOf at listed
    grind
  have member : constraint ∈ graph.constraints :=
    List.mem_flatMap.mpr ⟨(edge, index), List.mk_mem_zipIdx_iff_getElem?.mpr found, listed⟩
  exact wellFormed.not_constraint (same ▸ found) loop member

variable (wellFormed : graph.WellFormed)
  (loops : ∀ index ∈ dropped, ∀ edge, graph.edges[index]? = some edge → graph.IsLoop edge)
include wellFormed loops

/-- Without some loops the constraints are the same, of edges with other indices. -/
theorem WellFormed.constraints_withoutEdges :
    (graph.withoutEdges dropped).constraints.map
        (Constraint.changed id (placeBefore dropped graph.edges)) =
      graph.constraints := by
  have lineages : (graph.withoutEdges dropped).atomLineages = graph.atomLineages := rfl
  have relabelled (edge : Edge) (index : Nat) :
      (constraintsOf graph.atomLineages edge index).map
          (Constraint.changed id (placeBefore dropped graph.edges)) =
        constraintsOf graph.atomLineages edge (placeBefore dropped graph.edges index) := by
    unfold constraintsOf
    simp only [apply_ite (List.map (Constraint.changed id (placeBefore dropped graph.edges))),
      List.map_flatMap, List.map_map, List.map_nil]
    rfl
  calc
    _ = ((dropAt dropped graph.edges).zipIdx.map (Prod.map id (placeBefore dropped graph.edges))).flatMap
        fun entry => constraintsOf graph.atomLineages entry.1 entry.2 := by
      simp only [constraints, lineages, List.map_flatMap, relabelled, List.flatMap_map]
      rfl
    _ = (keptAt dropped graph.edges).flatMap
        fun entry => constraintsOf graph.atomLineages entry.1 entry.2 := by rw [zipIdx_dropAt]
    _ = graph.constraints := by
      apply flatMap_keptAt
      intro index chosen edge found
      exact wellFormed.constraintsOf_eq_nil found (loops index chosen edge found)

theorem WellFormed.mem_backEdges_withoutEdges (index : Nat) :
    index ∈ (graph.withoutEdges dropped).backEdges ↔
      placeBefore dropped graph.edges index ∈ graph.backEdges := by
  have atoms : (graph.withoutEdges dropped).atoms = graph.atoms := rfl
  have search := Search.visitAll_changed Function.injective_id (placeBefore dropped graph.edges)
    (graph.withoutEdges dropped).constraints graph.atoms
  rw [wellFormed.constraints_withoutEdges loops, List.map_id] at search
  rw [mem_backEdges_iff, mem_backEdges_iff, search, atoms, placeBefore_lt_iff, Search.changed,
    List.mem_map_of_injective (placeBefore_injective dropped graph.edges)]
  rfl

theorem WellFormed.isBackEdge_withoutEdges (index : Nat) :
    (graph.withoutEdges dropped).ranking.isBackEdge index =
      graph.ranking.isBackEdge (placeBefore dropped graph.edges index) := by
  rw [Bool.eq_iff_iff]
  simpa [Ranking.isBackEdge, ranking] using wellFormed.mem_backEdges_withoutEdges loops index

theorem WellFormed.keptConstraints_withoutEdges :
    (graph.withoutEdges dropped).keptConstraints.map
        (Constraint.changed id (placeBefore dropped graph.edges)) =
      graph.keptConstraints := by
  unfold keptConstraints
  rw [← wellFormed.constraints_withoutEdges loops, List.filter_map]
  congr 1
  apply List.filter_congr
  intro constraint _
  have flagged := wellFormed.mem_backEdges_withoutEdges loops constraint.edge
  simp only [Function.comp_apply, Constraint.changed]
  simp [flagged]

theorem WellFormed.ranks_withoutEdges :
    (graph.withoutEdges dropped).ranking.ranks = graph.ranking.ranks := by
  have table : (graph.withoutEdges dropped).atomRanks = graph.atomRanks := by
    rw [atomRanks, atomRanks, ← wellFormed.keptConstraints_withoutEdges loops,
      Ranking.ofConstraints_changed]
    rfl
  simp only [ranking, table]
  rfl

end Graph

end BoxDiagram
