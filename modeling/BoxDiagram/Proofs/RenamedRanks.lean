import BoxDiagram.Proofs.Renaming

/-!
Ranks under other names. The constraints between renamed atoms are the renamed constraints, in the same
order, so the search comes through the same edges and the table of ranks grows in the same rounds. The
search never looks at the indices of the edges, so it also goes the same way when these are others.
-/

namespace BoxDiagram

variable {α : Type} {rename : String → String}

def Constraint.renamed (rename : String → String) (constraint : Constraint) : Constraint :=
  ⟨rename constraint.source, rename constraint.target, constraint.edge⟩

def Constraint.changed (rename : String → String) (relabel : Nat → Nat) (constraint : Constraint) :
    Constraint :=
  ⟨rename constraint.source, rename constraint.target, relabel constraint.edge⟩

section Constraints

variable (injective : rename.Injective)
include injective

theorem filter_source_changed (relabel : Nat → Nat) (constraints : List Constraint) (atom : String) :
    (constraints.map (Constraint.changed rename relabel)).filter (·.source = rename atom) =
      (constraints.filter (·.source = atom)).map (Constraint.changed rename relabel) := by
  rw [List.filter_map]
  congr 2
  funext constraint
  exact decide_eq_decide.mpr injective.eq_iff

theorem sources_renamed (constraints : List Constraint) (atom : String) :
    Ranking.sources (constraints.map (Constraint.renamed rename)) (rename atom) =
      (Ranking.sources constraints atom).map rename := by
  have sameTarget : (fun constraint : Constraint => decide (constraint.target = rename atom)) ∘
      Constraint.renamed rename = fun constraint => decide (constraint.target = atom) := by
    funext constraint
    exact decide_eq_decide.mpr injective.eq_iff
  unfold Ranking.sources
  rw [List.filter_map, sameTarget, List.map_map, List.map_map]
  rfl

end Constraints

namespace Search

def renamed (rename : String → String) (search : Search) : Search :=
  ⟨search.done.map rename, search.flagged⟩

def changed (rename : String → String) (relabel : Nat → Nat) (search : Search) : Search :=
  ⟨search.done.map rename, search.flagged.map relabel⟩

variable (injective : rename.Injective) (relabel : Nat → Nat) (constraints : List Constraint)
include injective

theorem visit_changed (fuel : Nat) (path : List String) (atom : String) (search : Search) :
    visit (constraints.map (Constraint.changed rename relabel)) fuel (path.map rename) (rename atom)
      (search.changed rename relabel) =
        (visit constraints fuel path atom search).changed rename relabel := by
  -- Both visits spend the same fuel.
  induction fuel generalizing path atom search with
  | zero => rfl
  | succ fuel ih =>
    have step (search : Search) (constraint : Constraint) :
        follow (constraints.map (Constraint.changed rename relabel)) fuel ((atom :: path).map rename)
          (search.changed rename relabel) (constraint.changed rename relabel) =
            (follow constraints fuel (atom :: path) search constraint).changed rename relabel := by
      have done : (search.changed rename relabel).done.contains
          (constraint.changed rename relabel).target = search.done.contains constraint.target :=
        contains_rename injective _ _
      have visited : ((atom :: path).map rename).contains (constraint.changed rename relabel).target =
          (atom :: path).contains constraint.target := contains_rename injective _ _
      unfold follow
      rw [done, visited]
      split
      · rfl
      · split
        · rfl
        · exact ih (atom :: path) constraint.target search
    have followed : followAll (constraints.map (Constraint.changed rename relabel)) fuel
        ((atom :: path).map rename) (rename atom) (search.changed rename relabel) =
          (followAll constraints fuel (atom :: path) atom search).changed rename relabel := by
      unfold followAll
      rw [filter_source_changed injective, List.foldl_map]
      exact List.foldl_hom (changed rename relabel) step
    rw [List.map_cons] at followed
    rw [visit_succ, visit_succ, followed]
    rfl

theorem visitAll_changed (atoms : List String) :
    visitAll (constraints.map (Constraint.changed rename relabel)) (atoms.map rename) =
      (visitAll constraints atoms).changed rename relabel := by
  unfold visitAll
  rw [List.foldl_map, List.length_map]
  show atoms.foldl _ (changed rename relabel {}) = _
  refine List.foldl_hom (changed rename relabel) fun search atom => ?_
  have done : (search.changed rename relabel).done.contains (rename atom) =
      search.done.contains atom :=
    contains_rename injective _ _
  rw [done]
  split
  · rfl
  · exact visit_changed injective relabel constraints atoms.length [] atom search

theorem visitAll_renamed (atoms : List String) :
    visitAll (constraints.map (Constraint.renamed rename)) (atoms.map rename) =
      (visitAll constraints atoms).renamed rename := by
  have indices : (visitAll constraints atoms).changed rename id =
      (visitAll constraints atoms).renamed rename := by
    rw [changed, List.map_id]
    rfl
  rw [← indices]
  exact visitAll_changed injective id constraints atoms

end Search

namespace Ranking

def renamedTable {β : Type} (rename : String → String) (table : List (String × β)) :
    List (String × β) :=
  table.map (Prod.map rename id)

theorem renamedTable_map {β : Type} (keys : List String) (value : String → β) :
    renamedTable rename (keys.map fun key => (key, value key)) =
      keys.map fun key => (rename key, value key) := by
  rw [renamedTable, List.map_map]
  rfl

variable (injective : rename.Injective)
include injective

theorem renamedTable_injective {β : Type} : (renamedTable (β := β) rename).Injective :=
  List.map_injective_iff.mpr (injective.prodMap Function.injective_id)

theorem lookup_renamedTable {β : Type} (table : List (String × β)) (key : String) :
    (renamedTable rename table).lookup (rename key) = table.lookup key := by
  rw [renamedTable, lookup_rename injective, Option.map_id_fun, id]

theorem entry_renamed (table : List (String × Nat)) (atom : String) :
    entry (renamedTable rename table) (rename atom) = entry table atom := by
  rw [entry, entry, lookup_renamedTable injective]

theorem behind_renamed (constraints : List Constraint) (table : List (String × Nat)) (atom : String) :
    behind (constraints.map (Constraint.renamed rename)) (renamedTable rename table) (rename atom) =
      behind constraints table atom := by
  have reached : (sources constraints atom).map
      (fun source => entry (renamedTable rename table) (rename source) + 1) =
        (sources constraints atom).map fun source => entry table source + 1 :=
    List.map_congr_left fun source _ => by rw [entry_renamed injective]
  rw [behind, behind, sources_renamed injective, List.map_map]
  exact congrArg (List.foldl max 0) reached

omit injective in
theorem round_eq (constraints : List Constraint) (atoms : List String) (table : List (String × Nat)) :
    round constraints atoms table = atoms.map fun atom => (atom, behind constraints table atom) := by
  unfold round advance
  rw [List.map_map]
  rfl

theorem round_renamed (constraints : List Constraint) (atoms : List String)
    (table : List (String × Nat)) :
    round (constraints.map (Constraint.renamed rename)) (atoms.map rename)
      (renamedTable rename table) = renamedTable rename (round constraints atoms table) := by
  rw [round_eq, round_eq, renamedTable_map, List.map_map]
  refine List.map_congr_left fun atom _ => ?_
  exact congrArg (Prod.mk (rename atom)) (behind_renamed injective constraints table atom)

omit injective in
/-- Repeating a step until nothing changes commutes with a change of form that loses nothing. -/
theorem settle_map {β γ : Type} [DecidableEq β] [DecidableEq γ] {change : β → γ}
    (lossless : change.Injective) {step : β → β} {other : γ → γ}
    (same : ∀ value, other (change value) = change (step value)) (fuel : Nat) (value : β) :
    settle other fuel (change value) = change (settle step fuel value) := by
  induction fuel generalizing value with
  | zero => rfl
  | succ fuel ih =>
    rw [settle, settle, same, ih]
    simp only [lossless.eq_iff]
    split <;> rfl

theorem ofConstraints_renamed (constraints : List Constraint) (atoms : List String) :
    ofConstraints (constraints.map (Constraint.renamed rename)) (atoms.map rename) =
      renamedTable rename (ofConstraints constraints atoms) := by
  have start : after (constraints.map (Constraint.renamed rename)) (atoms.map rename) 0 =
      renamedTable rename (after constraints atoms 0) := by
    simp only [after, Function.iterate_zero, id, renamedTable_map, List.map_map, Function.comp_def]
  rw [ofConstraints_eq, ofConstraints_eq, start, List.length_map]
  exact settle_map (renamedTable_injective injective) (round_renamed injective constraints atoms) _ _

end Ranking

namespace Graph

variable [Scalar α] (injective : rename.Injective) (graph : Graph α)
include injective

theorem isAtom_renamed (node : Node α) :
    (graph.renamed rename).isAtom (node.renamed rename) = graph.isAtom node := by
  have inside : ((graph.renamed rename).children (node.renamed rename).path).isEmpty =
      (graph.children node.path).isEmpty := by
    rw [node.path_renamed, graph.children_renamed injective, List.isEmpty_map]
  rw [isAtom, isAtom, inside]
  rfl

theorem atoms_renamed : (graph.renamed rename).atoms = graph.atoms.map rename := by
  have kept : (graph.renamed rename).isAtom ∘ Node.renamed rename = graph.isAtom :=
    funext (graph.isAtom_renamed injective)
  rw [atoms, atoms, nodes_renamed, List.filter_map, kept, paths_renamed]

theorem atomLineages_renamed :
    (graph.renamed rename).atomLineages =
      graph.atomLineages.map (Prod.map rename (List.map rename)) := by
  rw [atomLineages, atomLineages, graph.atoms_renamed injective, List.map_map, List.map_map]
  refine List.map_congr_left fun atom _ => ?_
  simp only [Function.comp_apply, graph.lineage_renamed injective, paths_renamed]
  rfl

omit [Scalar α] in
theorem atomsWithin_renamed (lineages : List (String × List String)) (path : String) :
    atomsWithin (lineages.map (Prod.map rename (List.map rename))) (rename path) =
      (atomsWithin lineages path).map rename := by
  have kept : (fun entry : String × List String => entry.2.contains (rename path)) ∘
      Prod.map rename (List.map rename) = fun entry => entry.2.contains path :=
    funext fun entry => contains_rename injective entry.2 path
  rw [atomsWithin, atomsWithin, List.filter_map, kept, List.map_map, List.map_map]
  rfl

omit [Scalar α] in
theorem constraintsOf_renamed (lineages : List (String × List String)) (edge : Edge) (index : Nat) :
    constraintsOf (lineages.map (Prod.map rename (List.map rename))) (edge.renamed rename) index =
      (constraintsOf lineages edge index).map (Constraint.renamed rename) := by
  have sources := atomsWithin_renamed injective lineages edge.source
  have targets := atomsWithin_renamed injective lineages edge.target
  have shared : ((atomsWithin lineages edge.source).map rename).any
      ((atomsWithin lineages edge.target).map rename).contains =
        (atomsWithin lineages edge.source).any (atomsWithin lineages edge.target).contains := by
    rw [List.any_map]
    exact congrArg _ (funext fun atom => contains_rename injective _ atom)
  unfold constraintsOf
  simp only [Edge.renamed, sources, targets, shared]
  split
  · rfl
  · simp only [List.flatMap_map, List.map_flatMap, List.map_map]
    rfl

theorem constraints_renamed :
    (graph.renamed rename).constraints = graph.constraints.map (Constraint.renamed rename) := by
  unfold constraints
  rw [graph.atomLineages_renamed injective, edges_renamed, List.zipIdx_map, List.flatMap_map,
    List.map_flatMap]
  congr 1
  funext ⟨edge, index⟩
  exact constraintsOf_renamed injective graph.atomLineages edge index

theorem backEdges_renamed : (graph.renamed rename).backEdges = graph.backEdges := by
  unfold backEdges
  rw [graph.constraints_renamed injective, graph.atoms_renamed injective,
    Search.visitAll_renamed injective, edges_renamed, List.length_map]
  rfl

theorem keptConstraints_renamed :
    (graph.renamed rename).keptConstraints =
      graph.keptConstraints.map (Constraint.renamed rename) := by
  unfold keptConstraints
  rw [graph.backEdges_renamed injective, graph.constraints_renamed injective, List.filter_map]
  rfl

theorem atomRanks_renamed :
    (graph.renamed rename).atomRanks = Ranking.renamedTable rename graph.atomRanks := by
  rw [atomRanks, atomRanks, graph.keptConstraints_renamed injective, graph.atoms_renamed injective,
    Ranking.ofConstraints_renamed injective]

omit [Scalar α] in
theorem leastRank_renamed (table : List (String × Nat)) (atoms : List String) :
    leastRank (Ranking.renamedTable rename table) (atoms.map rename) = leastRank table atoms := by
  have same : Ranking.entry (Ranking.renamedTable rename table) ∘ rename = Ranking.entry table :=
    funext (Ranking.entry_renamed injective table)
  rw [leastRank, leastRank, List.map_map, same]

theorem ranks_renamed :
    (graph.renamed rename).ranking.ranks = Ranking.renamedTable rename graph.ranking.ranks := by
  have ranked (node : Node α) :
      leastRank (graph.renamed rename).atomRanks
        (atomsWithin (graph.renamed rename).atomLineages (rename node.path)) =
          leastRank graph.atomRanks (atomsWithin graph.atomLineages node.path) := by
    rw [graph.atomRanks_renamed injective, graph.atomLineages_renamed injective,
      atomsWithin_renamed injective, leastRank_renamed injective]
  simp only [ranking, renamed, Ranking.renamedTable, List.map_map]
  exact List.map_congr_left fun node _ => congrArg (Prod.mk (rename node.path)) (ranked node)

theorem rank?_renamed (path : String) :
    (graph.renamed rename).ranking.rank? (rename path) = graph.ranking.rank? path := by
  rw [Ranking.rank?, Ranking.rank?, graph.ranks_renamed injective,
    Ranking.lookup_renamedTable injective]

theorem rankOf_renamed (path : String) :
    (graph.renamed rename).ranking.rankOf (rename path) = graph.ranking.rankOf path := by
  rw [Ranking.rankOf, Ranking.rankOf, graph.rank?_renamed injective]

end Graph

end BoxDiagram
