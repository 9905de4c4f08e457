import BoxDiagram.Proofs.Ancestry
import BoxDiagram.Proofs.LongestChain

/-!
Ranks increase along edges. The constraints that are left without the back edges have no cycle, so
the atoms of the target of such an edge rank behind all atoms of its source. Every node has an atom,
and the least ranks of the atoms keep this order.
-/

namespace BoxDiagram

variable {α : Type}

namespace Graph

theorem mem_atoms {graph : Graph α} {path : String} :
    path ∈ graph.atoms ↔ ∃ node ∈ graph.nodes, graph.isAtom node = true ∧ node.path = path := by
  simp only [atoms, List.mem_map, List.mem_filter]
  exact ⟨fun ⟨node, ⟨member, atom⟩, same⟩ => ⟨node, member, atom, same⟩,
    fun ⟨node, member, atom, same⟩ => ⟨node, ⟨member, atom⟩, same⟩⟩

theorem atomsWithin_atomLineages (graph : Graph α) (path : String) :
    atomsWithin graph.atomLineages path = graph.atomsBelow path := rfl

theorem mem_atomsBelow_iff {graph : Graph α} {path atom : String} :
    atom ∈ graph.atomsBelow path ↔
      atom ∈ graph.atoms ∧ ∃ node ∈ graph.lineage atom, node.path = path := by
  simp [atomsBelow, atomsWithin, atomLineages]

theorem mem_atoms_of_mem_atomsBelow {graph : Graph α} {path atom : String}
    (below : atom ∈ graph.atomsBelow path) : atom ∈ graph.atoms :=
  (mem_atomsBelow_iff.mp below).1

/-- A constraint leads from an atom of the source of its edge to an atom of the target, and these
ends share no atom. -/
theorem mem_constraints_iff {graph : Graph α} {constraint : Constraint} :
    constraint ∈ graph.constraints ↔
      ∃ edge, graph.edges[constraint.edge]? = some edge ∧
        (∀ atom ∈ graph.atomsBelow edge.source, atom ∉ graph.atomsBelow edge.target) ∧
        constraint.source ∈ graph.atomsBelow edge.source ∧
        constraint.target ∈ graph.atomsBelow edge.target := by
  have ofEdge : ∀ edge index, constraint ∈ constraintsOf graph.atomLineages edge index ↔
      index = constraint.edge ∧
        (∀ atom ∈ graph.atomsBelow edge.source, atom ∉ graph.atomsBelow edge.target) ∧
        constraint.source ∈ graph.atomsBelow edge.source ∧
        constraint.target ∈ graph.atomsBelow edge.target := by
    intro edge index
    obtain ⟨source, target, number⟩ := constraint
    unfold constraintsOf
    rw [atomsWithin_atomLineages, atomsWithin_atomLineages]
    dsimp only
    split
    next shared =>
      simp only [List.any_eq_true, List.contains_iff_mem] at shared
      obtain ⟨atom, left, right⟩ := shared
      simp only [List.not_mem_nil, false_iff]
      exact fun ⟨_, apart, _⟩ => apart atom left right
    next apart =>
      simp only [List.any_eq_true, List.contains_iff_mem, not_exists, not_and] at apart
      simp only [List.mem_flatMap, List.mem_map, Constraint.mk.injEq]
      constructor
      · rintro ⟨_, left, _, right, rfl, rfl, rfl⟩
        exact ⟨rfl, apart, left, right⟩
      · rintro ⟨rfl, -, left, right⟩
        exact ⟨source, left, target, right, rfl, rfl, rfl⟩
  simp only [constraints, List.mem_flatMap, Prod.exists, List.mk_mem_zipIdx_iff_getElem?, ofEdge]
  constructor
  · rintro ⟨edge, index, found, rfl, led⟩
    exact ⟨edge, found, led⟩
  · rintro ⟨edge, found, led⟩
    exact ⟨edge, constraint.edge, found, rfl, led⟩

theorem constraint_source_mem {graph : Graph α} {constraint : Constraint}
    (member : constraint ∈ graph.constraints) : constraint.source ∈ graph.atoms := by
  obtain ⟨_, _, _, below, _⟩ := mem_constraints_iff.mp member
  exact mem_atoms_of_mem_atomsBelow below

theorem constraint_target_mem {graph : Graph α} {constraint : Constraint}
    (member : constraint ∈ graph.constraints) : constraint.target ∈ graph.atoms := by
  obtain ⟨_, _, _, _, below⟩ := mem_constraints_iff.mp member
  exact mem_atoms_of_mem_atomsBelow below

theorem mem_backEdges_iff {graph : Graph α} {index : Nat} :
    index ∈ graph.backEdges ↔ index < graph.edges.length ∧
      index ∈ (Search.visitAll graph.constraints graph.atoms).flagged := by
  simp [backEdges]

theorem mem_keptConstraints_iff {graph : Graph α} {constraint : Constraint} :
    constraint ∈ graph.keptConstraints ↔
      constraint ∈ graph.constraints ∧ constraint.edge ∉ graph.backEdges := by
  simp [keptConstraints]

theorem unflagged_of_mem_keptConstraints {graph : Graph α} {constraint : Constraint}
    (kept : constraint ∈ graph.keptConstraints) :
    constraint ∈ graph.constraints ∧
      constraint.edge ∉ (Search.visitAll graph.constraints graph.atoms).flagged := by
  obtain ⟨member, free⟩ := mem_keptConstraints_iff.mp kept
  refine ⟨member, fun flagged => free (mem_backEdges_iff.mpr ⟨?_, flagged⟩)⟩
  obtain ⟨edge, found, _⟩ := mem_constraints_iff.mp member
  exact (List.getElem?_eq_some_iff.mp found).1

theorem acyclic_keptConstraints (graph : Graph α) : Acyclic graph.keptConstraints := by
  obtain ⟨settled, reached⟩ :=
    Search.visitAll_settled fun constraint member => constraint_target_mem member
  refine settled.acyclic (fun constraint => unflagged_of_mem_keptConstraints) ?_
  intro constraint kept
  exact reached (constraint_source_mem (mem_keptConstraints_iff.mp kept).1)

theorem entry_lt_of_kept {graph : Graph α} {constraint : Constraint}
    (kept : constraint ∈ graph.keptConstraints) :
    Ranking.entry graph.atomRanks constraint.source <
      Ranking.entry graph.atomRanks constraint.target :=
  Ranking.entry_lt_of_precedes graph.acyclic_keptConstraints
    (fun _ member => constraint_source_mem (mem_keptConstraints_iff.mp member).1)
    (constraint_target_mem (mem_keptConstraints_iff.mp kept).1) ⟨constraint, kept, rfl, rfl⟩

theorem rank?_ranking {graph : Graph α} {node : Node α} (member : node ∈ graph.nodes) :
    graph.ranking.rank? node.path =
      some (leastRank graph.atomRanks (graph.atomsBelow node.path)) := by
  have ranks : graph.ranking.ranks = (graph.nodes.map Node.path).map fun path =>
      (path, leastRank graph.atomRanks (graph.atomsBelow path)) := by
    rw [List.map_map]
    rfl
  rw [Ranking.rank?, ranks, Ranking.lookup_map (List.mem_map_of_mem member)]

theorem leastRank_spec (table : List (String × Nat)) {atoms : List String} (inhabited : atoms ≠ []) :
    ∃ atom ∈ atoms, leastRank table atoms = Ranking.entry table atom ∧
      ∀ other ∈ atoms, leastRank table atoms ≤ Ranking.entry table other := by
  unfold leastRank
  cases least : (atoms.map (Ranking.entry table)).min? with
  | none => simp [inhabited] at least
  | some rank =>
    obtain ⟨member, lowest⟩ := List.min?_eq_some_iff.mp least
    obtain ⟨atom, found, rfl⟩ := List.mem_map.mp member
    exact ⟨atom, found, rfl, fun other below => lowest _ (List.mem_map_of_mem below)⟩

theorem leastRank_lt {table : List (String × Nat)} {first second : List String}
    (firstInhabited : first ≠ []) (secondInhabited : second ≠ [])
    (lower : ∀ left ∈ first, ∀ right ∈ second,
      Ranking.entry table left < Ranking.entry table right) :
    leastRank table first < leastRank table second := by
  obtain ⟨left, leftMember, leftRank, -⟩ := leastRank_spec table firstInhabited
  obtain ⟨right, rightMember, rightRank, -⟩ := leastRank_spec table secondInhabited
  rw [leftRank, rightRank]
  exact lower left leftMember right rightMember

variable {graph : Graph α}

theorem mem_atomsBelow_of_mem_lineage {outer inner : Node α} (member : inner ∈ graph.nodes)
    (atom : graph.isAtom inner = true) (around : outer ∈ graph.lineage inner.path) :
    inner.path ∈ graph.atomsBelow outer.path :=
  mem_atomsBelow_iff.mpr ⟨mem_atoms.mpr ⟨inner, member, atom, rfl⟩, outer, around, rfl⟩

/-- Every node is an atom or has one inside. -/
theorem WellFormed.exists_atom (wellFormed : graph.WellFormed) {node : Node α}
    (member : node ∈ graph.nodes) :
    ∃ inner ∈ graph.nodes, graph.isAtom inner = true ∧ node ∈ graph.lineage inner.path := by
  induction node, member using wellFormed.inward_induction with
  | step node member ih =>
    cases atom : graph.isAtom node with
    | true => exact ⟨node, member, atom, wellFormed.mem_lineage_self member⟩
    | false =>
      have filled : graph.children node.path ≠ [] := by
        intro empty
        simp [isAtom, empty] at atom
      obtain ⟨child, found⟩ := List.exists_mem_of_ne_nil _ filled
      obtain ⟨childMember, inside⟩ := List.mem_filter.mp found
      have inside : child.parent = some node.path := by simpa using inside
      obtain ⟨inner, innerMember, innerAtom, around⟩ := ih child childMember inside
      refine ⟨inner, innerMember, innerAtom, wellFormed.lineage_trans innerMember around ?_⟩
      rw [wellFormed.lineage_inner childMember member inside]
      exact List.mem_cons_of_mem _ (wellFormed.mem_lineage_self member)

theorem WellFormed.atomsBelow_ne_nil (wellFormed : graph.WellFormed) {node : Node α}
    (member : node ∈ graph.nodes) : graph.atomsBelow node.path ≠ [] := by
  obtain ⟨inner, innerMember, atom, around⟩ := wellFormed.exists_atom member
  exact List.ne_nil_of_mem (mem_atomsBelow_of_mem_lineage innerMember atom around)

theorem WellFormed.atomsBelow_disjoint (wellFormed : graph.WellFormed) {first second : Node α}
    (firstMember : first ∈ graph.nodes) (secondMember : second ∈ graph.nodes)
    (apart : graph.Apart first.path second.path) :
    ∀ atom ∈ graph.atomsBelow first.path, atom ∉ graph.atomsBelow second.path := by
  intro atom firstBelow secondBelow
  obtain ⟨known, left, leftAround, leftSame⟩ := mem_atomsBelow_iff.mp firstBelow
  obtain ⟨-, right, rightAround, rightSame⟩ := mem_atomsBelow_iff.mp secondBelow
  obtain ⟨inner, innerMember, -, rfl⟩ := mem_atoms.mp known
  have leftEqual := wellFormed.eq_of_path (lineage_subset graph _ left leftAround) firstMember leftSame
  have rightEqual :=
    wellFormed.eq_of_path (lineage_subset graph _ right rightAround) secondMember rightSame
  subst leftEqual rightEqual
  obtain ⟨leftOff, rightOff⟩ := (wellFormed.apart_iff firstMember secondMember).mp apart
  rcases wellFormed.lineage_total innerMember leftAround rightAround with around | around
  · exact leftOff around
  · exact rightOff around

/-- Over an edge between nodes apart that is no back edge, all atoms of the target rank behind all
atoms of the source. -/
theorem WellFormed.entry_lt_of_edge (wellFormed : graph.WellFormed) {index : Nat} {edge : Edge}
    (found : graph.edges[index]? = some edge) (forward : graph.ranking.isBackEdge index = false)
    (apart : graph.Apart edge.source edge.target) :
    ∀ first ∈ graph.atomsBelow edge.source, ∀ second ∈ graph.atomsBelow edge.target,
      Ranking.entry graph.atomRanks first < Ranking.entry graph.atomRanks second := by
  intro first firstBelow second secondBelow
  obtain ⟨sourceKnown, targetKnown⟩ := wellFormed.endpoints edge (List.mem_of_getElem? found)
  obtain ⟨source, sourceMember, sourceSame⟩ := contains_iff.mp sourceKnown
  obtain ⟨target, targetMember, targetSame⟩ := contains_iff.mp targetKnown
  have disjoint : ∀ atom ∈ graph.atomsBelow edge.source, atom ∉ graph.atomsBelow edge.target := by
    rw [← sourceSame, ← targetSame] at apart ⊢
    exact wellFormed.atomsBelow_disjoint sourceMember targetMember apart
  have constraint : ⟨first, second, index⟩ ∈ graph.constraints :=
    mem_constraints_iff.mpr ⟨edge, found, disjoint, firstBelow, secondBelow⟩
  have free : index ∉ graph.backEdges := by
    simpa [Ranking.isBackEdge, ranking] using forward
  exact entry_lt_of_kept (mem_keptConstraints_iff.mpr ⟨constraint, free⟩)

/-- The ranking of a graph that was put together from nodes and edges. The constraints that are
left when those of back edges are dropped have no cycle. Over every other edge between nodes apart
the atoms of the target rank behind those of the source, and so does the target itself. -/
theorem Grown.ranking_forward (grown : graph.Grown) :
    Acyclic graph.keptConstraints ∧
      ∀ index edge, graph.edges[index]? = some edge → graph.ranking.isBackEdge index = false →
        graph.Apart edge.source edge.target →
          (∀ first ∈ graph.atomsBelow edge.source, ∀ second ∈ graph.atomsBelow edge.target,
            Ranking.entry graph.atomRanks first < Ranking.entry graph.atomRanks second) ∧
          ∃ low high, graph.ranking.rank? edge.source = some low ∧
            graph.ranking.rank? edge.target = some high ∧ low < high := by
  have wellFormed := grown.wellFormed
  refine ⟨graph.acyclic_keptConstraints, ?_⟩
  intro index edge found forward apart
  have lower := wellFormed.entry_lt_of_edge found forward apart
  refine ⟨lower, ?_⟩
  obtain ⟨sourceKnown, targetKnown⟩ := wellFormed.endpoints edge (List.mem_of_getElem? found)
  obtain ⟨source, sourceMember, sourceSame⟩ := contains_iff.mp sourceKnown
  obtain ⟨target, targetMember, targetSame⟩ := contains_iff.mp targetKnown
  rw [← sourceSame, ← targetSame] at lower ⊢
  exact ⟨_, _, rank?_ranking sourceMember, rank?_ranking targetMember,
    leastRank_lt (wellFormed.atomsBelow_ne_nil sourceMember)
      (wellFormed.atomsBelow_ne_nil targetMember) lower⟩

/-- A container with two members, a leaf, and edges that lead around in a circle. -/
def boxedLoop : Graph Nat where
  nodes := [node ⟨none, "Box"⟩ .container none, node ⟨some "Box", "In"⟩ .leaf (some "Box"),
    node ⟨some "Box", "Deep"⟩ .container (some "Box"), node ⟨none, "Out"⟩ .leaf none]
  edges := [edge "Box" "Out" .bidirectional, edge "Out" "Box.In" .directed]
where
  node (id : NodeId) (kind : NodeKind) (parent : Option String) : Node Nat :=
    { id, kind, parent, properties := {}, span := .zero, rank := none, position := none,
      size := ⟨0, 0⟩ }
  edge (source target : String) (kind : EdgeKind) : Edge :=
    { source, target, kind, label := none, span := .zero }

theorem boxedLoop_grown : boxedLoop.Grown := by
  have nodes : Grown { nodes := boxedLoop.nodes } :=
    Grown.empty.addNodes boxedLoop.nodes (by decide +kernel)
  exact nodes.addEdges boxedLoop.edges (by decide +kernel)

theorem boxedLoop_forward :
    boxedLoop.Grown ∧ boxedLoop.ranking.isBackEdge 0 = false ∧ boxedLoop.Apart "Box" "Out" ∧
      ∃ low high, boxedLoop.ranking.rank? "Box" = some low ∧
        boxedLoop.ranking.rank? "Out" = some high ∧ low < high :=
  have forward : boxedLoop.ranking.isBackEdge 0 = false := by decide +kernel
  have apart : boxedLoop.Apart "Box" "Out" := by unfold Apart; decide +kernel
  ⟨boxedLoop_grown, forward, apart, ((boxedLoop_grown.ranking_forward).2 0 _ rfl forward apart).2⟩

end Graph

end BoxDiagram
