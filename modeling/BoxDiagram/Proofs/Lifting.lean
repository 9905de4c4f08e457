import BoxDiagram.Containment
import BoxDiagram.Proofs.OutwardWalks

/-!
Lifting a path to a scope. The member of the scope that is at the path or around it is searched for from
the node outward, parent by parent. The search ends, as a parent is declared before what it encloses, and
it finds the only node there is: nodes around one another are at different depths, and members of one scope
at the same.
-/

namespace BoxDiagram.Graph

variable {α : Type} {graph : Graph α} {container : Option String} {path : String}

/-- The search for the node at a path or around it that is in the scope of a container, with what it ends
with. Where there is no node or no parent to go on with, it ends with nothing. -/
inductive Lifts (graph : Graph α) (container : Option String) : String → Option String → Prop where
  | absent {path : String} (missing : graph.node? path = none) : Lifts graph container path none
  | arrived {path : String} {node : Node α} (found : graph.node? path = some node)
      (inside : node.parent = container) : Lifts graph container path (some node.path)
  | outermost {path : String} {node : Node α} (found : graph.node? path = some node)
      (outside : node.parent ≠ container) (ends : node.parent = none) :
      Lifts graph container path none
  | outward {path outer : String} {node : Node α} {result : Option String}
      (found : graph.node? path = some node) (outside : node.parent ≠ container)
      (enclosed : node.parent = some outer) (onward : Lifts graph container outer result) :
      Lifts graph container path result

theorem Lifts.unique {first second : Option String} (search : graph.Lifts container path first)
    (other : graph.Lifts container path second) : second = first := by
  induction search generalizing second with
  | absent | arrived | outermost => cases other <;> simp_all
  | outward found outside enclosed _ ih =>
    cases other with
    | absent | arrived | outermost => simp_all
    | outward again _ parent onward =>
      obtain rfl := Option.some.inj (found.symm.trans again)
      obtain rfl := Option.some.inj (enclosed.symm.trans parent)
      exact ih onward

theorem lineage_of_absent (absent : graph.node? path = none) : graph.lineage path = [] := by
  rw [lineage, ancestors_of_absent absent, absent]
  rfl

namespace WellFormed

variable (wellFormed : graph.WellFormed)
include wellFormed

theorem mem_lineage_path_iff {node : Node α} :
    node ∈ graph.lineage path ↔
      node ∈ graph.nodes ∧ (node.path = path ∨ graph.isAncestor node.path path = true) := by
  constructor
  · intro around
    have member := lineage_subset graph path node around
    cases found : graph.node? path with
    | none =>
      rw [lineage_of_absent found] at around
      cases around
    | some inner =>
      obtain ⟨innerMember, rfl⟩ := mem_of_node? found
      exact ⟨member, (wellFormed.mem_lineage_iff member innerMember).mp around⟩
  · rintro ⟨member, around⟩
    have known : ∃ inner ∈ graph.nodes, inner.path = path := by
      rcases around with rfl | around
      · exact ⟨node, member, rfl⟩
      · exact (exists_of_isAncestor around).2
    obtain ⟨inner, innerMember, rfl⟩ := known
    exact (wellFormed.mem_lineage_iff member innerMember).mpr around

theorem eq_of_lineage {first second : Node α} (firstAround : first ∈ graph.lineage path)
    (secondAround : second ∈ graph.lineage path) (siblings : first.parent = second.parent) :
    first = second := by
  have firstMember := lineage_subset graph path first firstAround
  have secondMember := lineage_subset graph path second secondAround
  have level := wellFormed.depth_of_siblings firstMember secondMember siblings
  cases found : graph.node? path with
  | none =>
    rw [lineage_of_absent found] at firstAround
    cases firstAround
  | some inner =>
    obtain ⟨member, rfl⟩ := mem_of_node? found
    rcases wellFormed.lineage_total member firstAround secondAround with around | around
    · rw [wellFormed.lineage_eq secondMember] at around
      rcases List.mem_cons.mp around with same | further
      · exact same
      · have deeper := wellFormed.depth_lt secondMember further
        omega
    · rw [wellFormed.lineage_eq firstMember] at around
      rcases List.mem_cons.mp around with same | further
      · exact same.symm
      · have deeper := wellFormed.depth_lt firstMember further
        omega

theorem lift_eq_some_iff {lifted : String} :
    graph.lift container path = some lifted ↔
      ∃ node ∈ graph.lineage path, node.parent = container ∧ node.path = lifted := by
  unfold lift
  rw [Option.map_eq_some_iff]
  constructor
  · rintro ⟨node, found, rfl⟩
    exact ⟨node, List.mem_of_find?_eq_some found, by simpa using List.find?_some found, rfl⟩
  · rintro ⟨node, around, inside, rfl⟩
    cases found : (graph.lineage path).find? (·.parent = container) with
    | none => exact absurd inside (by simpa using List.find?_eq_none.mp found node around)
    | some other =>
      have otherInside : other.parent = container := by simpa using List.find?_some found
      have same := wellFormed.eq_of_lineage (List.mem_of_find?_eq_some found) around
        (otherInside.trans inside.symm)
      exact ⟨other, rfl, congrArg Node.path same⟩

/-- A path is not lifted to a scope exactly where no node is, or where what owns the scope is not around
it. -/
theorem lift_eq_none_iff :
    graph.lift container path = none ↔ graph.node? path = none ∨
      ∃ outer, container = some outer ∧ graph.isAncestor outer path = false := by
  rw [Option.eq_none_iff_forall_ne_some]
  constructor
  · intro unlifted
    cases found : graph.node? path with
    | none => exact .inl rfl
    | some inner =>
      obtain ⟨member, rfl⟩ := mem_of_node? found
      have off : ¬(container = none ∨
          ∃ outer ∈ graph.ancestors inner.path, container = some outer.path) := by
        intro passes
        obtain ⟨passed, around, inside⟩ := wellFormed.exists_mem_lineage member passes
        exact unlifted passed.path (wellFormed.lift_eq_some_iff.mpr ⟨passed, around, inside, rfl⟩)
      obtain ⟨bounded, apart⟩ := not_or.mp off
      obtain ⟨outer, rfl⟩ := Option.ne_none_iff_exists'.mp bounded
      refine .inr ⟨outer, rfl, Bool.eq_false_iff.mpr fun around => apart ?_⟩
      obtain ⟨⟨owner, ownerMember, rfl⟩, -⟩ := exists_of_isAncestor around
      exact ⟨owner, (wellFormed.isAncestor_iff ownerMember _).mp around, rfl⟩
  · intro off lifted some
    obtain ⟨node, around, inside, -⟩ := wellFormed.lift_eq_some_iff.mp some
    rcases off with absent | ⟨outer, rfl, apart⟩
    · rw [lineage_of_absent absent] at around
      cases around
    · obtain ⟨member, place⟩ := wellFormed.mem_lineage_path_iff.mp around
      obtain ⟨owner, ownerMember, rfl⟩ := wellFormed.parent_mem member inside
      have own : graph.isAncestor owner.path node.path = true := by
        rw [wellFormed.isAncestor_iff ownerMember, wellFormed.ancestors_inner member ownerMember inside]
        exact List.mem_cons_self
      rcases place with rfl | further
      · exact Bool.eq_false_iff.mp apart own
      · exact Bool.eq_false_iff.mp apart (wellFormed.isAncestor_trans own further)

theorem lifts_lift : graph.Lifts container path (graph.lift container path) := by
  cases found : graph.node? path with
  | none =>
    rw [wellFormed.lift_eq_none_iff.mpr (.inl found)]
    exact .absent found
  | some node =>
    obtain ⟨member, rfl⟩ := mem_of_node? found
    clear found
    induction node, member using wellFormed.outward_induction with
    | root node member ends =>
      have found := wellFormed.node?_path member
      have alone : graph.lineage node.path = [node] := by
        rw [wellFormed.lineage_eq member, wellFormed.ancestors_root member ends]
      unfold lift
      by_cases inside : node.parent = container
      · rw [alone, List.find?_cons_of_pos (by simpa using inside)]
        exact .arrived found inside
      · rw [alone, List.find?_cons_of_neg (by simpa using inside)]
        exact .outermost found inside ends
    | inner node member outer outerMember enclosed ih =>
      have found := wellFormed.node?_path member
      unfold lift at ih ⊢
      rw [wellFormed.lineage_inner member outerMember enclosed]
      by_cases inside : node.parent = container
      · rw [List.find?_cons_of_pos (by simpa using inside)]
        exact .arrived found inside
      · rw [List.find?_cons_of_neg (by simpa using inside)]
        exact .outward found inside enclosed ih

/-- Lifting is exact. The search ends, in one way only, with what the path is lifted to: the node at the
path or around it whose parent is what owns the scope. There is at most one such node, and there is none
exactly where the path is not that of a node, or where the scope has an owner that is not around the
path. -/
theorem lift_exact (container : Option String) (path : String) :
    (∀ result, graph.Lifts container path result ↔ result = graph.lift container path) ∧
    (∀ lifted, graph.lift container path = some lifted ↔
      ∃ node ∈ graph.nodes, node.path = lifted ∧ node.parent = container ∧
        (lifted = path ∨ graph.isAncestor lifted path = true)) ∧
    (∀ first ∈ graph.nodes, ∀ second ∈ graph.nodes,
      first.parent = container → (first.path = path ∨ graph.isAncestor first.path path = true) →
      second.parent = container → (second.path = path ∨ graph.isAncestor second.path path = true) →
      first = second) ∧
    (graph.lift container path = none ↔ (∀ node ∈ graph.nodes, node.path ≠ path) ∨
      ∃ outer, container = some outer ∧ graph.isAncestor outer path = false) := by
  refine ⟨fun result => ⟨?_, ?_⟩, fun lifted => ?_, ?_, ?_⟩
  · exact fun search => wellFormed.lifts_lift.unique search
  · rintro rfl
    exact wellFormed.lifts_lift
  · rw [wellFormed.lift_eq_some_iff]
    constructor
    · rintro ⟨node, around, inside, rfl⟩
      obtain ⟨member, place⟩ := wellFormed.mem_lineage_path_iff.mp around
      exact ⟨node, member, rfl, inside, place⟩
    · rintro ⟨node, member, rfl, inside, place⟩
      exact ⟨node, wellFormed.mem_lineage_path_iff.mpr ⟨member, place⟩, inside, rfl⟩
  · intro first firstMember second secondMember firstInside firstPlace secondInside secondPlace
    exact wellFormed.eq_of_lineage (wellFormed.mem_lineage_path_iff.mpr ⟨firstMember, firstPlace⟩)
      (wellFormed.mem_lineage_path_iff.mpr ⟨secondMember, secondPlace⟩)
      (firstInside.trans secondInside.symm)
  · rw [wellFormed.lift_eq_none_iff]
    simp [node?]

end WellFormed

/-- A box with a leaf, in which there is a box again. -/
def sunkenBox : Graph Nat where
  nodes := [node ⟨none, "Out"⟩ .container none, node ⟨some "Out", "Leaf"⟩ .leaf (some "Out"),
    node ⟨some "Out.Leaf", "Box"⟩ .container (some "Out.Leaf"),
    node ⟨some "Out.Leaf.Box", "In"⟩ .leaf (some "Out.Leaf.Box"), node ⟨none, "Free"⟩ .leaf none]
where
  node (id : NodeId) (kind : NodeKind) (parent : Option String) : Node Nat :=
    { id, kind, parent, properties := {}, span := .zero, rank := none, position := none,
      size := ⟨0, 0⟩ }

theorem sunkenBox_wellFormed : sunkenBox.WellFormed :=
  Grown.wellFormed (Grown.empty.addNodes sunkenBox.nodes (by rfl))

theorem sunkenBox_lift :
    sunkenBox.WellFormed ∧ sunkenBox.Lifts (some "Out") "Out.Leaf.Box.In" (some "Out.Leaf") ∧
      sunkenBox.lift none "Out.Leaf.Box.In" = some "Out" ∧ sunkenBox.lift (some "Free") "Out" = none := by
  have exact := sunkenBox_wellFormed.lift_exact
  refine ⟨sunkenBox_wellFormed, ((exact (some "Out") _).1 _).mpr (by decide +kernel),
    ((exact none _).2.1 _).mpr ?_, (exact (some "Free") _).2.2.2.mpr (.inr ⟨"Free", rfl, ?_⟩)⟩
  · exact ⟨sunkenBox.nodes.head (by decide), by decide, rfl, rfl, .inr (by decide +kernel)⟩
  · decide +kernel

end BoxDiagram.Graph
