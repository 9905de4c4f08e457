import BoxDiagram.Proofs.WellFormed
import Mathlib.Data.List.Basic

/-!
The nodes around a node. In a well-formed graph they form one chain that begins with the node itself
and ends with an outermost node; the chains of two nodes agree from the first common node on. Two
nodes of which neither is around the other are separated by two members of one scope.
-/

namespace BoxDiagram

variable {α : Type}

namespace Graph

theorem outward_none (nodes : List (Node α)) : outward nodes none = [] := by
  cases nodes <;> rfl

theorem outward_sublist (nodes : List (Node α)) (parent : Option String) :
    (outward nodes parent).Sublist nodes := by
  induction nodes generalizing parent with
  | nil => cases parent <;> exact List.nil_sublist _
  | cons node earlier ih =>
    cases parent with
    | none => exact List.nil_sublist _
    | some outer =>
      unfold outward
      split
      · exact (ih node.parent).cons_cons node
      · exact (ih (some outer)).cons node

theorem outward_cons_of_ne {node : Node α} (earlier : List (Node α)) {parent : Option String}
    (different : parent ≠ some node.path) :
    outward (node :: earlier) parent = outward earlier parent := by
  cases parent with
  | none => rw [outward_none, outward_none]
  | some outer =>
    have unequal : node.path ≠ outer := fun equal => different (congrArg some equal.symm)
    simp [outward, unequal]

end Graph

theorem Declared.outward_cons {node : Node α} {earlier : List (Node α)}
    (declared : Declared (node :: earlier)) {inner : Node α} (member : inner ∈ earlier) :
    Graph.outward (node :: earlier) inner.parent = Graph.outward earlier inner.parent := by
  apply Graph.outward_cons_of_ne
  intro inside
  cases declared with
  | cons fresh _ rest =>
    obtain ⟨parent, found, same⟩ := rest.parent_mem member inside
    exact fresh parent found same

theorem Declared.outward_of_mem {nodes : List (Node α)} (declared : Declared nodes)
    {node : Node α} (member : node ∈ nodes) :
    Graph.outward nodes (some node.path) = node :: Graph.outward nodes node.parent := by
  induction declared with
  | nil => cases member
  | @cons last earlier fresh enclosed rest ih =>
    have whole : Declared (last :: earlier) := .cons fresh enclosed rest
    rcases List.mem_cons.mp member with rfl | found
    · have unasked : node.parent ≠ some node.path := by
        intro inside
        obtain ⟨parent, found, same⟩ := enclosed node.path inside
        exact fresh parent found same
      rw [Graph.outward_cons_of_ne earlier unasked]
      simp [Graph.outward]
    · have skip := Graph.outward_cons_of_ne earlier fun same =>
        fresh node found (Option.some.inj same)
      rw [skip, ih found, whole.outward_cons found]

namespace Graph.WellFormed

variable {graph : Graph α}

theorem ancestors_root (wellFormed : graph.WellFormed) {node : Node α}
    (member : node ∈ graph.nodes) (outermost : node.parent = none) :
    graph.ancestors node.path = [] := by
  simp only [ancestors, wellFormed.node?_path member, outermost, outward_none]

theorem ancestors_inner (wellFormed : graph.WellFormed) {node outer : Node α}
    (member : node ∈ graph.nodes) (outerMember : outer ∈ graph.nodes)
    (inside : node.parent = some outer.path) :
    graph.ancestors node.path = outer :: graph.ancestors outer.path := by
  simp only [ancestors, wellFormed.node?_path member, wellFormed.node?_path outerMember, inside]
  exact wellFormed.declared.outward_of_mem (List.mem_reverse.mpr outerMember)

theorem lineage_eq (wellFormed : graph.WellFormed) {node : Node α} (member : node ∈ graph.nodes) :
    graph.lineage node.path = node :: graph.ancestors node.path := by
  simp [lineage, wellFormed.node?_path member]

theorem lineage_inner (wellFormed : graph.WellFormed) {node outer : Node α}
    (member : node ∈ graph.nodes) (outerMember : outer ∈ graph.nodes)
    (inside : node.parent = some outer.path) :
    graph.lineage node.path = node :: graph.lineage outer.path := by
  rw [wellFormed.lineage_eq member, wellFormed.ancestors_inner member outerMember inside,
    wellFormed.lineage_eq outerMember]

theorem mem_lineage_self (wellFormed : graph.WellFormed) {node : Node α}
    (member : node ∈ graph.nodes) : node ∈ graph.lineage node.path := by
  rw [wellFormed.lineage_eq member]
  exact List.mem_cons_self

/-- What holds of the outermost nodes, and of a node when it holds of its parent, holds of all. -/
theorem outward_induction (wellFormed : graph.WellFormed)
    {motive : (node : Node α) → node ∈ graph.nodes → Prop}
    (root : ∀ node member, node.parent = none → motive node member)
    (inner : ∀ node member outer outerMember, node.parent = some outer.path →
      motive outer outerMember → motive node member)
    (node : Node α) (member : node ∈ graph.nodes) : motive node member := by
  suffices general : ∀ nodes : List (Node α), Declared nodes →
      (∀ node ∈ nodes, node ∈ graph.nodes) → ∀ node ∈ nodes, ∀ member, motive node member by
    exact general graph.nodes.reverse wellFormed.declared (fun _ => List.mem_reverse.mp) node
      (List.mem_reverse.mpr member) member
  intro nodes declared within
  induction declared with
  | nil => simp
  | @cons last earlier _ enclosed _ ih =>
    have settled := ih fun node member => within node (List.mem_cons_of_mem _ member)
    intro node listed member
    rcases List.mem_cons.mp listed with rfl | found
    · cases inside : node.parent with
      | none => exact root node member inside
      | some outer =>
        obtain ⟨parent, found, rfl⟩ := enclosed outer inside
        have parentMember := within parent (List.mem_cons_of_mem _ found)
        exact inner node member parent parentMember inside (settled parent found parentMember)
    · exact settled node found member

theorem ancestors_subset (graph : Graph α) (path : String) :
    ∀ outer ∈ graph.ancestors path, outer ∈ graph.nodes := by
  intro outer member
  unfold ancestors at member
  split at member
  · cases member
  · exact List.mem_reverse.mp ((outward_sublist _ _).subset member)

theorem lineage_subset (graph : Graph α) (path : String) :
    ∀ outer ∈ graph.lineage path, outer ∈ graph.nodes := by
  intro outer member
  rcases List.mem_append.mp member with self | around
  · rw [Option.mem_toList] at self
    exact List.mem_of_find?_eq_some self
  · exact ancestors_subset graph path outer around

/-- Nothing outside the graph is around a node, so the number of nodes bounds every depth. -/
theorem depth_le (graph : Graph α) (path : String) : graph.depth path ≤ graph.nodes.length := by
  unfold depth ancestors
  split
  next absent => exact Nat.zero_le _
  next node found =>
    have bound := (outward_sublist graph.nodes.reverse node.parent).length_le
    rwa [List.length_reverse] at bound

theorem depth_root (wellFormed : graph.WellFormed) {node : Node α} (member : node ∈ graph.nodes)
    (outermost : node.parent = none) : graph.depth node.path = 0 := by
  simp [depth, wellFormed.ancestors_root member outermost]

theorem depth_inner (wellFormed : graph.WellFormed) {node outer : Node α}
    (member : node ∈ graph.nodes) (outerMember : outer ∈ graph.nodes)
    (inside : node.parent = some outer.path) :
    graph.depth node.path = graph.depth outer.path + 1 := by
  simp [depth, wellFormed.ancestors_inner member outerMember inside]

theorem depth_of_siblings (wellFormed : graph.WellFormed) {first second : Node α}
    (firstMember : first ∈ graph.nodes) (secondMember : second ∈ graph.nodes)
    (siblings : first.parent = second.parent) :
    graph.depth first.path = graph.depth second.path := by
  cases inside : second.parent with
  | none =>
    rw [wellFormed.depth_root secondMember inside,
      wellFormed.depth_root firstMember (siblings.trans inside)]
  | some outer =>
    obtain ⟨parent, parentMember, rfl⟩ := wellFormed.parent_mem secondMember inside
    rw [wellFormed.depth_inner secondMember parentMember inside,
      wellFormed.depth_inner firstMember parentMember (siblings.trans inside)]

/-- What holds of a node when it holds of its children holds of all nodes. -/
theorem inward_induction (wellFormed : graph.WellFormed)
    {motive : (node : Node α) → node ∈ graph.nodes → Prop}
    (step : ∀ node member, (∀ child childMember, child.parent = some node.path →
      motive child childMember) → motive node member)
    (node : Node α) (member : node ∈ graph.nodes) : motive node member := by
  suffices general : ∀ rest : Nat, ∀ node member,
      graph.nodes.length - graph.depth node.path = rest → motive node member by
    exact general _ node member rfl
  intro rest
  induction rest using Nat.strongRecOn with
  | ind rest ih =>
    intro node member distance
    apply step node member
    intro child childMember inside
    have deeper := wellFormed.depth_inner childMember member inside
    have bound := depth_le graph child.path
    exact ih (graph.nodes.length - graph.depth child.path) (by omega) child childMember rfl

theorem lineage_trans (wellFormed : graph.WellFormed) {outer middle inner : Node α}
    (member : inner ∈ graph.nodes) (first : middle ∈ graph.lineage inner.path)
    (second : outer ∈ graph.lineage middle.path) : outer ∈ graph.lineage inner.path := by
  induction inner, member using wellFormed.outward_induction with
  | root inner member outermost =>
    rw [wellFormed.lineage_eq member, wellFormed.ancestors_root member outermost,
      List.mem_singleton] at first
    rwa [first] at second
  | inner inner member parent parentMember inside ih =>
    rw [wellFormed.lineage_inner member parentMember inside] at first ⊢
    rcases List.mem_cons.mp first with rfl | around
    · rwa [wellFormed.lineage_inner member parentMember inside] at second
    · exact List.mem_cons_of_mem _ (ih around)

theorem lineage_total (wellFormed : graph.WellFormed) {first second inner : Node α}
    (member : inner ∈ graph.nodes) (firstAround : first ∈ graph.lineage inner.path)
    (secondAround : second ∈ graph.lineage inner.path) :
    first ∈ graph.lineage second.path ∨ second ∈ graph.lineage first.path := by
  induction inner, member using wellFormed.outward_induction with
  | root inner member outermost =>
    rw [wellFormed.lineage_eq member, wellFormed.ancestors_root member outermost,
      List.mem_singleton] at firstAround secondAround
    rw [firstAround, secondAround]
    exact .inl (wellFormed.mem_lineage_self member)
  | inner inner member parent parentMember inside ih =>
    rw [wellFormed.lineage_inner member parentMember inside, List.mem_cons]
      at firstAround secondAround
    rcases firstAround with rfl | firstAround
    · right
      rw [wellFormed.lineage_inner member parentMember inside]
      exact List.mem_cons.mpr secondAround
    · rcases secondAround with rfl | secondAround
      · left
        rw [wellFormed.lineage_inner member parentMember inside]
        exact List.mem_cons_of_mem _ firstAround
      · exact ih firstAround secondAround

theorem depth_lt (wellFormed : graph.WellFormed) {outer inner : Node α}
    (member : inner ∈ graph.nodes) (around : outer ∈ graph.ancestors inner.path) :
    graph.depth outer.path < graph.depth inner.path := by
  induction inner, member using wellFormed.outward_induction with
  | root inner member outermost =>
    rw [wellFormed.ancestors_root member outermost] at around
    cases around
  | inner inner member parent parentMember inside ih =>
    rw [wellFormed.ancestors_inner member parentMember inside] at around
    have deeper := wellFormed.depth_inner member parentMember inside
    rcases List.mem_cons.mp around with rfl | further
    · omega
    · have shallower := ih further
      omega

/-- The chain around a node passes through the scope of every node on it, and through the
outermost scope. -/
theorem exists_mem_lineage (wellFormed : graph.WellFormed) {container : Option String}
    {inner : Node α} (member : inner ∈ graph.nodes)
    (around : container = none ∨
      ∃ outer ∈ graph.ancestors inner.path, container = some outer.path) :
    ∃ passed ∈ graph.lineage inner.path, passed.parent = container := by
  induction inner, member using wellFormed.outward_induction with
  | root inner member outermost =>
    refine ⟨inner, wellFormed.mem_lineage_self member, ?_⟩
    rcases around with rfl | ⟨outer, found, -⟩
    · exact outermost
    · rw [wellFormed.ancestors_root member outermost] at found
      cases found
  | inner inner member parent parentMember inside ih =>
    rw [wellFormed.lineage_inner member parentMember inside]
    have passOn : (∃ passed ∈ graph.lineage parent.path, passed.parent = container) →
        ∃ passed ∈ inner :: graph.lineage parent.path, passed.parent = container :=
      fun ⟨passed, onward, same⟩ => ⟨passed, List.mem_cons_of_mem _ onward, same⟩
    rcases around with rfl | ⟨outer, found, rfl⟩
    · exact passOn (ih (.inl rfl))
    · rw [wellFormed.ancestors_inner member parentMember inside] at found
      rcases List.mem_cons.mp found with rfl | further
      · exact ⟨inner, List.mem_cons_self, inside⟩
      · exact passOn (ih (.inr ⟨outer, further, rfl⟩))

theorem isAncestor_iff (wellFormed : graph.WellFormed) {outer : Node α}
    (member : outer ∈ graph.nodes) (inner : String) :
    graph.isAncestor outer.path inner = true ↔ outer ∈ graph.ancestors inner := by
  simp only [isAncestor, List.any_eq_true, decide_eq_true_eq]
  constructor
  · rintro ⟨other, around, same⟩
    rwa [← wellFormed.eq_of_path (ancestors_subset graph inner other around) member same]
  · intro around
    exact ⟨outer, around, rfl⟩

end Graph.WellFormed

namespace Graph

/-- Two paths of which neither is the other one or around it. -/
def Apart (graph : Graph α) (first second : String) : Prop :=
  first ≠ second ∧ graph.isAncestor first second = false ∧ graph.isAncestor second first = false

theorem WellFormed.mem_lineage_iff {graph : Graph α} (wellFormed : graph.WellFormed)
    {outer inner : Node α} (outerMember : outer ∈ graph.nodes) (innerMember : inner ∈ graph.nodes) :
    outer ∈ graph.lineage inner.path ↔
      outer.path = inner.path ∨ graph.isAncestor outer.path inner.path = true := by
  rw [wellFormed.lineage_eq innerMember, List.mem_cons, wellFormed.isAncestor_iff outerMember]
  constructor
  · exact .imp_left (congrArg Node.path)
  · exact .imp_left (wellFormed.eq_of_path outerMember innerMember)

theorem WellFormed.apart_iff {graph : Graph α} (wellFormed : graph.WellFormed)
    {first second : Node α} (firstMember : first ∈ graph.nodes) (secondMember : second ∈ graph.nodes) :
    graph.Apart first.path second.path ↔
      first ∉ graph.lineage second.path ∧ second ∉ graph.lineage first.path := by
  rw [wellFormed.mem_lineage_iff firstMember secondMember,
    wellFormed.mem_lineage_iff secondMember firstMember]
  unfold Apart
  grind

/-- The chains around two nodes apart pass through two different members of one scope. -/
theorem WellFormed.exists_siblings {graph : Graph α} (wellFormed : graph.WellFormed)
    {first second : Node α} (firstMember : first ∈ graph.nodes) (secondMember : second ∈ graph.nodes)
    (apart : graph.Apart first.path second.path) :
    ∃ left ∈ graph.lineage first.path, ∃ right ∈ graph.lineage second.path,
      left.path ≠ right.path ∧ left.parent = right.parent := by
  induction first, firstMember using wellFormed.outward_induction with
  | root first member outermost =>
    have firstOff := ((wellFormed.apart_iff member secondMember).mp apart).1
    obtain ⟨root, around, sameScope⟩ := wellFormed.exists_mem_lineage secondMember (.inl rfl)
    refine ⟨first, wellFormed.mem_lineage_self member, root, around, ?_,
      outermost.trans sameScope.symm⟩
    intro same
    have equal := wellFormed.eq_of_path member (lineage_subset graph _ root around) same
    exact firstOff (equal ▸ around)
  | inner first member parent parentMember inside ih =>
    obtain ⟨firstOff, secondOff⟩ := (wellFormed.apart_iff member secondMember).mp apart
    rw [wellFormed.lineage_inner member parentMember inside] at secondOff ⊢
    have secondOffParent : second ∉ graph.lineage parent.path := fun around =>
      secondOff (List.mem_cons_of_mem _ around)
    by_cases parentAround : parent ∈ graph.lineage second.path
    · -- The chain around `second` passes through the scope of `first`.
      have strictly : parent ∈ graph.ancestors second.path := by
        rw [wellFormed.lineage_eq secondMember] at parentAround
        rcases List.mem_cons.mp parentAround with rfl | around
        · exact absurd (wellFormed.mem_lineage_self parentMember) secondOffParent
        · exact around
      obtain ⟨right, around, sameScope⟩ :=
        wellFormed.exists_mem_lineage secondMember (.inr ⟨parent, strictly, rfl⟩)
      refine ⟨first, List.mem_cons_self, right, around, ?_, inside.trans sameScope.symm⟩
      intro same
      have equal := wellFormed.eq_of_path member (lineage_subset graph _ right around) same
      exact firstOff (equal ▸ around)
    · have apart := (wellFormed.apart_iff parentMember secondMember).mpr
        ⟨parentAround, secondOffParent⟩
      obtain ⟨left, leftAround, found⟩ := ih apart
      exact ⟨left, List.mem_cons_of_mem _ leftAround, found⟩

end Graph

end BoxDiagram
