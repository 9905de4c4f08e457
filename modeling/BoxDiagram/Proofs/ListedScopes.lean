import BoxDiagram.Proofs.Lifting
import BoxDiagram.Proofs.Scopes

/-!
The list of scopes as a schedule. It parts the nodes that are inside no other or right inside a container,
each into the scope of its parent, and leaves out the others, which a leaf has inside it. Whoever works
through the list knows of a container what its own scope gives before the container comes up as a member,
and comes to the outermost scope in the end.
-/

namespace BoxDiagram.Graph

variable {α : Type} {graph : Graph α}

theorem scope_mem_scopes_of_inside {outer inner : Node α} (isContainer : outer.isContainer = true)
    (outerMember : outer ∈ graph.nodes) (innerMember : inner ∈ graph.nodes)
    (inside : inner.parent = some outer.path) : graph.scope (some outer.path) ∈ graph.scopes := by
  rw [← inside]
  exact (scope_mem_scopes_iff innerMember).mpr (.inr ⟨outer, outerMember, inside, isContainer⟩)

theorem scope_none_mem_scopes_iff :
    graph.scope none ∈ graph.scopes ↔ ∃ node ∈ graph.nodes, node.parent = none := by
  constructor
  · intro listed
    obtain ⟨path, first⟩ := List.exists_mem_of_ne_nil _ (members_ne_nil listed)
    obtain ⟨node, member, outermost, -⟩ := mem_scope_iff.mp first
    exact ⟨node, member, outermost⟩
  · rintro ⟨node, member, outermost⟩
    rw [← outermost]
    exact (scope_mem_scopes_iff member).mpr (.inl outermost)

theorem eq_length_of_container_none {place : Nat} {scope : Scope}
    (found : graph.scopes[place]? = some scope) (outermost : scope.container = none) :
    place + 1 = graph.scopes.length := by
  rw [scopes_eq_mergeSort] at found ⊢
  generalize owned : List.map (fun container : Node α => graph.scope (some container.path)) _ = inner
    at found ⊢
  have behind : inner.length ≤ place := by
    by_contra within
    rw [List.getElem?_append_left (Nat.lt_of_not_le within)] at found
    have listed := List.mem_of_getElem? found
    rw [← owned] at listed
    obtain ⟨container, -, rfl⟩ := List.mem_map.mp listed
    exact nomatch outermost
  rw [List.getElem?_append_right behind] at found
  split at found
  next => simp at found
  next inhabited =>
    obtain ⟨last, -⟩ := List.getElem?_eq_some_iff.mp found
    rw [List.length_append, if_neg inhabited, List.length_singleton]
    rw [List.length_singleton] at last
    omega

namespace WellFormed

variable (wellFormed : graph.WellFormed)
include wellFormed

theorem nodup_scopes : graph.scopes.Nodup :=
  wellFormed.pairwise_scopes.imp fun before same => before.1 (congrArg Scope.container same)

theorem path_mem_members_iff {node : Node α} (member : node ∈ graph.nodes) {scope : Scope}
    (listed : scope ∈ graph.scopes) :
    node.path ∈ scope.members ↔ scope = graph.scope node.parent := by
  rw [mem_members_of_listed listed]
  constructor
  · rintro ⟨other, otherMember, inside, same⟩
    rw [← wellFormed.eq_of_path otherMember member same, inside, scope_container listed]
  · rintro rfl
    exact ⟨node, member, rfl, rfl⟩

/-- A node that stands in a scope is a member of one scope of the list, which is there once. -/
theorem filter_scopes {node : Node α} (member : node ∈ graph.nodes) (stands : graph.StandsInScope node) :
    graph.scopes.filter (node.path ∈ ·.members) = [graph.scope node.parent] := by
  have nodup : (graph.scopes.filter (node.path ∈ ·.members)).Nodup := wellFormed.nodup_scopes.filter _
  refine List.perm_singleton.mp ((List.perm_ext_iff_of_nodup nodup (List.nodup_singleton _)).mpr ?_)
  intro scope
  rw [List.mem_filter, decide_eq_true_eq, List.mem_singleton]
  constructor
  · rintro ⟨listed, inside⟩
    exact (wellFormed.path_mem_members_iff member listed).mp inside
  · rintro rfl
    have listed := (scope_mem_scopes_iff member).mpr stands
    exact ⟨listed, (wellFormed.path_mem_members_iff member listed).mpr rfl⟩

theorem container_notMem_members {scope : Scope} (listed : scope ∈ graph.scopes) {container : String}
    (owned : scope.container = some container) : container ∉ scope.members := by
  intro inside
  obtain ⟨node, member, parent, rfl⟩ := (mem_members_of_listed listed).mp inside
  have deeper := wellFormed.depth_inner member member (parent.trans owned)
  omega

/-- The scope of a container comes before the scope that has the container as a member. -/
theorem scope_before {inner outer : Scope} {early late : Nat} {container : String}
    (innerFound : graph.scopes[early]? = some inner) (outerFound : graph.scopes[late]? = some outer)
    (owned : inner.container = some container) (inside : container ∈ outer.members) : early < late := by
  obtain ⟨earlyBound, innerThere⟩ := List.getElem?_eq_some_iff.mp innerFound
  obtain ⟨lateBound, outerThere⟩ := List.getElem?_eq_some_iff.mp outerFound
  rcases Nat.lt_trichotomy early late with before | same | behind
  · exact before
  · subst same
    obtain rfl : inner = outer := innerThere.symm.trans outerThere
    exact absurd inside (wellFormed.container_notMem_members (List.mem_of_getElem? outerFound) owned)
  · have order := List.pairwise_iff_getElem.mp wellFormed.pairwise_scopes late early lateBound earlyBound behind
    rw [innerThere, outerThere] at order
    exact absurd inside (order.2 container owned)

/-- Every scope of the list has members, which are the nodes with its owner for a parent, in the order of
declaration. A node that is inside no other or right inside a container is a member of one scope, that of
its parent, and there are no other members. A container with something inside has a scope in the list,
which comes before the scope that has the container as a member. The outermost scope is in the list
exactly when some node is inside no other, and then it is the last one. -/
theorem scopes_inward :
    (∀ scope ∈ graph.scopes, scope.members ≠ [] ∧
      scope.members = (graph.nodes.filter (·.parent = scope.container)).map Node.path) ∧
    (∀ node ∈ graph.nodes, graph.StandsInScope node →
      graph.scopes.filter (node.path ∈ ·.members) = [graph.scope node.parent]) ∧
    (∀ scope ∈ graph.scopes, scope.members.Nodup ∧ ∀ path ∈ scope.members,
      ∃ node ∈ graph.nodes, node.path = path ∧ node.parent = scope.container ∧
        graph.StandsInScope node) ∧
    (∀ outer ∈ graph.nodes, outer.isContainer = true →
      (∃ inner ∈ graph.nodes, inner.parent = some outer.path) →
        graph.scope (some outer.path) ∈ graph.scopes) ∧
    (∀ (early late : Nat) (inner outer : Scope) (container : String), graph.scopes[early]? = some inner →
      graph.scopes[late]? = some outer → inner.container = some container →
        container ∈ outer.members → early < late) ∧
    (graph.scope none ∈ graph.scopes ↔ ∃ node ∈ graph.nodes, node.parent = none) ∧
    ∀ (place : Nat) (scope : Scope), graph.scopes[place]? = some scope → scope.container = none →
      place + 1 = graph.scopes.length := by
  refine ⟨fun scope listed => ⟨members_ne_nil listed, ?_⟩, fun _ => wellFormed.filter_scopes,
    fun scope listed => ⟨?_, fun path inside => ?_⟩, ?_, fun _ _ _ _ _ => wellFormed.scope_before,
    scope_none_mem_scopes_iff, fun _ _ => eq_length_of_container_none⟩
  · exact congrArg Scope.members (scope_container listed).symm
  · rw [← scope_container listed]
    exact wellFormed.nodup_scope scope.container
  · obtain ⟨node, member, parent, rfl⟩ := (mem_members_of_listed listed).mp inside
    have own := (wellFormed.path_mem_members_iff member listed).mp inside
    exact ⟨node, member, rfl, parent, (scope_mem_scopes_iff member).mp (own ▸ listed)⟩
  · rintro outer member isContainer ⟨inner, innerMember, inside⟩
    exact scope_mem_scopes_of_inside isContainer member innerMember inside

end WellFormed

theorem sunkenBox_scopes :
    sunkenBox.WellFormed ∧
      sunkenBox.scopes.filter ("Out.Leaf.Box.In" ∈ ·.members) =
        [sunkenBox.scope (some "Out.Leaf.Box")] ∧
      ∃ early late : Nat, sunkenBox.scopes[early]? = some (sunkenBox.scope (some "Out")) ∧
        sunkenBox.scopes[late]? = some (sunkenBox.scope none) ∧ early < late := by
  obtain ⟨-, once, -, -, inward, -⟩ := sunkenBox_wellFormed.scopes_inward
  let sunk := sunkenBox.nodes.get ⟨3, by decide⟩
  have stands : sunkenBox.StandsInScope sunk :=
    .inr ⟨sunkenBox.nodes.get ⟨2, by decide⟩, by decide, rfl, rfl⟩
  have out : sunkenBox.scopes[1]? = some (sunkenBox.scope (some "Out")) := by decide +kernel
  have outermost : sunkenBox.scopes[2]? = some (sunkenBox.scope none) := by decide +kernel
  exact ⟨sunkenBox_wellFormed, once sunk (by decide) stands, 1, 2, out, outermost,
    inward 1 2 _ _ "Out" out outermost rfl (by decide +kernel)⟩

/-- The box in the leaf has a scope but is in none. -/
example : sunkenBox.scopes =
    [⟨some "Out.Leaf.Box", ["Out.Leaf.Box.In"]⟩, ⟨some "Out", ["Out.Leaf"]⟩, ⟨none, ["Out", "Free"]⟩] := by
  decide +kernel

end BoxDiagram.Graph
