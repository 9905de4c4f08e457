import BoxDiagram.Proofs.ForwardEdges
import BoxDiagram.Proofs.SearchTrace

/-!
Back edges are blamed for a reason. Every back edge has a constraint on a closed chain, so there is none
where the constraints have no cycle, and edges to a node itself or to a node around it have no
constraints at all. Where the ends of every edge have one atom each, a back edge has one constraint, and
the search came down from its target to its source over edges that it did not flag: no back edge could be
spared, and of a single loop one edge is left out.
-/

namespace BoxDiagram.Graph

open Relation

variable {α : Type} {graph : Graph α}

/-- Every end of an edge has one atom. -/
def SingleAtoms (graph : Graph α) : Prop :=
  ∀ edge ∈ graph.edges, (∃ atom, graph.atomsBelow edge.source = [atom]) ∧
    ∃ atom, graph.atomsBelow edge.target = [atom]

def LeadsOn (graph : Graph α) (first second : String) : Prop :=
  ∃ index edge, graph.edges[index]? = some edge ∧ graph.ranking.isBackEdge index = false ∧
    graph.atomsBelow edge.source = [first] ∧ graph.atomsBelow edge.target = [second]

def constraintsWithout (graph : Graph α) (dropped : List Nat) : List Constraint :=
  graph.constraints.filter fun constraint => !dropped.contains constraint.edge

theorem mem_constraintsWithout {dropped : List Nat} {constraint : Constraint} :
    constraint ∈ graph.constraintsWithout dropped ↔
      constraint ∈ graph.constraints ∧ constraint.edge ∉ dropped := by
  simp [constraintsWithout]

theorem isBackEdge_eq_false {index : Nat} :
    graph.ranking.isBackEdge index = false ↔ index ∉ graph.backEdges := by
  simp [Ranking.isBackEdge, ranking]

theorem constraint_distinct {constraint : Constraint} (member : constraint ∈ graph.constraints) :
    constraint.source ≠ constraint.target := by
  obtain ⟨edge, -, apart, source, target⟩ := mem_constraints_iff.mp member
  exact fun same => apart _ source (same ▸ target)

theorem traced_search (graph : Graph α) :
    Search.Traced graph.constraints [] (Search.visitAll graph.constraints graph.atoms) :=
  Search.traced_visitAll (fun _ => constraint_distinct) graph.atoms

/-- A back edge has a constraint that leads back. -/
theorem leadsBack_of_mem {index : Nat} (member : index ∈ graph.backEdges) :
    ∃ constraint, constraint.edge = index ∧ Search.LeadsBack graph.constraints
      (Search.visitAll graph.constraints graph.atoms).done constraint :=
  graph.traced_search.flagged index (mem_backEdges_iff.mp member).2

theorem exists_cycle {index : Nat} (member : index ∈ graph.backEdges) :
    ∃ constraint rest, constraint.edge = index ∧
      Constraint.Chain graph.constraints constraint.source (constraint :: rest) constraint.source := by
  obtain ⟨constraint, same, back⟩ := leadsBack_of_mem member
  obtain ⟨rest, closed⟩ := Constraint.exists_closed back.member back.reaches
  exact ⟨constraint, rest, same, closed⟩

theorem backEdges_of_acyclic (acyclic : Acyclic graph.constraints) : graph.backEdges = [] := by
  apply List.eq_nil_iff_forall_not_mem.mpr
  intro index member
  obtain ⟨constraint, rest, -, closed⟩ := exists_cycle member
  exact closed.not_acyclic (List.cons_ne_nil _ _) acyclic

theorem WellFormed.mem_atomsBelow_of_isAncestor (wellFormed : graph.WellFormed) {outer inner atom : String}
    (around : graph.isAncestor outer inner = true) (below : atom ∈ graph.atomsBelow inner) :
    atom ∈ graph.atomsBelow outer := by
  obtain ⟨known, middle, middleAround, rfl⟩ := mem_atomsBelow_iff.mp below
  obtain ⟨node, nodeMember, -, rfl⟩ := mem_atoms.mp known
  simp only [isAncestor, List.any_eq_true, decide_eq_true_eq] at around
  obtain ⟨upper, upperAround, rfl⟩ := around
  refine mem_atomsBelow_iff.mpr ⟨known, upper, ?_, rfl⟩
  apply wellFormed.lineage_trans nodeMember middleAround
  exact List.mem_append_right _ upperAround

theorem WellFormed.not_constraint (wellFormed : graph.WellFormed) {constraint : Constraint} {edge : Edge}
    (found : graph.edges[constraint.edge]? = some edge)
    (related : edge.source = edge.target ∨ graph.isAncestor edge.source edge.target = true ∨
      graph.isAncestor edge.target edge.source = true) : constraint ∉ graph.constraints := by
  intro member
  obtain ⟨other, again, apart, source, target⟩ := mem_constraints_iff.mp member
  cases found.symm.trans again
  rcases related with same | around | around
  · exact apart _ source (same ▸ source)
  · exact apart _ (wellFormed.mem_atomsBelow_of_isAncestor around target) target
  · exact apart _ source (wellFormed.mem_atomsBelow_of_isAncestor around source)

section SingleAtoms

variable (single : graph.SingleAtoms)
include single

theorem SingleAtoms.edge_of_mem {constraint : Constraint} (member : constraint ∈ graph.constraints) :
    ∃ edge, graph.edges[constraint.edge]? = some edge ∧
      graph.atomsBelow edge.source = [constraint.source] ∧
      graph.atomsBelow edge.target = [constraint.target] := by
  obtain ⟨edge, found, -, source, target⟩ := mem_constraints_iff.mp member
  obtain ⟨⟨first, sources⟩, second, targets⟩ := single edge (List.mem_of_getElem? found)
  rw [sources, List.mem_singleton] at source
  rw [targets, List.mem_singleton] at target
  exact ⟨edge, found, source ▸ sources, target ▸ targets⟩

theorem SingleAtoms.constraint_unique (left : Constraint) (leftMember : left ∈ graph.constraints)
    (right : Constraint) (rightMember : right ∈ graph.constraints) (same : left.edge = right.edge) :
    left = right := by
  obtain ⟨edge, found, leftSource, leftTarget⟩ := single.edge_of_mem leftMember
  obtain ⟨other, again, rightSource, rightTarget⟩ := single.edge_of_mem rightMember
  rw [← same, found] at again
  cases again
  obtain ⟨source, target, index⟩ := left
  rw [leftSource] at rightSource
  rw [leftTarget] at rightTarget
  cases rightSource
  cases rightTarget
  cases same
  rfl

theorem SingleAtoms.kept_of_descends {first second : String}
    (descends : Search.Descends graph.constraints
      (Search.visitAll graph.constraints graph.atoms).done first second) :
    Precedes graph.keptConstraints first second := by
  obtain ⟨⟨constraint, member, rfl, rfl⟩, onward⟩ := descends
  have free := graph.traced_search.unflagged single.constraint_unique member onward
  exact ⟨constraint,
    mem_keptConstraints_iff.mpr ⟨member, fun back => free (mem_backEdges_iff.mp back).2⟩, rfl, rfl⟩

/-- From the target of a back edge kept constraints lead to its source. -/
theorem SingleAtoms.kept_path {index : Nat} (member : index ∈ graph.backEdges) :
    ∃ constraint ∈ graph.constraints, constraint.edge = index ∧
      ReflTransGen (Precedes graph.keptConstraints) constraint.target constraint.source := by
  obtain ⟨constraint, same, back⟩ := leadsBack_of_mem member
  exact ⟨constraint, back.member, same,
    ReflTransGen.mono (fun _ _ => single.kept_of_descends) _ _ back.descent⟩

theorem SingleAtoms.leadsOn_of_kept {first second : String}
    (step : Precedes graph.keptConstraints first second) : graph.LeadsOn first second := by
  obtain ⟨constraint, kept, rfl, rfl⟩ := step
  obtain ⟨member, free⟩ := mem_keptConstraints_iff.mp kept
  obtain ⟨edge, found, source, target⟩ := single.edge_of_mem member
  exact ⟨constraint.edge, edge, found, isBackEdge_eq_false.mpr free, source, target⟩

theorem SingleAtoms.exists_path {index : Nat} (member : index ∈ graph.backEdges) :
    ∃ edge first last, graph.edges[index]? = some edge ∧ graph.atomsBelow edge.source = [first] ∧
      graph.atomsBelow edge.target = [last] ∧ TransGen graph.LeadsOn last first := by
  obtain ⟨constraint, known, rfl, path⟩ := single.kept_path member
  obtain ⟨edge, found, source, target⟩ := single.edge_of_mem known
  refine ⟨edge, constraint.source, constraint.target, found, source, target, ?_⟩
  have led : ReflTransGen graph.LeadsOn constraint.target constraint.source :=
    ReflTransGen.mono (fun _ _ => single.leadsOn_of_kept) _ _ path
  exact (reflTransGen_iff_eq_or_transGen.mp led).resolve_left (constraint_distinct known)

theorem SingleAtoms.subset_of_acyclic {dropped : List Nat} (fewer : dropped ⊆ graph.backEdges)
    (acyclic : Acyclic (graph.constraintsWithout dropped)) : graph.backEdges ⊆ dropped := by
  intro index member
  by_contra spared
  obtain ⟨constraint, known, rfl, path⟩ := single.kept_path member
  have own : constraint ∈ graph.constraintsWithout dropped := mem_constraintsWithout.mpr ⟨known, spared⟩
  have onward : ReflTransGen (Precedes (graph.constraintsWithout dropped)) constraint.target
      constraint.source := by
    refine ReflTransGen.mono ?_ _ _ path
    rintro _ _ ⟨other, kept, source, target⟩
    obtain ⟨otherKnown, free⟩ := mem_keptConstraints_iff.mp kept
    exact ⟨other, mem_constraintsWithout.mpr ⟨otherKnown, fun out => free (fewer out)⟩, source, target⟩
  exact acyclic _ (TransGen.head' ⟨constraint, own, rfl, rfl⟩ onward)

end SingleAtoms

/-- Along a chain of constraints of which each is the only one in a cycle at its source, kept constraints
can only follow the chain. -/
theorem unflagged_of_path {loop : List Constraint}
    (around : ∀ first cycle, Constraint.Chain graph.constraints first cycle first → cycle ⊆ loop)
    (simple : ∀ left ∈ loop, ∀ right ∈ loop, left.source = right.source → left = right)
    {first last : String} {rest : List Constraint}
    (led : Constraint.Chain graph.constraints first rest last) (within : rest ⊆ loop)
    (fresh : ∀ constraint ∈ rest, constraint.source ≠ last)
    (path : ReflTransGen (Precedes graph.keptConstraints) first last)
    (back : ReflTransGen (Precedes graph.constraints) last first) :
    ∀ constraint ∈ rest, constraint.edge ∉ graph.backEdges := by
  induction led with
  | nil => exact List.forall_mem_nil _
  | @cons constraint rest last member onward ih =>
    obtain ⟨own, others⟩ := List.cons_subset.mp within
    obtain ⟨off, further⟩ := List.forall_mem_cons.mp fresh
    rcases ReflTransGen.cases_head path with same | ⟨next, ⟨step, kept, source, rfl⟩, path⟩
    · exact absurd same off
    · obtain ⟨stepMember, free⟩ := mem_keptConstraints_iff.mp kept
      have known : ReflTransGen (Precedes graph.constraints) step.target last := by
        refine ReflTransGen.mono ?_ _ _ path
        rintro _ _ ⟨other, kept, ends⟩
        exact ⟨other, (mem_keptConstraints_iff.mp kept).1, ends⟩
      obtain ⟨closing, closed⟩ := Constraint.exists_closed stepMember (source ▸ known.trans back)
      have inside : step ∈ loop := around _ _ closed List.mem_cons_self
      cases simple step inside constraint own source
      have rejoined : ReflTransGen (Precedes graph.constraints) last constraint.target :=
        back.tail ⟨constraint, member, rfl, rfl⟩
      exact List.forall_mem_cons.mpr ⟨free, ih others further path rejoined⟩

/-- One edge of a loop is left out when the constraints have no other cycle. -/
theorem SingleAtoms.loop_loses_one (single : graph.SingleAtoms) {loop : List Constraint}
    (closes : Constraint.Loop graph.constraints loop)
    (around : ∀ first cycle, Constraint.Chain graph.constraints first cycle first → cycle ⊆ loop) :
    ∃ constraint ∈ loop, graph.backEdges = [constraint.edge] := by
  have simple : ∀ left ∈ loop, ∀ right ∈ loop, left.source = right.source → left = right :=
    fun left leftMember right rightMember =>
      List.inj_on_of_nodup_map closes.simple leftMember rightMember
  obtain ⟨atom, closed⟩ := closes.closed
  -- Some edge is flagged, as the loop would be a cycle of kept constraints otherwise.
  obtain ⟨index, flagged⟩ : ∃ index, index ∈ graph.backEdges := by
    by_contra! none
    have kept : loop ⊆ graph.keptConstraints := fun constraint member =>
      mem_keptConstraints_iff.mpr ⟨closed.subset member, none constraint.edge⟩
    exact (closed.of_subset kept).not_acyclic closes.inhabited graph.acyclic_keptConstraints
  obtain ⟨constraint, known, rfl, path⟩ := single.kept_path flagged
  have inLoop : ∀ other ∈ graph.constraints, other.edge ∈ graph.backEdges → other ∈ loop := by
    intro other member back
    obtain ⟨same, cycle, edges, closed⟩ := exists_cycle back
    have inside := closed.subset List.mem_cons_self
    cases single.constraint_unique other member same inside edges.symm
    exact around _ _ closed List.mem_cons_self
  have own : constraint ∈ loop := inLoop constraint known flagged
  obtain ⟨rest, led, whole⟩ := closes.exists_rest own
  have nodup := (whole.map Constraint.source).nodup_iff.mp closes.simple
  have fresh : ∀ other ∈ rest, other.source ≠ constraint.source := by
    intro other member same
    exact (List.nodup_cons.mp nodup).1 (same ▸ List.mem_map_of_mem member)
  have others := unflagged_of_path around simple led
    (fun other member => whole.mem_iff.mpr (List.mem_cons_of_mem _ member)) fresh path
    (.single ⟨constraint, known, rfl, rfl⟩)
  refine ⟨constraint, own, ?_⟩
  have alone : ∀ index ∈ graph.backEdges, index = constraint.edge := by
    intro index member
    obtain ⟨other, otherKnown, rfl, -⟩ := single.kept_path member
    rcases List.mem_cons.mp (whole.mem_iff.mp (inLoop other otherKnown member)) with rfl | later
    · rfl
    · exact absurd member (others other later)
  have nodup : graph.backEdges.Nodup := List.nodup_range.filter _
  exact List.perm_singleton.mp ((List.perm_ext_iff_of_nodup nodup (List.nodup_singleton _)).mpr
    fun index => by
      rw [List.mem_singleton]
      exact ⟨alone index, fun same => same ▸ flagged⟩)

/-- Only edges that close a cycle are left out of the ranking: none where the constraints have no cycle,
none without a constraint on a cycle, and none between a node and itself or a node around it. Where every
end has one atom, none could be spared, since the others lead from its target to its source; so a single
loop loses one edge. -/
theorem WellFormed.backEdges_blamed (wellFormed : graph.WellFormed) :
    (Acyclic graph.constraints → graph.ranking.backEdges = []) ∧
      (∀ index ∈ graph.ranking.backEdges, ∃ constraint rest, constraint.edge = index ∧
        Constraint.Chain graph.constraints constraint.source (constraint :: rest) constraint.source) ∧
      (∀ index edge, graph.edges[index]? = some edge →
        (edge.source = edge.target ∨ graph.isAncestor edge.source edge.target = true ∨
          graph.isAncestor edge.target edge.source = true) →
            graph.ranking.isBackEdge index = false) ∧
      (graph.SingleAtoms →
        (∀ index ∈ graph.ranking.backEdges, ∃ edge first last, graph.edges[index]? = some edge ∧
          graph.atomsBelow edge.source = [first] ∧ graph.atomsBelow edge.target = [last] ∧
            TransGen graph.LeadsOn last first) ∧
        (∀ dropped, dropped ⊆ graph.ranking.backEdges →
          Acyclic (graph.constraintsWithout dropped) → graph.ranking.backEdges ⊆ dropped) ∧
        ∀ loop, Constraint.Loop graph.constraints loop →
          (∀ first cycle, Constraint.Chain graph.constraints first cycle first → cycle ⊆ loop) →
            ∃ constraint ∈ loop, graph.ranking.backEdges = [constraint.edge]) := by
  refine ⟨backEdges_of_acyclic, fun index => exists_cycle, ?_, ?_⟩
  · intro index edge found related
    apply isBackEdge_eq_false.mpr
    intro member
    obtain ⟨constraint, rest, rfl, closed⟩ := exists_cycle member
    exact wellFormed.not_constraint found related (closed.subset List.mem_cons_self)
  · intro single
    exact ⟨fun index => single.exists_path, fun dropped => single.subset_of_acyclic,
      fun loop => single.loop_loses_one⟩

/-- A loop of three edges, two of them to and from a box around one leaf, and an edge into that box. -/
def ring : Graph Nat where
  nodes := [boxedLoop.node ⟨none, "Box"⟩ .container none,
    boxedLoop.node ⟨some "Box", "In"⟩ .leaf (some "Box"), boxedLoop.node ⟨none, "Out"⟩ .leaf none,
    boxedLoop.node ⟨none, "End"⟩ .leaf none]
  edges := [boxedLoop.edge "Box" "Out" .directed, boxedLoop.edge "Out" "End" .directed,
    boxedLoop.edge "End" "Box.In" .directed, boxedLoop.edge "Box" "Box.In" .directed]

theorem ring_wellFormed : ring.WellFormed := by
  have nodes : Grown { nodes := ring.nodes } := Grown.empty.addNodes ring.nodes (by decide +kernel)
  exact (nodes.addEdges ring.edges (by decide +kernel)).wellFormed

theorem ring_singleAtoms : ring.SingleAtoms := by
  have ends : ∀ edge ∈ ring.edges, (ring.atomsBelow edge.source).length = 1 ∧
      (ring.atomsBelow edge.target).length = 1 := by decide +kernel
  exact fun edge member => (ends edge member).imp List.length_eq_one_iff.mp List.length_eq_one_iff.mp

/-- The loop loses its last edge, over which the others lead back, and the edge into the box is kept. -/
theorem ring_blamed :
    ring.WellFormed ∧ ring.SingleAtoms ∧ ring.ranking.isBackEdge 3 = false ∧
      (∃ constraint ∈ ring.constraints, ring.ranking.backEdges = [constraint.edge]) ∧
      ∃ edge first last, ring.edges[2]? = some edge ∧ ring.atomsBelow edge.source = [first] ∧
        ring.atomsBelow edge.target = [last] ∧ TransGen ring.LeadsOn last first := by
  obtain ⟨-, -, related, single⟩ := ring_wellFormed.backEdges_blamed
  obtain ⟨paths, -, loops⟩ := single ring_singleAtoms
  have all : ring.constraints = [⟨"Box.In", "Out", 0⟩, ⟨"Out", "End", 1⟩, ⟨"End", "Box.In", 2⟩] := by
    decide +kernel
  have closed : Constraint.Chain ring.constraints "Box.In" ring.constraints "Box.In" := by
    rw [all]
    refine @Constraint.Chain.cons _ ⟨"Box.In", "Out", 0⟩ _ _ (by decide) ?_
    refine @Constraint.Chain.cons _ ⟨"Out", "End", 1⟩ _ _ (by decide) ?_
    exact @Constraint.Chain.cons _ ⟨"End", "Box.In", 2⟩ _ _ (by decide) (.nil "Box.In")
  have loop : Constraint.Loop ring.constraints ring.constraints :=
    ⟨⟨"Box.In", closed⟩, by simp [all], by simp [all]⟩
  refine ⟨ring_wellFormed, ring_singleAtoms, related 3 _ rfl (by decide +kernel),
    loops ring.constraints loop fun _ _ => Constraint.Chain.subset, paths 2 (by decide +kernel)⟩

end BoxDiagram.Graph
