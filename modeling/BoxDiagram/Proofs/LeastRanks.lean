import BoxDiagram.Proofs.Chains
import BoxDiagram.Proofs.ForwardEdges
import BoxDiagram.Proofs.Relaxation
import Mathlib.Order.Bounds.Basic

/-!
The ranks are the least ones that increase along the kept constraints. A rank that is not zero is one
behind the rank of an atom directly before, so going back from an atom spells a chain as long as its rank
and passes every lower rank. Along any chain every increasing assignment grows by at least its length.
-/

namespace BoxDiagram

namespace Ranking

variable {constraints : List Constraint} {atoms : List String}

theorem foldl_max_cases (values : List Nat) (start : Nat) :
    values.foldl max start = start ∨ values.foldl max start ∈ values := by
  induction values generalizing start with
  | nil => exact .inl rfl
  | cons value rest ih =>
    rw [List.foldl_cons]
    rcases ih (max start value) with same | listed
    · rcases max_choice start value with left | right
      · exact .inl (same.trans left)
      · rw [same, right]
        exact .inr List.mem_cons_self
    · exact .inr (List.mem_cons_of_mem _ listed)

theorem exists_precedes_of_entry (acyclic : Acyclic constraints)
    (within : ∀ constraint ∈ constraints, constraint.source ∈ atoms) {atom : String}
    (member : atom ∈ atoms) {rank : Nat}
    (ranked : entry (ofConstraints constraints atoms) atom = rank + 1) :
    ∃ source ∈ atoms, Precedes constraints source atom ∧
      entry (ofConstraints constraints atoms) source = rank := by
  rw [entry_ofConstraints acyclic within member, behind] at ranked
  rcases foldl_max_cases ((sources constraints atom).map fun source =>
    entry (ofConstraints constraints atoms) source + 1) 0 with none | listed
  · omega
  · rw [ranked] at listed
    obtain ⟨source, found, same⟩ := List.mem_map.mp listed
    have step := mem_sources.mp found
    exact ⟨source, source_mem within step, step, Nat.succ.inj same⟩

/-- A chain as long as the rank of an atom leads to it. -/
theorem exists_chain_of_entry (acyclic : Acyclic constraints)
    (within : ∀ constraint ∈ constraints, constraint.source ∈ atoms) {atom : String}
    (member : atom ∈ atoms) :
    ∃ first chain, Constraint.Chain constraints first chain atom ∧
      chain.length = entry (ofConstraints constraints atoms) atom := by
  induction ranked : entry (ofConstraints constraints atoms) atom generalizing atom with
  | zero => exact ⟨atom, [], .nil atom, rfl⟩
  | succ rank ih =>
    obtain ⟨source, known, ⟨constraint, listed, rfl, rfl⟩, lower⟩ :=
      exists_precedes_of_entry acyclic within member ranked
    obtain ⟨first, chain, led, long⟩ := ih known lower
    refine ⟨first, chain ++ [constraint], led.append (.cons listed (.nil _)), ?_⟩
    rw [List.length_append, long, List.length_singleton]

theorem add_length_le {assigned : String → Nat}
    (increasing : ∀ constraint ∈ constraints, assigned constraint.source < assigned constraint.target)
    {first last : String} {chain : List Constraint}
    (led : Constraint.Chain constraints first chain last) :
    assigned first + chain.length ≤ assigned last := by
  induction led with
  | nil => exact Nat.le_refl _
  | cons member _ ih =>
    have step := increasing _ member
    rw [List.length_cons]
    omega

/-- Below the rank of an atom every rank occurs. -/
theorem exists_entry_eq (acyclic : Acyclic constraints)
    (within : ∀ constraint ∈ constraints, constraint.source ∈ atoms) {atom : String}
    (member : atom ∈ atoms) {rank : Nat}
    (lower : rank ≤ entry (ofConstraints constraints atoms) atom) :
    ∃ other ∈ atoms, entry (ofConstraints constraints atoms) other = rank := by
  induction ranked : entry (ofConstraints constraints atoms) atom generalizing atom with
  | zero => exact ⟨atom, member, by omega⟩
  | succ height ih =>
    rcases Nat.eq_or_lt_of_le lower with same | less
    · exact ⟨atom, member, same.symm⟩
    · obtain ⟨source, known, -, below⟩ := exists_precedes_of_entry acyclic within member ranked
      exact ih known (by omega) below

end Ranking

namespace Graph

variable {α : Type} {graph : Graph α}

theorem kept_source_mem {constraint : Constraint} (kept : constraint ∈ graph.keptConstraints) :
    constraint.source ∈ graph.atoms :=
  constraint_source_mem (mem_keptConstraints_iff.mp kept).1

/-- Chains of kept constraints are at most as long as the rank of the atom that they end in. -/
theorem isGreatest_entry {atom : String} (member : atom ∈ graph.atoms) :
    IsGreatest {length | ∃ first chain, Constraint.Chain graph.keptConstraints first chain atom ∧
      chain.length = length} (Ranking.entry graph.atomRanks atom) := by
  constructor
  · exact Ranking.exists_chain_of_entry graph.acyclic_keptConstraints (fun _ => kept_source_mem) member
  · rintro _ ⟨first, chain, led, rfl⟩
    have grown := Ranking.add_length_le (fun _ => entry_lt_of_kept) led
    omega

theorem entry_le_of_increasing {assigned : String → Nat}
    (increasing : ∀ constraint ∈ graph.keptConstraints,
      assigned constraint.source < assigned constraint.target)
    {atom : String} (member : atom ∈ graph.atoms) :
    Ranking.entry graph.atomRanks atom ≤ assigned atom := by
  obtain ⟨first, chain, led, long⟩ := (isGreatest_entry member).1
  have grown := Ranking.add_length_le increasing led
  omega

theorem WellFormed.isLeast_rank (wellFormed : graph.WellFormed) {node : Node α}
    (member : node ∈ graph.nodes) :
    ∃ rank, graph.ranking.rank? node.path = some rank ∧
      IsLeast {rank | ∃ atom ∈ graph.atomsBelow node.path, Ranking.entry graph.atomRanks atom = rank}
        rank := by
  refine ⟨_, rank?_ranking member, ?_⟩
  obtain ⟨atom, below, same, least⟩ :=
    leastRank_spec graph.atomRanks (wellFormed.atomsBelow_ne_nil member)
  refine ⟨⟨atom, below, same.symm⟩, ?_⟩
  rintro _ ⟨other, otherBelow, rfl⟩
  exact least other otherBelow

theorem WellFormed.exists_highest (wellFormed : graph.WellFormed) (inhabited : graph.nodes ≠ []) :
    ∃ highest, graph.ranking.highest = some highest ∧
      ∃ atom ∈ graph.atoms, Ranking.entry graph.atomRanks atom = highest := by
  cases found : graph.ranking.highest with
  | none => simp [Ranking.highest, ranking, inhabited] at found
  | some highest =>
    refine ⟨highest, rfl, ?_⟩
    have listed := (List.max?_eq_some_iff.mp found).1
    simp only [ranking, List.map_map, List.mem_map] at listed
    obtain ⟨node, member, rfl⟩ := listed
    obtain ⟨atom, below, same, -⟩ :=
      leastRank_spec graph.atomRanks (wellFormed.atomsBelow_ne_nil member)
    exact ⟨atom, mem_atoms_of_mem_atomsBelow below, same.symm⟩

/-- The ranks of the atoms are the least ones that increase along the kept constraints: each is the length
of the longest chain that ends in the atom, and one pass over the atoms in any order in which no
constraint leads back finds them. A node has the least rank of its atoms, of which there is at least one,
and from zero to the greatest rank all ranks occur. -/
theorem WellFormed.ranks_least (wellFormed : graph.WellFormed) :
    (∀ atom ∈ graph.atoms,
      IsGreatest {length | ∃ first chain, Constraint.Chain graph.keptConstraints first chain atom ∧
        chain.length = length} (Ranking.entry graph.atomRanks atom)) ∧
      (∀ constraint ∈ graph.keptConstraints, Ranking.entry graph.atomRanks constraint.source <
        Ranking.entry graph.atomRanks constraint.target) ∧
      (∀ assigned : String → Nat, (∀ constraint ∈ graph.keptConstraints,
        assigned constraint.source + 1 ≤ assigned constraint.target) →
          ∀ atom ∈ graph.atoms, Ranking.entry graph.atomRanks atom ≤ assigned atom) ∧
      (∃ order, order.Perm graph.atoms ∧ Ranking.Topological graph.keptConstraints order) ∧
      (∀ order arranged, order.Perm graph.atoms → Ranking.Topological graph.keptConstraints order →
        arranged.Perm graph.keptConstraints → ∀ atom ∈ graph.atoms,
          Ranking.relaxAll arranged order atom = Ranking.entry graph.atomRanks atom) ∧
      (∀ node ∈ graph.nodes, ∃ rank, graph.ranking.rank? node.path = some rank ∧
        IsLeast {rank | ∃ atom ∈ graph.atomsBelow node.path,
          Ranking.entry graph.atomRanks atom = rank} rank) ∧
      (graph.nodes ≠ [] → ∃ highest, graph.ranking.highest = some highest ∧
        ∀ rank ≤ highest, ∃ atom ∈ graph.atoms, Ranking.entry graph.atomRanks atom = rank) := by
  have acyclic := graph.acyclic_keptConstraints
  have within : ∀ constraint ∈ graph.keptConstraints, constraint.source ∈ graph.atoms :=
    fun _ => kept_source_mem
  refine ⟨fun atom => isGreatest_entry, fun constraint => entry_lt_of_kept, ?_,
    Ranking.exists_topological acyclic within, ?_, fun node => wellFormed.isLeast_rank, ?_⟩
  · exact fun assigned increasing atom => entry_le_of_increasing increasing
  · intro order arranged complete topological same atom member
    exact Ranking.relaxAll_eq_entry acyclic within complete topological same member
  · intro inhabited
    obtain ⟨highest, found, atom, member, same⟩ := wellFormed.exists_highest inhabited
    refine ⟨highest, found, ?_⟩
    intro rank lower
    exact Ranking.exists_entry_eq acyclic within member (lower.trans_eq same.symm)

/-- An atom in a box with a chain of two constraints behind it, and one that leads past the middle. -/
def bypass : Graph Nat where
  nodes := [boxedLoop.node ⟨none, "Box"⟩ .container none,
    boxedLoop.node ⟨some "Box", "In"⟩ .leaf (some "Box"), boxedLoop.node ⟨none, "Middle"⟩ .leaf none,
    boxedLoop.node ⟨none, "End"⟩ .leaf none]
  edges := [boxedLoop.edge "Box" "End" .directed, boxedLoop.edge "Box" "Middle" .directed,
    boxedLoop.edge "Middle" "End" .bidirectional, boxedLoop.edge "End" "Box" .directed]

theorem bypass_wellFormed : bypass.WellFormed := by
  have nodes : Grown { nodes := bypass.nodes } :=
    Grown.empty.addNodes bypass.nodes (by decide +kernel)
  exact (nodes.addEdges bypass.edges (by decide +kernel)).wellFormed

/-- The last atom ranks behind the longer of the two chains that lead to it. -/
theorem bypass_ranks :
    bypass.WellFormed ∧ "End" ∈ bypass.atoms ∧ Ranking.entry bypass.atomRanks "End" = 2 ∧
      IsGreatest {length | ∃ first chain, Constraint.Chain bypass.keptConstraints first chain "End" ∧
        chain.length = length} 2 ∧
      ∃ highest, bypass.ranking.highest = some highest ∧
        ∀ rank ≤ highest, ∃ atom ∈ bypass.atoms, Ranking.entry bypass.atomRanks atom = rank := by
  obtain ⟨longest, -, -, -, -, -, all⟩ := bypass_wellFormed.ranks_least
  have atom : "End" ∈ bypass.atoms := by decide +kernel
  have ranked : Ranking.entry bypass.atomRanks "End" = 2 := by decide +kernel
  exact ⟨bypass_wellFormed, atom, ranked, ranked ▸ longest "End" atom, all (by simp [bypass])⟩

end Graph

end BoxDiagram
