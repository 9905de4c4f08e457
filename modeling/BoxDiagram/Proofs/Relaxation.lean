import BoxDiagram.Proofs.LongestChain
import Mathlib.Logic.Function.Basic
import Mathlib.Order.Basic

/-!
The ranks of atoms found in one pass. The atoms are gone through in an order in which no constraint leads
back, and every constraint of an atom moves its target one behind it. The rank of an atom is final when
the pass comes to it, since all atoms before it have been gone through. So the pass gives the ranks that
the rounds settle at, whichever such order is taken and however the constraints are listed.
-/

namespace BoxDiagram.Ranking

def relax (ranks : String → Nat) (constraint : Constraint) : String → Nat :=
  Function.update ranks constraint.target
    (max (ranks constraint.target) (ranks constraint.source + 1))

def relaxFrom (constraints : List Constraint) (ranks : String → Nat) (atom : String) : String → Nat :=
  (constraints.filter (·.source = atom)).foldl relax ranks

def relaxAll (constraints : List Constraint) (order : List String) : String → Nat :=
  order.foldl (relaxFrom constraints) fun _ => 0

def Topological (constraints : List Constraint) (order : List String) : Prop :=
  order.Pairwise fun earlier later => ¬Precedes constraints later earlier

variable {constraints : List Constraint} {atoms : List String}

theorem foldl_max_le_iff {values : List Nat} {start bound : Nat} :
    values.foldl max start ≤ bound ↔ start ≤ bound ∧ ∀ value ∈ values, value ≤ bound := by
  induction values generalizing start with
  | nil => simp
  | cons value rest ih => rw [List.foldl_cons, ih, max_le_iff, List.forall_mem_cons, and_assoc]

/-- A rank is within a bound just when the atoms directly before are below it. -/
theorem entry_le_iff (acyclic : Acyclic constraints)
    (within : ∀ constraint ∈ constraints, constraint.source ∈ atoms) {atom : String}
    (member : atom ∈ atoms) {bound : Nat} :
    entry (ofConstraints constraints atoms) atom ≤ bound ↔
      ∀ constraint ∈ constraints, constraint.target = atom →
        entry (ofConstraints constraints atoms) constraint.source < bound := by
  rw [entry_ofConstraints acyclic within member, behind, foldl_max_le_iff]
  constructor
  · rintro ⟨-, below⟩ constraint known target
    exact below _ (List.mem_map_of_mem (mem_sources.mpr ⟨constraint, known, rfl, target⟩))
  · intro below
    refine ⟨Nat.zero_le bound, ?_⟩
    intro value listed
    obtain ⟨source, found, rfl⟩ := List.mem_map.mp listed
    obtain ⟨constraint, known, rfl, target⟩ := mem_sources.mp found
    exact below constraint known target

theorem relax_le_iff {ranks : String → Nat} {constraint : Constraint} {atom : String} {bound : Nat} :
    relax ranks constraint atom ≤ bound ↔
      ranks atom ≤ bound ∧ (constraint.target = atom → ranks constraint.source < bound) := by
  unfold relax
  by_cases same : constraint.target = atom
  · rw [← same, Function.update_self, max_le_iff, Nat.succ_le_iff]
    simp
  · rw [Function.update_of_ne (Ne.symm same)]
    simp [same]

theorem foldl_relax_le_iff {source : String} (relaxed : List Constraint)
    (leave : ∀ constraint ∈ relaxed, constraint.source = source ∧ constraint.target ≠ source)
    {ranks : String → Nat} {atom : String} {bound : Nat} :
    relaxed.foldl relax ranks atom ≤ bound ↔
      ranks atom ≤ bound ∧
        ∀ constraint ∈ relaxed, constraint.target = atom → ranks source < bound := by
  induction relaxed generalizing ranks with
  | nil => simp
  | cons constraint rest ih =>
    obtain ⟨⟨own, off⟩, others⟩ := List.forall_mem_cons.mp leave
    have kept : relax ranks constraint source = ranks source :=
      Function.update_of_ne off.symm _ _
    rw [List.foldl_cons, ih others, relax_le_iff, kept, own, List.forall_mem_cons, and_assoc]

/-- When some atoms have been gone through, all ranks account for the constraints from these. -/
def Accounts (constraints : List Constraint) (final : String → Nat) (passed : List String)
    (ranks : String → Nat) : Prop :=
  ∀ atom bound, ranks atom ≤ bound ↔
    ∀ constraint ∈ constraints, constraint.target = atom → constraint.source ∈ passed →
      final constraint.source < bound

theorem accounts_nil (constraints : List Constraint) (final : String → Nat) :
    Accounts constraints final [] fun _ => 0 := by
  intro atom bound
  simp

theorem accounts_relaxFrom {final ranks : String → Nat} {passed : List String} {atom : String}
    (accounts : Accounts constraints final passed ranks) (settled : ranks atom = final atom)
    (distinct : ∀ constraint ∈ constraints, constraint.source ≠ constraint.target)
    {arranged : List Constraint} (same : arranged.Perm constraints) :
    Accounts constraints final (passed ++ [atom]) (relaxFrom arranged ranks atom) := by
  intro other bound
  have leave : ∀ constraint ∈ arranged.filter (·.source = atom),
      constraint.source = atom ∧ constraint.target ≠ atom := by
    intro constraint member
    obtain ⟨known, source⟩ := List.mem_filter.mp member
    have source := of_decide_eq_true source
    exact ⟨source, fun target =>
      distinct constraint (same.mem_iff.mp known) (source.trans target.symm)⟩
  rw [relaxFrom, foldl_relax_le_iff _ leave, accounts other bound, settled]
  constructor
  · rintro ⟨earlier, own⟩ constraint member target source
    rcases List.mem_append.mp source with before | here
    · exact earlier constraint member target before
    · rw [List.mem_singleton] at here
      rw [here]
      exact own constraint
        (List.mem_filter.mpr ⟨same.mem_iff.mpr member, decide_eq_true here⟩) target
  · intro all
    refine ⟨fun constraint member target before =>
      all constraint member target (List.mem_append_left _ before), ?_⟩
    intro constraint member target
    obtain ⟨known, source⟩ := List.mem_filter.mp member
    have source := of_decide_eq_true source
    have lower := all constraint (same.mem_iff.mp known) target
      (List.mem_append_right _ (source ▸ List.mem_singleton_self _))
    rwa [source] at lower

theorem relaxAll_eq_entry (acyclic : Acyclic constraints)
    (within : ∀ constraint ∈ constraints, constraint.source ∈ atoms) {order : List String}
    (complete : order.Perm atoms) (topological : Topological constraints order)
    {arranged : List Constraint} (same : arranged.Perm constraints) {atom : String}
    (member : atom ∈ atoms) :
    relaxAll arranged order atom = entry (ofConstraints constraints atoms) atom := by
  have distinct : ∀ constraint ∈ constraints, constraint.source ≠ constraint.target :=
    fun constraint known loops => acyclic constraint.source
      (.single ⟨constraint, known, rfl, loops.symm⟩)
  have passed : ∀ front rest, order = front ++ rest →
      Accounts constraints (entry (ofConstraints constraints atoms)) front
        (front.foldl (relaxFrom arranged) fun _ => 0) := by
    intro front
    induction front using List.reverseRecOn with
    | nil => exact fun _ _ => accounts_nil constraints _
    | append_singleton front next ih =>
      intro rest cut
      rw [List.append_assoc, List.singleton_append] at cut
      have accounts := ih (next :: rest) cut
      rw [List.foldl_concat]
      refine accounts_relaxFrom accounts ?_ distinct same
      have known : next ∈ atoms :=
        complete.mem_iff.mp (cut ▸ List.mem_append_right _ List.mem_cons_self)
      -- All atoms before `next` stand in front of it.
      apply eq_of_forall_ge_iff
      intro bound
      rw [accounts next bound, entry_le_iff acyclic within known]
      refine forall_congr' fun constraint => forall_congr' fun listed => forall_congr' fun target => ?_
      have before : constraint.source ∈ front := by
        have somewhere : constraint.source ∈ order :=
          complete.mem_iff.mpr (within constraint listed)
        rw [cut] at somewhere topological
        rcases List.mem_append.mp somewhere with before | behind
        · exact before
        · rcases List.mem_cons.mp behind with here | later
          · exact absurd (here.trans target.symm) (distinct constraint listed)
          · obtain ⟨-, tail, -⟩ := List.pairwise_append.mp topological
            exact absurd ⟨constraint, listed, rfl, target⟩
              ((List.pairwise_cons.mp tail).1 constraint.source later)
      simp [before]
  apply eq_of_forall_ge_iff
  intro bound
  rw [relaxAll, passed order [] (List.append_nil order).symm atom bound,
    entry_le_iff acyclic within member]
  refine forall_congr' fun constraint => forall_congr' fun listed => forall_congr' fun target => ?_
  simp [complete.mem_iff.mpr (within constraint listed)]

/-- There is an order in which no constraint leads back: that of the ranks. -/
theorem exists_topological (acyclic : Acyclic constraints)
    (within : ∀ constraint ∈ constraints, constraint.source ∈ atoms) :
    ∃ order, order.Perm atoms ∧ Topological constraints order := by
  let before (left right : String) : Bool :=
    entry (ofConstraints constraints atoms) left ≤ entry (ofConstraints constraints atoms) right
  have complete : (atoms.mergeSort before).Perm atoms := List.mergeSort_perm atoms before
  refine ⟨atoms.mergeSort before, complete, ?_⟩
  have sorted : (atoms.mergeSort before).Pairwise fun left right => before left right = true := by
    apply List.pairwise_mergeSort
    · intro first second third left right
      exact decide_eq_true ((of_decide_eq_true left).trans (of_decide_eq_true right))
    · intro first second
      simpa [before] using le_total _ _
  refine sorted.imp_of_mem ?_
  intro earlier later member _ ordered step
  have lower := entry_lt_of_precedes acyclic within (complete.mem_iff.mp member) step
  exact absurd (of_decide_eq_true ordered) (Nat.not_le_of_lt lower)

end BoxDiagram.Ranking
