import BoxDiagram.Proofs.Search

/-!
Chains of constraints, told constraint by constraint. A chain that closes can be begun at any of its
constraints, and when no atom is passed twice the constraint behind an atom is the only way on.
-/

namespace BoxDiagram

inductive Constraint.Chain (constraints : List Constraint) : String → List Constraint → String → Prop
  | nil (atom : String) : Chain constraints atom [] atom
  | cons {constraint : Constraint} {rest : List Constraint} {last : String}
      (member : constraint ∈ constraints) (onward : Chain constraints constraint.target rest last) :
      Chain constraints constraint.source (constraint :: rest) last

structure Constraint.Loop (constraints : List Constraint) (loop : List Constraint) : Prop where
  closed : ∃ atom, Chain constraints atom loop atom
  inhabited : loop ≠ []
  simple : (loop.map Constraint.source).Nodup

namespace Constraint

variable {constraints larger : List Constraint} {first middle last : String}
  {chain front back : List Constraint}

theorem Chain.subset (led : Chain constraints first chain last) : chain ⊆ constraints := by
  induction led with
  | nil => exact List.nil_subset _
  | cons member _ ih => exact List.cons_subset.mpr ⟨member, ih⟩

theorem Chain.of_subset (led : Chain constraints first chain last) (within : chain ⊆ larger) :
    Chain larger first chain last := by
  induction led with
  | nil atom => exact .nil atom
  | cons _ _ ih =>
    obtain ⟨member, rest⟩ := List.cons_subset.mp within
    exact .cons member (ih rest)

theorem Chain.append (left : Chain constraints first front middle)
    (right : Chain constraints middle back last) : Chain constraints first (front ++ back) last := by
  induction left with
  | nil => exact right
  | cons member _ ih => exact .cons member (ih right)

theorem Chain.exists_middle (led : Chain constraints first (front ++ back) last) :
    ∃ middle, Chain constraints first front middle ∧ Chain constraints middle back last := by
  induction front generalizing first with
  | nil => exact ⟨first, .nil first, led⟩
  | cons constraint front ih =>
    cases led with
    | cons member onward =>
      obtain ⟨middle, left, right⟩ := ih onward
      exact ⟨middle, .cons member left, right⟩

theorem Chain.reaches (led : Chain constraints first chain last) :
    Relation.ReflTransGen (Precedes constraints) first last := by
  induction led with
  | nil => exact .refl
  | cons member _ ih => exact ih.head ⟨_, member, rfl, rfl⟩

theorem exists_chain (reached : Relation.ReflTransGen (Precedes constraints) first last) :
    ∃ chain, Chain constraints first chain last := by
  induction reached using Relation.ReflTransGen.head_induction_on with
  | refl => exact ⟨[], .nil last⟩
  | head step _ ih =>
    obtain ⟨constraint, member, rfl, rfl⟩ := step
    obtain ⟨chain, led⟩ := ih
    exact ⟨constraint :: chain, .cons member led⟩

/-- A constraint whose target leads back to its source lies on a closed chain. -/
theorem exists_closed {constraint : Constraint} (member : constraint ∈ constraints)
    (back : Relation.ReflTransGen (Precedes constraints) constraint.target constraint.source) :
    ∃ rest, Chain constraints constraint.source (constraint :: rest) constraint.source := by
  obtain ⟨rest, led⟩ := exists_chain back
  exact ⟨rest, .cons member led⟩

theorem Chain.not_acyclic (closed : Chain constraints first chain first) (inhabited : chain ≠ []) :
    ¬Acyclic constraints := by
  intro acyclic
  cases closed with
  | nil => exact inhabited rfl
  | @cons constraint _ _ member onward =>
    exact acyclic _ (Relation.TransGen.head' ⟨constraint, member, rfl, rfl⟩ onward.reaches)

/-- A loop can be begun at any of its constraints. -/
theorem Loop.exists_rest {loop : List Constraint} (closes : Loop constraints loop)
    {constraint : Constraint} (member : constraint ∈ loop) :
    ∃ rest, Chain constraints constraint.target rest constraint.source ∧
      loop.Perm (constraint :: rest) := by
  obtain ⟨front, back, rfl⟩ := List.append_of_mem member
  obtain ⟨atom, led⟩ := closes.closed
  obtain ⟨middle, left, right⟩ := led.exists_middle
  cases right with
  | cons _ onward => exact ⟨back ++ front, onward.append left, List.perm_append_comm⟩

end Constraint

end BoxDiagram
