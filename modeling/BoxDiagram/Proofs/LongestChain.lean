import BoxDiagram.Proofs.Search
import BoxDiagram.Ranking
import Mathlib.Data.Finset.Card
import Mathlib.Data.Finset.Filter
import Mathlib.Data.List.Dedup
import Mathlib.Logic.Function.Iterate

/-!
The ranks of atoms under constraints without a cycle. An atom is settled after as many rounds as
atoms lead to it, so the rounds that are run settle all: each atom ends up one behind the greatest
of the atoms that come directly before it.
-/

namespace BoxDiagram.Ranking

theorem le_foldl_max (values : List Nat) (start : Nat) : start ≤ values.foldl max start := by
  induction values generalizing start with
  | nil => exact Nat.le_refl start
  | cons value rest ih => exact (Nat.le_max_left start value).trans (ih (max start value))

theorem le_foldl_max_of_mem {values : List Nat} {value : Nat} (member : value ∈ values)
    (start : Nat) : value ≤ values.foldl max start := by
  induction values generalizing start with
  | nil => cases member
  | cons first rest ih =>
    rcases List.mem_cons.mp member with rfl | later
    · exact (Nat.le_max_right start value).trans (le_foldl_max rest _)
    · exact ih later (max start first)

theorem lookup_map {β : Type} {keys : List String} {key : String} (member : key ∈ keys)
    (value : String → β) : (keys.map fun key => (key, value key)).lookup key = some (value key) := by
  induction keys with
  | nil => cases member
  | cons first rest ih =>
    rw [List.map_cons, List.lookup_cons]
    split
    next same => rw [eq_of_beq same]
    next different =>
      have later := (List.mem_cons.mp member).resolve_left fun same => by simp [same] at different
      exact ih later

theorem entry_map {atoms : List String} {atom : String} (member : atom ∈ atoms)
    (rank : String → Nat) : entry (atoms.map fun atom => (atom, rank atom)) atom = rank atom := by
  rw [entry, lookup_map member, Option.getD_some]

def sources (constraints : List Constraint) (atom : String) : List String :=
  (constraints.filter (·.target = atom)).map (·.source)

def behind (constraints : List Constraint) (table : List (String × Nat)) (atom : String) : Nat :=
  ((sources constraints atom).map fun source => entry table source + 1).foldl max 0

def round (constraints : List Constraint) (atoms : List String) :
    List (String × Nat) → List (String × Nat) :=
  advance (atoms.map fun atom => (atom, sources constraints atom))

def after (constraints : List Constraint) (atoms : List String) (rounds : Nat) :
    List (String × Nat) :=
  (round constraints atoms)^[rounds] (atoms.map fun atom => (atom, 0))

theorem after_succ (constraints : List Constraint) (atoms : List String) (rounds : Nat) :
    after constraints atoms (rounds + 1) =
      round constraints atoms (after constraints atoms rounds) :=
  Function.iterate_succ_apply' ..

theorem ofConstraints_eq (constraints : List Constraint) (atoms : List String) :
    ofConstraints constraints atoms =
      settle (round constraints atoms) atoms.length (after constraints atoms 0) := rfl

variable {constraints : List Constraint} {atoms : List String}

theorem mem_sources {source atom : String} :
    source ∈ sources constraints atom ↔ Precedes constraints source atom := by
  simp only [sources, Precedes, List.mem_map, List.mem_filter, decide_eq_true_eq]
  constructor
  · rintro ⟨constraint, ⟨member, target⟩, source⟩
    exact ⟨constraint, member, source, target⟩
  · rintro ⟨constraint, member, source, target⟩
    exact ⟨constraint, ⟨member, target⟩, source⟩

theorem entry_round {atom : String} (member : atom ∈ atoms) (table : List (String × Nat)) :
    entry (round constraints atoms table) atom = behind constraints table atom := by
  unfold round advance
  rw [List.map_map]
  exact entry_map member (behind constraints table)

theorem behind_congr {first second : List (String × Nat)} {atom : String}
    (same : ∀ source, Precedes constraints source atom → entry first source = entry second source) :
    behind constraints first atom = behind constraints second atom := by
  unfold behind
  congr 1
  apply List.map_congr_left
  intro source member
  rw [same source (mem_sources.mp member)]

theorem settle_cases {β : Type} [DecidableEq β] (step : β → β) (fuel : Nat) (value : β) :
    step (settle step fuel value) = settle step fuel value ∨
      settle step fuel value = step^[fuel] value := by
  induction fuel generalizing value with
  | zero => exact .inr rfl
  | succ fuel ih =>
    unfold settle
    split
    next settled => exact .inl settled
    next moving => exact ih (step value)

open Classical in
noncomputable def height (constraints : List Constraint) (atoms : List String) (atom : String) : Nat :=
  (atoms.toFinset.filter fun other => Relation.TransGen (Precedes constraints) other atom).card

theorem height_le (atom : String) : height constraints atoms atom ≤ atoms.length := by
  classical
  exact (Finset.card_filter_le _ _).trans (List.toFinset_card_le atoms)

theorem height_lt (acyclic : Acyclic constraints) {source atom : String} (member : source ∈ atoms)
    (step : Precedes constraints source atom) :
    height constraints atoms source < height constraints atoms atom := by
  classical
  apply Finset.card_lt_card
  rw [Finset.ssubset_iff_of_subset]
  · refine ⟨source, ?_, ?_⟩
    · simpa [member] using Relation.TransGen.single step
    · simpa [member] using acyclic source
  · intro other found
    rw [Finset.mem_filter] at found ⊢
    exact ⟨found.1, found.2.tail step⟩

theorem source_mem (within : ∀ constraint ∈ constraints, constraint.source ∈ atoms)
    {source atom : String} (step : Precedes constraints source atom) : source ∈ atoms := by
  obtain ⟨constraint, member, rfl, -⟩ := step
  exact within constraint member

/-- After as many rounds as atoms lead to an atom its entry stays as it is. -/
theorem entry_after_succ (acyclic : Acyclic constraints)
    (within : ∀ constraint ∈ constraints, constraint.source ∈ atoms) (rounds : Nat) {atom : String}
    (member : atom ∈ atoms) (few : height constraints atoms atom ≤ rounds) :
    entry (after constraints atoms (rounds + 1)) atom =
      entry (after constraints atoms rounds) atom := by
  induction rounds generalizing atom with
  | zero =>
    have first : sources constraints atom = [] := by
      apply List.eq_nil_iff_forall_not_mem.mpr
      intro source found
      have step := mem_sources.mp found
      have lower := height_lt acyclic (source_mem within step) step
      omega
    have start : entry (after constraints atoms 0) atom = 0 := entry_map member fun _ => 0
    rw [after_succ, entry_round member, start, behind, first]
    rfl
  | succ rounds ih =>
    rw [after_succ, entry_round member, after_succ constraints atoms rounds, entry_round member,
      ← after_succ]
    apply behind_congr
    intro source step
    have lower := height_lt acyclic (source_mem within step) step
    exact ih (source_mem within step) (by omega)

/-- Each atom is one behind the greatest of the atoms directly before it, and at zero when there
are none. -/
theorem entry_ofConstraints (acyclic : Acyclic constraints)
    (within : ∀ constraint ∈ constraints, constraint.source ∈ atoms) {atom : String}
    (member : atom ∈ atoms) :
    entry (ofConstraints constraints atoms) atom =
      behind constraints (ofConstraints constraints atoms) atom := by
  rw [← entry_round member, ofConstraints_eq]
  rcases settle_cases (round constraints atoms) atoms.length (after constraints atoms 0)
    with settled | all
  · rw [settled]
  · have reached : (round constraints atoms)^[atoms.length] (after constraints atoms 0) =
        after constraints atoms atoms.length := rfl
    rw [all, reached, ← after_succ]
    exact (entry_after_succ acyclic within atoms.length member (height_le atom)).symm

theorem entry_lt_of_precedes (acyclic : Acyclic constraints)
    (within : ∀ constraint ∈ constraints, constraint.source ∈ atoms) {source target : String}
    (member : target ∈ atoms) (step : Precedes constraints source target) :
    entry (ofConstraints constraints atoms) source <
      entry (ofConstraints constraints atoms) target := by
  rw [entry_ofConstraints acyclic within member, ← Nat.succ_le_iff]
  apply le_foldl_max_of_mem
  exact List.mem_map_of_mem (mem_sources.mpr step)

end BoxDiagram.Ranking
