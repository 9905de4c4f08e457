import BoxDiagram.Precedence
import Mathlib.Data.List.Nodup
import Mathlib.Data.List.Perm.Subperm
import Mathlib.Logic.Relation

/-!
The depth first search for edges that close a cycle. An atom that is done stands behind all atoms
that it must come before, except for constraints of flagged edges; so without these edges the
constraints have no cycle. The path of the search holds no atom twice, so it never outruns the fuel.
-/

namespace BoxDiagram

def Precedes (constraints : List Constraint) (first second : String) : Prop :=
  ∃ constraint ∈ constraints, constraint.source = first ∧ constraint.target = second

/-- No chain of constraints leads from an atom back to it. -/
def Acyclic (constraints : List Constraint) : Prop :=
  ∀ atom, ¬ Relation.TransGen (Precedes constraints) atom atom

namespace Search

def follow (constraints : List Constraint) (fuel : Nat) (path : List String) (search : Search)
    (constraint : Constraint) : Search :=
  if search.done.contains constraint.target then search
  else if path.contains constraint.target then
    { search with flagged := constraint.edge :: search.flagged }
  else visit constraints fuel path constraint.target search

def followAll (constraints : List Constraint) (fuel : Nat) (path : List String) (atom : String)
    (search : Search) : Search :=
  (constraints.filter (·.source = atom)).foldl (follow constraints fuel path) search

theorem visit_succ (constraints : List Constraint) (fuel : Nat) (path : List String)
    (atom : String) (search : Search) :
    visit constraints (fuel + 1) path atom search =
      { followAll constraints fuel (atom :: path) atom search with
        done := atom :: (followAll constraints fuel (atom :: path) atom search).done } := rfl

/-- Of every atom that is done, the constraints of unflagged edges lead to atoms done earlier. -/
def Settled (constraints : List Constraint) (search : Search) : Prop :=
  ∀ later atom earlier, search.done = later ++ atom :: earlier →
    ∀ constraint ∈ constraints, constraint.source = atom → constraint.edge ∉ search.flagged →
      constraint.target ∈ earlier

structure Progress (constraints : List Constraint) (before after : Search) : Prop where
  settled : Settled constraints after
  done : before.done <:+ after.done
  flagged : before.flagged ⊆ after.flagged

variable {constraints : List Constraint}

theorem settled_empty : Settled constraints {} := by
  intro later atom earlier split
  simp at split

theorem Progress.refl {search : Search} (settled : Settled constraints search) :
    Progress constraints search search :=
  ⟨settled, List.suffix_rfl, List.Subset.refl _⟩

theorem Progress.trans {first second third : Search} (left : Progress constraints first second)
    (right : Progress constraints second third) : Progress constraints first third :=
  ⟨right.settled, left.done.trans right.done, List.Subset.trans left.flagged right.flagged⟩

theorem Settled.flag {search : Search} (settled : Settled constraints search) (edge : Nat) :
    Progress constraints search { search with flagged := edge :: search.flagged } := by
  refine ⟨?_, List.suffix_rfl, List.subset_cons_self _ _⟩
  intro later atom earlier split constraint member source unflagged
  exact settled later atom earlier split constraint member source fun flagged =>
    unflagged (List.mem_cons_of_mem _ flagged)

theorem Settled.finish {search : Search} (settled : Settled constraints search) {atom : String}
    (led : ∀ constraint ∈ constraints, constraint.source = atom →
      constraint.edge ∉ search.flagged → constraint.target ∈ search.done) :
    Progress constraints search { search with done := atom :: search.done } := by
  refine ⟨?_, List.suffix_cons _ _, List.Subset.refl _⟩
  intro later other earlier split constraint member source unflagged
  rcases List.cons_eq_append_iff.mp split with ⟨-, front⟩ | ⟨rest, -, behind⟩
  · rw [List.cons.injEq] at front
    rw [front.2]
    exact led constraint member (source.trans front.1) unflagged
  · exact settled rest other earlier behind constraint member source unflagged

/-- A visit makes progress and is done with its atom, when the fuel covers what is left of the
atoms beside the path. -/
def VisitsWell (constraints : List Constraint) (atoms : List String) (fuel : Nat) : Prop :=
  ∀ path atom search, (atom :: path).Nodup → atom :: path ⊆ atoms →
    atoms.length ≤ fuel + path.length → Settled constraints search →
      Progress constraints search (visit constraints fuel path atom search) ∧
        atom ∈ (visit constraints fuel path atom search).done

variable {atoms : List String}

theorem follow_progress {fuel : Nat} (visits : VisitsWell constraints atoms fuel)
    {path : List String} (distinct : path.Nodup) (within : path ⊆ atoms)
    (enough : atoms.length ≤ fuel + path.length) {search : Search}
    (settled : Settled constraints search) {constraint : Constraint}
    (target : constraint.target ∈ atoms) :
    Progress constraints search (follow constraints fuel path search constraint) ∧
      (constraint.edge ∈ (follow constraints fuel path search constraint).flagged ∨
        constraint.target ∈ (follow constraints fuel path search constraint).done) := by
  unfold follow
  split
  next reached => exact ⟨.refl settled, .inr (List.contains_iff_mem.mp reached)⟩
  next unreached =>
    split
    next back => exact ⟨settled.flag _, .inl List.mem_cons_self⟩
    next fresh =>
      have off : constraint.target ∉ path := fun back => fresh (List.contains_iff_mem.mpr back)
      obtain ⟨progress, reached⟩ := visits path constraint.target search
        (List.nodup_cons.mpr ⟨off, distinct⟩) (List.cons_subset.mpr ⟨target, within⟩) enough settled
      exact ⟨progress, .inr reached⟩

/-- After a list of constraints has been followed, each of them is flagged or leads to an atom that
is done. -/
theorem foldl_follow_progress {fuel : Nat} (visits : VisitsWell constraints atoms fuel)
    {path : List String} (distinct : path.Nodup) (within : path ⊆ atoms)
    (enough : atoms.length ≤ fuel + path.length) (followed : List Constraint)
    (targets : ∀ constraint ∈ followed, constraint.target ∈ atoms) {search : Search}
    (settled : Settled constraints search) :
    Progress constraints search (followed.foldl (follow constraints fuel path) search) ∧
      ∀ constraint ∈ followed,
        constraint.edge ∈ (followed.foldl (follow constraints fuel path) search).flagged ∨
          constraint.target ∈ (followed.foldl (follow constraints fuel path) search).done := by
  induction followed generalizing search with
  | nil => exact ⟨.refl settled, by simp⟩
  | cons constraint rest ih =>
    rw [List.foldl_cons]
    obtain ⟨first, reached⟩ := follow_progress visits distinct within enough settled
      (targets constraint List.mem_cons_self)
    obtain ⟨onward, others⟩ :=
      ih (fun other member => targets other (List.mem_cons_of_mem _ member)) first.settled
    refine ⟨first.trans onward, ?_⟩
    intro other member
    rcases List.mem_cons.mp member with rfl | later
    · exact reached.imp (fun flagged => onward.flagged flagged) fun done => onward.done.subset done
    · exact others other later

/-- The fuel never runs out: a path as long as all atoms leaves none to go on to. -/
theorem visitsWell (targets : ∀ constraint ∈ constraints, constraint.target ∈ atoms) (fuel : Nat) :
    VisitsWell constraints atoms fuel := by
  induction fuel with
  | zero =>
    intro path atom search distinct within enough settled
    have bound := (List.subperm_of_subset distinct within).length_le
    rw [List.length_cons] at bound
    omega
  | succ fuel ih =>
    intro path atom search distinct within enough settled
    have longer : atoms.length ≤ fuel + (atom :: path).length := by
      rw [List.length_cons]
      omega
    obtain ⟨progress, followed⟩ := foldl_follow_progress ih distinct within longer
      (constraints.filter (·.source = atom))
      (fun constraint member => targets constraint (List.mem_filter.mp member).1) settled
    rw [visit_succ]
    refine ⟨progress.trans (progress.settled.finish ?_), List.mem_cons_self⟩
    intro constraint member source unflagged
    have own : constraint ∈ constraints.filter (·.source = atom) :=
      List.mem_filter.mpr ⟨member, decide_eq_true source⟩
    exact (followed constraint own).resolve_left unflagged

def startAt (constraints : List Constraint) (fuel : Nat) (search : Search) (atom : String) : Search :=
  if search.done.contains atom then search else visit constraints fuel [] atom search

theorem visitAll_eq (constraints : List Constraint) (atoms : List String) :
    visitAll constraints atoms = atoms.foldl (startAt constraints atoms.length) {} := rfl

theorem startAt_progress (targets : ∀ constraint ∈ constraints, constraint.target ∈ atoms)
    {search : Search} (settled : Settled constraints search) {atom : String} (known : atom ∈ atoms) :
    Progress constraints search (startAt constraints atoms.length search atom) ∧
      atom ∈ (startAt constraints atoms.length search atom).done := by
  unfold startAt
  split
  next reached => exact ⟨.refl settled, List.contains_iff_mem.mp reached⟩
  next unreached =>
    exact visitsWell targets atoms.length [] atom search (List.nodup_singleton atom)
      (List.cons_subset.mpr ⟨known, List.nil_subset _⟩) (Nat.le_refl _) settled

theorem foldl_startAt_progress (targets : ∀ constraint ∈ constraints, constraint.target ∈ atoms)
    (started : List String) (known : started ⊆ atoms) {search : Search}
    (settled : Settled constraints search) :
    Progress constraints search (started.foldl (startAt constraints atoms.length) search) ∧
      started ⊆ (started.foldl (startAt constraints atoms.length) search).done := by
  induction started generalizing search with
  | nil => exact ⟨.refl settled, List.nil_subset _⟩
  | cons atom rest ih =>
    obtain ⟨atomKnown, restKnown⟩ := List.cons_subset.mp known
    obtain ⟨first, reached⟩ := startAt_progress targets settled atomKnown
    obtain ⟨onward, others⟩ := ih restKnown first.settled
    exact ⟨first.trans onward, List.cons_subset.mpr ⟨onward.done.subset reached, others⟩⟩

theorem visitAll_settled (targets : ∀ constraint ∈ constraints, constraint.target ∈ atoms) :
    Settled constraints (visitAll constraints atoms) ∧
      atoms ⊆ (visitAll constraints atoms).done := by
  rw [visitAll_eq]
  obtain ⟨progress, reached⟩ :=
    foldl_startAt_progress targets atoms (List.Subset.refl _) settled_empty
  exact ⟨progress.settled, reached⟩

/-- A chain of unflagged constraints leads from every occurrence of its first atom among the atoms
that are done to one that was done earlier. -/
theorem Settled.mem_of_chain {search : Search} (settled : Settled constraints search)
    {kept : List Constraint}
    (unflagged : ∀ constraint ∈ kept, constraint ∈ constraints ∧ constraint.edge ∉ search.flagged)
    {first last : String} (chain : Relation.TransGen (Precedes kept) first last) :
    ∀ later earlier, search.done = later ++ first :: earlier → last ∈ earlier := by
  induction chain with
  | single step =>
    intro later earlier split
    obtain ⟨constraint, member, source, rfl⟩ := step
    obtain ⟨known, free⟩ := unflagged constraint member
    exact settled later first earlier split constraint known source free
  | @tail middle last _ step ih =>
    intro later earlier split
    obtain ⟨constraint, member, source, rfl⟩ := step
    obtain ⟨known, free⟩ := unflagged constraint member
    obtain ⟨between, rest, behind⟩ := List.append_of_mem (ih later earlier split)
    have target := settled (later ++ first :: between) middle rest
      (by rw [split, behind, List.append_assoc, List.cons_append]) constraint known source free
    rw [behind]
    exact List.mem_append_right _ (List.mem_cons_of_mem _ target)

/-- Without the flagged edges no chain of constraints closes a cycle. -/
theorem Settled.acyclic {search : Search} (settled : Settled constraints search)
    {kept : List Constraint}
    (unflagged : ∀ constraint ∈ kept, constraint ∈ constraints ∧ constraint.edge ∉ search.flagged)
    (reached : ∀ constraint ∈ kept, constraint.source ∈ search.done) : Acyclic kept := by
  intro atom cycle
  -- Among the occurrences of `atom` the one done first has none done before it.
  have absent : ∀ earlier later, search.done ≠ later ++ atom :: earlier := by
    intro earlier
    induction count : earlier.length using Nat.strongRecOn generalizing earlier with
    | ind length ih =>
      intro later split
      obtain ⟨between, rest, behind⟩ :=
        List.append_of_mem (settled.mem_of_chain unflagged cycle later earlier split)
      have shorter : rest.length < length := by
        rw [← count, behind, List.length_append, List.length_cons]
        omega
      apply ih rest.length shorter rest rfl (later ++ atom :: between)
      rw [split, behind, List.append_assoc, List.cons_append]
  have start : atom ∈ search.done := by
    obtain ⟨next, step, -⟩ := Relation.TransGen.head'_iff.mp cycle
    obtain ⟨constraint, member, rfl, -⟩ := step
    exact reached constraint member
  obtain ⟨later, earlier, split⟩ := List.append_of_mem start
  exact absent earlier later split

end Search

end BoxDiagram
