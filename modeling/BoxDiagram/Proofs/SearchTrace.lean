import BoxDiagram.Proofs.Chains
import Mathlib.Data.List.Chain
import Mathlib.Data.List.Induction

/-!
What the search knows of the constraints that it flags. The atoms that it has come to are kept in the
order in which it will have left them: the path, its far end first, in front of what is done. Entering
an atom puts it between the two, and leaving one changes nothing, so the order of two atoms is settled
once both are in. A constraint that is followed to a new atom leads on in this order; one that is
flagged leads back, from an atom to one that the search came through on its way there.
-/

namespace BoxDiagram.Search

open Relation

def order (path : List String) (search : Search) : List String := path.reverse ++ search.done

def Descends (constraints : List Constraint) (order : List String) (first second : String) : Prop :=
  Precedes constraints first second ∧ [first, second].Sublist order

structure LeadsBack (constraints : List Constraint) (order : List String)
    (constraint : Constraint) : Prop where
  member : constraint ∈ constraints
  behind : [constraint.target, constraint.source].Sublist order
  descent : ReflTransGen (Descends constraints order) constraint.target constraint.source

/-- A search on some path that enters no atom twice and flags only edges with a constraint that
leads back. -/
structure Traced (constraints : List Constraint) (path : List String) (search : Search) : Prop where
  nodup : (order path search).Nodup
  linked : path.IsChain fun inner outer => Precedes constraints outer inner
  flagged : ∀ edge ∈ search.flagged, ∃ constraint, constraint.edge = edge ∧
    LeadsBack constraints (order path search) constraint

variable {constraints : List Constraint} {path : List String} {search : Search} {atom : String}

theorem Descends.mono {earlier later : List String} (grows : earlier.Sublist later)
    {first second : String} (descends : Descends constraints earlier first second) :
    Descends constraints later first second :=
  ⟨descends.1, descends.2.trans grows⟩

theorem LeadsBack.mono {earlier later : List String} (grows : earlier.Sublist later)
    {constraint : Constraint} (back : LeadsBack constraints earlier constraint) :
    LeadsBack constraints later constraint :=
  ⟨back.member, back.behind.trans grows,
    ReflTransGen.mono (fun _ _ => Descends.mono grows) _ _ back.descent⟩

theorem LeadsBack.reaches {order : List String} {constraint : Constraint}
    (back : LeadsBack constraints order constraint) :
    ReflTransGen (Precedes constraints) constraint.target constraint.source :=
  ReflTransGen.mono (fun _ _ => And.left) _ _ back.descent

theorem order_leave (path : List String) (atom : String) (search : Search) :
    order path { search with done := atom :: search.done } = order (atom :: path) search := by
  simp [order]

theorem sublist_order_enter (path : List String) (atom : String) (search : Search) :
    (order path search).Sublist (order (atom :: path) search) := by
  rw [← order_leave]
  exact (List.sublist_cons_self atom search.done).append_left path.reverse

theorem traced_empty : Traced constraints [] {} where
  nodup := List.nodup_nil
  linked := .nil
  flagged := by simp

theorem Traced.enter (traced : Traced constraints path search) (fresh : atom ∉ order path search)
    (linked : (atom :: path).IsChain fun inner outer => Precedes constraints outer inner) :
    Traced constraints (atom :: path) search where
  nodup := by
    rw [← order_leave]
    exact List.nodup_middle.mpr (List.nodup_cons.mpr ⟨fresh, traced.nodup⟩)
  linked
  flagged := by
    intro edge member
    obtain ⟨constraint, same, back⟩ := traced.flagged edge member
    exact ⟨constraint, same, back.mono (sublist_order_enter path atom search)⟩

theorem Traced.leave (traced : Traced constraints (atom :: path) search) :
    Traced constraints path { search with done := atom :: search.done } where
  nodup := by
    rw [order_leave]
    exact traced.nodup
  linked := traced.linked.tail
  flagged := by
    rw [order_leave]
    exact traced.flagged

/-- From every atom on a path the search came down to the atom at its head. -/
theorem descends_of_mem (linked : (atom :: path).IsChain fun inner outer =>
    Precedes constraints outer inner) {outer : String} (member : outer ∈ atom :: path) :
    ReflTransGen (Descends constraints (atom :: path).reverse) outer atom := by
  induction path generalizing atom with
  | nil =>
    rw [List.mem_singleton.mp member]
  | cons next rest ih =>
    obtain ⟨step, further⟩ := List.isChain_cons_cons.mp linked
    rcases List.mem_cons.mp member with rfl | above
    · exact .refl
    · rw [List.reverse_cons]
      have grows : (next :: rest).reverse.Sublist ((next :: rest).reverse ++ [atom]) :=
        List.sublist_append_left _ _
      refine (ReflTransGen.mono (fun _ _ => Descends.mono grows) _ _ (ih further above)).tail
        ⟨step, ?_⟩
      rw [List.reverse_cons, List.append_assoc]
      exact List.sublist_append_right _ _

theorem Traced.flag (traced : Traced constraints (atom :: path) search) {constraint : Constraint}
    (member : constraint ∈ constraints) (source : constraint.source = atom)
    (above : constraint.target ∈ path) :
    Traced constraints (atom :: path)
      { search with flagged := constraint.edge :: search.flagged } where
  nodup := traced.nodup
  linked := traced.linked
  flagged := by
    intro edge listed
    rcases List.mem_cons.mp listed with rfl | earlier
    · have passed : (atom :: path).reverse.Sublist (order (atom :: path) search) :=
        List.sublist_append_left _ _
      refine ⟨constraint, rfl, member, ?_, ?_⟩
      · rw [source]
        refine List.Sublist.trans ?_ passed
        rw [List.reverse_cons]
        exact (List.singleton_sublist.mpr (List.mem_reverse.mpr above)).append_right [atom]
      · rw [source]
        exact ReflTransGen.mono (fun _ _ => Descends.mono passed) _ _
          (descends_of_mem traced.linked (List.mem_cons_of_mem _ above))
    · exact traced.flagged edge earlier

theorem sublist_asymm {left right : String} {atoms : List String} (nodup : atoms.Nodup)
    (ordered : [left, right].Sublist atoms) : ¬[right, left].Sublist atoms := by
  intro reversed
  obtain ⟨front, back, rfl, leftFront, rightBack⟩ := List.cons_sublist_iff.mp ordered
  obtain ⟨-, -, apart⟩ := List.nodup_append.mp nodup
  rw [List.singleton_sublist] at rightBack
  obtain ⟨start, rest, cut, rightStart, leftRest⟩ := List.cons_sublist_iff.mp reversed
  rw [List.singleton_sublist] at leftRest
  rcases List.append_eq_append_iff.mp cut with ⟨between, -, rfl⟩ | ⟨between, rfl, -⟩
  · exact apart left leftFront left (List.mem_append_right _ leftRest) rfl
  · exact apart right (List.mem_append_left _ rightStart) right rightBack rfl

/-- Where every edge has one constraint at most, one that leads on is not flagged. -/
theorem Traced.unflagged (traced : Traced constraints path search)
    (single : ∀ left ∈ constraints, ∀ right ∈ constraints, left.edge = right.edge → left = right)
    {constraint : Constraint} (member : constraint ∈ constraints)
    (onward : [constraint.source, constraint.target].Sublist (order path search)) :
    constraint.edge ∉ search.flagged := by
  intro listed
  obtain ⟨other, same, back⟩ := traced.flagged constraint.edge listed
  rw [single other back.member constraint member same] at back
  exact sublist_asymm traced.nodup onward back.behind

variable (distinct : ∀ constraint ∈ constraints, constraint.source ≠ constraint.target)
include distinct

/-- What a visit keeps, whatever fuel it has. -/
theorem traced_visit (fuel : Nat) (traced : Traced constraints path search)
    (fresh : atom ∉ order path search)
    (linked : (atom :: path).IsChain fun inner outer => Precedes constraints outer inner) :
    Traced constraints path (visit constraints fuel path atom search) := by
  induction fuel generalizing path atom search with
  | zero => exact traced
  | succ fuel ih =>
    rw [visit_succ]
    apply Traced.leave
    unfold followAll
    have start := traced.enter fresh linked
    have own : ∀ constraint ∈ constraints.filter (·.source = atom),
        constraint ∈ constraints ∧ constraint.source = atom := by
      intro constraint member
      simpa using member
    clear traced fresh
    generalize constraints.filter (·.source = atom) = followed at own
    induction followed generalizing search with
    | nil => exact start
    | cons constraint rest onward =>
      obtain ⟨⟨member, source⟩, later⟩ := List.forall_mem_cons.mp own
      rw [List.foldl_cons]
      apply onward _ later
      unfold follow
      split
      next => exact start
      next unreached =>
        rw [List.contains_iff_mem] at unreached
        split
        next back =>
          rw [List.contains_iff_mem, ← source] at back
          exact start.flag member source
            ((List.mem_cons.mp back).resolve_left (distinct constraint member).symm)
        next off =>
          rw [List.contains_iff_mem] at off
          apply ih start
          · rw [order, List.mem_append, List.mem_reverse]
            exact not_or_intro off unreached
          · exact List.isChain_cons_cons.mpr ⟨⟨constraint, member, source, rfl⟩, linked⟩

theorem traced_startAt (fuel : Nat) (traced : Traced constraints [] search) (atom : String) :
    Traced constraints [] (startAt constraints fuel search atom) := by
  unfold startAt
  split
  next => exact traced
  next unreached =>
    rw [List.contains_iff_mem] at unreached
    exact traced_visit distinct fuel traced unreached (List.isChain_singleton atom)

theorem traced_visitAll (atoms : List String) :
    Traced constraints [] (visitAll constraints atoms) := by
  rw [visitAll_eq]
  generalize atoms.length = fuel
  induction atoms using List.reverseRecOn with
  | nil => exact traced_empty
  | append_singleton atoms atom ih =>
    rw [List.foldl_concat]
    exact traced_startAt distinct fuel ih atom

end BoxDiagram.Search
