import BoxDiagram.Proofs.FirstDeclarations

/-!
A ledger of declarations. It says what the declarations of a source are called, with no regard to a
graph: each is entered in the innermost open body that belongs to a node, and the body of a declaration
belongs to the node of its path if what was entered first under that path is a container. A leaf is
entered as a container if the next thing that is said behind it is a brace alone.
-/

namespace BoxDiagram

inductive Move where
  /-- A declaration; that of a container opens a body. -/
  | declare (declaration : Declaration) (kind : NodeKind) (span : Span)
  | block
  | leave

def Move.declaration? : Move → Option Declaration
  | .declare declaration _ _ => some declaration
  | .block | .leave => none

def nextBrace? : List Line → Option Line
  | [] => none
  | line :: rest =>
    if line.statement.isIgnorable then nextBrace? rest
    else if line.statement = .blockOpen then some line
    else none

/-- A leaf, with a body if a brace alone follows it. -/
def leafMove (declaration : Declaration) (span : Span) (behind : List Line) : Move :=
  match nextBrace? behind with
  | some brace => .declare declaration .container (span.union brace.span)
  | none => .declare declaration .leaf span

def movesFrom (waits : Bool) : List Line → List Move
  | [] => []
  | line :: rest =>
    match line.statement with
    | .containerOpen declaration => .declare declaration .container line.span :: movesFrom false rest
    | .leaf declaration => leafMove declaration line.span rest :: movesFrom true rest
    | .blockOpen => if waits then movesFrom false rest else .block :: movesFrom false rest
    | .containerClose => .leave :: movesFrom false rest
    | .comment | .ignorable => movesFrom waits rest
    | .connection _ | .title _ | .malformed _ => movesFrom false rest

def moves (lines : List Line) : List Move := movesFrom false lines

theorem declaration?_leafMove (declaration : Declaration) (span : Span) (behind : List Line) :
    (leafMove declaration span behind).declaration? = some declaration := by
  unfold leafMove
  split <;> rfl

/-- Lines declare what they say, whether or not a leaf waits for its brace. -/
theorem filterMap_movesFrom (waits : Bool) (lines : List Line) :
    (movesFrom waits lines).filterMap Move.declaration? =
      lines.filterMap (·.statement.declaration?) := by
  induction lines generalizing waits with
  | nil => rfl
  | cons line rest ih =>
    rw [movesFrom, List.filterMap_cons]
    cases line.statement with
    | leaf declaration =>
      dsimp only
      rw [List.filterMap_cons, declaration?_leafMove, ih]
      rfl
    | blockOpen => cases waits <;> exact ih false
    | containerOpen => exact congrArg (List.cons _) (ih false)
    | comment | ignorable => exact ih waits
    | containerClose | connection | title | malformed => exact ih false

/-- The declarations so far, and those of them whose bodies are open, innermost first. The body of a
brace that follows no declaration has none. -/
structure Ledger where
  entries : List Entry := []
  bodies : List (Option Entry) := []

namespace Ledger

def first? (ledger : Ledger) (path : String) : Option Entry :=
  ledger.entries.find? (·.id.path = path)

def under (ledger : Ledger) (path : String) : List Entry :=
  ledger.entries.filter (·.id.path = path)

/-- The path of the node that a body belongs to: that of its declaration, if the first declaration of
that path is a container. -/
def owner (ledger : Ledger) : Option Entry → Option String
  | none => none
  | some entry =>
    if (ledger.first? entry.id.path).any (·.kind = .container) then some entry.id.path else none

def owners (ledger : Ledger) : List (Option String) := ledger.bodies.map ledger.owner

def enclosing (ledger : Ledger) : Option String := ledger.owners.findSome? id

def idOf (ledger : Ledger) (name : String) : NodeId := ⟨ledger.enclosing, Text.normalize name⟩

def enter (ledger : Ledger) (declaration : Declaration) (kind : NodeKind) (span : Span) : Ledger :=
  let entry : Entry := ⟨ledger.idOf declaration.name.value, declaration, kind, span⟩
  { entries := ledger.entries ++ [entry]
    bodies := if kind = .container then some entry :: ledger.bodies else ledger.bodies }

def take (ledger : Ledger) : Move → Ledger
  | .declare declaration kind span => ledger.enter declaration kind span
  | .block => { ledger with bodies := none :: ledger.bodies }
  | .leave => { ledger with bodies := ledger.bodies.tail }

def ofLines (lines : List Line) : Ledger := (moves lines).foldl take {}

theorem declarations_foldl (ledger : Ledger) (moves : List Move) :
    (moves.foldl take ledger).entries.map (·.declaration) =
      ledger.entries.map (·.declaration) ++ moves.filterMap Move.declaration? := by
  induction moves generalizing ledger with
  | nil => simp
  | cons move moves ih =>
    rw [List.foldl_cons, ih, List.filterMap_cons]
    cases move <;> simp [take, enter, Move.declaration?]

theorem declarations_ofLines (lines : List Line) :
    (ofLines lines).entries.map (·.declaration) = lines.filterMap (·.statement.declaration?) :=
  (declarations_foldl {} _).trans (filterMap_movesFrom false lines)

def Kept (ledger : Ledger) : Prop := ∀ entry, some entry ∈ ledger.bodies → entry ∈ ledger.entries

theorem first?_isSome_iff {ledger : Ledger} {path : String} :
    (ledger.first? path).isSome = true ↔ path ∈ ledger.entries.map (·.id.path) := by
  simp [first?, List.find?_isSome]

section Enter

variable (ledger : Ledger) (declaration : Declaration) (kind : NodeKind) (span : Span)

theorem first?_enter_of_isSome {path : String} (known : (ledger.first? path).isSome = true) :
    (ledger.enter declaration kind span).first? path = ledger.first? path := by
  unfold first? enter at *
  rw [List.find?_append, Option.or_of_isSome known]

theorem first?_enter_of_ne {path : String}
    (other : (ledger.idOf declaration.name.value).path ≠ path) :
    (ledger.enter declaration kind span).first? path = ledger.first? path := by
  simp [first?, enter, List.find?_append, other]

theorem first?_enter_new (new : ledger.first? (ledger.idOf declaration.name.value).path = none) :
    (ledger.enter declaration kind span).first? (ledger.idOf declaration.name.value).path =
      some ⟨ledger.idOf declaration.name.value, declaration, kind, span⟩ := by
  unfold first? enter at *
  rw [List.find?_append, new]
  simp

theorem under_enter (path : String) :
    (ledger.enter declaration kind span).under path = ledger.under path ++
      if (ledger.idOf declaration.name.value).path = path then
        [⟨ledger.idOf declaration.name.value, declaration, kind, span⟩] else [] := by
  simp [under, enter, List.filter_append, List.filter_cons]

variable {ledger}

/-- An open body goes on to belong to the node that it belongs to. -/
theorem Kept.owner_enter (kept : ledger.Kept) :
    ledger.bodies.map (ledger.enter declaration kind span).owner = ledger.owners := by
  refine List.map_congr_left fun body member => ?_
  cases body with
  | none => rfl
  | some entry =>
    have known : (ledger.first? entry.id.path).isSome = true :=
      first?_isSome_iff.mpr (List.mem_map.mpr ⟨entry, kept entry member, rfl⟩)
    rw [owner, owner, ledger.first?_enter_of_isSome declaration kind span known]

theorem Kept.enter (kept : ledger.Kept) : (ledger.enter declaration kind span).Kept := by
  intro entry member
  unfold Ledger.enter at member ⊢
  dsimp only at member ⊢
  split at member
  next =>
    rcases List.mem_cons.mp member with same | earlier
    · exact List.mem_append_right _ (List.mem_singleton.mpr (Option.some.inj same))
    · exact List.mem_append_left _ (kept entry earlier)
  next => exact List.mem_append_left _ (kept entry member)

/-- Behind the declaration of a container, names are declared inside the node of its path if what was
declared first under that path is a container, and else where they would have been without the body. -/
theorem Kept.enclosing_enter (kept : ledger.Kept) :
    let inner := ledger.enter declaration .container span
    let path := (ledger.idOf declaration.name.value).path
    inner.enclosing = if (inner.first? path).any (·.kind = .container) then some path
      else ledger.enclosing := by
  intro inner path
  let entry : Entry := ⟨ledger.idOf declaration.name.value, declaration, .container, span⟩
  have owners : inner.owners = inner.owner (some entry) :: ledger.owners :=
    congrArg (List.cons _) (kept.owner_enter declaration .container span)
  have own : inner.owner (some entry) =
      if (inner.first? path).any (·.kind = .container) then some path else none := rfl
  rw [enclosing, owners, List.findSome?_cons, own]
  cases (inner.first? path).any (·.kind = .container) <;> rfl

end Enter

end Ledger

end BoxDiagram
