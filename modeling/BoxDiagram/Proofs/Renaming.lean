import BoxDiagram.Containment
import BoxDiagram.Proofs.LongestChain
import Mathlib.Data.List.Basic

/-!
Graphs under other names. Whatever looks nodes up by their paths finds the same nodes under new names,
when no two names become one: the members of a scope, the nodes around a node, the list of scopes.
-/

namespace BoxDiagram

variable {α : Type} {rename : String → String}

section Lists

theorem contains_rename (injective : rename.Injective) (names : List String) (name : String) :
    (names.map rename).contains (rename name) = names.contains name := by
  simp [injective.eq_iff]

theorem idxOf_rename (injective : rename.Injective) (names : List String) (name : String) :
    (names.map rename).idxOf (rename name) = names.idxOf name := by
  induction names with
  | nil => rfl
  | cons first rest ih =>
    have same : (rename first == rename name) = (first == name) := by
      simp [injective.eq_iff, beq_eq_decide]
    rw [List.map_cons, List.idxOf_cons, List.idxOf_cons, same, ih]

theorem lookup_rename {β γ : Type} (injective : rename.Injective) (change : β → γ)
    (table : List (String × β)) (key : String) :
    (table.map (Prod.map rename change)).lookup (rename key) = (table.lookup key).map change := by
  induction table with
  | nil => rfl
  | cons entry rest ih =>
    have same : (rename key == rename entry.1) = (key == entry.1) := by
      simp [injective.eq_iff, beq_eq_decide]
    rw [List.map_cons, Prod.map, List.lookup_cons, List.lookup_cons, same, ih]
    split <;> rfl

/-- A renaming of some names that makes no two of them one can be extended to all names: the others are
put behind a filler that is longer than all new names. -/
theorem exists_injective (names : List String)
    (apart : ∀ first ∈ names, ∀ second ∈ names, rename first = rename second → first = second) :
    ∃ total : String → String, total.Injective ∧ ∀ name ∈ names, total name = rename name := by
  let longest := (names.map fun name => (rename name).length).foldl max 0
  let filler := String.ofList (List.replicate (longest + 1) 'x')
  have short : ∀ name ∈ names, (rename name).length < filler.length := by
    intro name member
    have listed := List.mem_map_of_mem (f := fun name => (rename name).length) member
    have bounded : (rename name).length ≤ longest := Ranking.le_foldl_max_of_mem listed 0
    rw [String.length_ofList, List.length_replicate]
    exact Nat.lt_succ_of_le bounded
  -- a filled name is longer than every new name
  have foreign : ∀ name ∈ names, ∀ other, rename name ≠ filler ++ other := by
    intro name member other same
    have long := short name member
    rw [same, String.length_append] at long
    omega
  refine ⟨fun name => if name ∈ names then rename name else filler ++ name, ?_, fun name member =>
    if_pos member⟩
  intro first second same
  dsimp only at same
  split at same
  next firstIn =>
    split at same
    next secondIn => exact apart first firstIn second secondIn same
    next => exact (foreign first firstIn second same).elim
  next =>
    split at same
    next secondIn => exact (foreign second secondIn first same.symm).elim
    next => exact String.append_right_inj filler |>.mp same

end Lists

def Scope.renamed (rename : String → String) (scope : Scope) : Scope :=
  ⟨scope.container.map rename, scope.members.map rename⟩

@[simp] theorem Scope.container_renamed (scope : Scope) :
    (scope.renamed rename).container = scope.container.map rename := rfl

/-- The edge between other names, without what no layout looks at. -/
def Edge.renamed (rename : String → String) (edge : Edge) : Edge :=
  { source := rename edge.source, target := rename edge.target, kind := .directed, label := none,
    span := .zero }

variable [Scalar α]

def Node.renamed (rename : String → String) (node : Node α) : Node α :=
  .declared ⟨none, rename node.path⟩ node.kind (node.parent.map rename) {} .zero

@[simp] theorem Node.path_renamed (node : Node α) : (node.renamed rename).path = rename node.path := rfl

@[simp] theorem Node.parent_renamed (node : Node α) :
    (node.renamed rename).parent = node.parent.map rename := rfl

namespace Graph

def renamed (rename : String → String) (graph : Graph α) : Graph α where
  nodes := graph.nodes.map (Node.renamed rename)
  edges := graph.edges.map (Edge.renamed rename)

@[simp] theorem nodes_renamed (graph : Graph α) :
    (graph.renamed rename).nodes = graph.nodes.map (Node.renamed rename) := rfl

@[simp] theorem edges_renamed (graph : Graph α) :
    (graph.renamed rename).edges = graph.edges.map (Edge.renamed rename) := rfl

theorem paths_renamed (nodes : List (Node α)) :
    (nodes.map (Node.renamed rename)).map Node.path = (nodes.map Node.path).map rename := by
  rw [List.map_map, List.map_map]
  rfl

variable (injective : rename.Injective) (graph : Graph α)
include injective

theorem node?_renamed (path : String) :
    (graph.renamed rename).node? (rename path) = (graph.node? path).map (Node.renamed rename) := by
  unfold node? renamed
  rw [List.find?_map]
  congr 2
  funext node
  exact decide_eq_decide.mpr injective.eq_iff

theorem members_renamed (container : Option String) :
    (graph.renamed rename).members (container.map rename) =
      (graph.members container).map (Node.renamed rename) := by
  unfold members renamed
  rw [List.filter_map]
  congr 2
  funext node
  exact decide_eq_decide.mpr (Option.map_injective injective).eq_iff

theorem children_renamed (path : String) :
    (graph.renamed rename).children (rename path) =
      (graph.children path).map (Node.renamed rename) :=
  graph.members_renamed injective (some path)

theorem outward_renamed (nodes : List (Node α)) (parent : Option String) :
    outward (nodes.map (Node.renamed rename)) (parent.map rename) =
      (outward nodes parent).map (Node.renamed rename) := by
  induction nodes generalizing parent with
  | nil => cases parent <;> rfl
  | cons node earlier ih =>
    cases parent with
    | none => rfl
    | some outer =>
      have same : (node.renamed rename).path = rename outer ↔ node.path = outer := injective.eq_iff
      have around := ih node.parent
      have further := ih (some outer)
      simp only [List.map_cons, Option.map_some, outward] at around further ⊢
      by_cases found : node.path = outer
      · rw [if_pos found, if_pos (same.mpr found), List.map_cons, ← around]
        rfl
      · rw [if_neg found, if_neg (same.not.mpr found), ← further]

theorem ancestors_renamed (path : String) :
    (graph.renamed rename).ancestors (rename path) =
      (graph.ancestors path).map (Node.renamed rename) := by
  unfold ancestors
  rw [graph.node?_renamed injective path]
  cases graph.node? path with
  | none => rfl
  | some node =>
    have around := outward_renamed injective graph.nodes.reverse node.parent
    rwa [List.map_reverse] at around

theorem lineage_renamed (path : String) :
    (graph.renamed rename).lineage (rename path) =
      (graph.lineage path).map (Node.renamed rename) := by
  unfold lineage
  rw [graph.node?_renamed injective, graph.ancestors_renamed injective, List.map_append]
  cases graph.node? path <;> rfl

theorem depth_renamed (path : String) :
    (graph.renamed rename).depth (rename path) = graph.depth path := by
  rw [depth, depth, graph.ancestors_renamed injective, List.length_map]

theorem scope_renamed (container : Option String) :
    (graph.renamed rename).scope (container.map rename) =
      (graph.scope container).renamed rename := by
  simp only [scope, graph.members_renamed injective, paths_renamed, Scope.renamed]

theorem isFilled_renamed (node : Node α) :
    (graph.renamed rename).isFilled (node.renamed rename) = graph.isFilled node := by
  have inside : (graph.renamed rename).members (some (rename node.path)) =
      (graph.members (some node.path)).map (Node.renamed rename) :=
    graph.members_renamed injective (some node.path)
  rw [isFilled, isFilled, node.path_renamed, inside, List.isEmpty_map]
  rfl

theorem filledAt_renamed (depth : Nat) :
    (graph.renamed rename).filledAt depth = (graph.filledAt depth).map (Node.renamed rename) := by
  unfold filledAt
  rw [nodes_renamed, List.filter_map]
  congr 2
  funext node
  have deep := graph.depth_renamed injective node.path
  have filled := graph.isFilled_renamed injective node
  simp only [Function.comp_apply, filled]
  rw [node.path_renamed, deep]

theorem depths_renamed : (graph.renamed rename).depths = graph.depths := by
  have deep : (graph.renamed rename).nodes.map (fun node => (graph.renamed rename).depth node.path) =
      graph.nodes.map fun node => graph.depth node.path := by
    rw [nodes_renamed, List.map_map]
    exact List.map_congr_left fun node _ => graph.depth_renamed injective node.path
  rw [depths, depths, deep]

theorem scopes_renamed :
    (graph.renamed rename).scopes = graph.scopes.map (Scope.renamed rename) := by
  have outermost := graph.members_renamed injective none
  have inner (depth : Nat) : ((graph.renamed rename).filledAt depth).map
      (fun container => (graph.renamed rename).scope (some container.path)) =
      ((graph.filledAt depth).map fun container => graph.scope (some container.path)).map
        (Scope.renamed rename) := by
    rw [graph.filledAt_renamed injective, List.map_map, List.map_map]
    exact List.map_congr_left fun node _ => graph.scope_renamed injective (some node.path)
  have roots : (graph.renamed rename).roots.isEmpty = graph.roots.isEmpty := by
    rw [show (graph.renamed rename).roots = graph.roots.map (Node.renamed rename) from outermost,
      List.isEmpty_map]
  unfold scopes
  rw [List.map_append, List.map_flatMap, graph.depths_renamed injective, roots]
  simp only [inner]
  congr 1
  split
  next => rfl
  next => exact congrArg (fun scope => [scope]) (graph.scope_renamed injective none)

theorem lift_renamed (container : Option String) (path : String) :
    (graph.renamed rename).lift (container.map rename) (rename path) =
      (graph.lift container path).map rename := by
  have sameParent : (fun node : Node α => decide (node.parent = container.map rename)) ∘
      Node.renamed rename = fun node => decide (node.parent = container) := by
    funext node
    exact decide_eq_decide.mpr (Option.map_injective injective).eq_iff
  unfold lift
  rw [graph.lineage_renamed injective, List.find?_map, sameParent, Option.map_map, Option.map_map]
  rfl

end Graph

end BoxDiagram
