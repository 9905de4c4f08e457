import BoxDiagram.Proofs.Accounts
import BoxDiagram.Proofs.Agreement

/-!
Which declaration makes a node. The declarations of a source are entered one by one, each under the id
that it gets where it stands. The first one under a path makes the node of that path, which keeps its id,
its kind and its place; those that follow under the same path make nothing.
-/

namespace BoxDiagram

variable {α : Type}

def Statement.declaration? : Statement → Option Declaration
  | .containerOpen declaration | .leaf declaration => some declaration
  | _ => none

structure Entry where
  id : NodeId
  declaration : Declaration
  kind : NodeKind
  span : Span

/-- The node is what the entry says, and no earlier one of the entries has its path. -/
def Node.MadeBy (node : Node α) (entry : Entry) (entries : List Entry) : Prop :=
  (entry.id = node.id ∧ entry.kind = node.kind ∧ entry.span = node.span) ∧
    ∃ before after, entries = before ++ entry :: after ∧
      ∀ earlier ∈ before, earlier.id.path ≠ node.path

theorem Node.MadeBy.mem {node : Node α} {entry : Entry} {entries : List Entry}
    (made : node.MadeBy entry entries) : entry ∈ entries := by
  obtain ⟨-, before, after, rfl, -⟩ := made
  exact List.mem_append_right before List.mem_cons_self

theorem Node.MadeBy.append {node : Node α} {entry : Entry} {entries : List Entry}
    (made : node.MadeBy entry entries) (more : List Entry) : node.MadeBy entry (entries ++ more) := by
  obtain ⟨same, before, after, rfl, first⟩ := made
  exact ⟨same, before, after ++ more, by simp, first⟩

/-- The nodes are those that the entries make, in that each entry has a node of its path and each node is
made by the first entry of its path. -/
structure Entered (entries : List Entry) (nodes : List (Node α)) : Prop where
  known : ∀ entry ∈ entries, ∃ node ∈ nodes, node.path = entry.id.path
  made : ∀ node ∈ nodes, ∃ entry, node.MadeBy entry entries

theorem Entered.nil : Entered [] ([] : List (Node α)) := ⟨List.forall_mem_nil _, List.forall_mem_nil _⟩

section Entered

variable {entries : List Entry} {nodes : List (Node α)} (entered : Entered entries nodes) (entry : Entry)
include entered

/-- An entry under a known path may change what an entry does not tell of the nodes. -/
theorem Entered.repeated (known : ∃ node ∈ nodes, node.path = entry.id.path) (change : Node α → Node α)
    (content : ∀ node, (change node).id = node.id ∧ (change node).kind = node.kind ∧
      (change node).span = node.span) :
    Entered (entries ++ [entry]) (nodes.map change) := by
  have paths (node : Node α) : (change node).path = node.path := congrArg NodeId.path (content node).1
  have listed {path : String} (found : ∃ node ∈ nodes, node.path = path) :
      ∃ node ∈ nodes.map change, node.path = path := by
    obtain ⟨node, member, same⟩ := found
    exact ⟨change node, List.mem_map_of_mem member, (paths node).trans same⟩
  constructor
  case known =>
    refine List.forall_mem_append.mpr ⟨?_, List.forall_mem_singleton.mpr (listed known)⟩
    exact fun other member => listed (entered.known other member)
  case made =>
    intro node member
    obtain ⟨before, found, rfl⟩ := List.mem_map.mp member
    obtain ⟨first, same, earlier⟩ := entered.made before found
    obtain ⟨sameId, sameKind, sameSpan⟩ := content before
    refine ⟨first, Node.MadeBy.append ⟨?_, ?_⟩ _⟩
    · rwa [sameId, sameKind, sameSpan]
    · rwa [paths]

theorem Entered.added {node : Node α}
    (same : entry.id = node.id ∧ entry.kind = node.kind ∧ entry.span = node.span)
    (fresh : ∀ other ∈ nodes, other.path ≠ node.path) :
    Entered (entries ++ [entry]) (nodes ++ [node]) := by
  constructor
  case known =>
    refine List.forall_mem_append.mpr ⟨?_, List.forall_mem_singleton.mpr ?_⟩
    · intro other member
      obtain ⟨found, listed, path⟩ := entered.known other member
      exact ⟨found, List.mem_append_left _ listed, path⟩
    · exact ⟨node, List.mem_append_right _ (List.mem_singleton_self _), congrArg NodeId.path same.1.symm⟩
  case made =>
    refine List.forall_mem_append.mpr ⟨?_, List.forall_mem_singleton.mpr ?_⟩
    · intro other listed
      obtain ⟨first, made⟩ := entered.made other listed
      exact ⟨first, made.append _⟩
    · refine ⟨entry, same, entries, [], rfl, ?_⟩
      intro other member taken
      obtain ⟨found, listed, path⟩ := entered.known other member
      exact fresh found listed (path.trans taken)

end Entered

namespace Assembly

def entry (assembly : Assembly α) (declaration : Declaration) (kind : NodeKind) (span : Span) : Entry :=
  ⟨assembly.idOf declaration.name.value, declaration, kind, span⟩

def keptEntry (assembly : Assembly α) : List Entry :=
  assembly.pending.toList.map fun kept => assembly.entry kept.1 .leaf kept.2

theorem pending_close (assembly : Assembly α) (brace : Span) :
    (assembly.close brace).pending = assembly.pending := by
  unfold close
  split <;> rfl

variable [Scalar α]

def lineEntries (assembly : Assembly α) (line : Line) : List Entry :=
  match line.statement with
  | .blockOpen =>
    assembly.pending.toList.map fun kept => assembly.entry kept.1 .container (kept.2.union line.span)
  | .comment | .ignorable => []
  | .containerOpen declaration =>
    assembly.keptEntry ++ [assembly.flush.entry declaration .container line.span]
  | .leaf _ | .containerClose | .connection _ | .title _ | .malformed _ => assembly.keptEntry

def entries (assembly : Assembly α) : List Line → List Entry
  | [] => assembly.keptEntry
  | line :: rest => assembly.lineEntries line ++ (assembly.process line).entries rest

theorem pending_behind (assembly : Assembly α) (line : Line) :
    (assembly.lineEntries line).map (·.declaration) ++ (assembly.process line).pending.toList.map Prod.fst =
      assembly.pending.toList.map Prod.fst ++ line.statement.declaration?.toList := by
  have free := pending_flush assembly
  have kept : assembly.keptEntry.map (·.declaration) = assembly.pending.toList.map Prod.fst := by
    rw [keptEntry, List.map_map]
    rfl
  have closed (brace : Span) : (assembly.flush.close brace).pending = none :=
    (pending_close assembly.flush brace).trans free
  unfold lineEntries process
  cases line.statement with
  | blockOpen =>
    cases waits : assembly.pending with
    | none =>
      show _ ++ assembly.pending.toList.map Prod.fst = _
      rw [waits]
      rfl
    | some pending =>
      have none : (openContainer { assembly with pending := none } pending.1
          (pending.2.union line.span)).pending = none := pending_declare _ _ _ _
      dsimp only
      rw [none]
      rfl
  | comment | ignorable => exact (List.append_nil _).symm
  | containerOpen declaration =>
    have none : (assembly.flush.openContainer declaration line.span).pending = none :=
      (pending_declare _ _ _ _).trans free
    dsimp only
    rw [none, List.map_append, kept, Option.toList_none, List.map_nil, List.append_nil]
    rfl
  | leaf declaration =>
    dsimp only
    rw [kept]
    rfl
  | containerClose =>
    dsimp only
    rw [kept, closed]
    rfl
  | connection | title | malformed =>
    show _ ++ assembly.flush.pending.toList.map Prod.fst = _
    rw [kept, free]
    rfl

/-- Every declaration of the lines is entered once, in their order, behind the one that is kept back. -/
theorem declarations_entries (assembly : Assembly α) (lines : List Line) :
    (assembly.entries lines).map (·.declaration) =
      assembly.pending.toList.map Prod.fst ++ lines.filterMap (·.statement.declaration?) := by
  induction lines generalizing assembly with
  | nil =>
    rw [entries, keptEntry, List.map_map, List.filterMap_nil, List.append_nil]
    rfl
  | cons line lines ih =>
    have here := assembly.pending_behind line
    have split : (line :: lines).filterMap (·.statement.declaration?) =
        line.statement.declaration?.toList ++ lines.filterMap (·.statement.declaration?) := by
      rw [List.filterMap_cons]
      cases line.statement.declaration? <;> rfl
    rw [entries, List.map_append, ih, ← List.append_assoc, here, split, List.append_assoc]

variable {assembly : Assembly α} {earlier : List Entry}

/-- A declaration makes the node of its path, or that node has been made before. -/
theorem Sound.entered_declare (sound : assembly.Sound) (entered : Entered earlier assembly.graph.nodes)
    (declaration : Declaration) (kind : NodeKind) (span : Span) :
    Entered (earlier ++ [assembly.entry declaration kind span])
      (assembly.declare declaration kind span).2.graph.nodes := by
  let id := assembly.idOf declaration.name.value
  cases known : assembly.graph.node? id.path with
  | some existing =>
    rw [declare_known kind span known]
    have found : existing.path = id.path := by simpa using List.find?_some known
    refine entered.repeated _ ⟨existing, List.mem_of_find?_eq_some known, found⟩ _ fun node => ?_
    split <;> exact ⟨rfl, rfl, rfl⟩
  | none =>
    rw [declare_new kind span known, sound.addNode_declared known]
    refine entered.added _ ⟨rfl, rfl, rfl⟩ fun other listed taken => ?_
    exact List.find?_eq_none.mp known other listed (decide_eq_true taken)

theorem Sound.entered_flush (sound : assembly.Sound) (entered : Entered earlier assembly.graph.nodes) :
    Entered (earlier ++ assembly.keptEntry) assembly.flush.graph.nodes := by
  unfold keptEntry Assembly.flush
  cases assembly.pending with
  | none => rwa [Option.toList_none, List.map_nil, List.append_nil]
  | some kept => exact sound.released.entered_declare entered kept.1 .leaf kept.2

theorem Sound.entered_process (sound : assembly.Sound) (entered : Entered earlier assembly.graph.nodes)
    (line : Line) :
    Entered (earlier ++ assembly.lineEntries line) (assembly.process line).graph.nodes := by
  have flushed := sound.entered_flush entered
  unfold lineEntries Assembly.process
  cases line.statement with
  | blockOpen =>
    cases assembly.pending with
    | none => rwa [Option.toList_none, List.map_nil, List.append_nil]
    | some kept => exact sound.released.entered_declare entered kept.1 .container _
  | comment | ignorable => rwa [List.append_nil]
  | containerOpen declaration =>
    rw [← List.append_assoc]
    exact sound.flush.entered_declare flushed declaration .container line.span
  | containerClose =>
    dsimp only
    unfold Assembly.close
    split <;> exact flushed
  | leaf | connection | title | malformed => exact flushed

theorem Sound.entered_foldl (sound : assembly.Sound) (entered : Entered earlier assembly.graph.nodes)
    (lines : List Line) :
    Entered (earlier ++ assembly.entries lines)
      (lines.foldl Assembly.process assembly).flush.graph.nodes := by
  induction lines generalizing assembly earlier with
  | nil => exact sound.entered_flush entered
  | cons line lines ih =>
    rw [entries, ← List.append_assoc]
    exact ih (sound.process line) (sound.entered_process entered line)

end Assembly

variable [Scalar α]

def sourceEntries (source : String) : List Entry := ({} : Assembly α).entries (Line.ofSource source)

theorem declarations_sourceEntries (source : String) :
    (sourceEntries (α := α) source).map (·.declaration) =
      (Line.ofSource source).filterMap (·.statement.declaration?) :=
  Assembly.declarations_entries {} _

/-- Each node of a source is made by the first declaration under its path. -/
theorem entered_parse (source : String) :
    Entered (sourceEntries (α := α) source) (parse source : Parsed α).graph.nodes := by
  rw [Assembly.nodes_parse]
  exact Assembly.Sound.empty.entered_foldl .nil (Line.ofSource source)

end BoxDiagram
