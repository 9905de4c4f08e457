import BoxDiagram.Proofs.Ledger
import BoxDiagram.Proofs.MergedProperties

/-!
What the declarations of a source come to. Line by line the graph in the making is what the ledger of the
lines says: there is one node for each path that is declared, in the order of the first declarations; the
first declaration makes the node what it is, and all declarations of its path give it properties.
-/

namespace BoxDiagram

variable {α : Type}

def Entry.pairs (entry : Entry) : List (String × String) := PropertyList.pairs entry.declaration.list

def Ledger.pairs (ledger : Ledger) (path : String) : List (String × String) :=
  (ledger.under path).flatMap Entry.pairs

structure Node.Recorded (node : Node α) (ledger : Ledger) : Prop where
  first : ∃ first, ledger.first? node.path = some first ∧ node.id = first.id ∧ node.kind = first.kind ∧
    node.parent = first.id.outer ∧ node.span = first.span
  properties : node.properties.Merges (ledger.pairs node.path)

theorem Node.Recorded.label {node : Node α} {ledger : Ledger} (recorded : node.Recorded ledger) :
    node.label =
      ((ledger.pairs node.path).reverse.lookup Node.labelKey).getD node.id.readableName := by
  rw [Node.label, recorded.properties.values]

namespace Ledger

section Enter

variable {ledger : Ledger} {declaration : Declaration} {kind : NodeKind} {span : Span}

theorem pairs_enter_same :
    (ledger.enter declaration kind span).pairs (ledger.idOf declaration.name.value).path =
      ledger.pairs (ledger.idOf declaration.name.value).path ++ PropertyList.pairs declaration.list := by
  rw [pairs, under_enter, if_pos rfl, List.flatMap_append, List.flatMap_singleton]
  rfl

theorem pairs_enter_of_ne {path : String} (other : (ledger.idOf declaration.name.value).path ≠ path) :
    (ledger.enter declaration kind span).pairs path = ledger.pairs path := by
  rw [pairs, under_enter, if_neg other, List.append_nil]
  rfl

theorem recorded_other {node : Node α} (recorded : node.Recorded ledger)
    (other : (ledger.idOf declaration.name.value).path ≠ node.path) :
    node.Recorded (ledger.enter declaration kind span) where
  first := by rw [ledger.first?_enter_of_ne declaration kind span other]; exact recorded.first
  properties := by rw [pairs_enter_of_ne other]; exact recorded.properties

/-- A declaration under the path of the node gives it its properties and nothing else. -/
theorem recorded_again {node : Node α} (recorded : node.Recorded ledger)
    (same : (ledger.idOf declaration.name.value).path = node.path) :
    (node.mergeProperties (PropertyList.read declaration.list)).Recorded
      (ledger.enter declaration kind span) where
  first := by
    obtain ⟨first, found, content⟩ := recorded.first
    have known : (ledger.first? node.path).isSome = true := by rw [found]; rfl
    refine ⟨first, ?_, content⟩
    exact (ledger.first?_enter_of_isSome declaration kind span known).trans found
  properties := by
    have merged := recorded.properties.merge (PropertyList.merges_read declaration.list)
    rw [← same, ← pairs_enter_same, same] at merged
    exact merged

theorem recorded_new [Scalar α] (new : ledger.first? (ledger.idOf declaration.name.value).path = none) :
    (Node.declared (ledger.idOf declaration.name.value) kind ledger.enclosing
      (PropertyList.read declaration.list) span : Node α).Recorded
        (ledger.enter declaration kind span) where
  first := ⟨_, ledger.first?_enter_new declaration kind span new, rfl, rfl, rfl, rfl⟩
  properties := by
    have none : ledger.pairs (ledger.idOf declaration.name.value).path = [] := by
      rw [pairs, under, List.filter_eq_nil_iff.mpr (List.find?_eq_none.mp new)]
      rfl
    have pairs := @pairs_enter_same ledger declaration kind span
    rw [none, List.nil_append] at pairs
    show PropertyMap.Merges _ (Ledger.pairs _ (ledger.idOf declaration.name.value).path)
    rw [pairs]
    exact PropertyList.merges_read declaration.list

end Enter

structure Lists (ledger : Ledger) (nodes : List (Node α)) : Prop where
  paths : nodes.map Node.path = (ledger.entries.map (·.id.path)).eraseDups
  nodes : ∀ node ∈ nodes, node.Recorded ledger

namespace Lists

variable {ledger : Ledger} {nodes : List (Node α)} (lists : ledger.Lists nodes)
  (declaration : Declaration) (kind : NodeKind) (span : Span)
include lists

theorem bodies (bodies : List (Option Entry)) : Lists { ledger with bodies } nodes :=
  ⟨lists.paths, fun node member =>
    ⟨(lists.nodes node member).first, (lists.nodes node member).properties⟩⟩

theorem again (known : (ledger.first? (ledger.idOf declaration.name.value).path).isSome = true) :
    (ledger.enter declaration kind span).Lists (nodes.map fun node =>
      if node.path = (ledger.idOf declaration.name.value).path then
        node.mergeProperties (PropertyList.read declaration.list) else node) where
  paths := by
    have same : (nodes.map fun node =>
        if node.path = (ledger.idOf declaration.name.value).path then
          node.mergeProperties (PropertyList.read declaration.list) else node).map Node.path =
        nodes.map Node.path := by
      rw [List.map_map]
      refine List.map_congr_left fun node _ => ?_
      rw [Function.comp_apply]
      split <;> rfl
    rw [same, lists.paths, enter, List.map_append, List.map_singleton, eraseDups_concat,
      if_pos (first?_isSome_iff.mp known)]
  nodes := by
    intro node member
    obtain ⟨before, earlier, rfl⟩ := List.mem_map.mp member
    have recorded := lists.nodes before earlier
    split
    next same => exact recorded_again recorded same.symm
    next other => exact recorded_other recorded (Ne.symm other)

theorem new [Scalar α] (new : ledger.first? (ledger.idOf declaration.name.value).path = none) :
    (ledger.enter declaration kind span).Lists (nodes ++ [.declared (ledger.idOf declaration.name.value)
      kind ledger.enclosing (PropertyList.read declaration.list) span]) where
  paths := by
    have absent : (ledger.idOf declaration.name.value).path ∉ ledger.entries.map (·.id.path) := by
      rw [← first?_isSome_iff, new]
      exact Bool.false_ne_true
    rw [enter, List.map_append, List.map_append, List.map_singleton, List.map_singleton,
      eraseDups_concat, if_neg absent, lists.paths]
    rfl
  nodes := by
    refine List.forall_mem_append.mpr ⟨?_, List.forall_mem_singleton.mpr (recorded_new new)⟩
    intro node member
    have recorded := lists.nodes node member
    refine recorded_other recorded fun same => ?_
    obtain ⟨first, found, -⟩ := recorded.first
    rw [same, found] at new
    exact Option.some_ne_none first new

end Lists

/-- The graph in the making has the nodes that the ledger says, and its open bodies belong to those that
the ledger says. -/
structure Records (ledger : Ledger) (assembly : Assembly α) : Prop where
  lists : ledger.Lists assembly.graph.nodes
  owners : assembly.bodies.map (·.owner) = ledger.owners
  kept : ledger.Kept

theorem records_empty : Records {} ({} : Assembly α) := ⟨⟨rfl, nofun⟩, rfl, nofun⟩

namespace Records

variable {ledger : Ledger} {assembly : Assembly α} (records : ledger.Records assembly)
include records

theorem enclosing : assembly.enclosing = ledger.enclosing := by
  rw [Ledger.enclosing, ← records.owners, List.findSome?_map]
  rfl

theorem idOf (name : String) : assembly.idOf name = ledger.idOf name := by
  rw [Ledger.idOf, Assembly.idOf, records.enclosing]
  cases ledger.enclosing <;> rfl

theorem congr {other : Assembly α} (nodes : other.graph.nodes = assembly.graph.nodes)
    (bodies : other.bodies = assembly.bodies) : ledger.Records other where
  lists := by rw [nodes]; exact records.lists
  owners := by rw [bodies, records.owners]
  kept := records.kept

theorem push (span : Span) : (ledger.take .block).Records (assembly.push none span) where
  lists := records.lists.bodies _
  owners := congrArg (List.cons none) records.owners
  kept := by
    intro entry member
    rcases List.mem_cons.mp member with nobody | earlier
    · exact nomatch nobody
    · exact records.kept entry earlier

theorem close (brace : Span) : (ledger.take .leave).Records (assembly.close brace) := by
  have nodes : (assembly.close brace).graph.nodes = assembly.graph.nodes := by
    unfold Assembly.close
    split <;> rfl
  have bodies : (assembly.close brace).bodies = assembly.bodies.tail := by
    unfold Assembly.close
    split
    next closed => exact closed.trans (congrArg List.tail closed).symm
    next opened => rw [opened]; rfl
  constructor
  · rw [nodes]
    exact records.lists.bodies _
  · rw [bodies, List.map_tail, records.owners]
    exact List.map_tail.symm
  · exact fun entry member => records.kept entry (List.mem_of_mem_tail member)

theorem node?_isSome (path : String) :
    (assembly.graph.node? path).isSome = (ledger.first? path).isSome := by
  rw [Bool.eq_iff_iff, first?_isSome_iff, ← List.mem_eraseDups, ← records.lists.paths]
  simp [Graph.node?, List.find?_isSome]

theorem first?_of_node? {path : String} {node : Node α} (known : assembly.graph.node? path = some node) :
    ∃ first, ledger.first? path = some first ∧ node.kind = first.kind := by
  have same : node.path = path := by simpa using List.find?_some known
  obtain ⟨first, found, -, kind, -⟩ := (records.lists.nodes node (List.mem_of_find?_eq_some known)).first
  exact ⟨first, same ▸ found, kind⟩

theorem first?_of_node?_eq_none {path : String} (new : assembly.graph.node? path = none) :
    ledger.first? path = none := by
  have absent := records.node?_isSome path
  rw [new] at absent
  exact Option.isNone_iff_eq_none.mp (Option.isSome_eq_false_iff.mp absent.symm)

variable [Scalar α] (sound : assembly.Sound) (declaration : Declaration) (kind : NodeKind) (span : Span)
include sound

theorem lists_declare :
    (ledger.enter declaration kind span).Lists
      (assembly.declare declaration kind span).2.graph.nodes := by
  have id := records.idOf declaration.name.value
  cases known : assembly.graph.node? (assembly.idOf declaration.name.value).path with
  | some existing =>
    obtain ⟨first, found, -⟩ := records.first?_of_node? known
    rw [Assembly.declare_known kind span known]
    show Lists _ (assembly.graph.mergeProperties _ _).nodes
    rw [id] at found ⊢
    exact records.lists.again declaration kind span (by rw [found]; rfl)
  | none =>
    have new := records.first?_of_node?_eq_none known
    rw [Assembly.declare_new kind span known, sound.addNode_declared known]
    show Lists _ (assembly.graph.nodes ++ [_])
    rw [id] at new ⊢
    rw [records.enclosing]
    exact records.lists.new declaration kind span new

/-- The body of a container belongs to the node that the ledger says. -/
theorem owner_declare :
    (assembly.declare declaration .container span).1 =
      (ledger.enter declaration .container span).owner
        (some ⟨ledger.idOf declaration.name.value, declaration, .container, span⟩) := by
  have id := records.idOf declaration.name.value
  rw [owner]
  cases known : assembly.graph.node? (assembly.idOf declaration.name.value).path with
  | some existing =>
    obtain ⟨first, found, kind⟩ := records.first?_of_node? known
    have stays := ledger.first?_enter_of_isSome declaration .container span (by rw [found]; rfl)
    rw [Assembly.declare_known .container span known, ← id]
    dsimp only
    rw [stays, found, kind, Option.any_some]
    cases first.kind <;> rfl
  | none =>
    have new := records.first?_of_node?_eq_none known
    rw [id] at new
    rw [Assembly.declare_new .container span known, sound.addNode_declared known,
      ledger.first?_enter_new declaration .container span new, ← id]
    rfl

theorem declareLeaf :
    (ledger.enter declaration .leaf span).Records (assembly.declare declaration .leaf span).2 where
  lists := records.lists_declare sound declaration .leaf span
  owners := by
    rw [(Assembly.sameBodies_declare assembly declaration .leaf span).bodies, records.owners]
    exact (records.kept.owner_enter declaration .leaf span).symm
  kept := records.kept.enter declaration .leaf span

theorem openContainer :
    (ledger.enter declaration .container span).Records (assembly.openContainer declaration span) where
  lists := records.lists_declare sound declaration .container span
  owners := by
    show (assembly.declare declaration .container span).1 ::
      (assembly.declare declaration .container span).2.bodies.map (·.owner) = _
    rw [(Assembly.sameBodies_declare assembly declaration .container span).bodies, records.owners,
      records.owner_declare sound]
    exact congrArg (List.cons _) (records.kept.owner_enter declaration .container span).symm
  kept := records.kept.enter declaration .container span

end Records

end Ledger

def Assembly.due (assembly : Assembly α) (lines : List Line) : List Move :=
  (assembly.pending.map fun kept => leafMove kept.1 kept.2 lines).toList ++
    movesFrom assembly.pending.isSome lines

namespace Assembly

theorem due_of_pending {assembly : Assembly α} (free : assembly.pending = none) (lines : List Line) :
    assembly.due lines = movesFrom false lines := by
  rw [due, free]
  rfl

/-- A line that is no brace alone settles that the leaf that is kept back is a leaf. -/
theorem due_of_nextBrace? {lines : List Line} (other : nextBrace? lines = none) (assembly : Assembly α) :
    assembly.due lines = assembly.due [] ++ movesFrom assembly.pending.isSome lines := by
  have same (declaration : Declaration) (span : Span) :
      leafMove declaration span lines = leafMove declaration span [] := by
    rw [leafMove, other]
    rfl
  simp only [due, same, movesFrom, List.append_nil]

end Assembly

namespace Ledger

variable [Scalar α] {ledger : Ledger} {assembly : Assembly α}

theorem Records.flush (records : ledger.Records assembly) (sound : assembly.Sound) :
    ((assembly.due []).foldl take ledger).Records assembly.flush := by
  unfold Assembly.due Assembly.flush
  cases assembly.pending with
  | none => exact records
  | some kept =>
    have released : ledger.Records { assembly with pending := none } := records.congr rfl rfl
    exact released.declareLeaf sound.released kept.1 kept.2

theorem Records.settle {later : Assembly α} {line : Line} {rest : List Line}
    (records : ledger.Records assembly) (sound : assembly.Sound) (more : List Move)
    (other : nextBrace? (line :: rest) = none)
    (moves : movesFrom assembly.pending.isSome (line :: rest) = more ++ later.due rest)
    (onward : ∀ {flushed : Ledger}, flushed.Records assembly.flush →
      (more.foldl take flushed).Records later) :
    ∃ made, assembly.due (line :: rest) = made ++ later.due rest ∧
      (made.foldl take ledger).Records later := by
  refine ⟨assembly.due [] ++ more, ?_, ?_⟩
  · rw [Assembly.due_of_nextBrace? other, moves, List.append_assoc]
  · rw [List.foldl_append]
    exact onward (records.flush sound)

/-- A brace alone opens the body of the leaf that waits, if there is one. -/
theorem Records.process_blockOpen (records : ledger.Records assembly) (sound : assembly.Sound)
    {line : Line} (said : line.statement = .blockOpen) (rest : List Line) :
    ∃ made, assembly.due (line :: rest) = made ++ (assembly.process line).due rest ∧
      (made.foldl take ledger).Records (assembly.process line) := by
  unfold Assembly.process
  rw [said]
  cases waits : assembly.pending with
  | none =>
    have reported : ledger.Records (assembly.report (.strayBlock line.span)) := records.congr rfl rfl
    refine ⟨[.block], ?_, reported.push line.span⟩
    rw [Assembly.due_of_pending waits, movesFrom, said]
    exact (congrArg (List.cons Move.block) (Assembly.due_of_pending (by exact waits) rest)).symm
  | some kept =>
    have released : ledger.Records { assembly with pending := none } := records.congr rfl rfl
    refine ⟨[.declare kept.1 .container (kept.2.union line.span)], ?_,
      released.openContainer sound.released kept.1 _⟩
    have behind : (Assembly.openContainer { assembly with pending := none } kept.1
        (kept.2.union line.span)).pending = none := Assembly.pending_declare _ _ _ _
    dsimp only
    rw [Assembly.due_of_pending behind, Assembly.due, waits]
    simp [leafMove, nextBrace?, movesFrom, said, Statement.isIgnorable]

/-- What a line does to the graph in the making it does to the ledger. -/
theorem Records.process (records : ledger.Records assembly) (sound : assembly.Sound) (line : Line)
    (rest : List Line) :
    ∃ made, assembly.due (line :: rest) = made ++ (assembly.process line).due rest ∧
      (made.foldl take ledger).Records (assembly.process line) := by
  have free := Assembly.pending_flush assembly
  by_cases block : line.statement = .blockOpen
  · exact records.process_blockOpen sound block rest
  unfold Assembly.process
  -- Any other line that says something settles that the leaf that waits has no body, and comes after it.
  cases said : line.statement with
  | blockOpen => exact absurd said block
  | comment | ignorable =>
    refine ⟨[], ?_, records.congr rfl rfl⟩
    have same (declaration : Declaration) (span : Span) :
        leafMove declaration span (line :: rest) = leafMove declaration span rest := by
      simp [leafMove, nextBrace?, said, Statement.isIgnorable]
    simp only [Assembly.due, same, movesFrom, said]
    rfl
  | containerOpen declaration =>
    have behind : (assembly.flush.openContainer declaration line.span).pending = none :=
      (Assembly.pending_declare _ _ _ _).trans free
    refine records.settle sound [.declare declaration .container line.span] ?_ ?_
      fun flushed => flushed.openContainer sound.flush declaration line.span
    · simp [nextBrace?, said, Statement.isIgnorable]
    · rw [movesFrom, said, Assembly.due_of_pending behind]
      rfl
  | leaf declaration =>
    refine records.settle sound [] ?_ ?_ fun flushed => flushed.congr rfl rfl
    · simp [nextBrace?, said, Statement.isIgnorable]
    · rw [movesFrom, said]
      rfl
  | containerClose =>
    have behind : (assembly.flush.close line.span).pending = none :=
      (Assembly.pending_close assembly.flush line.span).trans free
    refine records.settle sound [.leave] ?_ ?_ fun flushed => flushed.close line.span
    · simp [nextBrace?, said, Statement.isIgnorable]
    · rw [movesFrom, said, Assembly.due_of_pending behind]
      rfl
  | connection | title | malformed =>
    refine records.settle sound [] ?_ ?_ fun flushed => flushed.congr rfl rfl
    · simp [nextBrace?, said, Statement.isIgnorable]
    · rw [movesFrom, said]
      exact (Assembly.due_of_pending (by exact free) rest).symm

theorem Records.foldl (records : ledger.Records assembly) (sound : assembly.Sound) (lines : List Line) :
    ((assembly.due lines).foldl take ledger).Records (lines.foldl Assembly.process assembly).flush := by
  induction lines generalizing assembly ledger with
  | nil => exact records.flush sound
  | cons line rest ih =>
    obtain ⟨made, due, next⟩ := records.process sound line rest
    rw [due, List.foldl_append, List.foldl_cons]
    exact ih next (sound.process line)

theorem records_ofLines (lines : List Line) :
    (ofLines lines).Records (lines.foldl Assembly.process ({} : Assembly α)).flush :=
  records_empty.foldl .empty lines

end Ledger

/-- The nodes of a source are those of its ledger. Each declaration is entered once, in the order of the
source; there is one node for each path, in the order of the first declarations; the first declaration
gives a node its id, its kind, its parent and its place, and all declarations of its path give it its
properties and so its label. Behind any lines, a declaration that opens a body has names declared inside
the node of its path if what was declared first under that path is a container, and else where they were
declared without that body. -/
theorem parse_declarations [Scalar α] (source : String) :
    let nodes := (parse source : Parsed α).graph.nodes
    let ledger := Ledger.ofLines (Line.ofSource source)
    ledger.entries.map (·.declaration) =
        (Line.ofSource source).filterMap (·.statement.declaration?) ∧
      nodes.map Node.path = (ledger.entries.map (·.id.path)).eraseDups ∧
      (∀ node ∈ nodes, node.Recorded ledger ∧ node.label =
        ((ledger.pairs node.path).reverse.lookup Node.labelKey).getD node.id.readableName) ∧
      ∀ before : List Line,
        let earlier := Ledger.ofLines before
        let here := (before.foldl Assembly.process ({} : Assembly α)).flush
        here.bodies.map (·.owner) = earlier.owners ∧ here.enclosing = earlier.enclosing ∧
          ∀ declaration span,
            let path := (earlier.idOf declaration.name.value).path
            let first? := (earlier.enter declaration .container span).first? path
            (here.openContainer declaration span).enclosing =
              if first?.any (·.kind = .container) then some path else earlier.enclosing := by
  intro nodes ledger
  have final := Ledger.records_ofLines (α := α) (Line.ofSource source)
  have same : nodes = (Assembly.behindLines source : Assembly α).graph.nodes := Assembly.nodes_parse source
  refine ⟨Ledger.declarations_ofLines _, ?_, ?_, ?_⟩
  case refine_1 => rw [same]; exact final.lists.paths
  case refine_2 =>
    intro node member
    rw [same] at member
    have recorded := final.lists.nodes node member
    exact ⟨recorded, recorded.label⟩
  case refine_3 =>
    intro before earlier here
    have records : earlier.Records here := Ledger.records_ofLines before
    have sound : here.Sound := (Assembly.sound_foldl_process before).flush
    refine ⟨records.owners, records.enclosing, ?_⟩
    intro declaration span path first?
    rw [(records.openContainer sound declaration span).enclosing]
    exact records.kept.enclosing_enter declaration span

/-- A leaf stays one when it is declared again with a body, whose names are declared around it. -/
example : ((parse "A [k: 1, label: P]\nA \x7b\n B [k: 2]\n\x7d\nA [n: 2, k: 3]" :
      Parsed Float32).graph.nodes.map fun node =>
        (node.path, node.parent, node.label, node.properties.entries)) =
    [("A", none, "P", [("k", "3"), ("label", "P"), ("n", "2")]), ("B", none, "B", [("k", "2")])] := by
  decide +kernel

end BoxDiagram
