import BoxDiagram.Proofs.Endpoints
import BoxDiagram.Proofs.LineFindings
import BoxDiagram.Proofs.OutlineGraph

/-!
Nothing of a source is dropped without a word. What the lines say is counted, and so is what the assembly
makes of it and what it reports; each line adds as much to one side as to the other. What is still open
when the lines end is settled then: the leaf that was kept back becomes a node, open bodies are reported,
and hops become edges or are reported.
-/

namespace BoxDiagram

variable {α : Type}

namespace Statement

def declares : Statement → Bool
  | .leaf _ | .containerOpen _ => true
  | _ => false

def hops : Statement → List Hop
  | .connection hops => hops
  | _ => []

end Statement

structure Tally where
  declared : Nat := 0
  opened : Nat := 0
  closed : Nat := 0
  findings : List Diagnostic := []
  hops : List Hop := []

def Tally.append (first second : Tally) : Tally where
  declared := first.declared + second.declared
  opened := first.opened + second.opened
  closed := first.closed + second.closed
  findings := first.findings ++ second.findings
  hops := first.hops ++ second.hops

theorem Tally.append_empty (tally : Tally) : tally.append {} = tally := by
  simp only [append, Nat.add_zero, List.append_nil]

def Line.tally (before : List Line) (line : Line) : Tally where
  declared := line.statement.declares.toNat
  opened := (line.statement.brace? == some .opening).toNat
  closed := (line.statement.brace? == some .closing).toNat
  findings := line.findings before
  hops := line.statement.hops

def tally (lines : List Line) : Tally where
  declared := lines.countP (·.statement.declares)
  opened := lines.countP (·.statement.brace? == some .opening)
  closed := lines.countP (·.statement.brace? == some .closing)
  findings := lineFindings lines
  hops := lines.flatMap (·.statement.hops)

theorem tally_concat (lines : List Line) (line : Line) :
    tally (lines ++ [line]) = (tally lines).append (line.tally lines) := by
  have one (holds : Line → Bool) : (lines ++ [line]).countP holds =
      lines.countP holds + (holds line).toNat := by
    rw [List.countP_append, List.countP_singleton]
    cases holds line <;> rfl
  simp only [tally, Tally.append, Line.tally, one, lineFindings_concat, List.flatMap_append,
    List.flatMap_singleton]

namespace Diagnostic

def isRepeat (diagnostic : Diagnostic) : Bool := diagnostic.code = some .duplicateNode

def isUnmatched (diagnostic : Diagnostic) : Bool := diagnostic.code = some .unmatchedClose

theorem not_isUnmatched_of_isRepeat {diagnostic : Diagnostic} (again : diagnostic.isRepeat = true) :
    diagnostic.isUnmatched = false := by
  simp_all [isRepeat, isUnmatched]

theorem not_isRepeat_of_concernsLine {diagnostic : Diagnostic}
    (concerns : diagnostic.concernsLine = true) :
    diagnostic.isRepeat = false ∧ diagnostic.isUnmatched = false := by
  simp only [concernsLine, Bool.or_eq_true, beq_iff_eq] at concerns
  rcases concerns with (coded | coded) | coded <;> simp [isRepeat, isUnmatched, coded]

end Diagnostic

namespace Assembly

def repeats (assembly : Assembly α) : List Diagnostic :=
  assembly.diagnostics.filter Diagnostic.isRepeat

def unmatched (assembly : Assembly α) : List Diagnostic :=
  assembly.diagnostics.filter Diagnostic.isUnmatched

def others (assembly : Assembly α) : List Diagnostic :=
  assembly.diagnostics.filter fun diagnostic => !diagnostic.isRepeat && !diagnostic.isUnmatched

def keptBack (assembly : Assembly α) : Nat := assembly.pending.isSome.toNat

/-- From one assembly to the other just what is tallied has been taken in. -/
structure Adds (tally : Tally) (earlier later : Assembly α) : Prop where
  nodes : later.graph.nodes.length + later.repeats.length + later.keptBack =
    earlier.graph.nodes.length + earlier.repeats.length + earlier.keptBack + tally.declared
  opened : later.opened = earlier.opened + tally.opened
  closed : later.closed + later.unmatched.length =
    earlier.closed + earlier.unmatched.length + tally.closed
  /-- The open bodies are those that were opened and have not been closed. -/
  bodies : later.closed + later.bodies.length + earlier.opened =
    earlier.closed + earlier.bodies.length + later.opened
  findings : later.others = earlier.others ++ tally.findings
  hops : later.hops = earlier.hops ++ tally.hops
  edges : later.graph.edges = earlier.graph.edges

theorem Adds.trans {tally more : Tally} {first second third : Assembly α}
    (before : Adds tally first second) (behind : Adds more second third) :
    Adds (tally.append more) first third where
  nodes := by rw [behind.nodes, before.nodes, Tally.append, Nat.add_assoc]
  opened := by rw [behind.opened, before.opened, Tally.append, Nat.add_assoc]
  closed := by rw [behind.closed, before.closed, Tally.append, Nat.add_assoc]
  bodies := by
    have first := before.bodies
    have second := behind.bodies
    omega
  findings := by rw [behind.findings, before.findings, Tally.append, List.append_assoc]
  hops := by rw [behind.hops, before.hops, Tally.append, List.append_assoc]
  edges := behind.edges.trans before.edges

/-- What is found sorts into repeated nodes, braces that close nothing, and the rest. -/
theorem sorts_findings {earlier later : Assembly α} {found : List Diagnostic}
    (told : later.diagnostics = earlier.diagnostics ++ found) :
    later.repeats = earlier.repeats ++ found.filter Diagnostic.isRepeat ∧
      later.unmatched = earlier.unmatched ++ found.filter Diagnostic.isUnmatched ∧
      later.others = earlier.others ++
        found.filter fun diagnostic => !diagnostic.isRepeat && !diagnostic.isUnmatched := by
  simp only [repeats, unmatched, others, told, List.filter_append, and_self]

section Acts

variable (assembly : Assembly α)

theorem adds_note (line : String) : Adds {} assembly (assembly.note (.ignored line)) := by
  have told : (assembly.note (.ignored line)).diagnostics = assembly.diagnostics ++ [] := by
    simp [diagnostics, note, Event.diagnostic?]
  obtain ⟨repeats, unmatched, others⟩ := sorts_findings told
  simp only [List.filter_nil, List.append_nil] at repeats unmatched others
  exact ⟨by rw [repeats]; rfl, rfl, by rw [unmatched]; rfl, rfl, by rw [others]; simp,
    (List.append_nil _).symm, rfl⟩

theorem adds_report {diagnostic : Diagnostic} (concerns : diagnostic.concernsLine = true) :
    Adds { findings := [diagnostic] } assembly (assembly.report diagnostic) := by
  obtain ⟨first, matched⟩ := Diagnostic.not_isRepeat_of_concernsLine concerns
  obtain ⟨repeats, unmatched, others⟩ := sorts_findings (diagnostics_report assembly diagnostic)
  simp only [List.filter_singleton, first, matched, Bool.not_false, Bool.and_self, cond_true,
    cond_false, List.append_nil] at repeats unmatched others
  exact ⟨by rw [repeats]; rfl, rfl, by rw [unmatched]; rfl, rfl, others, (List.append_nil _).symm, rfl⟩

theorem adds_push (owner : Option String) (span : Span) :
    Adds { opened := 1 } assembly (assembly.push owner span) where
  nodes := rfl
  opened := rfl
  closed := rfl
  bodies := by
    simp only [push, List.length_cons]
    omega
  findings := (List.append_nil _).symm
  hops := (List.append_nil _).symm
  edges := rfl

theorem adds_close (brace : Span) : Adds { closed := 1 } assembly (assembly.close brace) := by
  unfold close
  split
  next none =>
    obtain ⟨repeats, unmatched, others⟩ :=
      sorts_findings (diagnostics_report assembly (.unmatchedClose brace))
    have sorted : (Diagnostic.unmatchedClose brace).isRepeat = false ∧
        (Diagnostic.unmatchedClose brace).isUnmatched = true := ⟨rfl, rfl⟩
    simp only [List.filter_singleton, sorted, Bool.not_false, Bool.not_true, Bool.and_false, cond_true,
      cond_false, List.append_nil] at repeats unmatched others
    refine ⟨by rw [repeats]; rfl, rfl, ?_, rfl, by rw [others]; simp, (List.append_nil _).symm, rfl⟩
    rw [unmatched, List.length_append]
    rfl
  next body bodies open? =>
    refine ⟨rfl, rfl, ?_, ?_, (List.append_nil _).symm, (List.append_nil _).symm, rfl⟩
    · exact Nat.add_right_comm ..
    · rw [open?, List.length_cons]
      dsimp only
      omega

theorem adds_pending (free : assembly.pending = none) (kept : Declaration × Span) :
    Adds { declared := 1 } assembly { assembly with pending := some kept } where
  nodes := by
    rw [keptBack, keptBack, free]
    rfl
  opened := rfl
  closed := rfl
  bodies := rfl
  findings := (List.append_nil _).symm
  hops := (List.append_nil _).symm
  edges := rfl

theorem adds_hops (hops : List Hop) :
    Adds { hops := hops } assembly { assembly with hops := assembly.hops ++ hops } where
  nodes := rfl
  opened := rfl
  closed := rfl
  bodies := rfl
  findings := (List.append_nil _).symm
  hops := rfl
  edges := rfl

theorem adds_setTitle (title : Option String) :
    Adds {} assembly { assembly with graph := assembly.graph.setTitle title } where
  nodes := rfl
  opened := rfl
  closed := rfl
  bodies := rfl
  findings := (List.append_nil _).symm
  hops := (List.append_nil _).symm
  edges := rfl

end Acts

section Declarations

variable [Scalar α] {assembly : Assembly α}

theorem frame_declare (assembly : Assembly α) (declaration : Declaration) (kind : NodeKind)
    (span : Span) :
    (assembly.declare declaration kind span).2.opened = assembly.opened ∧
      (assembly.declare declaration kind span).2.closed = assembly.closed ∧
      (assembly.declare declaration kind span).2.hops = assembly.hops ∧
      (assembly.declare declaration kind span).2.graph.edges = assembly.graph.edges := by
  unfold declare
  extract_lets list properties noted id
  split
  next => exact ⟨rfl, rfl, rfl, rfl⟩
  next =>
    split
    next graph added =>
      obtain ⟨-, -, rfl⟩ := Graph.addNode_eq_ok_iff.mp added
      exact ⟨rfl, rfl, rfl, rfl⟩
    next => exact ⟨rfl, rfl, rfl, rfl⟩

theorem Sound.findings_declare (sound : assembly.Sound) (declaration : Declaration) (kind : NodeKind)
    (span : Span) :
    ∃ found, (assembly.declare declaration kind span).2.diagnostics = assembly.diagnostics ++ found ∧
      (∀ diagnostic ∈ found, diagnostic.isRepeat = true) ∧
      (assembly.declare declaration kind span).2.graph.nodes.length + found.length =
        assembly.graph.nodes.length + 1 := by
  unfold Assembly.declare
  extract_lets list properties noted id
  have told : noted.diagnostics = assembly.diagnostics := by
    simp [noted, diagnostics, Event.diagnostic?]
  split
  next existing _ =>
    refine ⟨[_], (diagnostics_report _ _).trans (congrArg (· ++ _) told),
      List.forall_mem_singleton.mpr rfl, ?_⟩
    exact congrArg (· + 1) (List.length_map _)
  next absent =>
    have added : noted.graph.addNode (.declared id kind noted.enclosing properties span) = _ :=
      sound.addNode_declared absent kind properties span
    rw [added]
    exact ⟨[], told.trans (List.append_nil _).symm, List.forall_mem_nil _, List.length_append⟩

theorem Sound.adds_declare (sound : assembly.Sound) (declaration : Declaration) (kind : NodeKind)
    (span : Span) : Adds { declared := 1 } assembly (assembly.declare declaration kind span).2 := by
  obtain ⟨found, told, all, count⟩ := sound.findings_declare declaration kind span
  obtain ⟨opened, closed, hops, edges⟩ := frame_declare assembly declaration kind span
  obtain ⟨repeats, unmatched, others⟩ := sorts_findings told
  have matched : found.filter Diagnostic.isUnmatched = [] :=
    List.filter_eq_nil_iff.mpr fun diagnostic member => by
      simp [Diagnostic.not_isUnmatched_of_isRepeat (all diagnostic member)]
  have none : found.filter (fun diagnostic => !diagnostic.isRepeat && !diagnostic.isUnmatched) = [] :=
    List.filter_eq_nil_iff.mpr fun diagnostic member => by simp [all diagnostic member]
  have pending := pending_declare assembly declaration kind span
  have bodies := (sameBodies_declare assembly declaration kind span).bodies
  constructor
  case nodes =>
    rw [repeats, List.filter_eq_self.mpr all, List.length_append, keptBack, keptBack, pending]
    dsimp only
    omega
  case opened => exact opened
  case closed =>
    rw [unmatched, matched, List.append_nil, closed]
    rfl
  case bodies => rw [bodies, opened, closed]
  case findings => rw [others, none]
  case hops => exact hops.trans (List.append_nil _).symm
  case edges => exact edges

/-- A declaration that was kept back has been counted before. -/
theorem Sound.adds_release (sound : assembly.Sound) {declaration : Declaration} {place : Span}
    (kept : assembly.pending = some (declaration, place)) (kind : NodeKind) (span : Span) :
    Adds {} assembly (Assembly.declare { assembly with pending := none } declaration kind span).2 := by
  have adds := sound.released.adds_declare declaration kind span
  have nodes := adds.nodes
  refine ⟨?_, adds.opened, adds.closed, adds.bodies, adds.findings, adds.hops, adds.edges⟩
  rw [nodes, keptBack, keptBack, kept]
  rfl

theorem Sound.adds_flush (sound : assembly.Sound) : Adds {} assembly assembly.flush := by
  unfold Assembly.flush
  split
  next => exact ⟨rfl, rfl, rfl, rfl, (List.append_nil _).symm, (List.append_nil _).symm, rfl⟩
  next declaration span kept => exact sound.adds_release kept .leaf span

theorem Sound.adds_process (sound : assembly.Sound) {before : List Line}
    (waits : assembly.pending.isSome = leafWaits before) {line : Line}
    (concerns : ∀ diagnostic, line.statement = .malformed diagnostic →
      diagnostic.concernsLine = true) :
    Adds (line.tally before) assembly (assembly.process line) := by
  have flushed := sound.adds_flush
  have free := pending_flush assembly
  unfold Line.tally Line.findings Line.isStray Assembly.process
  rw [← waits]
  -- But for a brace alone and what is ignored, a line acts when the leaf kept back has been declared.
  cases said : line.statement with
  | blockOpen =>
    cases kept : assembly.pending with
    | none => exact (adds_report assembly rfl).trans (adds_push _ none line.span)
    | some pending =>
      obtain ⟨declaration, place⟩ := pending
      exact (sound.adds_release kept .container _).trans (adds_push _ _ _)
  | comment | ignorable => exact adds_note assembly line.text
  | containerOpen declaration =>
    have declared := sound.flush.adds_declare declaration .container line.span
    exact (flushed.trans declared).trans (adds_push _ _ line.span)
  | leaf declaration => exact flushed.trans (adds_pending _ free _)
  | containerClose => exact flushed.trans (adds_close _ _)
  | connection hops => exact flushed.trans (adds_hops _ _)
  | title text => exact flushed.trans (adds_setTitle _ _)
  | malformed diagnostic => exact flushed.trans (adds_report _ (concerns diagnostic said))

theorem pending_process (assembly : Assembly α) (line : Line) :
    (assembly.process line).pending.isSome =
      if line.statement.isIgnorable then assembly.pending.isSome else line.statement.isLeaf := by
  have free := pending_flush assembly
  have closed (brace : Span) : (assembly.flush.close brace).pending = none := by
    rw [← free, close]
    split <;> rfl
  unfold process
  cases line.statement with
  | blockOpen =>
    cases kept : assembly.pending with
    | none =>
      show assembly.pending.isSome = false
      rw [kept]
      rfl
    | some pending => exact congrArg Option.isSome (pending_declare _ _ _ _)
  | comment | ignorable => rfl
  | containerOpen declaration =>
    exact congrArg Option.isSome ((pending_declare _ _ _ _).trans free)
  | leaf declaration => rfl
  | containerClose => exact congrArg Option.isSome (closed line.span)
  | connection | title | malformed => exact congrArg Option.isSome free

/-- The leaf that is kept back is the one that waits. -/
theorem pending_foldl (lines : List Line) :
    (lines.foldl process ({} : Assembly α)).pending.isSome = leafWaits lines := by
  induction lines using List.reverseRecOn with
  | nil => rfl
  | append_singleton lines line ih => rw [List.foldl_concat, pending_process, ih, leafWaits_concat]

theorem adds_foldl {lines : List Line} (concerns : ∀ line ∈ lines, ∀ diagnostic,
      line.statement = .malformed diagnostic → diagnostic.concernsLine = true) :
    Adds (tally lines) ({} : Assembly α) (lines.foldl process {}) := by
  induction lines using List.reverseRecOn with
  | nil => exact ⟨rfl, rfl, rfl, rfl, rfl, rfl, rfl⟩
  | append_singleton lines line ih =>
    obtain ⟨earlier, last⟩ := List.forall_mem_append.mp concerns
    rw [List.foldl_concat, tally_concat]
    exact (ih earlier).trans ((sound_foldl_process lines).adds_process (pending_foldl lines)
      (last line (List.mem_singleton_self line)))

end Declarations

end Assembly

end BoxDiagram
