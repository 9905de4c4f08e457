import BoxDiagram.Proofs.Agreement

/-!
Where connections stand. A connection is kept back until all lines have been taken in; till then it only
ends the wait of a leaf for its brace. So it does not matter where the connections stand among the other
lines, as long as none of them comes between a leaf and a brace alone that opens a body for it.
-/

namespace BoxDiagram

variable {α : Type}

def Statement.isConnection : Statement → Bool
  | .connection _ => true
  | _ => false

/-- A leaf and a brace alone have a connection between them, and nothing but connections and lines that
say nothing. -/
def SplitsBody (lines : List Line) : Prop :=
  ∃ before leaf between brace behind, lines = before ++ leaf :: between ++ brace :: behind ∧
    leaf.statement.isLeaf = true ∧ brace.statement = .blockOpen ∧
    (∀ line ∈ between, line.statement.isIgnorable = true ∨ line.statement.isConnection = true) ∧
    ∃ line ∈ between, line.statement.isConnection = true

/-- The next line that is no connection and says something is a brace alone, and a connection stands
before it. -/
def opensBehind (connected : Bool) : List Line → Bool
  | [] => false
  | line :: lines =>
    if line.statement.isConnection then opensBehind true lines
    else if line.statement.isIgnorable then opensBehind connected lines
    else line.statement = .blockOpen && connected

def splitsBody : List Line → Bool
  | [] => false
  | line :: lines => (line.statement.isLeaf && opensBehind false lines) || splitsBody lines

theorem opensBehind_iff {lines : List Line} {connected : Bool} :
    opensBehind connected lines = true ↔ ∃ between brace behind, lines = between ++ brace :: behind ∧
      brace.statement = .blockOpen ∧
      (∀ line ∈ between, line.statement.isIgnorable = true ∨ line.statement.isConnection = true) ∧
      (connected = true ∨ ∃ line ∈ between, line.statement.isConnection = true) := by
  induction lines generalizing connected with
  | nil => simp [opensBehind]
  | cons line lines ih =>
    rw [opensBehind]
    split
    next connects =>
      rw [ih]
      constructor
      · rintro ⟨between, brace, behind, rfl, opens, quiet, -⟩
        exact ⟨line :: between, brace, behind, rfl, opens,
          List.forall_mem_cons.mpr ⟨.inr connects, quiet⟩, .inr ⟨line, List.mem_cons_self, connects⟩⟩
      · rintro ⟨_ | ⟨first, between⟩, brace, behind, same, opens, quiet, -⟩ <;>
          obtain ⟨rfl, rfl⟩ := List.cons.inj same
        · rw [opens] at connects
          cases connects
        · exact ⟨between, brace, behind, rfl, opens, (List.forall_mem_cons.mp quiet).2, .inl rfl⟩
    next other =>
      split
      next silent =>
        rw [ih]
        constructor
        · rintro ⟨between, brace, behind, rfl, opens, quiet, connected⟩
          refine ⟨line :: between, brace, behind, rfl, opens,
            List.forall_mem_cons.mpr ⟨.inl silent, quiet⟩, ?_⟩
          exact connected.imp_right fun ⟨link, member, connects⟩ =>
            ⟨link, List.mem_cons_of_mem _ member, connects⟩
        · rintro ⟨_ | ⟨first, between⟩, brace, behind, same, opens, quiet, connected⟩ <;>
            obtain ⟨rfl, rfl⟩ := List.cons.inj same
          · rw [opens] at silent
            cases silent
          · refine ⟨between, brace, behind, rfl, opens, (List.forall_mem_cons.mp quiet).2, ?_⟩
            simpa [other] using connected
      next speaks =>
        rw [Bool.and_eq_true, decide_eq_true_eq]
        constructor
        · rintro ⟨opens, connected⟩
          exact ⟨[], line, lines, rfl, opens, List.forall_mem_nil _, .inl connected⟩
        · rintro ⟨_ | ⟨first, between⟩, brace, behind, same, opens, quiet, connected⟩ <;>
            obtain ⟨rfl, rfl⟩ := List.cons.inj same
          · exact ⟨opens, by simpa using connected⟩
          · exact absurd (List.forall_mem_cons.mp quiet).1 (by simp [other, speaks])

theorem splitsBody_iff {lines : List Line} : splitsBody lines = true ↔ SplitsBody lines := by
  induction lines with
  | nil => simp [splitsBody, SplitsBody]
  | cons line lines ih =>
    rw [splitsBody, Bool.or_eq_true, ih, Bool.and_eq_true, opensBehind_iff]
    constructor
    · rintro (⟨isLeaf, between, brace, behind, rfl, opens, quiet, connects⟩ |
        ⟨before, leaf, between, brace, behind, rfl, further⟩)
      · exact ⟨[], line, between, brace, behind, rfl, isLeaf, opens, quiet, by simpa using connects⟩
      · exact ⟨line :: before, leaf, between, brace, behind, rfl, further⟩
    · rintro ⟨before, leaf, between, brace, behind, same, isLeaf, opens, quiet, connects⟩
      cases before with
      | nil =>
        obtain ⟨rfl, rfl⟩ := List.cons.inj same
        exact .inl ⟨isLeaf, between, brace, behind, rfl, opens, quiet, .inr connects⟩
      | cons first before =>
        obtain ⟨rfl, rfl⟩ := List.cons.inj same
        exact .inr ⟨before, leaf, between, brace, behind, rfl, isLeaf, opens, quiet, connects⟩

instance (lines : List Line) : Decidable (SplitsBody lines) := decidable_of_iff _ splitsBody_iff

theorem SplitsBody.append {lines : List Line} (splits : SplitsBody lines) (more : List Line) :
    SplitsBody (lines ++ more) := by
  obtain ⟨before, leaf, between, brace, behind, rfl, further⟩ := splits
  exact ⟨before, leaf, between, brace, behind ++ more, by simp, further⟩

def unconnected (lines : List Line) : List Line := lines.filter (!·.statement.isConnection)

/-- A leaf that waits, connections left aside, still waits with them, or one of them stands behind it. -/
theorem exists_leaf_of_waits {lines : List Line} (waits : leafWaits (unconnected lines) = true) :
    ∃ before leaf between, lines = before ++ leaf :: between ∧ leaf.statement.isLeaf = true ∧
      (∀ line ∈ between, line.statement.isIgnorable = true ∨ line.statement.isConnection = true) ∧
      (leafWaits lines = true ∨ ∃ line ∈ between, line.statement.isConnection = true) := by
  induction lines using List.reverseRecOn with
  | nil => cases waits
  | append_singleton lines line ih =>
    -- A line that does not end the wait stands behind the leaf, too.
    have behind (still : leafWaits (unconnected lines) = true)
        (quiet : line.statement.isIgnorable = true ∨ line.statement.isConnection = true)
        (waits : line.statement.isConnection = false → leafWaits (lines ++ [line]) = leafWaits lines) :
        ∃ before leaf between, lines ++ [line] = before ++ leaf :: between ∧
          leaf.statement.isLeaf = true ∧
          (∀ line ∈ between, line.statement.isIgnorable = true ∨ line.statement.isConnection = true) ∧
          (leafWaits (lines ++ [line]) = true ∨
            ∃ line ∈ between, line.statement.isConnection = true) := by
      obtain ⟨before, leaf, between, rfl, isLeaf, others, reason⟩ := ih still
      refine ⟨before, leaf, between ++ [line], by simp, isLeaf,
        List.forall_mem_append.mpr ⟨others, List.forall_mem_singleton.mpr quiet⟩, ?_⟩
      cases connects : line.statement.isConnection with
      | true => exact .inr ⟨line, by simp, connects⟩
      | false =>
        rw [waits connects]
        exact reason.imp_right fun ⟨link, member, connects⟩ =>
          ⟨link, List.mem_append_left _ member, connects⟩
    cases connects : line.statement.isConnection with
    | true =>
      have dropped : unconnected (lines ++ [line]) = unconnected lines := by simp [unconnected, connects]
      rw [dropped] at waits
      exact behind waits (.inr connects) (fun other => absurd connects (by simp [other]))
    | false =>
      have kept : unconnected (lines ++ [line]) = unconnected lines ++ [line] := by
        simp [unconnected, connects]
      rw [kept, leafWaits_concat] at waits
      cases silent : line.statement.isIgnorable with
      | true =>
        rw [silent, if_pos rfl] at waits
        exact behind waits (.inl silent) fun _ => by rw [leafWaits_concat, silent, if_pos rfl]
      | false =>
        rw [silent, if_neg Bool.false_ne_true] at waits
        refine ⟨lines, line, [], rfl, waits, List.forall_mem_nil _, .inl ?_⟩
        rw [leafWaits_concat, silent, if_neg Bool.false_ne_true, waits]

namespace Assembly

variable [Scalar α]

theorem agrees_connection (assembly : Assembly α) {line : Line}
    (connects : line.statement.isConnection = true) :
    Agrees assembly.flush (assembly.process line) ∧ (assembly.process line).pending = none := by
  have free := pending_flush assembly
  unfold process
  split
  case h_7 => exact ⟨⟨rfl, rfl, rfl, rfl⟩, free⟩
  all_goals simp_all [Statement.isConnection]

/-- Where one of two assemblies may have declared its leaf before, a line that is no connection makes no
difference, unless it is a brace alone that only the other one has a leaf for. -/
theorem agrees_step {run quiet : Assembly α} {line : Line} (flushed : Agrees run.flush quiet.flush)
    (same : run.pending = none ∨ Agrees run quiet)
    (fits : line.statement = .blockOpen → run.pending = none → quiet.pending = none) :
    Agrees (run.process line).flush (quiet.process line).flush ∧
      ((run.process line).pending = none ∨ Agrees (run.process line) (quiet.process line)) := by
  cases silent : line.statement.isIgnorable with
  | true =>
    have first := agrees_ignorable run silent
    have second := agrees_ignorable quiet silent
    exact ⟨(first.flush.symm.trans flushed).trans second.flush,
      same.imp (fun free => first.pending.trans free) (fun agrees => agrees.process line)⟩
  | false =>
    have agrees : Agrees (run.process line) (quiet.process line) := by
      by_cases opens : line.statement = .blockOpen
      · rcases same with free | agrees
        · rw [flush_of_pending free, flush_of_pending (fits opens free)] at flushed
          exact flushed.process line
        · exact agrees.process line
      · exact flushed.process_flush silent opens
    exact ⟨agrees.flush, .inr agrees⟩

/-- Without the connections all goes on alike, but for the leaf that the last of them declares. -/
theorem agrees_unconnected {lines : List Line} (unsplit : ¬SplitsBody lines) :
    Agrees (lines.foldl process ({} : Assembly α)).flush ((unconnected lines).foldl process {}).flush ∧
      ((lines.foldl process ({} : Assembly α)).pending = none ∨
        Agrees (lines.foldl process ({} : Assembly α)) ((unconnected lines).foldl process {})) := by
  induction lines using List.reverseRecOn with
  | nil => exact ⟨.refl _, .inl rfl⟩
  | append_singleton lines line ih =>
    obtain ⟨flushed, same⟩ := ih fun splits => unsplit (splits.append [line])
    have waits := pending_foldl (α := α) lines
    have waitsQuiet := pending_foldl (α := α) (unconnected lines)
    rw [List.foldl_concat]
    generalize lines.foldl process ({} : Assembly α) = run at flushed same waits
    cases connects : line.statement.isConnection with
    | true =>
      have dropped : unconnected (lines ++ [line]) = unconnected lines := by simp [unconnected, connects]
      obtain ⟨agrees, free⟩ := agrees_connection run connects
      rw [dropped, flush_of_pending free]
      exact ⟨agrees.symm.trans flushed, .inl free⟩
    | false =>
      have kept : unconnected (lines ++ [line]) = unconnected lines ++ [line] := by
        simp [unconnected, connects]
      rw [kept, List.foldl_concat]
      refine agrees_step flushed same fun opens free => ?_
      -- Else a leaf would wait for the brace, and a connection would have ended the wait.
      by_contra kept
      have waiting := Option.isSome_iff_ne_none.mpr kept
      rw [waitsQuiet] at waiting
      obtain ⟨before, leaf, between, rfl, isLeaf, silent, reason⟩ := exists_leaf_of_waits waiting
      have ended : ¬leafWaits (before ++ leaf :: between) = true := by simp [← waits, free]
      exact unsplit ⟨before, leaf, between, line, [], rfl, isLeaf, opens, silent,
        reason.resolve_left ended⟩

theorem flatMap_hops (lines : List Line) : (lines.filter (·.statement.isConnection)).flatMap
    (·.statement.hops) = lines.flatMap (·.statement.hops) := by
  induction lines with
  | nil => rfl
  | cons line lines ih =>
    rw [List.filter_cons, List.flatMap_cons]
    split
    next => rw [List.flatMap_cons, ih]
    next other =>
      have none : line.statement.hops = [] := by
        cases said : line.statement <;> simp_all [Statement.hops, Statement.isConnection]
      rw [ih, none, List.nil_append]

/-- Lines may be put in another order that keeps the order of the connections and that of the other
lines. The graph and the findings stay the same, in the same order, if in neither order a connection
stands between a leaf and the brace that opens a body for it. -/
theorem ofLines_connections {first second : List Line}
    (connections : second.filter (·.statement.isConnection) =
      first.filter (·.statement.isConnection))
    (others : second.filter (!·.statement.isConnection) = first.filter (!·.statement.isConnection))
    (unsplit : ¬SplitsBody first) (unsplitSecond : ¬SplitsBody second) :
    (ofLines second : Assembly α).graph = (ofLines first).graph ∧
      (ofLines second : Assembly α).diagnostics = (ofLines first : Assembly α).diagnostics := by
  have quiet := (agrees_unconnected (α := α) unsplit).1
  have quietSecond := (agrees_unconnected (α := α) unsplitSecond).1
  have same : unconnected second = unconnected first := others
  rw [same] at quietSecond
  have hops : (second.foldl process ({} : Assembly α)).hops =
      (first.foldl process ({} : Assembly α)).hops := by
    rw [hops_foldl, hops_foldl, ← flatMap_hops second, connections, flatMap_hops]
  have agrees : Agrees (ofLines first : Assembly α) (ofLines second) :=
    (quiet.trans quietSecond.symm).finish hops
  exact ⟨agrees.graph, agrees.diagnostics⟩

/-- The connection ends the wait of the first leaf in one order, and comes last in the other one. -/
theorem movedConnection_sameGraph :
    let lines := Line.ofSource "A []\nA -> B\nB [x: 1]\n# body\n\x7b\nA []"
    let moved := lines.take 1 ++ lines.drop 2 ++ (lines.drop 1).take 1
    moved ≠ lines ∧ (ofLines moved : Assembly Float32).graph = (ofLines lines).graph ∧
      (ofLines moved : Assembly Float32).diagnostics =
        (ofLines lines : Assembly Float32).diagnostics := by
  intro lines moved
  exact ⟨by decide +kernel, ofLines_connections (by decide +kernel) (by decide +kernel)
    (by decide +kernel) (by decide +kernel)⟩

end Assembly

end BoxDiagram
