import BoxDiagram.Proofs.Tally

/-!
The accounts of a source are balanced. Whatever the lines say is in the graph in the end, or there is
a finding about it: a declaration makes a node or repeats one, a body that is opened is closed or
reported, a closing brace closes a body or is reported, and a hop is an edge or its endpoints are
reported.
-/

namespace BoxDiagram

variable {α : Type}

namespace Diagnostic

def isUnclosed (diagnostic : Diagnostic) : Bool := diagnostic.code = some .unclosedContainer

def isLate (diagnostic : Diagnostic) : Bool := diagnostic.isUnclosed || diagnostic.concernsEndpoint

theorem not_isUnclosed_of_concernsEndpoint {diagnostic : Diagnostic}
    (concerns : diagnostic.concernsEndpoint = true) : diagnostic.isUnclosed = false := by
  simp only [concernsEndpoint, Bool.or_eq_true, beq_iff_eq] at concerns
  rcases concerns with coded | coded <;> simp [isUnclosed, coded]

theorem not_isLate_of_isRepeat {diagnostic : Diagnostic} (again : diagnostic.isRepeat = true) :
    diagnostic.isLate = false := by
  simp only [isRepeat, decide_eq_true_eq] at again
  simp [isLate, isUnclosed, concernsEndpoint, again]

theorem not_isLate_of_isUnmatched {diagnostic : Diagnostic}
    (unmatched : diagnostic.isUnmatched = true) : diagnostic.isLate = false := by
  simp only [isUnmatched, decide_eq_true_eq] at unmatched
  simp [isLate, isUnclosed, concernsEndpoint, unmatched]

theorem not_isLate_of_concernsLine {diagnostic : Diagnostic}
    (concerns : diagnostic.concernsLine = true) : diagnostic.isLate = false := by
  simp only [concernsLine, Bool.or_eq_true, beq_iff_eq] at concerns
  rcases concerns with (coded | coded) | coded <;> simp [isLate, isUnclosed, concernsEndpoint, coded]

end Diagnostic

def Parsed.found (parsed : Parsed α) (code : Code) : List Diagnostic :=
  parsed.diagnostics.filter (·.code = some code)

namespace Assembly

def unclosed (assembly : Assembly α) : List Diagnostic :=
  assembly.bodies.reverse.map fun body => .neverClosed body.owner body.span

theorem diagnostics_reportOpen (assembly : Assembly α) :
    assembly.reportOpen.diagnostics = assembly.diagnostics ++ assembly.unclosed := by
  simp [reportOpen, diagnostics, unclosed, List.filterMap_map, Function.comp_def, Event.diagnostic?]

theorem isUnclosed_of_mem {assembly : Assembly α} {diagnostic : Diagnostic}
    (member : diagnostic ∈ assembly.unclosed) : diagnostic.isUnclosed = true := by
  obtain ⟨body, -, rfl⟩ := List.mem_map.mp member
  rfl

variable [Scalar α]

/-- The assembly behind the last line of a source, with no leaf kept back any more. -/
def behindLines (source : String) : Assembly α := ((Line.ofSource source).foldl process {}).flush

variable (source : String)

/-- Behind the last line all that the lines say is counted. -/
theorem adds_behindLines :
    Adds (tally (Line.ofSource source)) ({} : Assembly α) (behindLines source) ∧
      (behindLines source : Assembly α).keptBack = 0 := by
  have concerns : ∀ line ∈ Line.ofSource source, ∀ diagnostic,
      line.statement = .malformed diagnostic → diagnostic.concernsLine = true := by
    intro line member diagnostic malformed
    obtain ⟨body, inhabited, start, -, same⟩ := Line.reads_of_mem member
    exact (Statement.placed_of_malformed inhabited (same.symm.trans malformed)).2.1
  have adds := (adds_foldl (α := α) concerns).trans (sound_foldl_process _).adds_flush
  rw [Tally.append_empty] at adds
  refine ⟨adds, ?_⟩
  rw [keptBack, behindLines, pending_flush]
  rfl

theorem sort_behindLines :
    ∀ diagnostic ∈ (behindLines source : Assembly α).diagnostics, diagnostic.isRepeat = true ∨
      diagnostic.isUnmatched = true ∨ diagnostic.concernsLine = true := by
  intro diagnostic member
  have findings := (adds_behindLines (α := α) source).1.findings
  cases again : diagnostic.isRepeat with
  | true => exact .inl rfl
  | false =>
    cases unmatched : diagnostic.isUnmatched with
    | true => exact .inr (.inl rfl)
    | false =>
      have other : diagnostic ∈ (behindLines source : Assembly α).others :=
        List.mem_filter.mpr ⟨member, by simp [again, unmatched]⟩
      rw [findings] at other
      exact .inr (.inr (concernsLine_of_mem_lineFindings other))

theorem early_behindLines :
    ∀ diagnostic ∈ (behindLines source : Assembly α).diagnostics, diagnostic.isLate = false := by
  intro diagnostic member
  rcases sort_behindLines source diagnostic member with again | unmatched | concerns
  · exact Diagnostic.not_isLate_of_isRepeat again
  · exact Diagnostic.not_isLate_of_isUnmatched unmatched
  · exact Diagnostic.not_isLate_of_concernsLine concerns

theorem connects_assemble :
    Connects (behindLines source : Assembly α).hops
      { (behindLines source : Assembly α).reportOpen with hops := [] } (assemble source) :=
  connects_foldl _ _

theorem nodes_parse :
    (parse source : Parsed α).graph.nodes = (behindLines source : Assembly α).graph.nodes :=
  (connects_assemble source).nodes

theorem hops_behindLines :
    (behindLines source : Assembly α).hops = (Line.ofSource source).flatMap (·.statement.hops) :=
  (adds_behindLines source).1.hops

theorem diagnostics_assemble :
    ∃ found, (assemble source : Assembly α).diagnostics =
        (behindLines source : Assembly α).diagnostics ++ (behindLines source : Assembly α).unclosed ++
          found ∧
      (∀ diagnostic ∈ found, diagnostic.concernsEndpoint = true) ∧
      found.map Diagnostic.mark =
        (behindLines source : Assembly α).hops.flatMap
          (behindLines source : Assembly α).graph.missed := by
  obtain ⟨found, told, concern, marks⟩ := (connects_assemble (α := α) source).concern
  refine ⟨found, ?_, concern, marks⟩
  rw [told, ← diagnostics_reportOpen]
  rfl

theorem filter_assemble {keeps : Diagnostic → Bool}
    (early : ∀ diagnostic, keeps diagnostic = true → diagnostic.isLate = false) :
    (assemble source : Assembly α).diagnostics.filter keeps =
      (behindLines source : Assembly α).diagnostics.filter keeps := by
  obtain ⟨found, told, concern, -⟩ := diagnostics_assemble (α := α) source
  have dropped {diagnostic : Diagnostic} (late : diagnostic.isLate = true) :
      ¬keeps diagnostic = true := by
    intro kept
    rw [early diagnostic kept] at late
    cases late
  have unclosed : (behindLines source : Assembly α).unclosed.filter keeps = [] :=
    List.filter_eq_nil_iff.mpr fun diagnostic member =>
      dropped (by simp [Diagnostic.isLate, isUnclosed_of_mem member])
  have endpoints : found.filter keeps = [] :=
    List.filter_eq_nil_iff.mpr fun diagnostic member =>
      dropped (by simp [Diagnostic.isLate, concern diagnostic member])
  rw [told, List.filter_append, List.filter_append, unclosed, endpoints, List.append_nil,
    List.append_nil]

/-- What is found when the lines have ended: the bodies that are still open, then the endpoints that
name no node. -/
theorem late_assemble :
    (assemble source : Assembly α).diagnostics.filter Diagnostic.isUnclosed =
        (behindLines source : Assembly α).unclosed ∧
      ((assemble source : Assembly α).diagnostics.filter Diagnostic.concernsEndpoint).map
        Diagnostic.mark =
        (behindLines source : Assembly α).hops.flatMap
          (behindLines source : Assembly α).graph.missed := by
  obtain ⟨found, told, concern, marks⟩ := diagnostics_assemble (α := α) source
  have early := early_behindLines (α := α) source
  simp only [Diagnostic.isLate, Bool.or_eq_false_iff] at early
  have unclosed : ∀ diagnostic ∈ (behindLines source : Assembly α).unclosed,
      diagnostic.isUnclosed = true := fun _ => isUnclosed_of_mem
  have earlyUnclosed :
      (behindLines source : Assembly α).diagnostics.filter Diagnostic.isUnclosed = [] :=
    List.filter_eq_nil_iff.mpr fun diagnostic member => by simp [early diagnostic member]
  have earlyEndpoint :
      (behindLines source : Assembly α).diagnostics.filter Diagnostic.concernsEndpoint = [] :=
    List.filter_eq_nil_iff.mpr fun diagnostic member => by simp [early diagnostic member]
  have endpointUnclosed : found.filter Diagnostic.isUnclosed = [] :=
    List.filter_eq_nil_iff.mpr fun diagnostic member => by
      simp [Diagnostic.not_isUnclosed_of_concernsEndpoint (concern diagnostic member)]
  have unclosedEndpoint :
      (behindLines source : Assembly α).unclosed.filter Diagnostic.concernsEndpoint = [] :=
    List.filter_eq_nil_iff.mpr fun diagnostic member endpoint => by
      have other := Diagnostic.not_isUnclosed_of_concernsEndpoint endpoint
      rw [unclosed diagnostic member] at other
      cases other
  rw [told]
  simp only [List.filter_append, earlyUnclosed, earlyEndpoint, endpointUnclosed, unclosedEndpoint,
    List.filter_eq_self.mpr unclosed, List.filter_eq_self.mpr concern, List.nil_append,
    List.append_nil, marks, and_self]

/-- What is found about the lines one by one is found once and nothing else of its kind is. -/
theorem filter_concernsLine :
    (assemble source : Assembly α).diagnostics.filter Diagnostic.concernsLine =
      lineFindings (Line.ofSource source) := by
  have findings := (adds_behindLines (α := α) source).1.findings
  have concerns : ∀ diagnostic ∈ lineFindings (Line.ofSource source), diagnostic.concernsLine = true :=
    fun _ => concernsLine_of_mem_lineFindings
  rw [filter_assemble source fun _ => Diagnostic.not_isLate_of_concernsLine]
  calc
    (behindLines source : Assembly α).diagnostics.filter Diagnostic.concernsLine
      = (behindLines source : Assembly α).others.filter Diagnostic.concernsLine := by
        rw [others, List.filter_filter]
        refine List.filter_congr fun diagnostic _ => ?_
        cases concern : diagnostic.concernsLine with
        | false => rfl
        | true => simp [Diagnostic.not_isRepeat_of_concernsLine concern]
    _ = lineFindings (Line.ofSource source) := by
        rw [findings]
        exact List.filter_eq_self.mpr concerns

theorem count_malformed {line : Line} (member : line ∈ Line.ofSource source) {diagnostic : Diagnostic}
    (malformed : line.statement = .malformed diagnostic) :
    (assemble source : Assembly α).diagnostics.count diagnostic = 1 := by
  obtain ⟨body, inhabited, start, -, same⟩ := Line.reads_of_mem member
  have concerns := (Statement.placed_of_malformed inhabited (same.symm.trans malformed)).2.1
  rw [← List.count_filter concerns, filter_concernsLine, count_lineFindings member malformed]

theorem filter_missesName :
    (assemble source : Assembly α).diagnostics.filter
        (Diagnostic.missesName (Line.ofSource source)) =
      (strayLines (Line.ofSource source)).map fun line => .strayBlock line.span := by
  rw [← filter_lineFindings, ← filter_concernsLine (α := α), List.filter_filter]
  refine List.filter_congr fun diagnostic _ => ?_
  cases misses : diagnostic.missesName (Line.ofSource source) with
  | false => rfl
  | true => simp [Diagnostic.concernsLine_of_missesName misses]

theorem accounts_declarations :
    (Line.ofSource source).countP (·.statement.declares) =
      (parse source : Parsed α).graph.nodes.length +
        ((parse source : Parsed α).found .duplicateNode).length := by
  obtain ⟨adds, none⟩ := adds_behindLines (α := α) source
  have repeated : (parse source : Parsed α).found .duplicateNode =
      (behindLines source : Assembly α).repeats :=
    filter_assemble source fun _ => Diagnostic.not_isLate_of_isRepeat
  have counted := adds.nodes
  rw [none, Nat.add_zero, ← nodes_parse, ← repeated] at counted
  exact (counted.trans (Nat.zero_add _)).symm

theorem accounts_opened :
    (Line.ofSource source).countP (·.statement.brace? == some .opening) =
        (assemble source : Assembly α).opened ∧
      (assemble source : Assembly α).opened = (assemble source : Assembly α).closed +
        ((parse source : Parsed α).found .unclosedContainer).length := by
  have adds := (adds_behindLines (α := α) source).1
  obtain ⟨opened, closed⟩ := (connects_assemble (α := α) source).counters
  have unclosed : (parse source : Parsed α).found .unclosedContainer =
      (behindLines source : Assembly α).unclosed := (late_assemble source).1
  have counted : (behindLines source : Assembly α).closed +
      (behindLines source : Assembly α).bodies.length + 0 =
        0 + 0 + (behindLines source : Assembly α).opened := adds.bodies
  rw [opened, closed, unclosed, Assembly.unclosed, List.length_map, List.length_reverse]
  refine ⟨(adds.opened.trans (Nat.zero_add _)).symm, ?_⟩
  show (behindLines source : Assembly α).opened = (behindLines source : Assembly α).closed + _
  omega

theorem accounts_closed :
    (Line.ofSource source).countP (·.statement.brace? == some .closing) =
      (assemble source : Assembly α).closed +
        ((parse source : Parsed α).found .unmatchedClose).length := by
  have adds := (adds_behindLines (α := α) source).1
  have closed : (assemble source : Assembly α).closed = (behindLines source : Assembly α).closed :=
    (connects_assemble source).counters.2
  have unmatched : (parse source : Parsed α).found .unmatchedClose =
      (behindLines source : Assembly α).unmatched :=
    filter_assemble source fun _ => Diagnostic.not_isLate_of_isUnmatched
  rw [closed, unmatched]
  exact (adds.closed.trans (Nat.zero_add _)).symm

theorem accounts_hops :
    ((Line.ofSource source).flatMap (·.statement.hops)).length =
        (parse source : Parsed α).graph.edges.length +
          ((Line.ofSource source).flatMap (·.statement.hops)).countP
            (parse source : Parsed α).graph.leavesOpen ∧
      ((parse source : Parsed α).diagnostics.filter Diagnostic.concernsEndpoint).map Diagnostic.mark =
        ((Line.ofSource source).flatMap (·.statement.hops)).flatMap
          (parse source : Parsed α).graph.missed := by
  have adds := (adds_behindLines (α := α) source).1
  have connects := connects_assemble (α := α) source
  obtain ⟨missed, leavesOpen⟩ := Graph.missed_congr (nodes_parse (α := α) source)
  rw [missed, leavesOpen, ← hops_behindLines (α := α)]
  have counted : (assemble source : Assembly α).graph.edges.length + _ =
      (behindLines source : Assembly α).graph.edges.length + _ := connects.edges
  rw [adds.edges] at counted
  exact ⟨(counted.trans (Nat.zero_add _)).symm, (late_assemble source).2⟩

end Assembly

open Assembly

variable [Scalar α]

/-- Nothing that a source says is dropped without a word. Every declaration makes a node or is reported
as a repeated one; every body that is opened is closed or reported; every closing brace closes a body or
is reported. What is wrong with a malformed line is reported once, and else a name is only missing before
a brace alone that no leaf waits for. Every hop makes an edge, or has endpoints that name no node, which
are reported once each, where they stand. -/
theorem parse_accounts (source : String) :
    let lines := Line.ofSource source
    let assembly : Assembly α := assemble source
    let parsed : Parsed α := parse source
    let hops := lines.flatMap (·.statement.hops)
    lines.countP (·.statement.declares) =
      parsed.graph.nodes.length + (parsed.found .duplicateNode).length ∧
    (lines.countP (·.statement.brace? == some .opening) = assembly.opened ∧
      assembly.opened = assembly.closed + (parsed.found .unclosedContainer).length) ∧
    lines.countP (·.statement.brace? == some .closing) =
      assembly.closed + (parsed.found .unmatchedClose).length ∧
    (∀ line ∈ lines, ∀ diagnostic, line.statement = .malformed diagnostic →
      parsed.diagnostics.count diagnostic = 1) ∧
    parsed.diagnostics.filter (Diagnostic.missesName lines) =
      (strayLines lines).map (fun line => .strayBlock line.span) ∧
    hops.length = parsed.graph.edges.length + hops.countP parsed.graph.leavesOpen ∧
    (parsed.diagnostics.filter Diagnostic.concernsEndpoint).map Diagnostic.mark =
      hops.flatMap parsed.graph.missed := by
  intro lines assembly parsed hops
  obtain ⟨edges, endpoints⟩ := accounts_hops (α := α) source
  exact ⟨accounts_declarations source, accounts_opened source, accounts_closed source,
    fun line member diagnostic => count_malformed source member, filter_missesName source, edges,
    endpoints⟩

/-- A repeated node, a list without a name, a brace that closes nothing, one that no leaf waits for and
that is never closed, and an endpoint that names no node. -/
example : (parse "A [x: 1]\nA \x7b\n[y: 2]\n\x7d\n\x7d\n\x7b\nA -> B" :
      Parsed Float32).diagnostics.map (·.code) =
    [some .duplicateNode, some .missingName, some .unmatchedClose, some .missingName,
      some .unclosedContainer, some .unresolvedEndpoint] := by
  decide +kernel

end BoxDiagram
