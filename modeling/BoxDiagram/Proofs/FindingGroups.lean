import BoxDiagram.Diagram
import BoxDiagram.Proofs.OrderedFindings
import BoxDiagram.Proofs.Relayout
import BoxDiagram.Proofs.StatementSpans

/-!
The findings about a source come in groups. What is found while the lines are taken in comes first, then
the bodies that are still open, then the endpoints that name no node; each group is in the order of the
text. What a layout finds comes behind all of them.
-/

namespace BoxDiagram

variable {α : Type}

/-- Findings of some codes. All have places, and the starts of these are in order. -/
structure Diagnostic.Group (codes : List Code) (before : Nat → Nat → Prop) (found : List Diagnostic) :
    Prop where
  coded : ∀ diagnostic ∈ found, ∃ code ∈ codes, diagnostic.code = some code
  inOrder : ∃ starts : List Nat, found.map Diagnostic.start? = starts.map some ∧ starts.Pairwise before

section Endpoints

theorem Statement.spans_of_hops (statement : Statement) :
    ∀ span ∈ statement.hops.flatMap Hop.spans, span ∈ statement.spans := by
  cases statement with
  | connection hops => exact fun span member => member
  | _ => exact List.forall_mem_nil _

theorem pairwise_endpoints (source : String) :
    (((Line.ofSource source).flatMap (·.statement.hops)).flatMap Hop.spans).Pairwise
      (·.start ≤ ·.start) := by
  rw [List.flatMap_assoc]
  refine List.pairwise_flatMap.mpr ⟨?_, ?_⟩
  · intro line member
    cases said : line.statement with
    | connection hops =>
      exact Statement.pairwise_spans_hops hops ((Line.says_of_mem member).symm.trans said)
    | _ => exact .nil
  · refine (Line.laid_ofSource source).pairwise.imp_of_mem ?_
    intro earlier later earlierListed laterListed apart first firstNamed second secondNamed
    have ends := (Line.cuts_of_mem earlierListed first
      (List.mem_cons_of_mem _ (earlier.statement.spans_of_hops first firstNamed))).2.2
    have begins := (Line.cuts_of_mem laterListed second
      (List.mem_cons_of_mem _ (later.statement.spans_of_hops second secondNamed))).2.1
    calc
      first.start ≤ first.stop := first.start_le_stop
      _ ≤ earlier.span.stop := ends
      _ ≤ later.span.start := apart
      _ ≤ second.start := begins

theorem inOrder_of_missed {graph : Graph α} {hops : List Hop} {ends : List Diagnostic}
    (marks : ends.map Diagnostic.mark = hops.flatMap graph.missed)
    (named : (hops.flatMap Hop.spans).Pairwise (·.start ≤ ·.start)) :
    ∃ starts : List Nat, ends.map Diagnostic.start? = starts.map some ∧ starts.Pairwise (· ≤ ·) := by
  let missed := (hops.flatMap Hop.endpoints).filter fun endpoint => !graph.resolves endpoint
  refine ⟨missed.map (·.span.start), ?_, ?_⟩
  · calc
      ends.map Diagnostic.start? = (ends.map Diagnostic.mark).map fun mark => mark.2.map (·.start) := by
        rw [List.map_map]
        rfl
      _ = (missed.map (·.span.start)).map some := by
        rw [marks]
        simp only [missed, List.filter_flatMap, List.map_flatMap, Graph.missed, List.map_map]
        rfl
  · have spans : hops.flatMap Hop.spans = (hops.flatMap Hop.endpoints).map (·.span) := by
      rw [List.map_flatMap]
      rfl
    rw [spans, List.pairwise_map] at named
    exact List.pairwise_map.mpr (named.sublist List.filter_sublist)

end Endpoints

namespace Assembly

variable [Scalar α]

theorem group_behindLines (source : String) :
    Diagnostic.Group [.malformedList, .missingName, .unmatchedClose, .duplicateNode,
        .malformedConnection] (· < ·) (behindLines source : Assembly α).diagnostics ∧
      Diagnostic.Group [.unclosedContainer] (· < ·) (behindLines source : Assembly α).unclosed := by
  obtain ⟨limit, ordered⟩ := ordered_behindLines (α := α) source
  obtain ⟨starts, same, rising⟩ := ordered.findings
  refine ⟨⟨?_, starts, same, rising.increasing⟩, ?_, _, ?_, ordered.bodies.increasing⟩
  · intro diagnostic member
    have sorted := sort_behindLines source diagnostic member
    simp only [Diagnostic.isRepeat, Diagnostic.isUnmatched, Diagnostic.concernsLine, decide_eq_true_eq,
      Bool.or_eq_true, beq_iff_eq] at sorted
    rcases sorted with coded | coded | (coded | coded) | coded <;> exact ⟨_, by simp, coded⟩
  · intro diagnostic member
    obtain ⟨body, -, rfl⟩ := List.mem_map.mp member
    exact ⟨_, List.mem_singleton_self _, rfl⟩
  · rw [unclosed, List.map_map, List.map_map]
    rfl

/-- The findings of an assembly come in three groups. -/
theorem groups_assemble (source : String) :
    ∃ ends, (parse source : Parsed α).diagnostics =
        (behindLines source : Assembly α).diagnostics ++ (behindLines source : Assembly α).unclosed ++
          ends ∧
      Diagnostic.Group [.unresolvedEndpoint, .ambiguousEndpoint] (· ≤ ·) ends ∧
      ends.map Diagnostic.mark = ((Line.ofSource source).flatMap (·.statement.hops)).flatMap
        (parse source : Parsed α).graph.missed := by
  obtain ⟨ends, told, concern, marks⟩ := diagnostics_assemble (α := α) source
  rw [hops_behindLines, ← (Graph.missed_congr (nodes_parse source)).1] at marks
  refine ⟨ends, told, ⟨?_, inOrder_of_missed marks (pairwise_endpoints source)⟩, marks⟩
  intro diagnostic member
  have concerns := concern diagnostic member
  simp only [Diagnostic.concernsEndpoint, Bool.or_eq_true, beq_iff_eq] at concerns
  rcases concerns with coded | coded <;> exact ⟨_, by simp, coded⟩

end Assembly

variable [Scalar α]

theorem Diagram.ofSource_eq (settings : Settings α) (source : String) :
    Diagram.ofSource settings source =
      ⟨((parse source).graph.layout settings).1,
        (parse source : Parsed α).diagnostics ++ ((parse source).graph.layout settings).2⟩ := by
  unfold Diagram.ofSource
  extract_lets parsed
  generalize parsed.graph.layout settings = result
  rfl

open Assembly

/-- The findings of a source come in three groups. First is what is found while the lines are taken in,
each finding at a place behind the one before. Then comes one finding for each body that is still open,
outermost first, again one behind the other. Last are the endpoints that name no node, in the order of the
hops and so in that of the text. What the layout finds comes behind all of these, in the order of the
edges, and a strict run that refuses the diagram shows the same findings. -/
theorem findings_groups (settings : Settings α) (isStrict : Bool) (source : String) :
    let parsed : Parsed α := parse source
    let behind : Assembly α := behindLines source
    let hops := (Line.ofSource source).flatMap (·.statement.hops)
    let diagram := Diagram.ofSource settings source
    (∃ ends, parsed.diagnostics = behind.diagnostics ++
          behind.bodies.reverse.map (fun body => .neverClosed body.owner body.span) ++ ends ∧
      Diagnostic.Group [.malformedList, .missingName, .unmatchedClose, .duplicateNode,
        .malformedConnection] (· < ·) behind.diagnostics ∧
      Diagnostic.Group [.unclosedContainer] (· < ·)
        (behind.bodies.reverse.map fun body => .neverClosed body.owner body.span) ∧
      Diagnostic.Group [.unresolvedEndpoint, .ambiguousEndpoint] (· ≤ ·) ends ∧
      ends.map Diagnostic.mark = hops.flatMap parsed.graph.missed) ∧
    parsed.graph.SameContent diagram.graph ∧
    diagram.diagnostics = parsed.diagnostics ++ (diagram.graph.edges.filter (·.isBackEdge)).map
      (fun edge => .brokenCycle edge.source edge.target edge.span) ∧
    Diagram.build settings isStrict source =
      if isStrict && !diagram.diagnostics.isEmpty then .error (.strict diagram.diagnostics source)
      else .ok diagram := by
  intro parsed behind hops diagram
  obtain ⟨lines, bodies⟩ := group_behindLines (α := α) source
  obtain ⟨ends, told, group, marks⟩ := groups_assemble (α := α) source
  refine ⟨⟨ends, told, lines, bodies, group, marks⟩, ?_, ?_, rfl⟩
  · simp only [diagram, Diagram.ofSource_eq]
    exact parsed.graph.sameContent_layout settings
  · simp only [diagram, Diagram.ofSource_eq, Graph.diagnostics_layout]
    rfl

/-- A repeated leaf is found when the next line is taken in, in front of what is found there; then come
the body that is still open, the ends of two hops, and the edge that closes a cycle. -/
example : (Diagram.ofSource (.default : Settings Float32)
      "A [x: 1]\nB [x: 1]\nA [y: 2]\n\x7d\nA -> B -> A\nC \x7b\nD -> E -> A").diagnostics.map
        (fun found => (found.code, found.start?)) =
    [(some .duplicateNode, some 18), (some .unmatchedClose, some 27), (some .unclosedContainer, some 41),
      (some .unresolvedEndpoint, some 45), (some .unresolvedEndpoint, some 50),
      (some .unresolvedEndpoint, some 50), (some .brokenCycle, some 34)] := by
  decide +kernel

end BoxDiagram
