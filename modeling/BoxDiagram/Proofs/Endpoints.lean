import BoxDiagram.Proofs.StrictRun

/-!
What becomes of the hops. An endpoint names a node by the path of the node, or by an own name that no
other node has; a hop whose endpoints both do becomes an edge, and every endpoint that does not is
reported once, where it stands.
-/

namespace BoxDiagram

variable {α : Type}

def Hop.endpoints (hop : Hop) : List (Located String) := [hop.source, hop.target]

namespace Graph

/-- An endpoint is the path of a node, or the own name of one node only. -/
def resolves (graph : Graph α) (endpoint : Located String) : Bool :=
  let name := Text.normalize endpoint.value
  graph.contains name || (graph.withLocalName name).length = 1

def leavesOpen (graph : Graph α) (hop : Hop) : Bool :=
  hop.endpoints.any fun endpoint => !graph.resolves endpoint

def failure (graph : Graph α) (endpoint : Located String) : Code :=
  if (graph.withLocalName (Text.normalize endpoint.value)).isEmpty then .unresolvedEndpoint
  else .ambiguousEndpoint

def missed (graph : Graph α) (hop : Hop) : List (Option Code × Option Span) :=
  (hop.endpoints.filter fun endpoint => !graph.resolves endpoint).map fun endpoint =>
    (some (graph.failure endpoint), some endpoint.span)

theorem missed_congr {first second : Graph α} (same : second.nodes = first.nodes) :
    second.missed = first.missed ∧ second.leavesOpen = first.leavesOpen := by
  have known : second.contains = first.contains := by
    funext path
    rw [contains, contains, same]
  have named : second.withLocalName = first.withLocalName := by
    funext name
    rw [withLocalName, withLocalName, same]
  have resolved : second.resolves = first.resolves := by
    funext endpoint
    rw [resolves, resolves, known, named]
  have failing : second.failure = first.failure := by
    funext endpoint
    rw [failure, failure, named]
  refine ⟨funext fun hop => ?_, funext fun hop => ?_⟩
  · rw [missed, missed, resolved, failing]
  · rw [leavesOpen, leavesOpen, resolved]

end Graph

namespace Diagnostic

def mark (diagnostic : Diagnostic) : Option Code × Option Span :=
  (diagnostic.code, diagnostic.primarySpan)

def concernsEndpoint (diagnostic : Diagnostic) : Bool :=
  diagnostic.code == some .unresolvedEndpoint || diagnostic.code == some .ambiguousEndpoint

theorem mark_withSecondaryLabel {diagnostic : Diagnostic} {code : Code} {place : Span}
    (marked : diagnostic.mark = (some code, some place)) (span : Span) (text : String) :
    (diagnostic.withSecondaryLabel span text).mark = (some code, some place) := by
  obtain ⟨coded, placed⟩ := Prod.mk.inj marked
  refine Prod.ext coded ?_
  obtain ⟨label, found, same⟩ := Option.map_eq_some_iff.mp placed
  simp [mark, primarySpan, withSecondaryLabel, List.find?_append, found, same]

theorem mark_ambiguousEndpoint (name : String) (endpoint : Span) (candidates : List (String × Span)) :
    (ambiguousEndpoint name endpoint candidates).mark = (some .ambiguousEndpoint, some endpoint) := by
  unfold ambiguousEndpoint
  extract_lets choices base
  exact List.foldlRecOn (motive := fun diagnostic : Diagnostic =>
    diagnostic.mark = (some .ambiguousEndpoint, some endpoint)) candidates _ rfl
      fun _ marked candidate _ => mark_withSecondaryLabel marked candidate.2 "candidate"

end Diagnostic

namespace Assembly

/-- An endpoint is resolved when it names a node, and else there is one report of it. -/
theorem resolve_cases (graph : Graph α) (endpoint : Located String) :
    (graph.resolves endpoint = true ∧ ∃ path, resolve graph endpoint = .ok path) ∨
      (graph.resolves endpoint = false ∧ ∃ diagnostic, resolve graph endpoint = .error diagnostic ∧
        diagnostic.mark = (some (graph.failure endpoint), some endpoint.span)) := by
  unfold resolve Graph.resolves Graph.failure
  dsimp only
  generalize Text.normalize endpoint.value = name
  cases graph.contains name with
  | true => exact .inl ⟨rfl, name, rfl⟩
  | false =>
    rcases graph.withLocalName name with _ | ⟨node, _ | ⟨other, others⟩⟩
    · exact .inr ⟨rfl, _, rfl, rfl⟩
    · exact .inl ⟨rfl, node.path, rfl⟩
    · exact .inr ⟨rfl, _, rfl, Diagnostic.mark_ambiguousEndpoint _ _ _⟩

/-- What a hop does: it becomes an edge, or its endpoints that name no node are reported. -/
structure Connects (hops : List Hop) (earlier later : Assembly α) : Prop where
  nodes : later.graph.nodes = earlier.graph.nodes
  counters : later.opened = earlier.opened ∧ later.closed = earlier.closed
  findings : ∃ found, later.diagnostics = earlier.diagnostics ++ found ∧
    found.map Diagnostic.mark = hops.flatMap earlier.graph.missed
  edges : later.graph.edges.length + hops.countP earlier.graph.leavesOpen =
    earlier.graph.edges.length + hops.length

theorem connects_connect (assembly : Assembly α) (hop : Hop) :
    Connects [hop] assembly (assembly.connect hop) := by
  unfold connect
  rcases resolve_cases assembly.graph hop.source with
    ⟨sourceNames, source, fromSource⟩ | ⟨sourceFails, source, fromSource, sourceMark⟩ <;>
  rcases resolve_cases assembly.graph hop.target with
    ⟨targetNames, target, fromTarget⟩ | ⟨targetFails, target, fromTarget, targetMark⟩ <;>
  rw [fromSource, fromTarget]
  · let edge : Edge := { source, target, kind := hop.kind, label := hop.label, span := hop.span }
    have added : assembly.graph.addEdge edge = _ := addEdge_resolved fromSource fromTarget
    dsimp only
    rw [added]
    refine ⟨rfl, ⟨rfl, rfl⟩, ⟨[], (List.append_nil _).symm, ?_⟩, ?_⟩ <;>
      simp [Graph.missed, Graph.leavesOpen, Hop.endpoints, sourceNames, targetNames]
  · refine ⟨rfl, ⟨rfl, rfl⟩, ⟨[target], diagnostics_report _ _, ?_⟩, ?_⟩ <;>
      simp [Graph.missed, Graph.leavesOpen, Hop.endpoints, sourceNames, targetFails, targetMark,
        report, note]
  · refine ⟨rfl, ⟨rfl, rfl⟩, ⟨[source], diagnostics_report _ _, ?_⟩, ?_⟩ <;>
      simp [Graph.missed, Graph.leavesOpen, Hop.endpoints, sourceFails, targetNames, sourceMark,
        report, note]
  · have told : ((assembly.report source).report target).diagnostics =
        assembly.diagnostics ++ [source, target] := by simp
    refine ⟨rfl, ⟨rfl, rfl⟩, ⟨[source, target], told, ?_⟩, ?_⟩ <;>
      simp [Graph.missed, Graph.leavesOpen, Hop.endpoints, sourceFails, targetFails, sourceMark,
        targetMark, report, note]

theorem Connects.refl (assembly : Assembly α) : Connects [] assembly assembly :=
  ⟨rfl, ⟨rfl, rfl⟩, ⟨[], by simp, rfl⟩, rfl⟩

theorem Connects.trans {hops more : List Hop} {first second third : Assembly α}
    (before : Connects hops first second) (behind : Connects more second third) :
    Connects (hops ++ more) first third := by
  obtain ⟨missed, leavesOpen⟩ := Graph.missed_congr before.nodes
  obtain ⟨found, told, marks⟩ := before.findings
  obtain ⟨later, toldLater, marksLater⟩ := behind.findings
  have edges := before.edges
  have edgesLater := behind.edges
  rw [missed] at marksLater
  rw [leavesOpen] at edgesLater
  refine ⟨behind.nodes.trans before.nodes,
    ⟨behind.counters.1.trans before.counters.1, behind.counters.2.trans before.counters.2⟩,
    ⟨found ++ later, by rw [toldLater, told, List.append_assoc], ?_⟩, ?_⟩
  · rw [List.map_append, marks, marksLater, List.flatMap_append]
  · rw [List.countP_append, List.length_append]
    omega

/-- Each hop becomes an edge or is reported, by what the nodes are at the start. -/
theorem connects_foldl (hops : List Hop) (assembly : Assembly α) :
    Connects hops assembly (hops.foldl connect assembly) := by
  induction hops generalizing assembly with
  | nil => exact .refl assembly
  | cons hop hops ih => exact (connects_connect assembly hop).trans (ih (assembly.connect hop))

theorem Connects.concern {hops : List Hop} {earlier later : Assembly α}
    (connects : Connects hops earlier later) :
    ∃ found, later.diagnostics = earlier.diagnostics ++ found ∧
      (∀ diagnostic ∈ found, diagnostic.concernsEndpoint = true) ∧
      found.map Diagnostic.mark = hops.flatMap earlier.graph.missed := by
  obtain ⟨found, told, marks⟩ := connects.findings
  refine ⟨found, told, ?_, marks⟩
  intro diagnostic member
  have marked : diagnostic.mark ∈ hops.flatMap earlier.graph.missed :=
    marks ▸ List.mem_map_of_mem member
  obtain ⟨hop, -, missed⟩ := List.mem_flatMap.mp marked
  obtain ⟨endpoint, -, same⟩ := List.mem_map.mp missed
  have coded : diagnostic.code = some (earlier.graph.failure endpoint) := (congrArg Prod.fst same).symm
  rw [Diagnostic.concernsEndpoint, coded, Graph.failure]
  split <;> rfl

end Assembly

end BoxDiagram
