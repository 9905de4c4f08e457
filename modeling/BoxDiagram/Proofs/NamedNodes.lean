import BoxDiagram.Proofs.Accounts

/-!
Which nodes are named at the ends of connections. A written name is the path of a node, or else the own
name of one node only. The edges of a source are those of the hops, in their order, both of whose ends
name nodes; every end that names none is reported, as a name that nothing has or with all nodes that
have it.
-/

namespace BoxDiagram

variable {α : Type}

namespace Graph

/-- A written name, in its normal form, names a node: it is the path of the node, or it is nobody's path
and the own name of this node only. -/
inductive Names (graph : Graph α) (written : String) (node : Node α) : Prop where
  | byPath (member : node ∈ graph.nodes) (same : node.path = Text.normalize written)
  | byOwnName (member : node ∈ graph.nodes)
      (noPath : ∀ other ∈ graph.nodes, other.path ≠ Text.normalize written)
      (own : node.id.localName = Text.normalize written)
      (only : ∀ other ∈ graph.nodes, other.id.localName = Text.normalize written → other = node)

def candidates (graph : Graph α) (written : String) : List (Node α) :=
  graph.nodes.filter (·.id.localName = Text.normalize written)

def Joins (graph : Graph α) (hop : Hop) (edge : Edge) : Prop :=
  ∃ source target, graph.Names hop.source.value source ∧ graph.Names hop.target.value target ∧
    edge = { source := source.path, target := target.path, kind := hop.kind, label := hop.label,
             span := hop.span, isBackEdge := false }

/-- The finding is placed at an endpoint and says why it names no node: no node has the name, or at least
two have it, and then these are listed in the order of declaration. -/
structure Explains (graph : Graph α) (endpoint : Located String) (finding : Diagnostic) : Prop where
  place : finding.primarySpan = some endpoint.span
  unresolved : finding.code = some .unresolvedEndpoint ↔
    ∀ node ∈ graph.nodes, node.id.localName ≠ Text.normalize endpoint.value
  ambiguous : finding.code = some .ambiguousEndpoint ↔
    2 ≤ (graph.candidates endpoint.value).length
  listed : finding.code = some .ambiguousEndpoint →
    finding.labels = ⟨endpoint.span, "ambiguous name", true⟩ ::
        (graph.candidates endpoint.value).map (⟨·.span, "candidate", false⟩) ∧
      finding.help = some ("use a qualified name: " ++ ", ".intercalate
        ((graph.candidates endpoint.value).map fun node => "`" ++ node.path ++ "`"))

theorem mem_candidates {graph : Graph α} {written : String} {node : Node α} :
    node ∈ graph.candidates written ↔
      node ∈ graph.nodes ∧ node.id.localName = Text.normalize written := by
  simp [candidates]

namespace WellFormed

variable {graph : Graph α} (wellFormed : graph.WellFormed)
include wellFormed

theorem names_unique {written : String} {first second : Node α}
    (firstNamed : graph.Names written first) (secondNamed : graph.Names written second) :
    first = second := by
  cases firstNamed with
  | byPath member same =>
    cases secondNamed with
    | byPath otherMember otherSame =>
      exact wellFormed.eq_of_path member otherMember (same.trans otherSame.symm)
    | byOwnName _ noPath => exact absurd same (noPath first member)
  | byOwnName member noPath own =>
    cases secondNamed with
    | byPath otherMember otherSame => exact absurd otherSame (noPath second otherMember)
    | byOwnName _ _ _ only => exact only first member own

theorem nodup_candidates (written : String) : (graph.candidates written).Nodup :=
  (List.Nodup.of_map _ wellFormed.nodup_paths).filter _

/-- A name that is nobody's path names the only candidate, if there is just one. -/
theorem names_iff_of_noPath {written : String} {node : Node α}
    (noPath : ∀ other ∈ graph.nodes, other.path ≠ Text.normalize written) :
    graph.Names written node ↔ graph.candidates written = [node] := by
  constructor
  · intro named
    cases named with
    | byPath member same => exact absurd same (noPath node member)
    | byOwnName member _ own only =>
      have alone : ∀ other ∈ graph.candidates written, other = node := by
        intro other listed
        obtain ⟨otherMember, same⟩ := mem_candidates.mp listed
        exact only other otherMember same
      have listed : node ∈ graph.candidates written := mem_candidates.mpr ⟨member, own⟩
      have distinct := wellFormed.nodup_candidates written
      rcases found : graph.candidates written with _ | ⟨first, _ | ⟨second, others⟩⟩
      · simp [found] at listed
      · rw [alone first (by simp [found])]
      · have same : first = second :=
          (alone first (by simp [found])).trans (alone second (by simp [found])).symm
        simp [found, same] at distinct
  · intro alone
    have listed : node ∈ graph.candidates written := by simp [alone]
    obtain ⟨member, own⟩ := mem_candidates.mp listed
    refine .byOwnName member noPath own ?_
    intro other otherMember same
    have otherListed : other ∈ graph.candidates written := mem_candidates.mpr ⟨otherMember, same⟩
    rw [alone] at otherListed
    exact List.mem_singleton.mp otherListed

/-- An endpoint is resolved to the path of the node that it names. -/
theorem resolve_eq_ok_iff {endpoint : Located String} {path : String} :
    Assembly.resolve graph endpoint = .ok path ↔
      ∃ node, graph.Names endpoint.value node ∧ node.path = path := by
  have candidates : graph.withLocalName (Text.normalize endpoint.value) =
      graph.candidates endpoint.value := rfl
  unfold Assembly.resolve
  extract_lets name
  split
  next known =>
    obtain ⟨node, member, same⟩ := contains_iff.mp known
    have named : graph.Names endpoint.value node := .byPath member same
    constructor
    · intro found
      exact ⟨node, named, same.trans (Except.ok.inj found)⟩
    · rintro ⟨other, otherNamed, rfl⟩
      rw [wellFormed.names_unique otherNamed named, same]
  next unknown =>
    have noPath : ∀ other ∈ graph.nodes, other.path ≠ name :=
      fun other member same => unknown (contains_iff.mpr ⟨other, member, same⟩)
    rw [candidates]
    split
    next none => simp [wellFormed.names_iff_of_noPath noPath, none]
    next node alone => simp [wellFormed.names_iff_of_noPath noPath, alone]
    next several =>
      constructor
      · nofun
      · rintro ⟨node, named, -⟩
        exact absurd ((wellFormed.names_iff_of_noPath noPath).mp named) (several node)

theorem resolves_iff {endpoint : Located String} :
    graph.resolves endpoint = true ↔ ∃ node, graph.Names endpoint.value node := by
  have found : graph.resolves endpoint = true ↔
      ∃ path, Assembly.resolve graph endpoint = .ok path := by
    rcases Assembly.resolve_cases graph endpoint with ⟨names, path, found⟩ | ⟨fails, other, found, -⟩
    · simp [names, found]
    · simp [fails, found]
  rw [found]
  simp [wellFormed.resolve_eq_ok_iff]

end WellFormed

end Graph

namespace Diagnostic

theorem labels_ambiguousEndpoint (name : String) (endpoint : Span) (candidates : List (String × Span)) :
    (ambiguousEndpoint name endpoint candidates).labels =
        ⟨endpoint, "ambiguous name", true⟩ :: candidates.map (⟨·.2, "candidate", false⟩) ∧
      (ambiguousEndpoint name endpoint candidates).help = some ("use a qualified name: " ++
        ", ".intercalate (candidates.map fun candidate => "`" ++ candidate.1 ++ "`")) := by
  have labelled : ∀ diagnostic : Diagnostic,
      let marked := candidates.foldl (fun diagnostic candidate =>
        diagnostic.withSecondaryLabel candidate.2 "candidate") diagnostic
      marked.labels = diagnostic.labels ++ candidates.map (⟨·.2, "candidate", false⟩) ∧
        marked.help = diagnostic.help := by
    induction candidates with
    | nil => simp
    | cons candidate others ih =>
      intro diagnostic
      obtain ⟨labels, help⟩ := ih (diagnostic.withSecondaryLabel candidate.2 "candidate")
      exact ⟨labels.trans (List.append_assoc _ _ _), help⟩
  unfold ambiguousEndpoint
  extract_lets choices base
  exact labelled base

end Diagnostic

namespace Assembly

theorem explains_of_resolve {graph : Graph α} {endpoint : Located String} {finding : Diagnostic}
    (fails : resolve graph endpoint = .error finding) : graph.Explains endpoint finding := by
  have listed : graph.withLocalName (Text.normalize endpoint.value) =
      graph.candidates endpoint.value := rfl
  have nobody : graph.candidates endpoint.value = [] ↔
      ∀ node ∈ graph.nodes, node.id.localName ≠ Text.normalize endpoint.value := by
    simp [Graph.candidates]
  unfold resolve at fails
  extract_lets name at fails
  split at fails
  next => cases fails
  next =>
    rw [listed] at fails
    rcases found : graph.candidates endpoint.value with _ | ⟨first, _ | ⟨second, others⟩⟩
    all_goals
      rw [found] at fails nobody
      cases fails
    · have code : (Diagnostic.unresolvedEndpoint name endpoint.span).code = some .unresolvedEndpoint := rfl
      refine ⟨rfl, iff_of_true code (nobody.mp rfl), ?_, ?_⟩ <;> simp [code, found]
    · have marked := Diagnostic.mark_ambiguousEndpoint name endpoint.span
        ((first :: second :: others).map fun node => (node.path, node.span))
      obtain ⟨labels, help⟩ := Diagnostic.labels_ambiguousEndpoint name endpoint.span
        ((first :: second :: others).map fun node => (node.path, node.span))
      obtain ⟨code, place⟩ := Prod.mk.inj marked
      have somebody := nobody.not.mp (List.cons_ne_nil _ _)
      refine ⟨place, iff_of_false (by rw [code]; nofun) somebody, iff_of_true code (by simp [found]), ?_⟩
      rw [labels, help, found, List.map_map, List.map_map]
      exact fun _ => ⟨rfl, rfl⟩

structure Settles (graph : Graph α) (hops : List Hop) (earlier later : Assembly α) : Prop where
  nodes : later.graph.nodes = earlier.graph.nodes
  edges : ∃ edges, later.graph.edges = earlier.graph.edges ++ edges ∧
    List.Forall₂ graph.Joins (hops.filter (!graph.leavesOpen ·)) edges
  findings : ∃ found, later.diagnostics = earlier.diagnostics ++ found ∧
    List.Forall₂ graph.Explains ((hops.flatMap Hop.endpoints).filter (!graph.resolves ·)) found

theorem Settles.refl (graph : Graph α) (assembly : Assembly α) : Settles graph [] assembly assembly :=
  ⟨rfl, ⟨[], (List.append_nil _).symm, .nil⟩, ⟨[], (List.append_nil _).symm, .nil⟩⟩

theorem Settles.trans {graph : Graph α} {hops more : List Hop} {first second third : Assembly α}
    (before : Settles graph hops first second) (behind : Settles graph more second third) :
    Settles graph (hops ++ more) first third := by
  obtain ⟨edges, grown, joined⟩ := before.edges
  obtain ⟨further, grownLater, joinedLater⟩ := behind.edges
  obtain ⟨found, told, explained⟩ := before.findings
  obtain ⟨others, toldLater, explainedLater⟩ := behind.findings
  refine ⟨behind.nodes.trans before.nodes, ⟨edges ++ further, ?_, ?_⟩, ⟨found ++ others, ?_, ?_⟩⟩
  · rw [grownLater, grown, List.append_assoc]
  · rw [List.filter_append]
    exact List.rel_append joined joinedLater
  · rw [toldLater, told, List.append_assoc]
  · rw [List.flatMap_append, List.filter_append]
    exact List.rel_append explained explainedLater

theorem resolve_congr {first second : Graph α} (same : second.nodes = first.nodes) :
    resolve second = resolve first := by
  funext endpoint
  unfold resolve Graph.contains Graph.withLocalName
  rw [same]

theorem settles_reports {graph : Graph α} {hop : Hop} {earlier later : Assembly α}
    {found : List Diagnostic} (leavesOpen : graph.leavesOpen hop = true)
    (same : later.graph = earlier.graph) (told : later.diagnostics = earlier.diagnostics ++ found)
    (explained : List.Forall₂ graph.Explains (hop.endpoints.filter (!graph.resolves ·)) found) :
    Settles graph [hop] earlier later where
  nodes := congrArg Graph.nodes same
  edges := ⟨[], by rw [same, List.append_nil], by simp [leavesOpen]⟩
  findings := ⟨found, told, by simpa using explained⟩

theorem settles_connect {graph : Graph α} (wellFormed : graph.WellFormed) {assembly : Assembly α}
    (same : assembly.graph.nodes = graph.nodes) (hop : Hop) :
    Settles graph [hop] assembly (assembly.connect hop) := by
  have resolved := resolve_congr same
  unfold connect
  rcases resolve_cases graph hop.source with
    ⟨sourceNames, source, fromSource⟩ | ⟨sourceFails, source, fromSource, -⟩ <;>
  rcases resolve_cases graph hop.target with
    ⟨targetNames, target, fromTarget⟩ | ⟨targetFails, target, fromTarget, -⟩ <;>
  rw [resolved, fromSource, fromTarget]
  · let edge : Edge := { source, target, kind := hop.kind, label := hop.label, span := hop.span }
    have added : assembly.graph.addEdge edge = _ :=
      addEdge_resolved (resolved ▸ fromSource) (resolved ▸ fromTarget)
    obtain ⟨start, startNamed, startIs⟩ := wellFormed.resolve_eq_ok_iff.mp fromSource
    obtain ⟨goal, goalNamed, goalIs⟩ := wellFormed.resolve_eq_ok_iff.mp fromTarget
    have joins : graph.Joins hop edge := by
      refine ⟨start, goal, startNamed, goalNamed, ?_⟩
      rw [startIs, goalIs]
    dsimp only
    rw [added]
    refine ⟨rfl, ⟨[edge], rfl, ?_⟩, ⟨[], (List.append_nil _).symm, ?_⟩⟩ <;>
      simp [Graph.leavesOpen, Hop.endpoints, sourceNames, targetNames, joins]
  · refine settles_reports ?_ rfl (diagnostics_report assembly target) ?_ <;>
      simp [Graph.leavesOpen, Hop.endpoints, sourceNames, targetFails, explains_of_resolve fromTarget]
  · refine settles_reports ?_ rfl (diagnostics_report assembly source) ?_ <;>
      simp [Graph.leavesOpen, Hop.endpoints, sourceFails, targetNames, explains_of_resolve fromSource]
  · have told : ((assembly.report source).report target).diagnostics =
        assembly.diagnostics ++ [source, target] := by simp
    refine settles_reports ?_ rfl told ?_ <;>
      simp [Graph.leavesOpen, Hop.endpoints, sourceFails, targetFails, explains_of_resolve fromSource,
        explains_of_resolve fromTarget]

/-- Each hop becomes an edge or is explained, by what the nodes are at the start. -/
theorem settles_foldl {graph : Graph α} (wellFormed : graph.WellFormed) (hops : List Hop)
    {assembly : Assembly α} (same : assembly.graph.nodes = graph.nodes) :
    Settles graph hops assembly (hops.foldl connect assembly) := by
  induction hops generalizing assembly with
  | nil => exact .refl graph assembly
  | cons hop hops ih =>
    have first := settles_connect wellFormed same hop
    exact first.trans (ih (first.nodes.trans same))

section Source

variable [Scalar α] (source : String)

theorem filter_reportOpen :
    (behindLines source : Assembly α).reportOpen.diagnostics.filter Diagnostic.concernsEndpoint = [] := by
  rw [diagnostics_reportOpen, List.filter_eq_nil_iff]
  intro diagnostic member concerns
  rcases List.mem_append.mp member with early | unclosed
  · have late : diagnostic.isLate = true := by simp [Diagnostic.isLate, concerns]
    cases (early_behindLines source diagnostic early).symm.trans late
  · have other := Diagnostic.not_isUnclosed_of_concernsEndpoint concerns
    cases other.symm.trans (isUnclosed_of_mem unclosed)

theorem settles_assemble :
    Settles (parse source : Parsed α).graph ((Line.ofSource source).flatMap (·.statement.hops))
      { (behindLines source : Assembly α).reportOpen with hops := [] } (assemble source) := by
  rw [← hops_behindLines (α := α)]
  exact settles_foldl (contained_parse source).wellFormed _ (nodes_parse source).symm

theorem filter_concernsEndpoint {found : List Diagnostic}
    (told : (assemble source : Assembly α).diagnostics =
      (behindLines source : Assembly α).reportOpen.diagnostics ++ found) :
    (assemble source : Assembly α).diagnostics.filter Diagnostic.concernsEndpoint = found := by
  obtain ⟨others, same, concern, -⟩ := diagnostics_assemble (α := α) source
  rw [← diagnostics_reportOpen, told] at same
  rw [told, List.filter_append, filter_reportOpen, List.nil_append, List.append_cancel_left same]
  exact List.filter_eq_self.mpr concern

end Source

end Assembly

open Assembly

/-- A path goes before an own name. -/
example : ((parse "A \x7b\n B [x: 1]\n\x7d\nB \x7b\n B [x: 2]\n\x7d\nB -> A.B\nB.B -> A" :
      Parsed Float32).graph.edges.map fun edge => (edge.source, edge.target)) =
    [("B", "A.B"), ("B.B", "A")] := by
  decide +kernel

end BoxDiagram
