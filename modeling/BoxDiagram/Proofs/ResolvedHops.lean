import BoxDiagram.Proofs.Accounts

/-!
What comes of hops. Each edge is made of a hop whose ends name its nodes, and each finding is what is wrong
with an end that names no single node. Names are resolved by the nodes alone, so it does not matter how many
hops have been connected before.
-/

namespace BoxDiagram

variable {α : Type}

structure Edge.MadeOf (edge : Edge) (hop : Hop) (graph : Graph α) : Prop where
  source : Assembly.resolve graph hop.source = .ok edge.source
  target : Assembly.resolve graph hop.target = .ok edge.target
  kind : edge.kind = hop.kind
  label : edge.label = hop.label
  span : edge.span = hop.span

def Diagnostic.FoundAt (diagnostic : Diagnostic) (hops : List Hop) (graph : Graph α) : Prop :=
  ∃ hop ∈ hops, ∃ endpoint ∈ hop.endpoints, Assembly.resolve graph endpoint = .error diagnostic

namespace Assembly

structure Resolves (hops : List Hop) (earlier later : Assembly α) : Prop where
  edges : ∃ edges, later.graph = { earlier.graph with edges := earlier.graph.edges ++ edges } ∧
    ∀ edge ∈ edges, ∃ hop ∈ hops, edge.MadeOf hop earlier.graph
  findings : ∃ found, later.diagnostics = earlier.diagnostics ++ found ∧
    ∀ diagnostic ∈ found, diagnostic.FoundAt hops earlier.graph
  bodies : later.bodies = earlier.bodies
  pending : later.pending = earlier.pending

theorem Resolves.refl (assembly : Assembly α) : Resolves [] assembly assembly where
  edges := ⟨[], by rw [List.append_nil], List.forall_mem_nil _⟩
  findings := ⟨[], by rw [List.append_nil], List.forall_mem_nil _⟩
  bodies := rfl
  pending := rfl

theorem Resolves.trans {hops more : List Hop} {first second third : Assembly α}
    (before : Resolves hops first second) (behind : Resolves more second third) :
    Resolves (hops ++ more) first third := by
  obtain ⟨edges, grown, made⟩ := before.edges
  obtain ⟨further, grownLater, madeLater⟩ := behind.edges
  obtain ⟨found, told, marks⟩ := before.findings
  obtain ⟨others, toldLater, marksLater⟩ := behind.findings
  rw [grown] at grownLater madeLater marksLater
  constructor
  case edges =>
    refine ⟨edges ++ further, by rw [grownLater, List.append_assoc], ?_⟩
    refine List.forall_mem_append.mpr ⟨?_, ?_⟩
    · intro edge member
      obtain ⟨hop, listed, joined⟩ := made edge member
      exact ⟨hop, List.mem_append_left _ listed, joined⟩
    · intro edge member
      obtain ⟨hop, listed, joined⟩ := madeLater edge member
      exact ⟨hop, List.mem_append_right _ listed, joined.source, joined.target, joined.kind, joined.label,
        joined.span⟩
  case findings =>
    refine ⟨found ++ others, by rw [toldLater, told, List.append_assoc], ?_⟩
    refine List.forall_mem_append.mpr ⟨?_, ?_⟩
    · intro diagnostic member
      obtain ⟨hop, listed, fails⟩ := marks diagnostic member
      exact ⟨hop, List.mem_append_left _ listed, fails⟩
    · intro diagnostic member
      obtain ⟨hop, listed, fails⟩ := marksLater diagnostic member
      exact ⟨hop, List.mem_append_right _ listed, fails⟩
  case bodies => exact behind.bodies.trans before.bodies
  case pending => exact behind.pending.trans before.pending

theorem resolves_reports {hop : Hop} {earlier later : Assembly α} {found : List Diagnostic}
    (graph : later.graph = earlier.graph) (told : later.diagnostics = earlier.diagnostics ++ found)
    (bodies : later.bodies = earlier.bodies) (pending : later.pending = earlier.pending)
    (fails : ∀ diagnostic ∈ found, ∃ endpoint ∈ hop.endpoints,
      resolve earlier.graph endpoint = .error diagnostic) : Resolves [hop] earlier later where
  edges := ⟨[], by rw [graph, List.append_nil], List.forall_mem_nil _⟩
  findings := ⟨found, told, fun diagnostic member =>
    ⟨hop, List.mem_singleton_self hop, fails diagnostic member⟩⟩
  bodies := bodies
  pending := pending

theorem resolves_connect (assembly : Assembly α) (hop : Hop) :
    Resolves [hop] assembly (assembly.connect hop) := by
  have sourceIs : hop.source ∈ hop.endpoints := List.mem_cons_self
  have targetIs : hop.target ∈ hop.endpoints := List.mem_cons_of_mem _ (List.mem_singleton_self _)
  unfold connect
  cases fromSource : resolve assembly.graph hop.source with
  | error source =>
    cases fromTarget : resolve assembly.graph hop.target with
    | error target =>
      have told : ((assembly.report source).report target).diagnostics =
          assembly.diagnostics ++ [source, target] := by simp
      refine resolves_reports rfl told rfl rfl ?_
      exact List.forall_mem_cons.mpr ⟨⟨_, sourceIs, fromSource⟩,
        List.forall_mem_singleton.mpr ⟨_, targetIs, fromTarget⟩⟩
    | ok target =>
      exact resolves_reports rfl (diagnostics_report _ _) rfl rfl
        (List.forall_mem_singleton.mpr ⟨_, sourceIs, fromSource⟩)
  | ok source =>
    cases fromTarget : resolve assembly.graph hop.target with
    | error target =>
      exact resolves_reports rfl (diagnostics_report _ _) rfl rfl
        (List.forall_mem_singleton.mpr ⟨_, targetIs, fromTarget⟩)
    | ok target =>
      let edge : Edge := { source, target, kind := hop.kind, label := hop.label, span := hop.span }
      have added : assembly.graph.addEdge edge = _ := addEdge_resolved fromSource fromTarget
      dsimp only
      rw [added]
      refine ⟨⟨[edge], rfl, ?_⟩, ⟨[], (List.append_nil _).symm, List.forall_mem_nil _⟩, rfl, rfl⟩
      exact List.forall_mem_singleton.mpr
        ⟨hop, List.mem_singleton_self hop, fromSource, fromTarget, rfl, rfl, rfl⟩

theorem resolves_foldl (hops : List Hop) (assembly : Assembly α) :
    Resolves hops assembly (hops.foldl connect assembly) := by
  induction hops generalizing assembly with
  | nil => exact .refl assembly
  | cons hop hops ih => exact (resolves_connect assembly hop).trans (ih (assembly.connect hop))

theorem primarySpan_of_resolve {graph : Graph α} {endpoint : Located String} {diagnostic : Diagnostic}
    (fails : resolve graph endpoint = .error diagnostic) :
    diagnostic.primarySpan = some endpoint.span := by
  rcases resolve_cases graph endpoint with ⟨-, path, found⟩ | ⟨-, other, found, marked⟩
  · cases found.symm.trans fails
  · cases found.symm.trans fails
    exact congrArg Prod.snd marked

section Source

variable [Scalar α] (source : String)

theorem resolves_assemble :
    Resolves ((Line.ofSource source).flatMap (·.statement.hops))
      { (behindLines source : Assembly α).reportOpen with hops := [] } (assemble source) := by
  rw [← hops_behindLines (α := α)]
  exact resolves_foldl _ _

theorem madeOf_parse : ∀ edge ∈ (parse source : Parsed α).graph.edges,
    ∃ hop ∈ (Line.ofSource source).flatMap (·.statement.hops),
      edge.MadeOf hop (parse source : Parsed α).graph := by
  obtain ⟨edges, grown, made⟩ := (resolves_assemble (α := α) source).edges
  have none : (behindLines source : Assembly α).graph.edges = [] := (adds_behindLines source).1.edges
  have whole : (parse source : Parsed α).graph =
      { (behindLines source : Assembly α).graph with
        edges := (behindLines source : Assembly α).graph.edges ++ edges } := grown
  rw [none, List.nil_append] at whole
  rw [whole]
  intro edge member
  obtain ⟨hop, listed, joined⟩ := made edge member
  exact ⟨hop, listed, joined.source, joined.target, joined.kind, joined.label, joined.span⟩

theorem foundAt_parse {diagnostic : Diagnostic} (found : diagnostic ∈ (parse source : Parsed α).diagnostics)
    (concerns : diagnostic.concernsEndpoint = true) :
    diagnostic.FoundAt ((Line.ofSource source).flatMap (·.statement.hops))
      (parse source : Parsed α).graph := by
  have resolves := resolves_assemble (α := α) source
  obtain ⟨edges, grown, -⟩ := resolves.edges
  obtain ⟨others, told, marks⟩ := resolves.findings
  have late : diagnostic.isLate = true := by simp [Diagnostic.isLate, concerns]
  have listed : diagnostic ∈ (behindLines source : Assembly α).reportOpen.diagnostics ++ others :=
    told ▸ found
  rw [diagnostics_reportOpen] at listed
  rcases List.mem_append.mp listed with sooner | last
  · rcases List.mem_append.mp sooner with early | unclosed
    · cases (early_behindLines source diagnostic early).symm.trans late
    · have other := Diagnostic.not_isUnclosed_of_concernsEndpoint concerns
      cases other.symm.trans (isUnclosed_of_mem unclosed)
  · obtain ⟨hop, member, endpoint, own, fails⟩ := marks diagnostic last
    have same : resolve (parse source : Parsed α).graph endpoint = .error diagnostic := by
      rw [show (parse source : Parsed α).graph = _ from grown]
      exact fails
    exact ⟨hop, member, endpoint, own, same⟩

end Source

end Assembly

end BoxDiagram
