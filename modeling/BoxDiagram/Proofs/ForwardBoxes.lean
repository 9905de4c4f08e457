import BoxDiagram.Diagram
import BoxDiagram.Proofs.Apart
import BoxDiagram.Proofs.ForwardEdges
import BoxDiagram.Proofs.Relayout

/-!
Edges point forward. Over an edge between siblings that closes no cycle the rank increases, so the
layer of the source comes before the layer of the target, and the box of the target begins a rank gap
behind the end of the box of the source. The boxes that a layout writes into the graph are those that
were placed.
-/

namespace BoxDiagram

namespace Graph

section Ranks

variable {α : Type} {graph : Graph α}

theorem WellFormed.apart_of_siblings (wellFormed : graph.WellFormed) {first second : Node α}
    (firstMember : first ∈ graph.nodes) (secondMember : second ∈ graph.nodes)
    (different : first.path ≠ second.path) (siblings : first.parent = second.parent) :
    graph.Apart first.path second.path := by
  have level := wellFormed.depth_of_siblings firstMember secondMember siblings
  have outside {outer inner : Node α} (outerMember : outer ∈ graph.nodes)
      (innerMember : inner ∈ graph.nodes) (same : graph.depth outer.path = graph.depth inner.path) :
      graph.isAncestor outer.path inner.path = false := by
    rw [← Bool.not_eq_true, wellFormed.isAncestor_iff outerMember]
    intro around
    have deeper := wellFormed.depth_lt innerMember around
    omega
  exact ⟨different, outside firstMember secondMember level, outside secondMember firstMember level.symm⟩

/-- Over an edge between nodes apart that is no back edge the rank increases. -/
theorem WellFormed.rankOf_lt (wellFormed : graph.WellFormed) {index : Nat} {edge : Edge}
    (found : graph.edges[index]? = some edge) (forward : graph.ranking.isBackEdge index = false)
    {source target : Node α} (sourceMember : source ∈ graph.nodes) (targetMember : target ∈ graph.nodes)
    (leaves : source.path = edge.source) (leads : target.path = edge.target)
    (apart : graph.Apart source.path target.path) :
    graph.ranking.rankOf source.path < graph.ranking.rankOf target.path := by
  have lower : ∀ first ∈ graph.atomsBelow source.path, ∀ second ∈ graph.atomsBelow target.path,
      Ranking.entry graph.atomRanks first < Ranking.entry graph.atomRanks second := by
    rw [leaves, leads] at apart ⊢
    exact wellFormed.entry_lt_of_edge found forward apart
  rw [Ranking.rankOf, Ranking.rankOf, rank?_ranking sourceMember, rank?_ranking targetMember]
  exact leastRank_lt (wellFormed.atomsBelow_ne_nil sourceMember)
    (wellFormed.atomsBelow_ne_nil targetMember) lower

end Ranks

variable {graph : Graph ℚ} {ranking : Ranking} {layering : Layering} {settings : Settings ℚ}

/-- A sibling of a higher rank begins a rank gap behind the end of one of a lower rank. -/
theorem Contained.spacedAlong_of_rank (contained : graph.Contained)
    (layered : graph.LayeredBy ranking layering) (sound : settings.Sound) {first second : Node ℚ}
    (firstMember : first ∈ graph.nodes) (secondMember : second ∈ graph.nodes)
    (siblings : first.parent = second.parent)
    (lower : ranking.rankOf first.path < ranking.rankOf second.path) {firstBox secondBox : Bounds ℚ}
    (firstPlaced : (graph.placement ranking layering settings).bounds? first.path = some firstBox)
    (secondPlaced : (graph.placement ranking layering settings).bounds? second.path = some secondBox) :
    settings.orientation.SpacedAlong settings.rankSpacing firstBox secondBox := by
  have listed := contained.wellFormed.scope_listed contained.leavesEmpty firstMember
  have layers := layered _ listed
  have inScope {node : Node ℚ} (member : node ∈ graph.nodes) (inside : node.parent = first.parent) :
      ∃ layer ∈ Placement.layersOf layering ranking (graph.scope first.parent), node.path ∈ layer :=
    List.mem_flatten.mp (layers.perm.mem_iff.mpr (mem_scope_iff.mpr ⟨node, member, inside, rfl⟩))
  obtain ⟨upper, upperListed, inUpper⟩ := inScope firstMember rfl
  obtain ⟨other, otherListed, inOther⟩ := inScope secondMember siblings.symm
  have different : upper ≠ other := by
    rintro rfl
    have level := layers.level upper upperListed _ inUpper _ inOther
    omega
  have ordered := layers.increasing.and
    (contained.wellFormed.pairwise_spacedAlong layered sound listed)
  rcases related_of_pairwise ordered upperListed otherListed different with before | behind
  · exact before.2 _ inUpper _ inOther _ _ firstPlaced secondPlaced
  · have higher := behind.1 _ inOther _ inUpper
    omega

theorem WellFormed.clearLayout {α : Type} [Scalar α] {graph : Graph α} (wellFormed : graph.WellFormed) :
    graph.clearLayout.WellFormed where
  declared := by
    rw [Graph.clearLayout, ← List.map_reverse]
    exact wellFormed.declared.map (fun _ => rfl) fun _ => rfl
  endpoints := by
    intro edge member
    obtain ⟨before, listed, rfl⟩ := List.mem_map.mp member
    have known (path : String) : graph.clearLayout.contains path = graph.contains path := by
      rw [contains, contains, Graph.clearLayout, List.any_map]
      rfl
    rw [known, known]
    exact wellFormed.endpoints before listed

theorem Contained.clearLayout {α : Type} [Scalar α] {graph : Graph α} (contained : graph.Contained) :
    graph.clearLayout.Contained := by
  have cleared : Contained { graph with nodes := graph.nodes.map Node.clear } :=
    contained.mapNodes (fun _ => rfl) (fun _ => rfl) fun _ => rfl
  exact ⟨contained.wellFormed.clearLayout, cleared.leavesEmpty⟩

theorem bounds_writeNode (node : Node ℚ) {placement : Placement ℚ} {box : Bounds ℚ}
    (placed : placement.bounds? node.path = some box) :
    (writeNode ranking placement node).bounds = some box := by
  have whole : Bounds.ofCorner box.corner box.size = box := by
    apply Bounds.ext <;> simp only [Bounds.ofCorner, Bounds.corner, Bounds.size, Bounds.width,
      Bounds.height, add_sub_cancel]
  simp only [writeNode, placed, Node.bounds, Option.map_some, whole]

/-- The source of an edge lies before the target along the primary axis, a gap apart at least, if the
edge is not flagged and its ends are different nodes of one scope. -/
def PointsForward (graph : Graph ℚ) (settings : Settings ℚ) : Prop :=
  ∀ edge ∈ graph.edges, edge.isBackEdge = false →
    ∀ source ∈ graph.nodes, ∀ target ∈ graph.nodes, source.path = edge.source →
      target.path = edge.target → source.path ≠ target.path → source.parent = target.parent →
        ∃ sourceBox targetBox, source.bounds = some sourceBox ∧ target.bounds = some targetBox ∧
          settings.orientation.SpacedAlong settings.rankSpacing sourceBox targetBox

theorem Contained.pointsForward_writeLayout (contained : graph.Contained) (sound : settings.Sound) :
    (graph.writeLayout graph.ranking (graph.ownPlacement settings)).PointsForward settings := by
  intro flagged flaggedMember unflagged source sourceWritten target targetWritten leaves leads
    different siblings
  obtain ⟨⟨edge, index⟩, found, rfl⟩ := List.mem_map.mp flaggedMember
  obtain ⟨first, firstMember, rfl⟩ := List.mem_map.mp sourceWritten
  obtain ⟨second, secondMember, rfl⟩ := List.mem_map.mp targetWritten
  -- Nodes and edges of the written graph name the same paths as those of the graph.
  have path (node : Node ℚ) :
      (writeNode graph.ranking (graph.ownPlacement settings) node).path = node.path := by
    unfold writeNode
    split <;> rfl
  have parent (node : Node ℚ) :
      (writeNode graph.ranking (graph.ownPlacement settings) node).parent = node.parent := by
    unfold writeNode
    split <;> rfl
  rw [path] at leaves leads different
  rw [path] at different
  rw [parent, parent] at siblings
  have wellFormed := contained.wellFormed
  have apart := wellFormed.apart_of_siblings firstMember secondMember different siblings
  have lower := wellFormed.rankOf_lt (List.mk_mem_zipIdx_iff_getElem?.mp found) unflagged firstMember
    secondMember leaves leads apart
  have layered : graph.LayeredBy graph.ranking
      (graph.layering graph.ranking settings.orderingSweeps) :=
    OrderedFor.layeredBy (.inr ⟨settings.orderingSweeps, rfl⟩)
  obtain ⟨firstBox, firstPlaced⟩ := wellFormed.exists_bounds graph.ranking
    (graph.layering graph.ranking settings.orderingSweeps) settings firstMember
  obtain ⟨secondBox, secondPlaced⟩ := wellFormed.exists_bounds graph.ranking
    (graph.layering graph.ranking settings.orderingSweeps) settings secondMember
  exact ⟨firstBox, secondBox, bounds_writeNode first firstPlaced, bounds_writeNode second secondPlaced,
    contained.spacedAlong_of_rank layered sound firstMember secondMember siblings lower firstPlaced
      secondPlaced⟩

end Graph

/-- The diagram of a source, which a build that is not strict always gives and a strict one gives or
refuses, points forward: along the primary axis the target of an edge between siblings that closes no
cycle begins a rank gap behind the end of the source. -/
theorem build_pointsForward {settings : Settings ℚ} (valid : settings.validate = .ok ())
    (source : String) :
    (∃ diagram, Diagram.build settings false source = .ok diagram) ∧
    ∀ isStrict diagram, Diagram.build settings isStrict source = .ok diagram →
      diagram.graph.PointsForward settings := by
  have contained : (parse source : Parsed ℚ).graph.clearLayout.Contained :=
    (contained_parse source).clearLayout
  have forward := contained.pointsForward_writeLayout (Settings.sound_of_validate valid)
  refine ⟨⟨Diagram.ofSource settings source, rfl⟩, ?_⟩
  intro isStrict diagram built
  unfold Diagram.build at built
  extract_lets made at built
  split at built
  next => cases built
  next =>
    rw [← Except.ok.inj built]
    exact forward

/-- Of two edges there and back the first one points forward. -/
theorem roundTrip_pointsForward :
    (Settings.default : Settings ℚ).validate = .ok () ∧
    ∃ diagram : Diagram ℚ, Diagram.build .default false "A [x: 1]\nB \x7b\x7d\nA -> B -> A" = .ok diagram ∧
      diagram.graph.nodes.map (fun node => (node.path, node.parent)) = [("A", none), ("B", none)] ∧
      diagram.graph.edges.map (fun edge => (edge.source, edge.target, edge.isBackEdge)) =
        [("A", "B", false), ("B", "A", true)] ∧
      diagram.graph.PointsForward .default :=
  have valid : (Settings.default : Settings ℚ).validate = .ok () := by rfl
  ⟨valid, _, rfl, by decide +kernel, by decide +kernel,
    (build_pointsForward valid "A [x: 1]\nB \x7b\x7d\nA -> B -> A").2 false _ rfl⟩

end BoxDiagram
