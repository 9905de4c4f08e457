import BoxDiagram.Layout
import BoxDiagram.Proofs.Draft
import BoxDiagram.Proofs.ForwardEdges

/-!
What a layout leaves alone and what it depends on. It writes ranks, positions, sizes and the flags of
edges, and nothing else; and since all of these are cleared first, it depends on nothing but what it
leaves alone. So a second layout finds what the first one found.
-/

namespace BoxDiagram

variable {α : Type}

structure Node.SameContent (first second : Node α) : Prop where
  id : second.id = first.id
  kind : second.kind = first.kind
  parent : second.parent = first.parent
  properties : second.properties = first.properties
  span : second.span = first.span

structure Edge.SameContent (first second : Edge) : Prop where
  source : second.source = first.source
  target : second.target = first.target
  kind : second.kind = first.kind
  label : second.label = first.label
  span : second.span = first.span

structure Graph.SameContent (first second : Graph α) : Prop where
  title : second.title = first.title
  nodes : List.Forall₂ Node.SameContent first.nodes second.nodes
  edges : List.Forall₂ Edge.SameContent first.edges second.edges

theorem map_eq_of_forall₂ {β γ : Type} {related : β → β → Prop} {first second : List β}
    (all : List.Forall₂ related first second) {change : β → γ}
    (equal : ∀ left right, related left right → change right = change left) :
    second.map change = first.map change := by
  induction all with
  | nil => rfl
  | cons same _ ih => rw [List.map_cons, List.map_cons, equal _ _ same, ih]

theorem exists_of_forall₂ {β γ : Type} {related : β → γ → Prop} {first : List β} {second : List γ}
    (all : List.Forall₂ related first second) :
    ∀ right ∈ second, ∃ left ∈ first, related left right := by
  induction all with
  | nil => exact List.forall_mem_nil _
  | cons same _ ih =>
    refine List.forall_mem_cons.mpr ⟨⟨_, List.mem_cons_self, same⟩, ?_⟩
    intro right member
    obtain ⟨left, listed, both⟩ := ih right member
    exact ⟨left, List.mem_cons_of_mem _ listed, both⟩

namespace Graph

theorem isSome_rank? (graph : Graph α) {node : Node α} (member : node ∈ graph.nodes) :
    (graph.ranking.rank? node.path).isSome = true := by
  rw [Ranking.rank?, List.lookup_isSome_iff]
  exact ⟨_, List.mem_map_of_mem member, by simp⟩

/-- Going through the indices of the back edges gives the flagged edges in their order. -/
theorem filterMap_backEdges (graph : Graph α) :
    graph.backEdges.filterMap (graph.edges[·]?) =
      (graph.edges.zipIdx.filter fun entry => graph.ranking.isBackEdge entry.2).map Prod.fst := by
  have indices : List.range graph.edges.length = graph.edges.zipIdx.map Prod.snd := by
    rw [List.zipIdx_map_snd, List.range_eq_range']
  have found : ∀ entry ∈ graph.edges.zipIdx, graph.edges[entry.2]? = some entry.1 :=
    fun _ member => List.mk_mem_zipIdx_iff_getElem?.mp member
  have flags : ∀ entry ∈ graph.edges.zipIdx, graph.ranking.isBackEdge entry.2 =
      (Search.visitAll graph.constraints graph.atoms).flagged.contains entry.2 := by
    intro entry member
    have within := (List.getElem?_eq_some_iff.mp (found entry member)).1
    rw [Bool.eq_iff_iff, List.contains_iff_mem]
    simp [Ranking.isBackEdge, ranking, mem_backEdges_iff, within]
  rw [List.filter_congr flags, backEdges, indices, List.filter_map, List.filterMap_map,
    ← List.filterMap_eq_map]
  apply List.filterMap_congr
  intro entry member
  exact found entry (List.mem_filter.mp member).1

variable [Scalar α]

theorem SameContent.clearLayout_eq {first second : Graph α} (same : first.SameContent second) :
    second.clearLayout = first.clearLayout := by
  obtain ⟨title, nodes, edges⟩ := same
  have clearedNodes : second.nodes.map Node.clear = first.nodes.map Node.clear := by
    refine map_eq_of_forall₂ nodes ?_
    rintro left right ⟨id, kind, parent, properties, span⟩
    simp only [Node.clear, id, kind, parent, properties, span]
  have clearedEdges : second.edges.map ({ · with isBackEdge := false }) =
      first.edges.map ({ · with isBackEdge := false }) := by
    refine map_eq_of_forall₂ edges ?_
    rintro left right ⟨source, target, kind, label, span⟩
    simp only [source, target, kind, label, span]
  simp only [clearLayout, title, clearedNodes, clearedEdges]

theorem exists_box (graph : Graph α) (ranking : Ranking) (layering : Layering) (settings : Settings α)
    {node : Node α} (member : node ∈ graph.nodes) :
    ∃ box, (graph.placement ranking layering settings).bounds? node.path = some box := by
  have names := Placement.placeNodes_names (Placement.draft graph ranking layering settings)
    graph.nodes []
  have listed : node.path ∈ (graph.placement ranking layering settings).boxes.map Prod.fst := by
    rw [placement, names]
    exact List.mem_map_of_mem member
  obtain ⟨entry, found, same⟩ := List.mem_map.mp listed
  rw [← Option.isSome_iff_exists, Placement.bounds?, List.lookup_isSome_iff]
  exact ⟨entry, found, by simp [same]⟩

theorem writeNode_eq {graph : Graph α} (settings : Settings α) {node : Node α}
    (member : node ∈ graph.nodes) :
    ∃ rank, ∃ box : Bounds α, writeNode graph.ranking (graph.ownPlacement settings) node =
      { node with rank := some rank, size := box.size, position := some box.corner } := by
  obtain ⟨rank, ranked⟩ := Option.isSome_iff_exists.mp (graph.isSome_rank? member)
  obtain ⟨box, placed⟩ := graph.exists_box graph.ranking
    (graph.layering graph.ranking settings.orderingSweeps) settings member
  refine ⟨rank, box, ?_⟩
  unfold writeNode ownPlacement
  simp only [ranked, placed]

theorem sameContent_layout (graph : Graph α) (settings : Settings α) :
    graph.SameContent (graph.layout settings).1 := by
  constructor
  case title => rfl
  case nodes =>
    refine List.forall₂_map_right_iff.mpr (List.forall₂_map_right_iff.mpr (List.forall₂_same.mpr ?_))
    intro node member
    have cleared : node.clear ∈ graph.clearLayout.nodes := List.mem_map_of_mem member
    obtain ⟨rank, box, written⟩ := writeNode_eq settings cleared
    rw [written]
    exact ⟨rfl, rfl, rfl, rfl, rfl⟩
  case edges =>
    have aligned : List.Forall₂ Edge.SameContent (graph.edges.zipIdx.map Prod.fst)
        (graph.layout settings).1.edges := by
      simp only [layout, writeLayout, clearLayout, List.zipIdx_map, List.map_map]
      refine List.forall₂_map_left_iff.mpr (List.forall₂_map_right_iff.mpr (List.forall₂_same.mpr ?_))
      exact fun entry _ => ⟨rfl, rfl, rfl, rfl, rfl⟩
    rwa [List.zipIdx_map_fst] at aligned

theorem diagnostics_layout (graph : Graph α) (settings : Settings α) :
    (graph.layout settings).2 =
      ((graph.layout settings).1.edges.filter (·.isBackEdge)).map cycleDiagnostic := by
  have flagged := graph.clearLayout.filterMap_backEdges
  simp only [layout, writeLayout, List.filter_map, List.map_map]
  calc
    graph.clearLayout.ranking.diagnostics
      = (graph.clearLayout.backEdges.filterMap (graph.clearLayout.edges[·]?)).map cycleDiagnostic := by
        rw [List.map_filterMap]
        rfl
    _ = _ := by
        rw [flagged, List.map_map]
        rfl

/-- A layout writes ranks, positions, sizes and flags only, gives every node a rank and a position, and
depends on nothing that it writes: graphs of the same content are laid out to the same graph with the
same findings, and so is a graph that was laid out before, with whatever settings. There is one finding
for each flagged edge, in the order of the edges. -/
theorem layout_content (graph : Graph α) (settings : Settings α) :
    graph.SameContent (graph.layout settings).1 ∧
    (∀ node ∈ (graph.layout settings).1.nodes,
      node.rank.isSome = true ∧ node.position.isSome = true) ∧
    (∀ other, graph.SameContent other → other.layout settings = graph.layout settings) ∧
    (∀ between, (graph.layout between).1.layout settings = graph.layout settings) ∧
    (graph.layout settings).2 = ((graph.layout settings).1.edges.filter (·.isBackEdge)).map
      (fun edge => .brokenCycle edge.source edge.target edge.span) ∧
    ∀ diagnostic ∈ (graph.layout settings).2, diagnostic.code = some .brokenCycle := by
  have depends : ∀ other, graph.SameContent other →
      other.layout settings = graph.layout settings := by
    intro other same
    rw [layout, same.clearLayout_eq]
    rfl
  refine ⟨graph.sameContent_layout settings, ?_, depends, ?_, graph.diagnostics_layout settings, ?_⟩
  · intro node found
    obtain ⟨cleared, member, rfl⟩ := List.mem_map.mp found
    obtain ⟨rank, box, written⟩ := writeNode_eq settings member
    rw [written]
    exact ⟨rfl, rfl⟩
  · exact fun between => depends _ (graph.sameContent_layout between)
  · rw [diagnostics_layout]
    intro diagnostic found
    obtain ⟨edge, -, rfl⟩ := List.mem_map.mp found
    rfl

/-- Two boxes with an edge there and back, and what an earlier layout may have left in them. -/
def roundTrip (rank : Option Nat) (position : Option (Point Float32)) (size : Size Float32)
    (isBackEdge : Bool) : Graph Float32 where
  nodes := [node ⟨none, "A"⟩, node ⟨none, "B"⟩]
  edges := [edge "A" "B", edge "B" "A"]
where
  node (id : NodeId) : Node Float32 :=
    { id, kind := .leaf, parent := none, properties := {}, span := .zero, rank, position, size }
  edge (source target : String) : Edge :=
    { source, target, kind := .directed, label := none, span := .zero, isBackEdge }

theorem roundTrip_content :
    (roundTrip none none ⟨200, 120⟩ false).SameContent
      (roundTrip (some 7) (some ⟨3, 4⟩) ⟨0, 1⟩ true) ∧
    (roundTrip (some 7) (some ⟨3, 4⟩) ⟨0, 1⟩ true).layout .default =
      (roundTrip none none ⟨200, 120⟩ false).layout .default :=
  have node : ∀ id, Node.SameContent (roundTrip.node none none ⟨200, 120⟩ id)
      (roundTrip.node (some 7) (some ⟨3, 4⟩) ⟨0, 1⟩ id) := fun _ => ⟨rfl, rfl, rfl, rfl, rfl⟩
  have edge : ∀ source target, Edge.SameContent (roundTrip.edge false source target)
      (roundTrip.edge true source target) := fun _ _ => ⟨rfl, rfl, rfl, rfl, rfl⟩
  have same : (roundTrip none none ⟨200, 120⟩ false).SameContent
      (roundTrip (some 7) (some ⟨3, 4⟩) ⟨0, 1⟩ true) :=
    ⟨rfl, .cons (node _) (.cons (node _) .nil), .cons (edge _ _) (.cons (edge _ _) .nil)⟩
  ⟨same, (layout_content _ .default).2.2.1 _ same⟩

end Graph

end BoxDiagram
