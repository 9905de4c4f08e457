import BoxDiagram.Proofs.CrossingPairs
import BoxDiagram.Proofs.DroppedEdges
import BoxDiagram.Proofs.ForwardBoxes
import BoxDiagram.Proofs.Lifting

/-!
Loops have no influence on a layout. An edge between a node and itself, or a node around it, has no
constraints; and in every scope it leads from one member to the same member or is not there at all, so it
runs between no two layers. Without it the ranks, the layers and hence the boxes are the same.
-/

namespace BoxDiagram

namespace Layers

def properEdges (edges : List (String × String)) : List (String × String) :=
  edges.filter fun edge => edge.1 ≠ edge.2

theorem gap_properEdges {upper lower : List String} (apart : upper.Disjoint lower)
    (edges : List (String × String)) : gap (properEdges edges) upper lower = gap edges upper lower := by
  rw [gap_eq, gap_eq, properEdges, List.filterMap_filter]
  apply List.filterMap_congr
  intro edge _
  by_cases loop : edge.1 = edge.2
  · have outside : link? upper lower edge = none := by
      rw [Option.eq_none_iff_forall_ne_some]
      intro link linked
      obtain ⟨turned, above, below⟩ := (link?_eq_some_iff apart).mp linked
      grind [List.Disjoint]
    simp [loop, outside]
  · simp [loop]

/-- Loops run between no two layers. -/
theorem gaps_properEdges {layers : List (List String)} (nodup : layers.flatten.Nodup)
    (edges : List (String × String)) : gaps (properEdges edges) layers = gaps edges layers := by
  induction layers with
  | nil => rfl
  | cons upper rest ih =>
    cases rest with
    | nil => rfl
    | cons lower rest =>
      obtain ⟨-, behindNodup, apart⟩ := List.nodup_append.mp nodup
      have disjoint : upper.Disjoint lower := fun path above below =>
        apart path above path (List.mem_append_left _ below) rfl
      rw [gaps, gaps, gap_properEdges disjoint, ih behindNodup]

theorem ofMembers_congr (rankOf : String → Nat) {members : List String} (nodup : members.Nodup)
    {edges others : List (String × String)} (same : properEdges edges = properEdges others)
    (sweeps : Nat) : ofMembers rankOf members edges sweeps = ofMembers rankOf members others sweeps := by
  have spread : (byRank rankOf members).flatten.Nodup :=
    (rankLayers_byRank rankOf members).perm.nodup_iff.mpr nodup
  have equal : gaps edges (byRank rankOf members) = gaps others (byRank rankOf members) := by
    rw [← gaps_properEdges spread edges, same, gaps_properEdges spread]
  simp only [ofMembers, equal]

end Layers

namespace Graph

variable {α : Type} {graph : Graph α} {dropped : List Nat}

theorem WellFormed.lift_of_lineage (wellFormed : graph.WellFormed) {inner outer : Node α}
    (member : inner ∈ graph.nodes) (around : outer ∈ graph.lineage inner.path)
    {container : Option String} {path : String} (lifted : graph.lift container outer.path = some path) :
    graph.lift container inner.path = some path := by
  obtain ⟨passed, further, inside, same⟩ := wellFormed.lift_eq_some_iff.mp lifted
  have passedAround := wellFormed.lineage_trans member around further
  exact wellFormed.lift_eq_some_iff.mpr ⟨passed, passedAround, inside, same⟩

/-- In every scope a loop leads from a member to itself, if it is there at all. -/
theorem WellFormed.lift_loop (wellFormed : graph.WellFormed) {edge : Edge} (member : edge ∈ graph.edges)
    (loop : graph.IsLoop edge) {container : Option String} {source target : String}
    (sourceLifted : graph.lift container edge.source = some source)
    (targetLifted : graph.lift container edge.target = some target) : source = target := by
  obtain ⟨sourceKnown, targetKnown⟩ := wellFormed.endpoints edge member
  obtain ⟨first, firstMember, leaves⟩ := contains_iff.mp sourceKnown
  obtain ⟨last, lastMember, leads⟩ := contains_iff.mp targetKnown
  rw [IsLoop, ← leaves, ← leads] at loop
  rw [← leaves] at sourceLifted
  rw [← leads] at targetLifted
  rcases loop with same | around | around
  · rw [same] at sourceLifted
    exact Option.some.inj (sourceLifted.symm.trans targetLifted)
  · have inside := (wellFormed.mem_lineage_iff firstMember lastMember).mpr (.inr around)
    have lifted := wellFormed.lift_of_lineage lastMember inside sourceLifted
    exact Option.some.inj (lifted.symm.trans targetLifted)
  · have inside := (wellFormed.mem_lineage_iff lastMember firstMember).mpr (.inr around)
    have lifted := wellFormed.lift_of_lineage firstMember inside targetLifted
    exact Option.some.inj (sourceLifted.symm.trans lifted)

section Without

variable (wellFormed : graph.WellFormed)
  (loops : ∀ index ∈ dropped, ∀ edge, graph.edges[index]? = some edge → graph.IsLoop edge)
include wellFormed loops

theorem WellFormed.properEdges_withoutEdges (container : Option String) :
    Layers.properEdges ((graph.withoutEdges dropped).liftedEdges container) =
      Layers.properEdges (graph.liftedEdges container) := by
  have lift : (graph.withoutEdges dropped).lift = graph.lift := rfl
  unfold Layers.properEdges liftedEdges
  rw [List.filter_filterMap, List.filter_filterMap, lift]
  apply filterMap_dropAt
  intro index chosen edge found
  have member := List.mem_of_getElem? found
  have loop := loops index chosen edge found
  cases source : graph.lift container edge.source with
  | none => rfl
  | some first =>
    cases target : graph.lift container edge.target with
    | none => rfl
    | some second =>
      have same := wellFormed.lift_loop member loop source target
      simp [same]

theorem WellFormed.rankOf_withoutEdges :
    (graph.withoutEdges dropped).ranking.rankOf = graph.ranking.rankOf := by
  funext path
  rw [Ranking.rankOf, Ranking.rankOf, Ranking.rank?, Ranking.rank?, wellFormed.ranks_withoutEdges loops]

theorem WellFormed.layering_withoutEdges (sweeps : Nat) :
    (graph.withoutEdges dropped).layering (graph.withoutEdges dropped).ranking sweeps =
      graph.layering graph.ranking sweeps := by
  have scopes : (graph.withoutEdges dropped).scopes = graph.scopes := rfl
  rw [layering_eq, layering_eq, scopes]
  apply List.foldl_ext
  intro layering scope listed
  have nodup : scope.members.Nodup := scope_container listed ▸ wellFormed.nodup_scope scope.container
  have layers : (graph.withoutEdges dropped).scopeLayers (graph.withoutEdges dropped).ranking sweeps scope =
      graph.scopeLayers graph.ranking sweeps scope := by
    rw [scopeLayers, scopeLayers, wellFormed.rankOf_withoutEdges loops]
    exact Layers.ofMembers_congr _ nodup (wellFormed.properEdges_withoutEdges loops scope.container) sweeps
  simp only [addLayers, layers]

variable [Scalar α]

theorem WellFormed.ownPlacement_withoutEdges (settings : Settings α) :
    (graph.withoutEdges dropped).ownPlacement settings = graph.ownPlacement settings := by
  have scopes : Placement.draftScope settings (graph.layering graph.ranking settings.orderingSweeps)
      (graph.withoutEdges dropped).ranking =
        Placement.draftScope settings (graph.layering graph.ranking settings.orderingSweeps)
          graph.ranking := by
    funext draft scope
    simp only [Placement.draftScope, Placement.layersOf, wellFormed.rankOf_withoutEdges loops]
  have drafted : Placement.draft (graph.withoutEdges dropped) (graph.withoutEdges dropped).ranking
      (graph.layering graph.ranking settings.orderingSweeps) settings =
        Placement.draft graph graph.ranking (graph.layering graph.ranking settings.orderingSweeps)
          settings := by
    rw [Placement.draft, Placement.draft, scopes]
    rfl
  simp only [ownPlacement, wellFormed.layering_withoutEdges loops, placement, drafted]
  rfl

theorem WellFormed.writeLayout_withoutEdges (settings : Settings α) :
    (graph.withoutEdges dropped).writeLayout (graph.withoutEdges dropped).ranking
        ((graph.withoutEdges dropped).ownPlacement settings) =
      (graph.writeLayout graph.ranking (graph.ownPlacement settings)).withoutEdges dropped := by
  have nodes : writeNode (graph.withoutEdges dropped).ranking (graph.ownPlacement settings) =
      writeNode graph.ranking (graph.ownPlacement settings) := by
    funext node
    simp only [writeNode, Ranking.rank?, wellFormed.ranks_withoutEdges loops]
  have edges : (dropAt dropped graph.edges).zipIdx.map (fun entry =>
      { entry.1 with isBackEdge := (graph.withoutEdges dropped).ranking.isBackEdge entry.2 }) =
        dropAt dropped (graph.edges.zipIdx.map fun entry =>
          { entry.1 with isBackEdge := graph.ranking.isBackEdge entry.2 }) := by
    rw [dropAt_zipIdx_map, ← zipIdx_dropAt, List.map_map]
    apply List.map_congr_left
    intro entry _
    simp only [wellFormed.isBackEdge_withoutEdges loops, Function.comp_apply, Prod.map, id]
  rw [wellFormed.ownPlacement_withoutEdges loops]
  simp only [writeLayout, nodes]
  exact congrArg (Graph.mk graph.title (graph.nodes.map _)) edges

omit wellFormed loops in
theorem isAncestor_clearLayout (graph : Graph α) (outer inner : String) :
    graph.clearLayout.isAncestor outer inner = graph.isAncestor outer inner := by
  have bare (graph : Graph α) : (graph.renamed id).isAncestor outer inner =
      graph.isAncestor outer inner := by
    have around := graph.ancestors_renamed Function.injective_id inner
    rw [id] at around
    rw [isAncestor, isAncestor, around, List.any_map]
    rfl
  have same : graph.clearLayout.renamed id = graph.renamed id := by
    simp only [clearLayout, renamed, List.map_map]
    rfl
  rw [← bare, same, bare]

/-- Edges between a node and itself or a node around it have no influence. Without any of them a layout
gives every node the same rank, position and size and every other edge the same flag, whatever the
settings; and every scope has the same layers with the same crossings, however many the sweeps. -/
theorem WellFormed.layout_withoutEdges :
    (∀ settings : Settings α, ((graph.withoutEdges dropped).layout settings).1 =
      (graph.layout settings).1.withoutEdges dropped) ∧
    (graph.withoutEdges dropped).ranking.ranks = graph.ranking.ranks ∧
    ∀ sweeps, (graph.withoutEdges dropped).layering (graph.withoutEdges dropped).ranking sweeps =
      graph.layering graph.ranking sweeps := by
  refine ⟨fun settings => ?_, wellFormed.ranks_withoutEdges loops, wellFormed.layering_withoutEdges loops⟩
  have cleared : (graph.withoutEdges dropped).clearLayout = graph.clearLayout.withoutEdges dropped := by
    simp only [Graph.clearLayout, withoutEdges, dropAt_map]
  have clearedLoops : ∀ index ∈ dropped, ∀ edge, graph.clearLayout.edges[index]? = some edge →
      graph.clearLayout.IsLoop edge := by
    intro index chosen edge found
    rw [Graph.clearLayout, List.getElem?_map, Option.map_eq_some_iff] at found
    obtain ⟨before, listed, rfl⟩ := found
    simpa only [IsLoop, isAncestor_clearLayout] using loops index chosen before listed
  rw [layout, layout, cleared]
  exact wellFormed.clearLayout.writeLayout_withoutEdges clearedLoops settings

end Without

/-- A diagram without the edges from a leaf to itself and from the box around it to the leaf. -/
theorem layout_without_loops :
    let graph := (parse "Box \x7b\nIn [x: 1]\n\x7d\nOut [x: 1]\nIn -> In\nBox -> In\nIn -> Out -> Box" :
      Parsed ℚ).graph
    graph.WellFormed ∧
      (∀ index ∈ [0, 1], ∀ edge, graph.edges[index]? = some edge → graph.IsLoop edge) ∧
      (graph.withoutEdges [0, 1]).edges.length = 2 ∧
      ((graph.withoutEdges [0, 1]).layout .default).1 = (graph.layout .default).1.withoutEdges [0, 1] ∧
      ((graph.layout .default).1.withoutEdges [0, 1]).edges.map Edge.isBackEdge = [false, true] := by
  intro graph
  have wellFormed : graph.WellFormed := (contained_parse _).wellFormed
  have loops : ∀ index ∈ [0, 1], ∀ edge ∈ graph.edges[index]?, graph.IsLoop edge := by decide +kernel
  obtain ⟨same, -⟩ := wellFormed.layout_withoutEdges loops
  exact ⟨wellFormed, loops, by decide +kernel, same .default, by decide +kernel⟩

end Graph

end BoxDiagram
