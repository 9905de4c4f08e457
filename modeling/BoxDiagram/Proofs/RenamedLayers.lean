import BoxDiagram.Proofs.RenamedRanks
import BoxDiagram.Proofs.Scopes

/-!
Layers under other names. A layer is sorted by where the neighbours of its members stand, never by the
names of the members, so the sweeps move renamed members as they move the members.
-/

namespace BoxDiagram

variable {α : Type} {rename : String → String}

namespace Layers

def renamed (rename : String → String) (layers : Layers) : Layers :=
  ⟨layers.layers.map (List.map rename), layers.crossings⟩

@[simp] theorem crossings_renamed (layers : Layers) :
    (layers.renamed rename).crossings = layers.crossings := rfl

theorem byRank_renamed {rankOf other : String → Nat}
    (same : ∀ member, other (rename member) = rankOf member) (members : List String) :
    byRank other (members.map rename) = (byRank rankOf members).map (List.map rename) := by
  have ranks : other ∘ rename = rankOf := funext same
  have layer (rank : Nat) : (members.map rename).filter (other · = rank) =
      (members.filter (rankOf · = rank)).map rename := by
    rw [List.filter_map]
    congr 2
    funext member
    exact congrArg (fun found => decide (found = rank)) (same member)
  unfold byRank
  rw [List.map_map, ranks, List.map_filterMap]
  congr 1
  funext rank
  rw [layer]
  cases members.filter (rankOf · = rank) <;> rfl

variable (injective : rename.Injective)
include injective

theorem gap_renamed (edges : List (String × String)) (upper lower : List String) :
    gap (edges.map (Prod.map rename rename)) (upper.map rename) (lower.map rename) =
      (gap edges upper lower).map (Prod.map rename rename) := by
  unfold gap
  rw [List.filterMap_map, List.map_filterMap]
  congr 1
  funext ⟨source, target⟩
  simp only [Function.comp_apply, Prod.map, contains_rename injective]
  split
  · rfl
  · split <;> rfl

theorem gaps_renamed (edges : List (String × String)) (layers : List (List String)) :
    gaps (edges.map (Prod.map rename rename)) (layers.map (List.map rename)) =
      (gaps edges layers).map (List.map (Prod.map rename rename)) := by
  induction layers with
  | nil => rfl
  | cons upper rest ih =>
    cases rest with
    | nil => rfl
    | cons lower rest =>
      simp only [List.map_cons, gaps, gap_renamed injective] at ih ⊢
      rw [ih]

theorem gapCrossings_renamed (upper lower : List String) (gap : List (String × String)) :
    gapCrossings (upper.map rename) (lower.map rename) (gap.map (Prod.map rename rename)) =
      gapCrossings upper lower gap := by
  unfold gapCrossings
  rw [List.map_map]
  congr 2
  funext ⟨top, bottom⟩
  exact Prod.ext (idxOf_rename injective upper top) (idxOf_rename injective lower bottom)

theorem countCrossings_renamed (layers : List (List String)) (gaps : List (List (String × String))) :
    countCrossings (layers.map (List.map rename)) (gaps.map (List.map (Prod.map rename rename))) =
      countCrossings layers gaps := by
  induction layers generalizing gaps with
  | nil => rfl
  | cons upper rest ih =>
    cases rest with
    | nil => rfl
    | cons lower rest =>
      cases gaps with
      | nil => rfl
      | cons gap gaps =>
        have further := ih gaps
        simp only [List.map_cons, countCrossings, gapCrossings_renamed injective] at further ⊢
        rw [further]

theorem barycenter_renamed (passed : List String) (links : List (String × String))
    (layer : List String) (member : String) :
    barycenter (passed.map rename) (links.map (Prod.map rename rename)) (layer.map rename)
      (rename member) = barycenter passed links layer member := by
  have positions : ((links.map (Prod.map rename rename)).filter (·.2 = rename member)).map
      (fun link => (passed.map rename).idxOf link.1) =
        (links.filter (·.2 = member)).map fun link => passed.idxOf link.1 := by
    have kept : (fun link : String × String => decide (link.2 = rename member)) ∘
        Prod.map rename rename = fun link => decide (link.2 = member) := by
      funext link
      exact decide_eq_decide.mpr injective.eq_iff
    rw [List.filter_map, kept, List.map_map]
    exact List.map_congr_left fun link _ => idxOf_rename injective passed link.1
  unfold barycenter
  rw [positions, idxOf_rename injective]

theorem reorder_renamed (passed : List String) (links : List (String × String))
    (layer : List String) :
    reorder (passed.map rename) (links.map (Prod.map rename rename)) (layer.map rename) =
      (reorder passed links layer).map rename := by
  have keyed : (layer.map rename).map (fun member => (barycenter (passed.map rename)
      (links.map (Prod.map rename rename)) (layer.map rename) member, member)) =
        (layer.map fun member => (barycenter passed links layer member, member)).map
          (Prod.map id rename) := by
    rw [List.map_map, List.map_map]
    refine List.map_congr_left fun member _ => ?_
    exact congrArg (Prod.mk · (rename member)) (barycenter_renamed injective passed links layer member)
  -- only the barycenters are compared, and these are the same
  have sorted (entries : List (Float32 × String)) :
      (entries.map (Prod.map id rename)).mergeSort (fun left right => left.1 ≤ right.1) =
        (entries.mergeSort fun left right => left.1 ≤ right.1).map (Prod.map id rename) :=
    (List.map_mergeSort (s := fun left right : Float32 × String => left.1 ≤ right.1)
      (f := Prod.map id rename) fun _ _ _ _ => rfl).symm
  simp only [reorder, keyed, sorted]
  rw [List.map_map, List.map_map]
  rfl

theorem sweepDown_renamed (layers : List (List String)) (gaps : List (List (String × String))) :
    sweepDown (layers.map (List.map rename)) (gaps.map (List.map (Prod.map rename rename))) =
      (sweepDown layers gaps).map (List.map rename) := by
  induction gaps generalizing layers with
  | nil => rcases layers with _ | ⟨passed, _ | ⟨layer, rest⟩⟩ <;> rfl
  | cons links gaps ih =>
    rcases layers with _ | ⟨passed, _ | ⟨layer, rest⟩⟩
    · rfl
    · rfl
    · have further := ih (reorder passed links layer :: rest)
      simp only [List.map_cons, sweepDown, reorder_renamed injective] at further ⊢
      rw [further]

theorem sweepUp_renamed (layers : List (List String)) (gaps : List (List (String × String))) :
    sweepUp (layers.map (List.map rename)) (gaps.map (List.map (Prod.map rename rename))) =
      (sweepUp layers gaps).map (List.map rename) := by
  have swapped : (gaps.map (List.map (Prod.map rename rename))).reverse.map (·.map Prod.swap) =
      (gaps.reverse.map (·.map Prod.swap)).map (List.map (Prod.map rename rename)) := by
    rw [← List.map_reverse, List.map_map, List.map_map]
    refine List.map_congr_left fun gap _ => ?_
    simp only [Function.comp_apply, List.map_map]
    rfl
  have reversed : (layers.map (List.map rename)).reverse = layers.reverse.map (List.map rename) :=
    List.map_reverse.symm
  rw [sweepUp, sweepUp, swapped, reversed, sweepDown_renamed injective]
  exact List.map_reverse.symm

theorem improve_renamed (gaps : List (List (String × String))) (sweeps : Nat) (isDown : Bool)
    (current : List (List String)) (best : Layers) :
    improve (gaps.map (List.map (Prod.map rename rename))) sweeps isDown
      (current.map (List.map rename)) (best.renamed rename) =
        (improve gaps sweeps isDown current best).renamed rename := by
  induction sweeps generalizing isDown current best with
  | zero => rfl
  | succ sweeps ih =>
    have swept : (if isDown then
        sweepDown (current.map (List.map rename)) (gaps.map (List.map (Prod.map rename rename)))
          else sweepUp (current.map (List.map rename)) (gaps.map (List.map (Prod.map rename rename)))) =
        (if isDown then sweepDown current gaps else sweepUp current gaps).map (List.map rename) := by
      rw [sweepDown_renamed injective, sweepUp_renamed injective]
      split <;> rfl
    have kept (next : List (List String)) (crossings : Nat) :
        (if crossings < best.crossings then ⟨next.map (List.map rename), crossings⟩
          else best.renamed rename) =
        (if crossings < best.crossings then ⟨next, crossings⟩ else best : Layers).renamed rename := by
      split <;> rfl
    unfold improve
    simp only [swept, countCrossings_renamed injective, crossings_renamed, kept, ih]
    split <;> rfl

theorem ofMembers_renamed {rankOf other : String → Nat}
    (same : ∀ member, other (rename member) = rankOf member) (members : List String)
    (edges : List (String × String)) (sweeps : Nat) :
    ofMembers other (members.map rename) (edges.map (Prod.map rename rename)) sweeps =
      (ofMembers rankOf members edges sweeps).renamed rename := by
  unfold ofMembers
  simp only [byRank_renamed same, gaps_renamed injective, countCrossings_renamed injective]
  exact improve_renamed injective _ sweeps true _ ⟨_, _⟩

end Layers

def Layering.renamed (rename : String → String) (layering : Layering) : Layering :=
  ⟨layering.root.renamed rename, layering.containers.map (Prod.map rename (Layers.renamed rename))⟩

theorem Layering.layersOf_renamed (injective : rename.Injective) (layering : Layering)
    (container : Option String) :
    (layering.renamed rename).layersOf (container.map rename) =
      (layering.layersOf container).renamed rename := by
  cases container with
  | none => rfl
  | some container =>
    have found := lookup_rename injective (Layers.renamed rename) layering.containers container
    simp only [layersOf, renamed, Option.map_some] at found ⊢
    rw [found]
    cases layering.containers.lookup container <;> rfl

namespace Graph

variable [Scalar α] (injective : rename.Injective) (graph : Graph α)
include injective

theorem liftedEdges_renamed (container : Option String) :
    (graph.renamed rename).liftedEdges (container.map rename) =
      (graph.liftedEdges container).map (Prod.map rename rename) := by
  unfold liftedEdges
  rw [edges_renamed, List.filterMap_map, List.map_filterMap]
  congr 1
  funext edge
  have source := graph.lift_renamed injective container edge.source
  have target := graph.lift_renamed injective container edge.target
  simp only [Function.comp_apply, Edge.renamed, source, target]
  cases graph.lift container edge.source with
  | none => rfl
  | some first => cases graph.lift container edge.target <;> rfl

theorem scopeLayers_renamed (sweeps : Nat) (scope : Scope) :
    (graph.renamed rename).scopeLayers (graph.renamed rename).ranking sweeps (scope.renamed rename) =
      (graph.scopeLayers graph.ranking sweeps scope).renamed rename := by
  unfold scopeLayers
  rw [scope.container_renamed, graph.liftedEdges_renamed injective]
  exact Layers.ofMembers_renamed injective (graph.rankOf_renamed injective) _ _ sweeps

theorem layering_renamed (sweeps : Nat) :
    (graph.renamed rename).layering (graph.renamed rename).ranking sweeps =
      (graph.layering graph.ranking sweeps).renamed rename := by
  rw [layering_eq, layering_eq, graph.scopes_renamed injective, List.foldl_map]
  show graph.scopes.foldl _ (Layering.renamed rename {}) = _
  refine List.foldl_hom (Layering.renamed rename) fun layering scope => ?_
  have layers := graph.scopeLayers_renamed injective sweeps scope
  obtain ⟨container, members⟩ := scope
  unfold addLayers
  rw [layers]
  cases container with
  | none => rfl
  | some container =>
    simp only [Scope.renamed, Option.map_some, Layering.renamed, List.map_append, List.map_cons,
      List.map_nil, Prod.map]

end Graph

end BoxDiagram
