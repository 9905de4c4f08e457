import BoxDiagram.Proofs.BackEdges
import BoxDiagram.Proofs.LeastRanks
import BoxDiagram.Proofs.NumberedSorting
import BoxDiagram.Proofs.Scopes

/-!
Sweeps over numbered layers. Before a layer is sorted the table of positions is made anew. Layers that
hold every member once and links that run between neighbouring layers are all that the look-ups need, and
both stay that way when the order within a layer changes. So every sweep succeeds, and ends with the
numbers of the layers that it ends with by name.
-/

namespace BoxDiagram.Numbered

open Layers

def ends? (positions : List Nat) (link : Nat × Nat) : Option (Nat × Nat) := do
  let upper ← positions[link.1]?
  let lower ← positions[link.2]?
  some (upper, lower)

def crossings? (gaps : List (List (Nat × Nat))) (positions : List Nat) : Option Nat := do
  let crossings ← gaps.mapM fun gap => do
    let ends ← gap.mapM (ends? positions)
    some (crossingPairs ends)
  some (crossings.foldr (· + ·) 0)

def counted? (count : Nat) (grid : Grid) : Option Nat := do
  let positions ← positions? count grid.layers
  crossings? grid.gaps positions

def resort? (count layer gap : Nat) (grid : Grid) : Option Grid := do
  let positions ← positions? count grid.layers
  sortLayer? grid layer gap positions

def sweepDown? (count : Nat) (grid : Grid) : Option Grid :=
  (List.range (grid.layers.length - 1)).foldlM (fun grid gap => resort? count (gap + 1) gap grid) grid

def sweepUp? (count : Nat) (grid : Grid) : Option Grid :=
  (List.range (grid.layers.length - 1)).reverse.foldlM (fun grid gap => resort? count gap gap grid) grid

def sweep? (count : Nat) (isDown : Bool) (grid : Grid) : Option Grid :=
  if isDown then sweepDown? count grid else sweepUp? count grid

/-- Sweeps in turn, and keeps the layers with the fewest crossings seen. -/
def improve? (count : Nat) : Nat → Bool → Grid → List (List Nat) × Nat → Option (List (List Nat) × Nat)
  | 0, _, _, best => some best
  | sweeps + 1, isDown, grid, best =>
    if best.2 = 0 then some best
    else do
      let next ← sweep? count isDown grid
      let crossings ← counted? count next
      improve? count sweeps (!isDown) next
        (if crossings < best.2 then (next.layers, crossings) else best)

def layers? (rankOf : String → Nat) (members : List String) (edges : List (String × String))
    (sweeps : Nat) : Option Layers := do
  let grid ← grid? rankOf members edges
  let crossings ← counted? members.length grid
  let (layers, crossings) ← improve? members.length sweeps true grid (grid.layers, crossings)
  let layers ← layers.mapM fun layer => layer.mapM fun number => members[number]?
  some ⟨layers, crossings⟩

def numbered (members : List String) (layers : Layers) : List (List Nat) × Nat :=
  (layers.layers.map (·.map members.idxOf), layers.crossings)

inductive Aligned : List (List String) → List (List (String × String)) → Prop
  | nil : Aligned [] []
  | single (layer : List String) : Aligned [layer] []
  | cons {upper lower : List String} {rest : List (List String)} {gap : List (String × String)}
      {gaps : List (List (String × String))}
      (between : ∀ link ∈ gap, link.1 ∈ upper ∧ link.2 ∈ lower)
      (onward : Aligned (lower :: rest) gaps) : Aligned (upper :: lower :: rest) (gap :: gaps)

variable {members : List String} {layers : List (List String)} {gaps : List (List (String × String))}

section Sweeps

structure Spread (members : List String) (layers : List (List String)) : Prop where
  nodup : layers.flatten.Nodup
  known : ∀ layer ∈ layers, layer ⊆ members

theorem Spread.rearrange (spread : Spread members layers) {next : List (List String)}
    (same : Rearranged layers next) : Spread members next where
  nodup := (List.Perm.flatten_congr same).nodup_iff.mp spread.nodup
  known := by
    intro layer listed
    obtain ⟨old, before, perm⟩ := same.exists_before layer listed
    exact fun member inside => spread.known old before (perm.mem_iff.mpr inside)

theorem Aligned.length (aligned : Aligned layers gaps) : gaps.length = layers.length - 1 := by
  induction aligned with
  | nil => rfl
  | single => rfl
  | cons _ _ ih => simpa using ih

theorem aligned_gaps (edges : List (String × String)) (layers : List (List String)) :
    Aligned layers (Layers.gaps edges layers) := by
  fun_induction Layers.gaps edges layers with
  | case1 upper lower rest ih =>
    refine .cons ?_ ih
    intro link listed
    obtain ⟨edge, -, made⟩ := List.mem_filterMap.mp listed
    grind
  | case2 layers short =>
    rcases layers with _ | ⟨upper, _ | ⟨lower, rest⟩⟩
    · exact .nil
    · exact .single upper
    · exact absurd rfl (short upper lower rest)

theorem Aligned.rearrange (aligned : Aligned layers gaps) {next : List (List String)}
    (same : Rearranged layers next) : Aligned next gaps := by
  induction aligned generalizing next with
  | nil =>
    cases same
    exact .nil
  | single =>
    obtain ⟨layer, rest, _, last, rfl⟩ := List.forall₂_cons_left_iff.mp same
    cases last
    exact .single layer
  | cons between _ ih =>
    obtain ⟨upper, rest, first, onward, rfl⟩ := List.forall₂_cons_left_iff.mp same
    obtain ⟨lower, rest, second, _, rfl⟩ := List.forall₂_cons_left_iff.mp onward
    refine .cons (fun link listed => ?_) (ih onward)
    exact (between link listed).imp first.mem_iff.mp second.mem_iff.mp

theorem Aligned.concat {layers : List (List String)} {upper lower : List String}
    {gap : List (String × String)} (aligned : Aligned (layers ++ [upper]) gaps)
    (between : ∀ link ∈ gap, link.1 ∈ upper ∧ link.2 ∈ lower) :
    Aligned (layers ++ [upper, lower]) (gaps ++ [gap]) := by
  induction layers generalizing gaps with
  | nil =>
    cases aligned
    exact .cons between (.single lower)
  | cons first layers ih =>
    cases layers with
    | nil =>
      cases aligned with
      | cons above rest => exact .cons above (ih rest)
    | cons second layers =>
      cases aligned with
      | cons above rest => exact .cons above (ih rest)

theorem Aligned.reverse (aligned : Aligned layers gaps) :
    Aligned layers.reverse (gaps.reverse.map (·.map Prod.swap)) := by
  induction aligned with
  | nil => exact .nil
  | single layer => exact .single layer
  | @cons upper lower rest gap gaps between _ ih =>
    rw [List.reverse_cons, List.reverse_cons, List.append_assoc, List.reverse_cons, List.map_append]
    rw [List.reverse_cons] at ih
    apply ih.concat
    intro link listed
    obtain ⟨other, known, rfl⟩ := List.mem_map.mp listed
    exact (between other known).symm

theorem resort?_eq (nodup : members.Nodup) (spread : Spread members layers) (place gapPlace : Nat)
    {passed layer : List String} {gap : List (String × String)} (layerAt : layers[place]? = some layer)
    (passedListed : passed ∈ layers) (gapAt : gaps[gapPlace]? = some gap)
    (within : ∀ link ∈ toward (gapPlace == place) gap, link.1 ∈ passed ∧ link.2 ∈ layer) :
    resort? members.length place gapPlace (.of members layers gaps) =
      some (.of members (layers.set place (reorder passed (toward (gapPlace == place) gap) layer))
        gaps) := by
  have layerListed : layer ∈ layers := List.mem_of_getElem? layerAt
  have positions : positions? members.length (Grid.of members layers gaps).layers =
      some (members.map (position layers)) := positions?_eq nodup spread.known
  rw [resort?, positions]
  exact sortLayer?_eq layerAt gapAt within (spread.known passed passedListed)
    (spread.known layer layerListed) (fun _ => position_of_mem spread.nodup passedListed)
    fun _ => position_of_mem spread.nodup layerListed

theorem sweepDown?_behind (nodup : members.Nodup) (front : List (List String))
    (frontGaps : List (List (String × String))) (level : frontGaps.length = front.length)
    (spread : Spread members (front ++ layers)) (aligned : Aligned layers gaps) :
    (List.range' front.length gaps.length).foldlM
        (fun grid gap => resort? members.length (gap + 1) gap grid)
        (.of members (front ++ layers) (frontGaps ++ gaps)) =
      some (.of members (front ++ sweepDown layers gaps) (frontGaps ++ gaps)) := by
  -- `front` holds the layers that are done, so the places of the others are counted from its length.
  fun_induction sweepDown layers gaps generalizing front frontGaps with
  | case1 passed layer rest gap gaps ih =>
    cases aligned with
    | cons between onward =>
      have behind : (gap :: gaps).length = gaps.length + 1 := rfl
      have apart : (front.length == front.length + 1) = false := by simp
      have layerAt : (front ++ passed :: layer :: rest)[front.length + 1]? = some layer := by simp
      have gapAt : (frontGaps ++ gap :: gaps)[front.length]? = some gap := by simp [← level]
      have within : ∀ link ∈ toward (front.length == front.length + 1) gap,
          link.1 ∈ passed ∧ link.2 ∈ layer := by
        rw [apart]
        exact between
      have step := resort?_eq nodup spread (front.length + 1) front.length layerAt (by simp) gapAt within
      rw [apart] at step
      have changed : (front ++ passed :: layer :: rest).set (front.length + 1)
          (reorder passed (toward false gap) layer) =
          (front ++ [passed]) ++ reorder passed gap layer :: rest := by
        simp [toward]
      have same : Rearranged (layer :: rest) (reorder passed gap layer :: rest) :=
        .cons (reorder_perm passed gap layer).symm (Rearranged.refl rest)
      rw [behind, List.range'_succ, List.foldlM_cons, step, changed]
      have rejoined : frontGaps ++ gap :: gaps = (frontGaps ++ [gap]) ++ gaps := by simp
      have next := ih (front ++ [passed]) (frontGaps ++ [gap]) (by simp [level])
        (by
          rw [List.append_assoc]
          exact spread.rearrange (List.rel_append (Rearranged.refl front)
            (.cons (List.Perm.refl passed) same)))
        (onward.rearrange same)
      rw [rejoined]
      simpa using next
  | case2 layers gaps short =>
    cases aligned with
    | nil => rfl
    | single => rfl
    | cons => exact absurd rfl (short _ _ _ _ _ rfl)

/-- Of the layers told from the last one on, those before the last are sorted. -/
theorem sweepUp?_before (nodup : members.Nodup) (back : List (List String))
    (backGaps : List (List (String × String))) (spread : Spread members (layers.reverse ++ back))
    (aligned : Aligned layers gaps) :
    (List.range gaps.length).reverse.foldlM
        (fun grid gap => resort? members.length gap gap grid)
        (.of members (layers.reverse ++ back) (gaps.reverse.map (·.map Prod.swap) ++ backGaps)) =
      some (.of members ((sweepDown layers gaps).reverse ++ back)
        (gaps.reverse.map (·.map Prod.swap) ++ backGaps)) := by
  fun_induction sweepDown layers gaps generalizing back backGaps with
  | case1 passed layer rest gap gaps ih =>
    cases aligned with
    | cons between onward =>
      have length : rest.length = gaps.length := by simpa using onward.length.symm
      have told : (passed :: layer :: rest).reverse ++ back =
          rest.reverse ++ layer :: passed :: back := by simp
      have toldGaps : (gap :: gaps).reverse.map (·.map Prod.swap) ++ backGaps =
          gaps.reverse.map (·.map Prod.swap) ++ gap.map Prod.swap :: backGaps := by simp
      rw [told] at spread
      have layerAt : (rest.reverse ++ layer :: passed :: back)[gaps.length]? = some layer := by
        simp [← length]
      have gapAt : (gaps.reverse.map (·.map Prod.swap) ++ gap.map Prod.swap :: backGaps)[gaps.length]? =
          some (gap.map Prod.swap) := by simp
      have turned : toward (gaps.length == gaps.length) (gap.map Prod.swap) = gap := by
        simp [toward]
      have passedListed : passed ∈ rest.reverse ++ layer :: passed :: back := by simp
      have step := resort?_eq nodup spread gaps.length gaps.length layerAt passedListed gapAt
        (by rw [turned]; exact between)
      rw [turned] at step
      have changed : (rest.reverse ++ layer :: passed :: back).set gaps.length
          (reorder passed gap layer) =
          (reorder passed gap layer :: rest).reverse ++ passed :: back := by
        simp [← length]
      have same : Rearranged (layer :: rest) (reorder passed gap layer :: rest) :=
        .cons (reorder_perm passed gap layer).symm (Rearranged.refl rest)
      have kept : Spread members ((reorder passed gap layer :: rest).reverse ++ passed :: back) := by
        apply spread.rearrange
        have joined := List.rel_append same.reverse (Rearranged.refl (passed :: back))
        simpa [Rearranged] using joined
      have next := ih (passed :: back) (gap.map Prod.swap :: backGaps) kept (onward.rearrange same)
      rw [told, toldGaps, List.length_cons, List.range_succ, List.reverse_append, List.reverse_singleton,
        List.singleton_append, List.foldlM_cons, step, changed]
      simpa using next
  | case2 layers gaps short =>
    cases aligned with
    | nil => rfl
    | single => rfl
    | cons => exact absurd rfl (short _ _ _ _ _ rfl)

variable (nodup : members.Nodup) (spread : Spread members layers) (aligned : Aligned layers gaps)
include nodup spread aligned

theorem sweepDown?_eq :
    sweepDown? members.length (.of members layers gaps) =
      some (.of members (sweepDown layers gaps) gaps) := by
  have count : (Grid.of members layers gaps).layers.length - 1 = gaps.length := by
    simp [Grid.of, aligned.length]
  rw [sweepDown?, count, List.range_eq_range']
  exact sweepDown?_behind nodup [] [] rfl spread aligned

theorem sweepUp?_eq :
    sweepUp? members.length (.of members layers gaps) = some (.of members (sweepUp layers gaps) gaps) := by
  have count : (Grid.of members layers gaps).layers.length - 1 = gaps.length := by
    simp [Grid.of, aligned.length]
  have swept := sweepUp?_before nodup [] [] (by simpa using spread) aligned.reverse
  rw [sweepUp?, count]
  simpa [sweepUp, Function.comp_def] using swept

omit nodup spread in
theorem sum_crossings {value : String → Nat}
    (valued : ∀ layer ∈ layers, ∀ member ∈ layer, value member = layer.idxOf member) :
    (gaps.map fun gap =>
        crossingPairs (gap.map fun link => (value link.1, value link.2))).foldr (· + ·) 0 =
      countCrossings layers gaps := by
  induction aligned with
  | nil => rfl
  | single => rfl
  | @cons upper lower rest gap gaps between _ ih =>
    obtain ⟨above, others⟩ := List.forall_mem_cons.mp valued
    obtain ⟨below, -⟩ := List.forall_mem_cons.mp others
    have ends : (gap.map fun link => (value link.1, value link.2)) =
        gap.map fun link => (upper.idxOf link.1, lower.idxOf link.2) := by
      apply List.map_congr_left
      intro link listed
      rw [above _ (between link listed).1, below _ (between link listed).2]
    rw [List.map_cons, List.foldr_cons, ih others, ends, countCrossings, gapCrossings]

omit nodup in
theorem Aligned.known {gap : List (String × String)} (listed : gap ∈ gaps) :
    ∀ link ∈ gap, link.1 ∈ members ∧ link.2 ∈ members := by
  have known := spread.known
  clear spread
  induction aligned with
  | nil => cases listed
  | single => cases listed
  | cons between _ ih =>
    obtain ⟨above, others⟩ := List.forall_mem_cons.mp known
    obtain ⟨below, -⟩ := List.forall_mem_cons.mp others
    rcases List.mem_cons.mp listed with rfl | later
    · exact fun link inside => (between link inside).imp (fun upper => above upper) fun lower => below lower
    · exact ih later others

omit nodup in
theorem crossings?_eq :
    crossings? (Grid.of members layers gaps).gaps (members.map (position layers)) =
      some (countCrossings layers gaps) := by
  have each : ∀ gap ∈ gaps, ((links members gap).mapM (ends? (members.map (position layers)))).bind
      (fun ends => some (crossingPairs ends)) =
        some (crossingPairs (gap.map fun link => (position layers link.1, position layers link.2))) := by
    intro gap listed
    rw [links, List.mapM_map, mapM_eq_map, Option.bind_some]
    intro link inside
    obtain ⟨upper, lower⟩ := aligned.known spread listed link inside
    simp [ends?, table_lookup upper, table_lookup lower]
  have counted := mapM_eq_map each
  rw [← sum_crossings aligned fun layer listed member => position_of_mem spread.nodup listed]
  unfold crossings?
  simp only [Grid.of, List.mapM_map]
  exact congrArg (Option.bind · fun crossings => some (crossings.foldr (· + ·) 0)) counted

theorem counted?_eq :
    counted? members.length (.of members layers gaps) = some (countCrossings layers gaps) := by
  have positions : positions? members.length (Grid.of members layers gaps).layers =
      some (members.map (position layers)) := positions?_eq nodup spread.known
  rw [counted?, positions, Option.bind_eq_bind, Option.bind_some, crossings?_eq spread aligned]

theorem sweep?_eq (isDown : Bool) :
    sweep? members.length isDown (.of members layers gaps) =
      some (.of members (if isDown then sweepDown layers gaps else sweepUp layers gaps) gaps) := by
  cases isDown with
  | false => exact sweepUp?_eq nodup spread aligned
  | true => exact sweepDown?_eq nodup spread aligned

omit nodup spread aligned in
theorem rearranged_sweep (isDown : Bool) (layers : List (List String)) :
    Rearranged layers (if isDown then sweepDown layers gaps else sweepUp layers gaps) := by
  cases isDown with
  | false => exact rearranged_sweepUp layers gaps
  | true => exact rearranged_sweepDown layers gaps

omit spread aligned in
theorem improve?_eq (sweeps : Nat) (isDown : Bool) {current : List (List String)}
    (spread : Spread members current) (aligned : Aligned current gaps) (best : Layers) :
    improve? members.length sweeps isDown (.of members current gaps) (numbered members best) =
      some (numbered members (improve gaps sweeps isDown current best)) := by
  induction sweeps generalizing isDown current best with
  | zero => rfl
  | succ sweeps ih =>
    unfold improve? improve
    have crossings : (numbered members best).2 = best.crossings := rfl
    rw [crossings]
    split
    next => rfl
    next =>
      rw [sweep?_eq nodup spread aligned]
      have same := @rearranged_sweep gaps isDown current
      generalize (if isDown then sweepDown current gaps else sweepUp current gaps) = next at same ⊢
      have nextSpread := spread.rearrange same
      have nextAligned := aligned.rearrange same
      simp only [Option.bind_eq_bind, Option.bind_some, counted?_eq nodup nextSpread nextAligned]
      rw [← ih (!isDown) nextSpread nextAligned, apply_ite (numbered members)]
      rfl

end Sweeps

theorem names_of_numbers {layers : List (List String)} (known : ∀ layer ∈ layers, layer ⊆ members) :
    (layers.map (·.map members.idxOf)).mapM (fun layer => layer.mapM fun number => members[number]?) =
      some layers := by
  rw [List.mapM_map]
  have each : ∀ layer ∈ layers,
      ((fun layer => layer.mapM fun number => members[number]?) ∘ (·.map members.idxOf)) layer =
        some layer := by
    intro layer listed
    have named := mapM_eq_map fun member inside => List.getElem?_idxOf (known layer listed inside)
    rw [Function.comp_apply, List.mapM_map]
    exact named.trans (congrArg some (List.map_id' layer))
  rw [mapM_eq_map each, List.map_id']

/-- The layers of a scope are found in place, and no look-up fails. -/
theorem layers?_eq (nodup : members.Nodup) (rankOf : String → Nat) (edges : List (String × String))
    (sweeps : Nat) : layers? rankOf members edges sweeps = some (ofMembers rankOf members edges sweeps) := by
  have parted := rankLayers_byRank rankOf members
  have spread : Spread members (byRank rankOf members) := by
    refine ⟨parted.perm.nodup_iff.mpr nodup, ?_⟩
    intro layer listed member inside
    exact parted.perm.mem_iff.mp (List.mem_flatten.mpr ⟨layer, listed, inside⟩)
  have aligned := aligned_gaps edges (byRank rankOf members)
  have improved := improve?_eq nodup sweeps true spread aligned
    ⟨byRank rankOf members, countCrossings (byRank rankOf members)
      (gaps edges (byRank rankOf members))⟩
  have known : ∀ layer ∈ (ofMembers rankOf members edges sweeps).layers, layer ⊆ members := by
    intro layer listed member inside
    exact (rankLayers_ofMembers rankOf members edges sweeps).perm.mem_iff.mp
      (List.mem_flatten.mpr ⟨layer, listed, inside⟩)
  unfold layers?
  simp only [grid?_eq nodup, counted?_eq nodup spread aligned, Option.bind_eq_bind, Option.bind_some]
  refine (congrArg (Option.bind · _) improved).trans ?_
  rw [Option.bind_some]
  exact congrArg (Option.bind · _) (names_of_numbers known)

end BoxDiagram.Numbered

namespace BoxDiagram.Graph

variable {α : Type} {graph : Graph α}

def addLayers? (graph : Graph α) (ranking : Ranking) (sweeps : Nat) (layering : Layering)
    (scope : Scope) : Option Layering := do
  let layers ← Numbered.layers? ranking.rankOf scope.members (graph.liftedEdges scope.container) sweeps
  some <| match scope.container with
    | some container => { layering with containers := layering.containers ++ [(container, layers)] }
    | none => { layering with root := layers }

/-- The layers of all scopes as found in place, unless a look-up fails. -/
def layering? (graph : Graph α) (ranking : Ranking) (sweeps : Nat) : Option Layering :=
  graph.scopes.foldlM (graph.addLayers? ranking sweeps) {}

theorem members_sublist {scope : Scope} (listed : scope ∈ graph.scopes) :
    scope.members.Sublist (graph.nodes.map Node.path) := by
  rw [← scope_container listed]
  exact List.filter_sublist.map Node.path

theorem WellFormed.layering?_eq (wellFormed : graph.WellFormed) (ranking : Ranking) (sweeps : Nat) :
    graph.layering? ranking sweeps = some (graph.layering ranking sweeps) := by
  apply Numbered.foldlM_image id (fun _ => True) _ trivial
  intro layering _ scope listed
  have nodup : scope.members.Nodup := scope_container listed ▸ wellFormed.nodup_scope scope.container
  rw [addLayers?, Numbered.layers?_eq nodup]
  exact ⟨rfl, trivial⟩

/-- No look-up fails on the way to the layers of the scopes, whatever the ranking and however many the
sweeps. The layers of a scope hold each member once and nothing else, are not empty and go up by rank;
without sweeps each is in the order of declaration. -/
theorem WellFormed.layers_inPlace (wellFormed : graph.WellFormed) (ranking : Ranking) (sweeps : Nat) :
    graph.layering? ranking sweeps = some (graph.layering ranking sweeps) ∧
      ∀ scope ∈ graph.scopes, ∀ layers,
        layers = ((graph.layering ranking sweeps).layersOf scope.container).layers →
        (∀ layer ∈ layers, layer ≠ []) ∧
        layers.flatten.Nodup ∧ (∀ path, path ∈ layers.flatten ↔ path ∈ scope.members) ∧
        (∀ layer ∈ layers, ∃ rank, ∀ member ∈ layer, (ranking.rank? member).getD 0 = rank) ∧
        layers.Pairwise (fun upper lower => ∀ first ∈ upper, ∀ second ∈ lower,
          (ranking.rank? first).getD 0 < (ranking.rank? second).getD 0) ∧
        (sweeps = 0 → ∀ layer ∈ layers, layer.Sublist (graph.nodes.map Node.path)) := by
  refine ⟨wellFormed.layering?_eq ranking sweeps, ?_⟩
  rintro scope listed layers rfl
  have nodup : scope.members.Nodup := scope_container listed ▸ wellFormed.nodup_scope scope.container
  have parted : RankLayers ranking.rankOf scope.members
      ((graph.layering ranking sweeps).layersOf scope.container).layers := by
    rw [layersOf_layering listed]
    exact Layers.rankLayers_ofMembers ranking.rankOf scope.members _ sweeps
  refine ⟨parted.inhabited, parted.perm.nodup_iff.mpr nodup, fun path => parted.perm.mem_iff, ?_,
    parted.increasing, ?_⟩
  · intro layer found
    obtain ⟨first, firstFound⟩ := List.exists_mem_of_ne_nil layer (parted.inhabited layer found)
    exact ⟨ranking.rankOf first, fun member known => parted.level layer found member known first firstFound⟩
  · rintro rfl layer found
    rw [layersOf_unswept listed, Layers.byRank_eq] at found
    obtain ⟨⟨rank, layer⟩, group, rfl⟩ := List.mem_map.mp found
    obtain ⟨-, rfl, -⟩ := Layers.mem_groups_iff.mp group
    exact List.filter_sublist.trans (members_sublist listed)

/-- The outermost layers under the ranking of a graph that has no `Middle`. -/
theorem bypass_layers :
    bypass.WellFormed ∧ bypass.scope none ∈ bypass.scopes ∧
      bypass.layering? ring.ranking 24 = some (bypass.layering ring.ranking 24) ∧
      ((bypass.layering ring.ranking 24).layersOf none).layers = [["Box", "Middle"], ["End"]] ∧
      (∃ rank, ∀ member ∈ ["Box", "Middle"], (ring.ranking.rank? member).getD 0 = rank) ∧
      ∀ first ∈ ["Box", "Middle"], ∀ second ∈ ["End"],
        (ring.ranking.rank? first).getD 0 < (ring.ranking.rank? second).getD 0 := by
  have listed : bypass.scope none ∈ bypass.scopes := by decide +kernel
  have shown : ((bypass.layering ring.ranking 24).layersOf none).layers =
      [["Box", "Middle"], ["End"]] := by decide +kernel
  obtain ⟨found, scopes⟩ := bypass_wellFormed.layers_inPlace ring.ranking 24
  obtain ⟨-, -, -, level, increasing, -⟩ := scopes _ listed _ shown.symm
  have upper := level ["Box", "Middle"] List.mem_cons_self
  have lower := (List.pairwise_cons.mp increasing).1 ["End"] List.mem_cons_self
  exact ⟨bypass_wellFormed, listed, found, shown, upper, lower⟩

end BoxDiagram.Graph
