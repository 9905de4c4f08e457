import BoxDiagram.Proofs.CrossingPairs
import BoxDiagram.Proofs.ForwardEdges

/-!
The search for few crossings. The layers seen on the way do not depend on how many sweeps are allowed;
only how far they are looked through does. Of those looked through the first with the fewest crossings
are kept, so more sweeps never keep layers with more crossings, and keep others only when these have fewer.
-/

namespace BoxDiagram

namespace Layers

def swept (gaps : List (List (String × String))) (start : List (List String)) : Nat → List (List String)
  | 0 => start
  | made + 1 =>
    if made % 2 = 0 then sweepDown (swept gaps start made) gaps else sweepUp (swept gaps start made) gaps

/-- Of the sweeps allowed all are made, unless some layers without crossings come first. -/
structure SweepsMade (cost : Nat → Nat) (allowed made : Nat) : Prop where
  within : made ≤ allowed
  crossing : ∀ earlier < made, cost earlier ≠ 0
  settled : made = allowed ∨ cost made = 0

/-- The first of the places up to the last that has the least cost. -/
structure FirstLeast (cost : Nat → Nat) (last place : Nat) : Prop where
  within : place ≤ last
  least : ∀ other ≤ last, cost place ≤ cost other
  first : ∀ earlier < place, cost place < cost earlier

section Cost

variable {cost : Nat → Nat} {last place made : Nat}

theorem firstLeast_zero (cost : Nat → Nat) : FirstLeast cost 0 0 where
  within := Nat.le_refl 0
  least other within := by rw [Nat.le_zero.mp within]
  first earlier before := absurd before (Nat.not_lt_zero earlier)

theorem FirstLeast.step (kept : FirstLeast cost last place) :
    FirstLeast cost (last + 1) (if cost (last + 1) < cost place then last + 1 else place) := by
  have behind : ∀ other ≤ last + 1, other ≤ last ∨ other = last + 1 := by omega
  split
  next less =>
    refine ⟨Nat.le_refl _, fun other within => ?_, fun earlier before => ?_⟩
    · rcases behind other within with seen | rfl
      · exact less.le.trans (kept.least other seen)
      · exact Nat.le_refl _
    · exact less.trans_le (kept.least earlier (Nat.le_of_lt_succ before))
  next notLess =>
    refine ⟨Nat.le_succ_of_le kept.within, fun other within => ?_, kept.first⟩
    rcases behind other within with seen | rfl
    · exact kept.least other seen
    · exact Nat.le_of_not_lt notLess

variable {fewer more madeFewer madeMore keptFewer keptMore : Nat}

theorem SweepsMade.mono (order : fewer ≤ more) (first : SweepsMade cost fewer madeFewer)
    (second : SweepsMade cost more madeMore) : madeFewer ≤ madeMore := by
  by_contra less
  have crossing := first.crossing madeMore (by omega)
  have all : madeMore = more := second.settled.resolve_right crossing
  have within := first.within
  omega

/-- Looking further never raises the least cost, and moves its first place only if it lowers it. -/
theorem FirstLeast.mono (order : madeFewer ≤ madeMore) (first : FirstLeast cost madeFewer keptFewer)
    (second : FirstLeast cost madeMore keptMore) :
    cost keptMore ≤ cost keptFewer ∧ (cost keptMore = cost keptFewer → keptMore = keptFewer) := by
  refine ⟨second.least keptFewer (first.within.trans order), fun same => ?_⟩
  rcases Nat.lt_trichotomy keptMore keptFewer with before | equal | behind
  · exact absurd (first.first keptMore before) (by omega)
  · exact equal
  · exact absurd (second.first keptFewer behind) (by omega)

end Cost

variable {gaps : List (List (String × String))} {start : List (List String)}

theorem rearranged_swept (made : Nat) : Rearranged start (swept gaps start made) := by
  induction made with
  | zero => exact Rearranged.refl start
  | succ made ih =>
    rw [swept]
    split
    · exact ih.trans (rearranged_sweepDown _ gaps)
    · exact ih.trans (rearranged_sweepUp _ gaps)

def sweptCrossings (gaps : List (List (String × String))) (start : List (List String)) (made : Nat) :
    Nat :=
  countCrossings (swept gaps start made) gaps

def afterSweeps (gaps : List (List (String × String))) (start : List (List String)) (made : Nat) :
    Layers :=
  ⟨swept gaps start made, sweptCrossings gaps start made⟩

/-- From the best of some layers seen the search goes on to the best of those it looks through. -/
theorem improve_swept (gaps : List (List (String × String))) (start : List (List String)) (sweeps : Nat)
    {made kept : Nat}
    (crossing : ∀ earlier < made, sweptCrossings gaps start earlier ≠ 0)
    (best : FirstLeast (sweptCrossings gaps start) made kept) :
    ∃ last place, SweepsMade (sweptCrossings gaps start) (made + sweeps) last ∧
      FirstLeast (sweptCrossings gaps start) last place ∧
      improve gaps sweeps (made % 2 = 0) (swept gaps start made) (afterSweeps gaps start kept) =
        afterSweeps gaps start place := by
  induction sweeps generalizing made kept with
  | zero => exact ⟨made, kept, ⟨Nat.le_refl _, crossing, .inl rfl⟩, best, rfl⟩
  | succ sweeps ih =>
    rw [improve]
    split
    next none =>
      -- the best layers are those just seen, since all before them have crossings
      have level : sweptCrossings gaps start made = 0 := by
        rcases Nat.lt_or_eq_of_le best.within with before | rfl
        · exact absurd none (crossing kept before)
        · exact none
      exact ⟨made, kept, ⟨by omega, crossing, .inr level⟩, best, rfl⟩
    next some =>
      have onward : ∀ earlier < made + 1, sweptCrossings gaps start earlier ≠ 0 := by
        intro earlier before
        have least := best.least earlier (Nat.le_of_lt_succ before)
        have kept : sweptCrossings gaps start kept ≠ 0 := some
        omega
      obtain ⟨last, place, sweptAll, found, same⟩ := ih onward best.step
      have turned : (!decide (made % 2 = 0)) = decide ((made + 1) % 2 = 0) := by
        rcases Nat.mod_two_eq_zero_or_one made with even | odd
        · simp [even, Nat.add_mod]
        · simp [odd, Nat.add_mod]
      have next : (if decide (made % 2 = 0) = true then sweepDown (swept gaps start made) gaps
          else sweepUp (swept gaps start made) gaps) = swept gaps start (made + 1) := by
        simp [swept]
      have better : (if countCrossings (swept gaps start (made + 1)) gaps <
            (afterSweeps gaps start kept).crossings then
          ⟨swept gaps start (made + 1), countCrossings (swept gaps start (made + 1)) gaps⟩
          else afterSweeps gaps start kept) =
          afterSweeps gaps start (if sweptCrossings gaps start (made + 1) <
            sweptCrossings gaps start kept then made + 1 else kept) := by
        rw [apply_ite (afterSweeps gaps start)]
        rfl
      refine ⟨last, place, ?_, found, ?_⟩
      · rwa [Nat.add_right_comm, Nat.add_assoc] at sweptAll
      · simp only [next, better, turned]
        exact same

theorem ofMembers_swept (rankOf : String → Nat) (members : List String) (edges : List (String × String))
    (sweeps : Nat) {start : List (List String)} (first : start = byRank rankOf members)
    {gaps : List (List (String × String))} (between : gaps = Layers.gaps edges start) :
    ∃ made kept, SweepsMade (sweptCrossings gaps start) sweeps made ∧
      FirstLeast (sweptCrossings gaps start) made kept ∧
      ofMembers rankOf members edges sweeps = afterSweeps gaps start kept := by
  have searched := improve_swept gaps start sweeps
    (fun earlier before => absurd before (Nat.not_lt_zero earlier))
    (firstLeast_zero (sweptCrossings gaps start))
  rw [Nat.zero_add] at searched
  subst first between
  exact searched

end Layers

namespace Graph

variable {α : Type} {graph : Graph α}

theorem WellFormed.sweptCrossings_eq (wellFormed : graph.WellFormed) (ranking : Ranking) {scope : Scope}
    (listed : scope ∈ graph.scopes) (edges : List (String × String)) {start : List (List String)}
    (first : start = Layers.byRank ranking.rankOf scope.members) (made : Nat) :
    Layers.sweptCrossings (Layers.gaps edges start) start made =
      Layers.pairsCrossing edges (Layers.swept (Layers.gaps edges start) start made) := by
  have same : Rearranged start (Layers.swept (Layers.gaps edges start) start made) :=
    Layers.rearranged_swept made
  have nodup : scope.members.Nodup := scope_container listed ▸ wellFormed.nodup_scope scope.container
  have parted : RankLayers ranking.rankOf scope.members start :=
    first ▸ Layers.rankLayers_byRank ranking.rankOf scope.members
  rw [← Layers.countCrossings_gaps edges ((parted.rearrange same).perm.nodup_iff.mpr nodup),
    ← Layers.gaps_rearranged edges same]
  rfl

/-- The crossings noted for a scope are the pairs of edges that cross in its layers. These layers are the
first with the fewest such pairs among those in the order of declaration and those after each sweep that
is made. With more sweeps there are never more crossings, and the same layers when there are as many. -/
theorem WellFormed.fewest_crossings (wellFormed : graph.WellFormed) (ranking : Ranking) {scope : Scope}
    (listed : scope ∈ graph.scopes) :
    let edges := graph.liftedEdges scope.container
    let declared := Layers.byRank ranking.rankOf scope.members
    let seen := Layers.swept (Layers.gaps edges declared) declared
    let found := fun sweeps => (graph.layering ranking sweeps).layersOf scope.container
    (∀ sweeps, (found sweeps).crossings = Layers.pairsCrossing edges (found sweeps).layers) ∧
      (∀ sweeps, ∃ made kept,
        Layers.SweepsMade (fun made => Layers.pairsCrossing edges (seen made)) sweeps made ∧
        Layers.FirstLeast (fun made => Layers.pairsCrossing edges (seen made)) made kept ∧
        (found sweeps).layers = seen kept) ∧
      ∀ fewer more, fewer ≤ more → (found more).crossings ≤ (found fewer).crossings ∧
        ((found more).crossings = (found fewer).crossings → (found more).layers = (found fewer).layers) := by
  intro edges declared seen found
  have counted : Layers.sweptCrossings (Layers.gaps edges declared) declared =
      fun made => Layers.pairsCrossing edges (seen made) :=
    funext (wellFormed.sweptCrossings_eq ranking listed edges rfl)
  have search : ∀ sweeps, ∃ made kept,
      Layers.SweepsMade (fun made => Layers.pairsCrossing edges (seen made)) sweeps made ∧
      Layers.FirstLeast (fun made => Layers.pairsCrossing edges (seen made)) made kept ∧
      found sweeps = ⟨seen kept, Layers.pairsCrossing edges (seen kept)⟩ := by
    intro sweeps
    obtain ⟨made, kept, sweptAll, best, same⟩ :=
      Layers.ofMembers_swept ranking.rankOf scope.members edges sweeps rfl rfl
    have whole : found sweeps = Layers.afterSweeps (Layers.gaps edges declared) declared kept :=
      (layersOf_layering listed).trans same
    rw [Layers.afterSweeps, counted] at whole
    rw [counted] at sweptAll best
    exact ⟨made, kept, sweptAll, best, whole⟩
  refine ⟨fun sweeps => ?_, fun sweeps => ?_, fun fewer more order => ?_⟩
  · obtain ⟨made, kept, -, -, same⟩ := search sweeps
    rw [same]
  · obtain ⟨made, kept, sweptAll, best, same⟩ := search sweeps
    exact ⟨made, kept, sweptAll, best, congrArg Layers.layers same⟩
  · obtain ⟨madeFewer, keptFewer, sweptFewer, bestFewer, sameFewer⟩ := search fewer
    obtain ⟨madeMore, keptMore, sweptMore, bestMore, sameMore⟩ := search more
    obtain ⟨less, equal⟩ := bestFewer.mono (sweptFewer.mono order sweptMore) bestMore
    rw [sameFewer, sameMore]
    exact ⟨less, fun level => congrArg seen (equal level)⟩

/-- Two edges that cross in the order of declaration. -/
def crossed : Graph Nat where
  nodes := ["A", "B", "C", "D"].map fun name => boxedLoop.node ⟨none, name⟩ .leaf none
  edges := [boxedLoop.edge "A" "D" .directed, boxedLoop.edge "B" "C" .directed]

theorem crossed_wellFormed : crossed.WellFormed := by
  have nodes : Grown { nodes := crossed.nodes } :=
    Grown.empty.addNodes crossed.nodes (by decide +kernel)
  exact (nodes.addEdges crossed.edges (by decide +kernel)).wellFormed

theorem crossed_reorder :
    Layers.reorder ["A", "B"] [("A", "D"), ("B", "C")] ["C", "D"] = ["D", "C"] := by
  have first : Layers.barycenter ["A", "B"] [("A", "D"), ("B", "C")] ["C", "D"] "C" =
      Layers.toSingle 1 / Layers.toSingle 1 := rfl
  have second : Layers.barycenter ["A", "B"] [("A", "D"), ("B", "C")] ["C", "D"] "D" =
      Layers.toSingle 0 / Layers.toSingle 1 := rfl
  have behind : ¬Layers.toSingle 1 / Layers.toSingle 1 ≤ Layers.toSingle 0 / Layers.toSingle 1 := by
    decide +kernel
  simp [Layers.reorder, first, second, behind, List.mergeSort, List.MergeSort.Internal.splitInTwo]

theorem crossed_swept : crossed.scopeLayers crossed.ranking 1 (crossed.scope none) =
    ⟨[["A", "B"], ["D", "C"]], 0⟩ := by
  have layers : Layers.byRank crossed.ranking.rankOf (crossed.scope none).members =
      [["A", "B"], ["C", "D"]] := by decide +kernel
  have edges : crossed.liftedEdges none = [("A", "D"), ("B", "C")] := by decide +kernel
  have gaps : Layers.gaps [("A", "D"), ("B", "C")] [["A", "B"], ["C", "D"]] =
      [[("A", "D"), ("B", "C")]] := by decide +kernel
  have before : Layers.countCrossings [["A", "B"], ["C", "D"]] [[("A", "D"), ("B", "C")]] = 1 := by
    decide +kernel
  have after : Layers.countCrossings [["A", "B"], ["D", "C"]] [[("A", "D"), ("B", "C")]] = 0 := by
    decide +kernel
  have scope : (crossed.scope none).container = none := rfl
  simp [scopeLayers, Layers.ofMembers, scope, layers, edges, gaps, before, after, Layers.improve,
    Layers.sweepDown, crossed_reorder]

/-- One sweep takes the crossing away, and further ones do not bring it back. -/
theorem crossed_fewest :
    crossed.WellFormed ∧ crossed.scope none ∈ crossed.scopes ∧
      ((crossed.layering crossed.ranking 0).layersOf none).crossings = 1 ∧
      ((crossed.layering crossed.ranking 24).layersOf none).layers = [["A", "B"], ["D", "C"]] ∧
      Layers.pairsCrossing (crossed.liftedEdges none)
        ((crossed.layering crossed.ranking 24).layersOf none).layers = 0 := by
  have listed : crossed.scope none ∈ crossed.scopes := by decide +kernel
  obtain ⟨counted, -, further⟩ := crossed_wellFormed.fewest_crossings crossed.ranking listed
  have swept : (crossed.layering crossed.ranking 1).layersOf none = ⟨[["A", "B"], ["D", "C"]], 0⟩ :=
    (layersOf_layering listed).trans crossed_swept
  obtain ⟨fewer, same⟩ := further 1 24 (by decide)
  have least : ((crossed.layering crossed.ranking 1).layersOf none).crossings = 0 := by rw [swept]
  have level := fewer.trans_eq least
  refine ⟨crossed_wellFormed, listed, by decide +kernel, ?_, ?_⟩
  · exact (same ((Nat.le_zero.mp level).trans least.symm)).trans (congrArg Layers.layers swept)
  · exact (counted 24).symm.trans (Nat.le_zero.mp level)

end Graph

end BoxDiagram
