import BoxDiagram.Containment
import BoxDiagram.Ranking

/-!
The order of the members of a scope within their ranks. Each rank that occurs is a layer, first in
the order of declaration. Sweeps then go down and up the layers in turn and sort each by the mean
position of the neighbours in the layer just passed; the layers with the fewest crossings seen are
kept, the first ones of several.
-/

namespace BoxDiagram

structure Layers where
  layers : List (List String) := []
  crossings : Nat := 0
  deriving DecidableEq, Inhabited

structure Layering where
  root : Layers := {}
  containers : List (String × Layers) := []
  deriving DecidableEq, Inhabited

def Layering.layersOf (layering : Layering) : Option String → Layers
  | none => layering.root
  | some container => (layering.containers.lookup container).getD {}

namespace Layers

/-- The members by rank, one layer for each rank that occurs. -/
def byRank (rankOf : String → Nat) (members : List String) : List (List String) :=
  (List.range ((members.map rankOf).foldl max 0 + 1)).filterMap fun rank =>
    match members.filter (rankOf · = rank) with
    | [] => none
    | layer => some layer

def gap (edges : List (String × String)) (upper lower : List String) : List (String × String) :=
  edges.filterMap fun (source, target) =>
    if upper.contains source && lower.contains target then some (source, target)
    else if upper.contains target && lower.contains source then some (target, source)
    else none

def gaps (edges : List (String × String)) : List (List String) → List (List (String × String))
  | upper :: lower :: rest => gap edges upper lower :: gaps edges (lower :: rest)
  | _ => []

def cross (first second : Nat × Nat) : Bool :=
  (first.1 < second.1 && second.2 < first.2) || (second.1 < first.1 && first.2 < second.2)

def crossingPairs : List (Nat × Nat) → Nat
  | [] => 0
  | edge :: rest => rest.countP (cross edge) + crossingPairs rest

def gapCrossings (upper lower : List String) (gap : List (String × String)) : Nat :=
  crossingPairs (gap.map fun (top, bottom) => (upper.idxOf top, lower.idxOf bottom))

def countCrossings : List (List String) → List (List (String × String)) → Nat
  | upper :: lower :: rest, gap :: gaps =>
    gapCrossings upper lower gap + countCrossings (lower :: rest) gaps
  | _, _ => 0

def toSingle (count : Nat) : Float32 := (UInt64.ofNat count).toFloat32

/-- The mean position in the layer passed of the neighbours of a member, or its own position when
it has none. Links lead from the layer passed to the layer of the member. -/
def barycenter (passed : List String) (links : List (String × String)) (layer : List String)
    (member : String) : Float32 :=
  match (links.filter (·.2 = member)).map fun link => passed.idxOf link.1 with
  | [] => toSingle (layer.idxOf member)
  | positions => toSingle (positions.foldr (· + ·) 0) / toSingle positions.length

/-- Sorts a layer by barycenters; members with equal ones keep their order. -/
def reorder (passed : List String) (links : List (String × String)) (layer : List String) :
    List String :=
  let keyed := layer.map fun member => (barycenter passed links layer member, member)
  (keyed.mergeSort fun left right => left.1 ≤ right.1).map Prod.snd

def sweepDown : List (List String) → List (List (String × String)) → List (List String)
  | passed :: layer :: rest, links :: gaps =>
    passed :: sweepDown (reorder passed links layer :: rest) gaps
  | layers, _ => layers

def sweepUp (layers : List (List String)) (gaps : List (List (String × String))) :
    List (List String) :=
  (sweepDown layers.reverse (gaps.reverse.map (·.map Prod.swap))).reverse

/-- Sweeps in turn, at most so many times and only while there are crossings. -/
def improve (gaps : List (List (String × String))) :
    Nat → Bool → List (List String) → Layers → Layers
  | 0, _, _, best => best
  | sweeps + 1, isDown, current, best =>
    if best.crossings = 0 then best
    else
      let next := if isDown then sweepDown current gaps else sweepUp current gaps
      let crossings := countCrossings next gaps
      improve gaps sweeps (!isDown) next (if crossings < best.crossings then ⟨next, crossings⟩ else best)

def ofMembers (rankOf : String → Nat) (members : List String) (edges : List (String × String))
    (sweeps : Nat) : Layers :=
  let layers := byRank rankOf members
  let gaps := gaps edges layers
  improve gaps sweeps true layers ⟨layers, countCrossings layers gaps⟩

end Layers

namespace Graph

variable {α : Type}

/-- The edges between different members of a scope or inside them, by the members. -/
def liftedEdges (graph : Graph α) (container : Option String) : List (String × String) :=
  graph.edges.filterMap fun edge => do
    let source ← graph.lift container edge.source
    let target ← graph.lift container edge.target
    some (source, target)

def scopeLayers (graph : Graph α) (ranking : Ranking) (sweeps : Nat) (scope : Scope) : Layers :=
  .ofMembers ranking.rankOf scope.members (graph.liftedEdges scope.container) sweeps

def layering (graph : Graph α) (ranking : Ranking) (sweeps : Nat) : Layering :=
  graph.scopes.foldl (fun layering scope =>
    let layers := graph.scopeLayers ranking sweeps scope
    match scope.container with
    | some container => { layering with containers := layering.containers ++ [(container, layers)] }
    | none => { layering with root := layers }) {}

end Graph

end BoxDiagram
