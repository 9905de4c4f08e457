import BoxDiagram.Layering
import BoxDiagram.Settings

/-!
The boxes of the nodes. Scopes are laid out from the inside out, so the size of a container is
known when the scope around it is laid out. In a scope the layers follow each other along the
primary axis; the members of a layer follow each other along the secondary axis, and each layer is
centred. Offsets are relative to the container until boxes are placed from the outside in.
-/

namespace BoxDiagram

structure Placement (α : Type) where
  boxes : List (String × Bounds α)
  deriving DecidableEq

variable {α : Type}

namespace Orientation

/-- A size with its extent along the primary axis as width; also the way back. -/
def along (orientation : Orientation) (size : Size α) : Size α :=
  match orientation with
  | .leftToRight => size
  | .topToBottom => size.transpose

def point (orientation : Orientation) (primary secondary : α) : Point α :=
  match orientation with
  | .leftToRight => ⟨primary, secondary⟩
  | .topToBottom => ⟨secondary, primary⟩

end Orientation

/-- Sizes of nodes, and their offsets from the corner of the node around them. -/
structure Draft (α : Type) where
  sizeOf : String → Size α
  offsetOf : String → Point α

def Draft.setSize (draft : Draft α) (path : String) (size : Size α) : Draft α :=
  { draft with sizeOf := fun other => if other = path then size else draft.sizeOf other }

def Draft.setOffset (draft : Draft α) (path : String) (offset : Point α) : Draft α :=
  { draft with offsetOf := fun other => if other = path then offset else draft.offsetOf other }

namespace Placement

def bounds? (placement : Placement α) (path : String) : Option (Bounds α) :=
  placement.boxes.lookup path

def isEmpty (placement : Placement α) : Bool := placement.boxes.isEmpty

/-- Puts a member into the group of its rank; groups are kept by increasing rank. -/
def insertByRank (rank : Nat) (member : String) :
    List (Nat × List String) → List (Nat × List String)
  | [] => [(rank, [member])]
  | (other, group) :: rest =>
    if rank < other then (rank, [member]) :: (other, group) :: rest
    else if rank = other then (other, group ++ [member]) :: rest
    else (other, group) :: insertByRank rank member rest

def groupByRank (rankOf : String → Nat) (members : List String) : List (List String) :=
  (members.foldl (fun groups member => insertByRank (rankOf member) member groups) []).map Prod.snd

/-- The layers of a scope as they are ordered, or by rank when the ordering does not list it. -/
def layersOf (layering : Layering) (ranking : Ranking) (scope : Scope) : List (List String) :=
  match (layering.layersOf scope.container).layers with
  | [] => groupByRank ranking.rankOf scope.members
  | layers => layers

variable [Scalar α]

open Scalar

def total (placement : Placement α) : Option (Bounds α) :=
  Bounds.mergeAll (placement.boxes.map Prod.snd)

abbrev SizedLayer (α : Type) := List (String × Size α)

def thickness (layer : SizedLayer α) : α := largest (layer.map (·.2.width))

def length (spacing : α) (layer : SizedLayer α) : α :=
  sum (layer.map (·.2.height)) + spacing * ofNat (layer.length - 1)

/-- The offsets of the members of a layer that begins at `secondary`; each member is centred in a
band that begins at `primary`. -/
def placeLayer (settings : Settings α) (primary band : α) : α → SizedLayer α → List (String × Point α)
  | _, [] => []
  | secondary, (member, extent) :: rest =>
    (member, settings.orientation.point (primary + half (band - extent.width)) secondary) ::
      placeLayer settings primary band (secondary + (extent.height + settings.nodeSpacing)) rest

/-- The offsets of the members of layers that begin at a primary coordinate, centred in a width,
and the coordinate behind the last layer and its gap. -/
def placeLayers (settings : Settings α) (width : α) : α → List (SizedLayer α) →
    List (String × Point α) × α
  | primary, [] => ([], primary)
  | primary, layer :: rest =>
    let band := thickness layer
    let start := half (width - length settings.nodeSpacing layer)
    let (offsets, stop) := placeLayers settings width (primary + (band + settings.rankSpacing)) rest
    (placeLayer settings primary band start layer ++ offsets, stop)

def placeScope (settings : Settings α) (sizeOf : String → Size α) (layers : List (List String)) :
    Size α × List (String × Point α) :=
  let sized := layers.map (·.map fun member => (member, settings.orientation.along (sizeOf member)))
  let secondary := largest (sized.map (length settings.nodeSpacing))
  let (offsets, stop) := placeLayers settings secondary (ofNat 0) sized
  let primary := if layers.isEmpty then ofNat 0 else stop - settings.rankSpacing
  (settings.orientation.along ⟨primary, secondary⟩, offsets)

def containerInsets (settings : Settings α) : Insets α :=
  (Insets.uniform settings.containerPadding).withTop
    (settings.containerPadding + settings.containerHeader)

def draftScope (settings : Settings α) (layering : Layering) (ranking : Ranking)
    (draft : Draft α) (scope : Scope) : Draft α :=
  let (content, offsets) := placeScope settings draft.sizeOf (layersOf layering ranking scope)
  let insets := containerInsets settings
  let (sized, origin) := match scope.container with
    | some container => (draft.setSize container (content.pad insets), insets.origin)
    | none => (draft, ⟨settings.margin, settings.margin⟩)
  offsets.foldl (fun draft (member, offset) => draft.setOffset member (origin.add offset)) sized

def initialDraft (graph : Graph α) (settings : Settings α) : Draft α where
  sizeOf path := match (graph.node? path).map Node.kind with
    | some .leaf => settings.leafSize
    | some .container => settings.containerSize
    | none => .zero
  offsetOf _ := .zero

def draft (graph : Graph α) (ranking : Ranking) (layering : Layering) (settings : Settings α) :
    Draft α :=
  graph.scopes.foldl (draftScope settings layering ranking) (initialDraft graph settings)

def placeNode (draft : Draft α) (boxes : List (String × Bounds α)) (node : Node α) :
    List (String × Bounds α) :=
  let origin := match node.parent.bind (boxes.lookup ·) with
    | some outer => outer.corner
    | none => .zero
  let box := Bounds.ofCorner (draft.offsetOf node.path) (draft.sizeOf node.path)
  boxes ++ [(node.path, box.translate origin)]

end Placement

def Graph.placement [Scalar α] (graph : Graph α) (ranking : Ranking) (layering : Layering)
    (settings : Settings α) : Placement α :=
  let draft := Placement.draft graph ranking layering settings
  ⟨graph.nodes.foldl (Placement.placeNode draft) []⟩

end BoxDiagram
