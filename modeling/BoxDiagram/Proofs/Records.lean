import BoxDiagram.Document
import BoxDiagram.Proofs.NumberTexts

/-!
What a document tells of a graph. The records below hold all that is told: of a node and of an edge every
field, with the texts of the coordinates for these. They are read off the value of the document by the names
of its fields, and reading undoes what the document is made of.
-/

namespace BoxDiagram

structure NodeRecord where
  id : String
  label : String
  kind : NodeKind
  parent : Option String
  properties : List (String × String)
  rank : Option Nat
  position : Option (Point (Option String))
  size : Size (Option String)
  deriving DecidableEq

structure EdgeRecord where
  source : String
  target : String
  kind : EdgeKind
  label : Option String
  isBackEdge : Bool
  deriving DecidableEq

structure Record where
  title : Option String
  nodes : List NodeRecord
  edges : List EdgeRecord
  deriving DecidableEq

section Records

variable {α : Type}

def Node.record (text? : α → Option String) (node : Node α) : NodeRecord where
  id := node.path
  label := node.label
  kind := node.kind
  parent := node.parent
  properties := node.properties.entries
  rank := node.rank
  position := node.position.map fun point => ⟨text? point.x, text? point.y⟩
  size := ⟨text? node.size.width, text? node.size.height⟩

def Edge.record (edge : Edge) : EdgeRecord where
  source := edge.source
  target := edge.target
  kind := edge.kind
  label := edge.label
  isBackEdge := edge.isBackEdge

def Graph.record (text? : α → Option String) (graph : Graph α) : Record where
  title := graph.title
  nodes := graph.nodes.map (Node.record text?)
  edges := graph.edges.map Edge.record

end Records

def NodeKind.ofText? : String → Option NodeKind
  | "leaf" => some .leaf
  | "container" => some .container
  | _ => none

def EdgeKind.ofText? : String → Option EdgeKind
  | "directed" => some .directed
  | "bidirectional" => some .bidirectional
  | _ => none

namespace Json

variable {β : Type}

def number? : Json → Option String
  | .number text => some text
  | _ => none

def nullable? (read : Json → Option β) : Json → Option (Option β)
  | .null => some none
  | json => (read json).map some

def at? (key : String) (read : Json → Option β) (json : Json) : Option β := (json.field? key).bind read

def all? (read : Json → Option β) (json : Json) : Option (List β) := json.array?.bind (List.mapM read)

def count? (json : Json) : Option Nat :=
  json.number?.bind fun text =>
    if text.toList.all Char.isDigit then some (Text.ofDigits 10 text.toList) else none

def point? (json : Json) : Option (Point (Option String)) := do
  let x ← json.at? "x" (nullable? number?)
  let y ← json.at? "y" (nullable? number?)
  some ⟨x, y⟩

def size? (json : Json) : Option (Size (Option String)) := do
  let width ← json.at? "width" (nullable? number?)
  let height ← json.at? "height" (nullable? number?)
  some ⟨width, height⟩

def texts? (json : Json) : Option (List (String × String)) :=
  json.object?.bind (List.mapM fun (key, value) => value.string?.map fun text => (key, text))

end Json

def NodeRecord.ofJson? (json : Json) : Option NodeRecord := do
  let id ← json.at? "id" Json.string?
  let label ← json.at? "label" Json.string?
  let kind ← json.at? "kind" fun json => json.string?.bind NodeKind.ofText?
  let parent ← json.at? "parent" (Json.nullable? Json.string?)
  let properties ← json.at? "properties" Json.texts?
  let rank ← json.at? "rank" (Json.nullable? Json.count?)
  let position ← json.at? "position" (Json.nullable? Json.point?)
  let size ← json.at? "size" Json.size?
  some { id, label, kind, parent, properties, rank, position, size }

def EdgeRecord.ofJson? (json : Json) : Option EdgeRecord := do
  let source ← json.at? "source" Json.string?
  let target ← json.at? "target" Json.string?
  let kind ← json.at? "kind" fun json => json.string?.bind EdgeKind.ofText?
  let label ← json.at? "label" (Json.nullable? Json.string?)
  let isBackEdge ← json.at? "back_edge" Json.bool?
  some { source, target, kind, label, isBackEdge }

def Record.ofJson? (json : Json) : Option Record := do
  let title ← json.at? "title" (Json.nullable? Json.string?)
  let nodes ← json.at? "nodes" (Json.all? NodeRecord.ofJson?)
  let edges ← json.at? "edges" (Json.all? EdgeRecord.ofJson?)
  some { title, nodes, edges }

theorem NodeKind.ofText?_text (kind : NodeKind) : ofText? kind.text = some kind := by
  cases kind <;> rfl

theorem EdgeKind.ofText?_text (kind : EdgeKind) : ofText? kind.text = some kind := by
  cases kind <;> rfl

namespace Json

variable {β γ : Type}

theorem nullable?_ofOption {encode : β → Json} {read : Json → Option γ} {told : β → γ}
    (undone : ∀ value, read (encode value) = some (told value)) (apart : ∀ value, encode value ≠ .null)
    (value : Option β) : nullable? read (.ofOption encode value) = some (value.map told) := by
  cases value with
  | none => rfl
  | some value =>
    unfold nullable? ofOption
    split
    next same => exact absurd same (apart value)
    next => rw [undone]; rfl

theorem all?_array {encode : β → Json} {read : Json → Option γ} {told : β → γ}
    (undone : ∀ value, read (encode value) = some (told value)) (values : List β) :
    all? read (.array (values.map encode)) = some (values.map told) := by
  have each : read ∘ encode = fun value => pure (told value) := funext undone
  rw [all?, array?, Option.bind_some, List.mapM_map, each, List.mapM_pure]
  rfl

theorem count?_ofNat (value : Nat) : count? (ofNat value) = some value := by
  have digits : (toString value).toList = Nat.toDigits 10 value := by
    rw [Nat.toString_eq_repr, Nat.toList_repr]
  have run := (digitRun_toDigits value).2
  rw [ofNat, count?, number?, Option.bind_some, digits, if_pos (List.all_eq_true.mpr run),
    Text.ofDigits_toDigits]

theorem texts?_object (entries : List (String × String)) :
    texts? (.object (entries.map fun (key, value) => (key, .string value))) = some entries := by
  rw [texts?, object?, Option.bind_some, List.mapM_map]
  have told := @List.mapM_pure Option (String × String) (String × String) _ _ entries id
  rwa [List.map_id] at told

end Json

namespace Graph

variable {α : Type} {text? : α → Option String} {number : α → Json}
  (spelled : ∀ value, number value = .ofOption .number (text? value))
include spelled

theorem number_told (value : α) : Json.nullable? Json.number? (number value) = some (text? value) := by
  rw [spelled]
  cases text? value <;> rfl

theorem pointJson_told (point : Point α) :
    Json.point? (pointJson number point) = some ⟨text? point.x, text? point.y⟩ := by
  have x : (pointJson number point).at? "x" (Json.nullable? Json.number?) = some (text? point.x) :=
    number_told spelled point.x
  have y : (pointJson number point).at? "y" (Json.nullable? Json.number?) = some (text? point.y) :=
    number_told spelled point.y
  rw [Json.point?, x, y]
  rfl

theorem sizeJson_told (size : Size α) :
    Json.size? (sizeJson number size) = some ⟨text? size.width, text? size.height⟩ := by
  have width : (sizeJson number size).at? "width" (Json.nullable? Json.number?) =
      some (text? size.width) := number_told spelled size.width
  have height : (sizeJson number size).at? "height" (Json.nullable? Json.number?) =
      some (text? size.height) := number_told spelled size.height
  rw [Json.size?, width, height]
  rfl

omit spelled in
theorem text_told (value : Option String) :
    Json.nullable? Json.string? (.ofOption .string value) = some value := by
  cases value <;> rfl

theorem nodeJson_told (node : Node α) :
    NodeRecord.ofJson? (nodeJson number node) = some (node.record text?) := by
  have id : (nodeJson number node).at? "id" Json.string? = some node.path := rfl
  have label : (nodeJson number node).at? "label" Json.string? = some node.label := rfl
  have kind : (nodeJson number node).at? "kind" (fun json => json.string?.bind NodeKind.ofText?) =
      some node.kind := NodeKind.ofText?_text node.kind
  have parent : (nodeJson number node).at? "parent" (Json.nullable? Json.string?) = some node.parent :=
    text_told node.parent
  have properties : (nodeJson number node).at? "properties" Json.texts? = some node.properties.entries :=
    Json.texts?_object node.properties.entries
  have rank : (nodeJson number node).at? "rank" (Json.nullable? Json.count?) = some node.rank := by
    have told := Json.nullable?_ofOption Json.count?_ofNat (fun value => by rintro ⟨⟩) node.rank
    rw [Option.map_id'] at told
    exact told
  have position : (nodeJson number node).at? "position" (Json.nullable? Json.point?) =
      some (node.position.map fun point => ⟨text? point.x, text? point.y⟩) :=
    Json.nullable?_ofOption (pointJson_told spelled) (fun value => by rintro ⟨⟩) node.position
  have size : (nodeJson number node).at? "size" Json.size? =
      some ⟨text? node.size.width, text? node.size.height⟩ := sizeJson_told spelled node.size
  rw [NodeRecord.ofJson?, id, label, kind, parent, properties, rank, position, size]
  rfl

omit spelled in
theorem edgeJson_told (edge : Edge) : EdgeRecord.ofJson? (edgeJson edge) = some edge.record := by
  have source : (edgeJson edge).at? "source" Json.string? = some edge.source := rfl
  have target : (edgeJson edge).at? "target" Json.string? = some edge.target := rfl
  have kind : (edgeJson edge).at? "kind" (fun json => json.string?.bind EdgeKind.ofText?) =
      some edge.kind := EdgeKind.ofText?_text edge.kind
  have label : (edgeJson edge).at? "label" (Json.nullable? Json.string?) = some edge.label :=
    text_told edge.label
  have isBackEdge : (edgeJson edge).at? "back_edge" Json.bool? = some edge.isBackEdge := rfl
  rw [EdgeRecord.ofJson?, source, target, kind, label, isBackEdge]
  rfl

theorem documentWith_told (graph : Graph α) :
    Record.ofJson? (graph.documentWith number) = some (graph.record text?) := by
  have title : (graph.documentWith number).at? "title" (Json.nullable? Json.string?) = some graph.title :=
    text_told graph.title
  have nodes : (graph.documentWith number).at? "nodes" (Json.all? NodeRecord.ofJson?) =
      some (graph.nodes.map (Node.record text?)) := Json.all?_array (nodeJson_told spelled) graph.nodes
  have edges : (graph.documentWith number).at? "edges" (Json.all? EdgeRecord.ofJson?) =
      some (graph.edges.map Edge.record) := Json.all?_array edgeJson_told graph.edges
  rw [Record.ofJson?, title, nodes, edges]
  rfl

end Graph

end BoxDiagram
