import BoxDiagram.Proofs.JsonReading
import BoxDiagram.Proofs.JsonWriting
import BoxDiagram.Proofs.Records

/-!
Documents as they are written. The numbers in a document are numbers of the grammar, so on one line or on
many the document is a text that spells the value of the graph and no other. Whoever reads it finds the
record of the graph.
-/

namespace BoxDiagram

theorem Sink.writeAll_unlimited (content : String) (chunks : List String) :
    writeAll { content := content } chunks = ({ content := content ++ String.join chunks }, none) := by
  induction chunks generalizing content with
  | nil => simp [writeAll]
  | cons chunk rest ih =>
    rw [writeAll]
    simp only [write, ih, String.join_cons, String.append_assoc]

namespace Json

theorem valid_ofOption {β : Type} {encode : β → Json} (each : ∀ value, (encode value).Valid)
    (value : Option β) : (ofOption encode value).Valid := by
  cases value with
  | none => exact .null
  | some value => exact each value

theorem valid_ofNat (value : Nat) : (ofNat value).Valid := .number (number_ofNat value)

end Json

namespace Graph

section Valid

variable {α : Type} {number : α → Json} (numbers : ∀ value, (number value).Valid)
include numbers

theorem valid_pointJson (point : Point α) : (pointJson number point).Valid := by
  apply Json.Valid.object
  simp only [List.forall_mem_cons]
  exact ⟨numbers point.x, numbers point.y, List.forall_mem_nil _⟩

theorem valid_sizeJson (size : Size α) : (sizeJson number size).Valid := by
  apply Json.Valid.object
  simp only [List.forall_mem_cons]
  exact ⟨numbers size.width, numbers size.height, List.forall_mem_nil _⟩

theorem valid_nodeJson (node : Node α) : (nodeJson number node).Valid := by
  have properties : ∀ field ∈ node.properties.entries.map fun entry => (entry.1, Json.string entry.2),
      field.2.Valid := List.forall_mem_map.mpr fun entry _ => .string entry.2
  apply Json.Valid.object
  simp only [List.forall_mem_cons]
  exact ⟨.string _, .string _, .string _, Json.valid_ofOption .string node.parent, .object properties,
    Json.valid_ofOption Json.valid_ofNat node.rank,
    Json.valid_ofOption (valid_pointJson numbers) node.position, valid_sizeJson numbers node.size,
    List.forall_mem_nil _⟩

omit numbers in
theorem valid_edgeJson (edge : Edge) : (edgeJson edge).Valid := by
  apply Json.Valid.object
  simp only [List.forall_mem_cons]
  exact ⟨.string _, .string _, .string _, Json.valid_ofOption .string edge.label, .bool _,
    List.forall_mem_nil _⟩

theorem valid_documentWith (graph : Graph α) : (graph.documentWith number).Valid := by
  apply Json.Valid.object
  simp only [List.forall_mem_cons]
  exact ⟨Json.valid_ofOption .string graph.title,
    .array (List.forall_mem_map.mpr fun node _ => valid_nodeJson numbers node),
    .array (List.forall_mem_map.mpr fun edge _ => valid_edgeJson edge), List.forall_mem_nil _⟩

end Valid

theorem valid_coordinateJson (value : Float32) : (coordinateJson value).Valid := by
  unfold coordinateJson coordinateText?
  split
  next isNegative magnitude finite =>
    refine .number (Decimal.number_single isNegative ?_)
    rintro number rfl
    exact Decimal.Single.significand_pos finite
  next => exact .null
  next => exact .null

def documentText (graph : Graph Float32) (isPretty : Bool) : String :=
  String.join (graph.documentChunks isPretty)

theorem exportTo_unlimited (graph : Graph Float32) (isPretty : Bool) :
    graph.exportTo isPretty {} = ({ content := graph.documentText isPretty ++ "\n" }, none) := by
  simp only [exportTo, Sink.exportChunks, Sink.writeAll_unlimited, Sink.write, Sink.flush,
    String.empty_append]
  rfl

theorem spells_documentText (graph : Graph Float32) (isPretty : Bool) :
    Json.Spells (graph.documentText isPretty).toList graph.document := by
  have valid : graph.document.Valid := valid_documentWith valid_coordinateJson graph
  cases isPretty with
  | false => exact valid.spells_compact
  | true => exact valid.spells_pretty

end Graph

end BoxDiagram
