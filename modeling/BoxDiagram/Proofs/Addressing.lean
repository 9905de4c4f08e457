import BoxDiagram.Proofs.PathNames
import BoxDiagram.Proofs.PhysicalLines

/-!
Every node can be named by its path. Whatever state a source leaves the reader in, a line behind it that
connects the paths of two of its nodes is read as that connection, and its ends are those nodes; all else
stays as it is.
-/

namespace BoxDiagram

open Text

variable {α : Type}

def Parsed.withEdge (parsed : Parsed α) (edge : Edge) : Parsed α :=
  { parsed with graph := { parsed.graph with edges := parsed.graph.edges ++ [edge] } }

variable [Scalar α]

/-- Lines of links at the end give their hops, which are resolved last. -/
theorem Assembly.ofLines_append_links {links : List Link} {lines connected : List Line}
    (connects : List.Forall₂ Link.Connects links connected) :
    ∃ hops, (ofLines (lines ++ connected) : Assembly α) = hops.foldl connect (ofLines lines) ∧
      List.Forall₂ Link.Joins links hops := by
  obtain ⟨hops, run, joins⟩ := flush_of_connects connects (lines.foldl process ({} : Assembly α))
  refine ⟨hops, ?_, joins⟩
  rw [ofLines, List.foldl_append, finish, run, connectAll, reportOpen, List.foldl_append]
  rfl

theorem Line.ofSource_link (source : String) {link : Link} (names : IsName link.source.toList ∧
    IsName link.target.toList) (labels : ∀ label, link.label = some label → label ≠ "" ∧ IsQuotable label) :
    ∃ line, ofSource (source ++ "\n" ++ String.ofList link.text) = ofSource source ++ [line] ∧
      link.Connects line := by
  have single : '\n' ∉ link.text := Link.newline_notMem names.1 names.2 labels
  have alone := physicalLines_of_notMem single
  obtain ⟨line, read, connects⟩ := ofPhysicalLines_cons (readsAs_link names.1 names.2 labels)
    (0 + (byteLength source.toList + 1)) []
  refine ⟨line, ?_, connects⟩
  have whole : (source ++ "\n" ++ String.ofList link.text).toList =
      source.toList ++ '\n' :: link.text := by simp
  rw [ofSource, whole, ofPhysicalLines_newline, alone, read]
  rfl

/-- A connection of the paths of two nodes, on a line of its own behind a source, adds an edge between
these nodes to its graph, and changes nothing else. -/
theorem parse_addressed (source : String) {first second : Node α}
    (firstMember : first ∈ (parse source : Parsed α).graph.nodes)
    (secondMember : second ∈ (parse source : Parsed α).graph.nodes) :
    ∃ span, (parse (source ++ "\n" ++ first.path ++ " -> " ++ second.path) : Parsed α) =
      (parse source).withEdge
        { source := first.path, target := second.path, kind := .directed, label := none, span } := by
  let link : Link := ⟨first.path, second.path, .directed, none⟩
  have names : IsName link.source.toList ∧ IsName link.target.toList :=
    ⟨isName_path source first firstMember, isName_path source second secondMember⟩
  have written : source ++ "\n" ++ first.path ++ " -> " ++ second.path =
      source ++ "\n" ++ String.ofList link.text := by
    rw [← String.toList_inj]
    simp [link, Link.text, arrowText, labelText]
  obtain ⟨line, lines, connects⟩ := Line.ofSource_link source names (by simp [link])
  obtain ⟨hops, run, joined⟩ :=
    @Assembly.ofLines_append_links α _ [link] (Line.ofSource source) [line] (.cons connects .nil)
  obtain ⟨hop, rfl, joins⟩ : ∃ hop, hops = [hop] ∧ link.Joins hop := by
    cases joined with
    | cons joins rest =>
      cases rest
      exact ⟨_, rfl, joins⟩
  have known : link.source ∈ (assemble source : Assembly α).graph.paths ∧
      link.target ∈ (assemble source : Assembly α).graph.paths :=
    ⟨List.mem_map_of_mem firstMember, List.mem_map_of_mem secondMember⟩
  have connected : (Assembly.ofLines (Line.ofSource source ++ [line]) : Assembly α) =
      (assemble source).connect hop := run
  refine ⟨hop.span, ?_⟩
  rw [written, parse, assemble, lines, connected, Assembly.connect_of_joins joins names known]
  rfl

/-- A source that ends with an open container, a quote without its pair and a leaf kept back. -/
def openSource : String := "Edge  API \x7b\nc [q: \"r\ndb.main-1 [x: 1]"

theorem openSource_addressed : ∃ span,
    (parse (openSource ++ "\n" ++ "Edge API.db.main-1" ++ " -> " ++ "Edge API") : Parsed Float32) =
      (parse openSource).withEdge
        { source := "Edge API.db.main-1", target := "Edge API", kind := .directed, label := none, span } := by
  have paths : (parse openSource : Parsed Float32).graph.nodes.map Node.path =
      ["Edge API", "Edge API.db.main-1"] := by decide +kernel
  obtain ⟨outer, outerMember, outerPath⟩ := List.mem_map.mp
    (paths ▸ List.mem_cons_self : "Edge API" ∈ _)
  obtain ⟨inner, innerMember, innerPath⟩ := List.mem_map.mp
    (paths ▸ List.mem_cons_of_mem _ List.mem_cons_self : "Edge API.db.main-1" ∈ _)
  have addressed := parse_addressed openSource innerMember outerMember
  rwa [innerPath, outerPath] at addressed

end BoxDiagram
