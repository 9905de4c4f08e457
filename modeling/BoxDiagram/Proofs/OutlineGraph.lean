import BoxDiagram.Proofs.OpenBodies
import BoxDiagram.Proofs.OutlineSource

/-!
Reading an outline back. Its declarations add one node each, inside the container that is open, and
leave the bodies as they were; its links find both of their ends. So the text of an outline has the
graph of the outline, and nothing is found on the way.
-/

namespace BoxDiagram

open Text

variable {α : Type}

def Graph.paths (graph : Graph α) : List String := graph.nodes.map Node.path

theorem Graph.paths_eq (graph : Graph α) :
    graph.paths = (graph.nodes.map Node.unplaced).map Node.path := by
  rw [List.map_map]
  rfl

theorem Graph.contains_eq_true {graph : Graph α} {path : String} :
    graph.contains path = true ↔ path ∈ graph.paths := by
  rw [contains_iff, paths, List.mem_map]

namespace Assembly

variable {assembly : Assembly α}

theorem idOf_declared {heading : Heading} {declaration : Declaration}
    (declares : heading.Declares declaration) :
    assembly.idOf declaration.name.value = ⟨assembly.enclosing, heading.name.text⟩ := by
  unfold idOf
  split
  next outer inside => rw [NodeId.within, declares.name, heading.name.spaced, inside]
  next outside => rw [NodeId.ofName, declares.name, heading.name.spaced, outside]

theorem released (none : assembly.pending = none) :
    { assembly with pending := .none } = assembly := by
  rw [← none]

/-- The full path of a node names that node, even where other nodes have it as their own name. -/
theorem resolve_of_mem {graph : Graph α} {endpoint : Located String}
    (name : IsName endpoint.value.toList) (known : endpoint.value ∈ graph.paths) :
    resolve graph endpoint = .ok endpoint.value := by
  have normal : Text.normalize endpoint.value = endpoint.value := by
    rw [Text.normalize, name.joinWords_words, String.ofList_toList]
  rw [resolve, normal, Graph.contains_eq_true.mpr known]
  rfl

theorem connect_of_joins {link : Link} {hop : Hop} (joins : link.Joins hop)
    (names : IsName link.source.toList ∧ IsName link.target.toList)
    (known : link.source ∈ assembly.graph.paths ∧ link.target ∈ assembly.graph.paths) :
    assembly.connect hop = { assembly with
      graph := { assembly.graph with
        edges := assembly.graph.edges ++ [{ link.edge with span := hop.span }] } } := by
  have source : resolve assembly.graph hop.source = .ok link.source := by
    rw [← joins.source] at names known ⊢
    exact resolve_of_mem names.1 known.1
  have target : resolve assembly.graph hop.target = .ok link.target := by
    rw [← joins.target] at names known ⊢
    exact resolve_of_mem names.2 known.2
  have added : assembly.graph.addEdge { link.edge with span := hop.span } =
      .ok { assembly.graph with
        edges := assembly.graph.edges ++ [{ link.edge with span := hop.span }] } :=
    Graph.addEdge_eq_ok_iff.mpr
      ⟨Graph.contains_eq_true.mpr known.1, Graph.contains_eq_true.mpr known.2, rfl⟩
  have spelled : (⟨link.source, link.target, hop.kind, hop.label, hop.span, false⟩ : Edge) =
      { link.edge with span := hop.span } := by
    rw [joins.kind, joins.label]
    rfl
  rw [connect, source, target]
  simp only [spelled, added]

theorem foldl_connect {links : List Link} {hops : List Hop}
    (joins : List.Forall₂ Link.Joins links hops)
    (names : ∀ link ∈ links, IsName link.source.toList ∧ IsName link.target.toList)
    (known : ∀ link ∈ links, link.source ∈ assembly.graph.paths ∧ link.target ∈ assembly.graph.paths) :
    ∃ edges, hops.foldl connect assembly = { assembly with
        graph := { assembly.graph with edges := assembly.graph.edges ++ edges } } ∧
      edges.map Edge.unplaced = links.map Link.edge := by
  induction joins generalizing assembly with
  | nil => exact ⟨[], by simp, rfl⟩
  | @cons link hop links hops joins _ ih =>
    obtain ⟨named, names⟩ := List.forall_mem_cons.mp names
    obtain ⟨here, known⟩ := List.forall_mem_cons.mp known
    have step := connect_of_joins joins named here
    -- an added edge leaves the paths as they were
    have still : ∀ link ∈ links, link.source ∈ (assembly.connect hop).graph.paths ∧
        link.target ∈ (assembly.connect hop).graph.paths := by
      rw [step]
      exact known
    obtain ⟨edges, run, same⟩ := ih names still
    refine ⟨{ link.edge with span := hop.span } :: edges, ?_, ?_⟩
    · rw [List.foldl_cons, run, step]
      simp
    · rw [List.map_cons, List.map_cons, same]
      rfl

structure Grows [Scalar α] (earlier later : Assembly α) (sketches : List Sketch) : Prop where
  title : later.graph.title = earlier.graph.title
  nodes : later.graph.nodes.map Node.unplaced =
    earlier.graph.nodes.map Node.unplaced ++ sketches.map Sketch.node
  edges : later.graph.edges = earlier.graph.edges
  hops : later.hops = earlier.hops
  diagnostics : later.diagnostics = earlier.diagnostics

variable [Scalar α] {first second third : Assembly α} {added more : List Sketch}

theorem Grows.refl (assembly : Assembly α) : Grows assembly assembly [] :=
  ⟨rfl, by simp, rfl, rfl, rfl⟩

theorem Grows.trans (before : Grows first second added) (behind : Grows second third more) :
    Grows first third (added ++ more) where
  title := behind.title.trans before.title
  nodes := by rw [behind.nodes, before.nodes, List.map_append, List.append_assoc]
  edges := behind.edges.trans before.edges
  hops := behind.hops.trans before.hops
  diagnostics := behind.diagnostics.trans before.diagnostics

theorem Grows.paths (grows : Grows first second added) :
    second.graph.paths = first.graph.paths ++ added.map (·.id.path) := by
  rw [Graph.paths_eq, grows.nodes, List.map_append, ← Graph.paths_eq, List.map_map]
  rfl

theorem pending_declare (assembly : Assembly α) (declaration : Declaration) (kind : NodeKind)
    (span : Span) : (assembly.declare declaration kind span).2.pending = assembly.pending := by
  unfold declare
  extract_lets list properties noted id
  split
  next => rfl
  next => split <;> rfl

theorem pending_flush (assembly : Assembly α) : assembly.flush.pending = none := by
  unfold flush
  split
  next none => exact none
  next => exact pending_declare _ _ _ _

theorem flush_of_pending (none : assembly.pending = none) :
    assembly.flush = assembly := by
  rw [flush, none]

variable {heading : Heading} {declaration : Declaration}

theorem grows_declare (declares : heading.Declares declaration) (kind : NodeKind) (span : Span)
    {id : NodeId} (named : id = ⟨assembly.enclosing, heading.name.text⟩)
    (enclosed : ∀ outer, assembly.enclosing = some outer → outer ∈ assembly.graph.paths)
    (fresh : id.path ∉ assembly.graph.paths) :
    (assembly.declare declaration kind span).1 = some id.path ∧
      Grows assembly (assembly.declare declaration kind span).2 [⟨id, kind, heading.properties⟩] := by
  have same : assembly.idOf declaration.name.value = id := by rw [idOf_declared declares, named]
  have read : PropertyList.read ((declaration.properties.map (·.value)).getD "") =
      heading.properties := by
    rw [declares.properties, PropertyList.read_write heading.writable]
  have new : assembly.graph.contains id.path = false := by
    rw [Bool.eq_false_iff, ne_eq, Graph.contains_eq_true]
    exact fresh
  let node : Node α := .declared id kind assembly.enclosing heading.properties span
  have added : assembly.graph.addNode node =
      .ok { assembly.graph with nodes := assembly.graph.nodes ++ [node] } :=
    Graph.addNode_eq_ok_iff.mpr ⟨new, fun outer inside =>
      Graph.contains_eq_true.mpr (enclosed outer inside), rfl⟩
  have absent : assembly.graph.node? id.path = none := by
    rw [Graph.node?, List.find?_eq_none]
    intro other member same
    exact fresh (List.mem_map.mpr ⟨other, member, by simpa using same⟩)
  unfold declare
  extract_lets list properties noted other
  have otherSame : other = id := same
  have notedGraph : noted.graph = assembly.graph := rfl
  rw [otherSame, notedGraph, absent]
  have spelled : (.declared id kind noted.enclosing properties span : Node α) = node := by
    rw [show properties = heading.properties from read]
    rfl
  simp only [spelled, added]
  refine ⟨trivial, rfl, ?_, rfl, rfl, ?_⟩
  · have unplaced : node.unplaced = Sketch.node ⟨id, kind, heading.properties⟩ := by
      have outer : id.outer = assembly.enclosing := by rw [named]
      show node.unplaced = .declared id kind id.outer heading.properties .zero
      rw [outer]
      rfl
    simp [unplaced]
  · simp [diagnostics, noted, Event.diagnostic?]

theorem enclosing_flush (assembly : Assembly α) : assembly.flush.enclosing = assembly.enclosing := by
  rw [enclosing, (sameBodies_flush assembly).bodies, ← enclosing]

structure Awaits (assembly : Assembly α) (outer : Option String) (paths : List String) : Prop where
  around : assembly.enclosing = outer
  known : ∀ path, outer = some path → path ∈ assembly.flush.graph.paths
  distinct : (assembly.flush.graph.paths ++ paths).Nodup

theorem Awaits.grow {earlier later : Assembly α} {outer : Option String} {paths : List String}
    (awaits : Awaits earlier outer (added.map (·.id.path) ++ paths))
    (grows : Grows earlier.flush later.flush added) (bodies : later.bodies = earlier.bodies) :
    Awaits later outer paths := by
  refine ⟨?_, ?_, ?_⟩
  · rw [enclosing, bodies, ← enclosing, awaits.around]
  · intro path inside
    rw [grows.paths]
    exact List.mem_append_left _ (awaits.known path inside)
  · rw [grows.paths, List.append_assoc]
    exact awaits.distinct

theorem Awaits.declare {outer : Option String} {paths : List String}
    (awaits : Awaits assembly outer (NodeId.path ⟨outer, heading.name.text⟩ :: paths))
    (declares : heading.Declares declaration) (kind : NodeKind) (span : Span) :
    (assembly.flush.declare declaration kind span).1 =
        some (NodeId.path ⟨outer, heading.name.text⟩) ∧
      Grows assembly.flush (assembly.flush.declare declaration kind span).2
        [⟨⟨outer, heading.name.text⟩, kind, heading.properties⟩] := by
  have around : assembly.flush.enclosing = outer := (enclosing_flush assembly).trans awaits.around
  apply grows_declare declares kind span
  · rw [around]
  · intro path inside
    exact awaits.known path (around.symm.trans inside)
  · intro taken
    exact (List.nodup_append.mp awaits.distinct).2.2 _ taken _ List.mem_cons_self rfl

/-- A leaf is kept back, and declared when the next line comes. -/
theorem grows_leaf {outer : Option String} {paths : List String} {line : Line}
    (awaits : Awaits assembly outer (NodeId.path ⟨outer, heading.name.text⟩ :: paths))
    (reads : line.statement = .leaf declaration) (declares : heading.Declares declaration) :
    (assembly.process line).bodies = assembly.bodies ∧
      Grows assembly.flush (assembly.process line).flush
        [⟨⟨outer, heading.name.text⟩, .leaf, heading.properties⟩] := by
  have same := (sameBodies_flush assembly).bodies
  have released := released (pending_flush assembly)
  obtain ⟨-, grows⟩ := awaits.declare declares .leaf line.span
  unfold process
  rw [reads]
  refine ⟨same, ?_⟩
  show Grows _ (Assembly.declare { assembly.flush with pending := none } declaration .leaf line.span).2 _
  rw [released]
  exact grows

theorem grows_container {outer : Option String} {paths : List String} {line : Line}
    (awaits : Awaits assembly outer (NodeId.path ⟨outer, heading.name.text⟩ :: paths))
    (opens : line.statement = .containerOpen declaration) (declares : heading.Declares declaration) :
    (assembly.process line).bodies =
        ⟨some (NodeId.path ⟨outer, heading.name.text⟩), line.span⟩ :: assembly.bodies ∧
      Grows assembly.flush (assembly.process line).flush
        [⟨⟨outer, heading.name.text⟩, .container, heading.properties⟩] := by
  have same := (sameBodies_flush assembly).bodies
  have declared := (sameBodies_declare assembly.flush declaration .container line.span).bodies
  obtain ⟨owner, grows⟩ := awaits.declare declares .container line.span
  have pushed : assembly.process line =
      (assembly.flush.declare declaration .container line.span).2.push
        (some (NodeId.path ⟨outer, heading.name.text⟩)) line.span := by
    rw [← owner]
    unfold process
    rw [opens]
    rfl
  have none : (assembly.process line).pending = none := by
    rw [pushed]
    exact (pending_declare _ _ _ _).trans (pending_flush assembly)
  rw [flush_of_pending none, pushed]
  exact ⟨congrArg _ (declared.trans same), grows.title, grows.nodes, grows.edges, grows.hops,
    grows.diagnostics⟩

theorem grows_close {line : Line} {body : OpenBody} {bodies : List OpenBody}
    (closes : line.statement = .containerClose) (inside : assembly.bodies = body :: bodies) :
    (assembly.process line).bodies = bodies ∧ Grows assembly.flush (assembly.process line).flush [] := by
  have same := (sameBodies_flush assembly).bodies.trans inside
  have closed : assembly.process line =
      { assembly.flush with bodies, closed := assembly.flush.closed + 1 } := by
    unfold process
    rw [closes]
    show assembly.flush.close line.span = _
    rw [close, same]
  have none : (assembly.process line).pending = none := by
    rw [closed]
    exact pending_flush assembly
  rw [flush_of_pending none, closed]
  exact ⟨rfl, rfl, by simp, rfl, rfl, rfl⟩

/-- The lines of a forest add its nodes inside the body that is open, and leave that body open. -/
theorem grows_of_spells {forest : Forest} {lines : List Line} (spells : Spells forest lines)
    {assembly : Assembly α} {outer : Option String}
    (awaits : Awaits assembly outer (forest.paths outer)) :
    (lines.foldl process assembly).bodies = assembly.bodies ∧
      Grows assembly.flush (lines.foldl process assembly).flush (forest.sketches outer) := by
  induction spells generalizing assembly outer with
  | empty => exact ⟨rfl, .refl _⟩
  | @leaf heading rest line lines declaration reads declares further ih =>
    obtain ⟨bodies, grows⟩ := grows_leaf awaits reads declares
    obtain ⟨same, more⟩ := ih (awaits.grow grows bodies)
    exact ⟨same.trans bodies, grows.trans more⟩
  | @container heading members rest opening closing inner lines declaration opens declares inside closes
      further ihMembers ihRest =>
    let path := NodeId.path ⟨outer, heading.name.text⟩
    obtain ⟨opened, grows⟩ := grows_container awaits opens declares
    have paths : (Forest.container heading members rest).paths outer =
        path :: (members.paths (some path) ++ rest.paths outer) := by
      simp [Forest.paths, Forest.sketches, path]
    have within : Awaits (assembly.process opening) (some path) (members.paths (some path)) := by
      refine ⟨?_, ?_, ?_⟩
      · rw [enclosing, opened]
        rfl
      · rintro inner ⟨rfl⟩
        rw [grows.paths]
        exact List.mem_append_right _ (List.mem_singleton_self _)
      · have distinct := awaits.distinct
        rw [paths, List.append_cons, ← List.append_assoc] at distinct
        rw [grows.paths]
        exact distinct.of_append_left
    obtain ⟨kept, growsInner⟩ := ihMembers within
    obtain ⟨bodies, closed⟩ := grows_close closes (kept.trans opened)
    have declared := (grows.trans growsInner).trans closed
    rw [List.append_nil] at declared
    have onward : Awaits (Assembly.process (inner.foldl process (assembly.process opening)) closing) outer
        (rest.paths outer) := by
      refine Awaits.grow ?_ declared bodies
      rw [paths] at awaits
      exact awaits
    obtain ⟨same, more⟩ := ihRest onward
    have run : (opening :: inner ++ closing :: lines).foldl process assembly =
        lines.foldl process (Assembly.process (inner.foldl process (assembly.process opening)) closing) := by
      simp
    rw [run]
    exact ⟨same.trans bodies, declared.trans more⟩

theorem flush_of_connects {links : List Link} {lines : List Line}
    (connects : List.Forall₂ Link.Connects links lines) (assembly : Assembly α) :
    ∃ hops, (lines.foldl process assembly).flush =
        { assembly.flush with hops := assembly.flush.hops ++ hops } ∧
      List.Forall₂ Link.Joins links hops := by
  induction connects generalizing assembly with
  | nil => exact ⟨[], by simp, .nil⟩
  | @cons link line links lines connects _ ih =>
    obtain ⟨hop, means, joins⟩ := connects
    have kept : assembly.process line =
        { assembly.flush with hops := assembly.flush.hops ++ [hop] } := by
      unfold process
      rw [means]
    have none : (assembly.process line).pending = none := by
      rw [kept]
      exact pending_flush assembly
    obtain ⟨hops, run, all⟩ := ih (assembly.process line)
    refine ⟨hop :: hops, ?_, .cons joins all⟩
    rw [List.foldl_cons, run, flush_of_pending none, kept]
    simp

end Assembly

namespace Outline

variable [Scalar α]

theorem assemble_text (outline : Outline) : ∃ (nodes : Assembly α) (hops : List Hop),
    assemble outline.text = hops.foldl Assembly.connect nodes ∧
      Assembly.Grows {} nodes (outline.forest.sketches none) ∧
      List.Forall₂ Link.Joins outline.links hops := by
  obtain ⟨declared, connected, spelled, spells, connects⟩ := outline.ofSource_text
  have awaits : Assembly.Awaits ({} : Assembly α) none (outline.forest.paths none) :=
    ⟨rfl, nofun, outline.distinct⟩
  obtain ⟨bodies, grows⟩ := Assembly.grows_of_spells spells awaits
  let nodes : Assembly α := declared.foldl Assembly.process {}
  obtain ⟨hops, kept, joins⟩ := Assembly.flush_of_connects connects nodes
  have closed : nodes.flush.bodies = [] := (Assembly.sameBodies_flush nodes).bodies.trans bodies
  have none : nodes.flush.hops = [] := grows.hops
  -- no body is open and the nodes are those of the declarations, so only the hops are left to resolve
  have run : assemble outline.text =
      hops.foldl Assembly.connect { nodes.flush with bodies := [], hops := [] } := by
    rw [assemble, spelled, Assembly.ofLines, List.foldl_append, Assembly.finish]
    show (List.foldl Assembly.process nodes connected).flush.reportOpen.connectAll = _
    rw [kept]
    simp [Assembly.reportOpen, Assembly.connectAll, closed, none]
  exact ⟨_, hops, run, ⟨grows.title, grows.nodes, grows.edges, rfl, grows.diagnostics⟩, joins⟩

/-- The text of an outline is read as the graph of the outline, without any finding. -/
theorem parse_text (outline : Outline) :
    (parse outline.text : Parsed α).graph.unplaced = outline.graph ∧
      (parse outline.text : Parsed α).diagnostics = [] := by
  obtain ⟨nodes, hops, run, grows, joins⟩ := outline.assemble_text (α := α)
  have known : ∀ link ∈ outline.links,
      link.source ∈ nodes.graph.paths ∧ link.target ∈ nodes.graph.paths := by
    rw [grows.paths]
    exact outline.endpoints
  obtain ⟨edges, connected, same⟩ := Assembly.foldl_connect joins outline.isName_endpoints known
  rw [parse, run, connected]
  refine ⟨?_, grows.diagnostics⟩
  have title : nodes.graph.title = none := grows.title
  have sketched : nodes.graph.nodes.map Node.unplaced =
      (outline.forest.sketches none).map Sketch.node := grows.nodes
  have none : nodes.graph.edges = [] := grows.edges
  rw [Graph.unplaced, graph, title, sketched, none, List.nil_append, same]

def bare (name : Name) : Heading := ⟨name, {}, by decide, nofun, nofun⟩

/-- A container around a leaf and another leaf. The value of the container is full of marks. -/
def markedForest : Forest :=
  .container ⟨⟨"web & api", by decide, by decide, by decide⟩, ⟨[("note", "x; ] // -> \x7b")]⟩, writable⟩
    (.leaf (bare ⟨"db.main-1", by decide, by decide, by decide⟩) .empty)
    (.leaf (bare ⟨"_end", by decide, by decide, by decide⟩) .empty)
where
  writable : PropertyMap.Writable ⟨[("note", "x; ] // -> \x7b")]⟩ := by
    refine ⟨by decide, ?_, by simp [IsQuotable]⟩
    rw [PropertyMap.keys, List.map_singleton, List.forall_mem_singleton]
    exact ⟨by decide, by decide, by simp⟩

def marked : Outline where
  forest := markedForest
  links := [⟨"web & api.db.main-1", "_end", .bidirectional, some "a: \x7bb\x7d # c"⟩]
  distinct := by decide +kernel
  endpoints := by decide +kernel
  labels := by simp [IsQuotable]

theorem parse_marked :
    marked.text = "web & api [note: \"x; ] // -> \x7b\"] \x7b\ndb.main-1 []\n\x7d\n_end []\n" ++
        "web & api.db.main-1 <-> _end: \"a: \x7bb\x7d # c\"\n" ∧
      (parse marked.text : Parsed Float32).graph.unplaced = marked.graph ∧
      (parse marked.text : Parsed Float32).diagnostics = [] :=
  ⟨by decide +kernel, marked.parse_text⟩

end Outline

end BoxDiagram
