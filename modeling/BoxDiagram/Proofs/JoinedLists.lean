import BoxDiagram.Proofs.Commas
import BoxDiagram.Proofs.MergedDeclarations

/-!
Property lists with a comma between them. If the first one ends outside of quotes and brackets, the comma
separates properties and the lists are read one by one. So it makes no difference whether a node is given
its properties in one list or is declared again with the rest of them.
-/

namespace BoxDiagram

variable {α : Type}

namespace PropertyList

variable {first second : String}

/-- A comma outside of every run ends an entry, and what is behind it is cut as if it stood alone. -/
theorem entriesFrom_join {run : Run} {before : List Char} (closed : before.foldl Run.next run = .plain)
    (behind : List Char) :
    entriesFrom run (before ++ ',' :: behind) = entriesFrom run before ++ entriesFrom .plain behind := by
  induction before generalizing run with
  | nil =>
    obtain rfl : run = .plain := closed
    rfl
  | cons char rest ih =>
    rw [List.cons_append, entriesFrom, entriesFrom]
    by_cases separates : run = .plain ∧ char = ','
    · obtain ⟨rfl, rfl⟩ := separates
      have onward : rest.foldl Run.next .plain = .plain := closed
      rw [if_pos ⟨rfl, rfl⟩, if_pos ⟨rfl, rfl⟩, ih onward, List.cons_append]
    · obtain ⟨entry, entries, cut⟩ := List.exists_cons_of_ne_nil (entriesFrom_ne_nil (run.next char) rest)
      rw [if_neg separates, if_neg separates, ih closed, cut]
      rfl

theorem items_join (closed : runAfter first.toList = .plain) (second : String) :
    items (first ++ "," ++ second) = items first ++ items second := by
  have cut : entries (first ++ "," ++ second).toList = entries first.toList ++ entries second.toList := by
    simp only [entries_eq_entriesFrom, String.toList_append, List.append_assoc]
    exact entriesFrom_join closed second.toList
  rw [items, cut, List.filterMap_append]
  rfl

theorem pairs_join (closed : runAfter first.toList = .plain) (second : String) :
    pairs (first ++ "," ++ second) = pairs first ++ pairs second := by
  rw [pairs, items_join closed, List.filterMap_append]
  rfl

theorem read_eq_merge (closed : runAfter first.toList = .plain) (second : String) :
    read (first ++ "," ++ second) = (read first).merge (read second) := by
  have merged := (merges_read first).merge (merges_read second)
  rw [← pairs_join closed] at merged
  exact merged.unique (merges_read _)

theorem merge_join {properties : PropertyMap} {earlier : List (String × String)}
    (merges : properties.Merges earlier) (closed : runAfter first.toList = .plain) (second : String) :
    (properties.merge (read first)).merge (read second) =
      properties.merge (read (first ++ "," ++ second)) := by
  have joined := merges.merge (merges_read (first ++ "," ++ second))
  rw [pairs_join closed, ← List.append_assoc] at joined
  exact joined.unique ((merges.merge (merges_read first)).merge (merges_read second))

end PropertyList

namespace Graph

variable {graph : Graph α} {path : String}

theorem node?_mergeProperties (graph : Graph α) (path : String) (later : PropertyMap) :
    (graph.mergeProperties path later).node? path =
      (graph.node? path).map (·.mergeProperties later) := by
  have asked : ((fun node : Node α => decide (node.path = path)) ∘ fun node =>
      if node.path = path then node.mergeProperties later else node) =
        fun node => decide (node.path = path) := by
    funext node
    rw [Function.comp_apply]
    split <;> rfl
  unfold mergeProperties modifyNode node?
  rw [List.find?_map, asked]
  refine Option.map_congr fun node found => ?_
  have same : node.path = path := by simpa using List.find?_some found
  rw [if_pos same]

theorem mergeProperties_mergeProperties (path : String) {first second whole : PropertyMap}
    (same : ∀ node ∈ graph.nodes, node.path = path →
      (node.properties.merge first).merge second = node.properties.merge whole) :
    (graph.mergeProperties path first).mergeProperties path second =
      graph.mergeProperties path whole := by
  simp only [mergeProperties, modifyNode, List.map_map]
  congr 1
  refine List.map_congr_left fun node member => ?_
  rw [Function.comp_apply]
  by_cases asked : node.path = path
  · have merged : (node.mergeProperties first).path = path := asked
    rw [if_pos asked, if_pos merged, if_pos asked]
    exact congrArg (fun properties => { node with properties }) (same node member asked)
  · rw [if_neg asked, if_neg asked, if_neg asked]

theorem mergeProperties_append (absent : graph.node? path = none) {node : Node α} (own : node.path = path)
    (later : PropertyMap) :
    mergeProperties { graph with nodes := graph.nodes ++ [node] } path later =
      { graph with nodes := graph.nodes ++ [node.mergeProperties later] } := by
  have others : ∀ other ∈ graph.nodes, other.path ≠ path := by simpa [node?] using absent
  simp only [mergeProperties, modifyNode, List.map_append, List.map_singleton, if_pos own]
  congr 2
  refine (List.map_congr_left fun other member => ?_).trans (List.map_id' _)
  rw [if_neg (others other member)]

end Graph

namespace Assembly

variable [Scalar α] {assembly : Assembly α} (declaration : Declaration) (kind : NodeKind) (span : Span)

theorem graph_declare_known {existing : Node α}
    (known : assembly.graph.node? (assembly.idOf declaration.name.value).path = some existing) :
    (assembly.declare declaration kind span).2.graph =
      assembly.graph.mergeProperties (assembly.idOf declaration.name.value).path
        (PropertyList.read declaration.list) := by
  rw [declare_known kind span known]

theorem Sound.graph_declare_new (sound : assembly.Sound)
    (new : assembly.graph.node? (assembly.idOf declaration.name.value).path = none) :
    (assembly.declare declaration kind span).2.graph =
      { assembly.graph with
        nodes := assembly.graph.nodes ++ [.declared (assembly.idOf declaration.name.value) kind
          assembly.enclosing (PropertyList.read declaration.list) span] } := by
  rw [declare_new kind span new, sound.addNode_declared new]

/-- A declaration opens no body, so the names behind it are declared where it was. -/
theorem idOf_declare (name : String) :
    (assembly.declare declaration kind span).2.idOf name = assembly.idOf name := by
  unfold idOf enclosing
  rw [(sameBodies_declare assembly declaration kind span).bodies]

end Assembly

/-- A node that is declared again comes out as if its two lists had been written as one. -/
theorem Ledger.Records.graph_declare_join [Scalar α] {ledger : Ledger} {assembly : Assembly α}
    (records : ledger.Records assembly) (sound : assembly.Sound) {whole front back : Declaration}
    (name : whole.name.value = front.name.value) (again : back.name.value = front.name.value)
    (list : whole.list = front.list ++ "," ++ back.list)
    (closed : PropertyList.runAfter front.list.toList = .plain) (kind other : NodeKind)
    (span later : Span) :
    ((assembly.declare front kind span).2.declare back other later).2.graph =
      (assembly.declare whole kind span).2.graph := by
  have id : (assembly.declare front kind span).2.idOf back.name.value =
      assembly.idOf front.name.value := by rw [again, Assembly.idOf_declare]
  cases known : assembly.graph.node? (assembly.idOf front.name.value).path with
  | some existing =>
    have first := Assembly.graph_declare_known front kind span known
    have found := assembly.graph.node?_mergeProperties (assembly.idOf front.name.value).path
      (PropertyList.read front.list)
    rw [known, ← first, ← id, Option.map_some] at found
    rw [Assembly.graph_declare_known back other later found, id, first,
      Assembly.graph_declare_known whole kind span (name ▸ known), name, list]
    refine Graph.mergeProperties_mergeProperties _ fun node member _ => ?_
    exact PropertyList.merge_join (records.lists.nodes node member).properties closed back.list
  | none =>
    have first := sound.graph_declare_new front kind span known
    have found : (assembly.declare front kind span).2.graph.node?
        ((assembly.declare front kind span).2.idOf back.name.value).path =
          some (.declared (assembly.idOf front.name.value) kind assembly.enclosing
            (PropertyList.read front.list) span) := by
      rw [id, first, Graph.node?, List.find?_append, ← Graph.node?, known]
      simp [Node.declared, Node.path]
    rw [Assembly.graph_declare_known back other later found, id, first,
      sound.graph_declare_new whole kind span (name ▸ known), name, list,
      PropertyList.read_eq_merge closed]
    exact Graph.mergeProperties_append known rfl _

namespace PropertyList

/-- Behind a list that ends outside of quotes and brackets a comma and another list come to merging the
other list: keys that are there keep their place and take the new value, and new keys follow in their own
order. Behind any lines, a node that is declared with the one list and again with the other is the one
that is declared with both lists in one. -/
theorem read_join [Scalar α] {first : String} (closed : runAfter first.toList = .plain)
    (second : String) :
    let joined := first ++ "," ++ second
    read joined = (read first).merge (read second) ∧
    (read joined).keys = (read first).keys ++ (read second).keys.filter (· ∉ (read first).keys) ∧
    (∀ key, (read joined).get? key = ((read second).get? key).or ((read first).get? key)) ∧
    ∀ (lines : List Line) (front back whole : Declaration), front.list = first → back.list = second →
      whole.list = joined → back.name.value = front.name.value → whole.name.value = front.name.value →
        ∀ (kind other : NodeKind) (span later : Span),
          let here : Assembly α := (lines.foldl Assembly.process {}).flush
          ((here.declare front kind span).2.declare back other later).2.graph =
            (here.declare whole kind span).2.graph := by
  intro joined
  have merged : read joined = (read first).merge (read second) := read_eq_merge closed second
  refine ⟨merged, ?_, ?_, ?_⟩
  · rw [merged]
    exact (merges_read first).keys_merge (merges_read second)
  · rw [merged]
    exact (merges_read first).get?_merge (merges_read second)
  · rintro lines front back whole rfl rfl list again name kind other span later here
    have sound : here.Sound := (Assembly.sound_foldl_process lines).flush
    exact (Ledger.records_ofLines lines).graph_declare_join sound name again list closed kind other span
      later

theorem read_join_quoted :
    let first := "a: \"x, y\", b: [p, q], a: z"
    let second := "d, b: 1, : lost"
    let declare (list : String) : Declaration := ⟨⟨"A", .zero⟩, some ⟨list, .zero⟩⟩
    let here : Assembly Float32 := ((Line.ofSource "Box \x7b").foldl Assembly.process {}).flush
    runAfter first.toList = .plain ∧
      (read (first ++ "," ++ second)).entries = [("a", "z"), ("b", "1"), ("d", "")] ∧
      ((here.declare (declare first) .leaf .zero).2.declare (declare second) .container .zero).2.graph =
        (here.declare (declare (first ++ "," ++ second)) .leaf .zero).2.graph := by
  intro first second declare here
  have closed : runAfter first.toList = .plain := by decide
  obtain ⟨merged, -, -, redeclared⟩ := read_join (α := Float32) closed second
  refine ⟨closed, ?_, redeclared (Line.ofSource "Box \x7b") (declare first) (declare second)
    (declare (first ++ "," ++ second)) rfl rfl rfl rfl rfl .leaf .container .zero .zero⟩
  rw [merged]
  decide +kernel

/-- A comma inside of a quoted run that is still open separates nothing. -/
example : (read "a: \"x,b: 1").entries = [("a", "\"x,b: 1")] := by decide +kernel

end PropertyList

end BoxDiagram
