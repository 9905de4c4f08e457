import BoxDiagram.Containment
import BoxDiagram.Proofs.Ancestry
import BoxDiagram.Proofs.RankLayers

/-!
The list of scopes. Going through the depths lists the containers as a stable sort by depth does, from
which it follows that every scope is listed once, and the scope of a container before the scope that has
the container as a member. When only containers hold nodes, every node is in a listed scope, and the
layers of each listed scope part its members by rank.
-/

namespace BoxDiagram

section Sorting

variable {β : Type} (key : β → Nat)

theorem append_inj_of_test (test : β → Bool) {before behind first second : List β}
    (same : before ++ behind = first ++ second)
    (passed : ∀ value ∈ before ++ first, test value = true)
    (failed : ∀ value ∈ behind ++ second, test value = false) :
    before = first ∧ behind = second := by
  have kept (values : List β) (within : values ⊆ before ++ first) : values.filter test = values :=
    List.filter_eq_self.mpr fun value member => passed value (within member)
  have dropped (values : List β) (within : values ⊆ behind ++ second) : values.filter test = [] :=
    List.filter_eq_nil_iff.mpr fun value member => by simp [failed value (within member)]
  have fronts := congrArg (List.filter test) same
  rw [List.filter_append, List.filter_append, kept before (by simp), kept first (by simp),
    dropped behind (by simp), dropped second (by simp), List.append_nil, List.append_nil] at fronts
  exact ⟨fronts, List.append_cancel_left (fronts ▸ same)⟩

theorem flatMap_filter_cons {keys : List Nat} {value : β} (other : ∀ each ∈ keys, key value ≠ each)
    (rest : List β) :
    (keys.flatMap fun each => (value :: rest).filter (key · = each)) =
      keys.flatMap fun each => rest.filter (key · = each) := by
  simp only [List.flatMap_def]
  congr 1
  exact List.map_congr_left fun each member =>
    List.filter_cons_of_neg (by simpa using other each member)

theorem trans_decreasing (first second third : β)
    (upper : decide (key second ≤ key first) = true)
    (lower : decide (key third ≤ key second) = true) : decide (key third ≤ key first) = true :=
  decide_eq_true ((of_decide_eq_true lower).trans (of_decide_eq_true upper))

theorem total_decreasing (first second : β) :
    (decide (key second ≤ key first) || decide (key first ≤ key second)) = true := by
  simpa using Nat.le_total (key second) (key first)

theorem pairwise_mergeSort_decreasing (values : List β) :
    (values.mergeSort fun first second => key second ≤ key first).Pairwise
      fun first second => key second ≤ key first := by
  simpa only [decide_eq_true_eq] using
    List.pairwise_mergeSort (trans_decreasing key) (total_decreasing key) values

/-- Going through the keys from the greatest one on is the stable sort by them. -/
theorem flatMap_filter_eq_mergeSort {keys : List Nat} (decreasing : keys.Pairwise (· > ·))
    {values : List β} (within : ∀ value ∈ values, key value ∈ keys) :
    (keys.flatMap fun each => values.filter (key · = each)) =
      values.mergeSort fun first second => key second ≤ key first := by
  induction values with
  | nil => simp
  | cons value rest ih =>
    obtain ⟨here, within⟩ := List.forall_mem_cons.mp within
    obtain ⟨before, after, rfl⟩ := List.append_of_mem here
    obtain ⟨-, onward, apart⟩ := List.pairwise_append.mp decreasing
    have above : ∀ each ∈ before, key value < each := fun each member =>
      apart each member (key value) List.mem_cons_self
    have below : ∀ each ∈ after, each < key value := (List.pairwise_cons.mp onward).1
    -- A stable sort puts the new value in front of those of its own key and of the lesser ones.
    obtain ⟨greater, others, sorted, restSorted, strict⟩ := List.mergeSort_cons
      (trans_decreasing key) (total_decreasing key) value rest
    have ordered := pairwise_mergeSort_decreasing key (value :: rest)
    have split := (ih within).trans restSorted
    rw [sorted] at ordered ⊢
    have least := (List.pairwise_cons.mp (List.pairwise_append.mp ordered).2.1).1
    rw [List.flatMap_append, List.flatMap_cons] at split ⊢
    rw [flatMap_filter_cons key fun each member => Nat.ne_of_lt (above each member),
      flatMap_filter_cons key fun each member => Nat.ne_of_gt (below each member),
      List.filter_cons_of_pos (by simp)]
    obtain ⟨fronts, backs⟩ := append_inj_of_test (key value < key ·) split
      (by
        simp only [List.mem_append, List.mem_flatMap, List.mem_filter, decide_eq_true_eq]
        rintro other (⟨_, early, -, rfl⟩ | early)
        · exact above _ early
        · simpa using strict other early)
      (by
        simp only [List.mem_append, List.mem_flatMap, List.mem_filter, decide_eq_true_eq,
          decide_eq_false_iff_not, Nat.not_lt]
        rintro other ((⟨-, same⟩ | ⟨_, late, -, rfl⟩) | late)
        · exact Nat.le_of_eq same
        · exact Nat.le_of_lt (below _ late)
        · exact least other late)
    rw [fronts, List.cons_append, backs]

end Sorting

variable {α : Type}

namespace Graph

def LeavesEmpty (graph : Graph α) : Prop :=
  ∀ outer ∈ graph.nodes, ∀ inner ∈ graph.nodes, inner.parent = some outer.path →
    outer.isContainer = true

structure Contained (graph : Graph α) : Prop where
  wellFormed : graph.WellFormed
  leavesEmpty : graph.LeavesEmpty

variable {graph : Graph α}

theorem mem_members_iff {container : Option String} {node : Node α} :
    node ∈ graph.members container ↔ node ∈ graph.nodes ∧ node.parent = container := by
  simp [members]

theorem mem_scope_iff {container : Option String} {path : String} :
    path ∈ (graph.scope container).members ↔
      ∃ node ∈ graph.nodes, node.parent = container ∧ node.path = path := by
  simp only [scope, List.mem_map, mem_members_iff]
  exact ⟨fun ⟨node, ⟨member, inside⟩, same⟩ => ⟨node, member, inside, same⟩,
    fun ⟨node, member, inside, same⟩ => ⟨node, ⟨member, inside⟩, same⟩⟩

theorem WellFormed.nodup_scope (wellFormed : graph.WellFormed) (container : Option String) :
    (graph.scope container).members.Nodup :=
  wellFormed.nodup_paths.sublist (List.filter_sublist.map Node.path)

theorem isFilled_of_inside {outer inner : Node α} (isContainer : outer.isContainer = true)
    (member : inner ∈ graph.nodes) (inside : inner.parent = some outer.path) :
    graph.isFilled outer = true := by
  have found : inner ∈ graph.members (some outer.path) := mem_members_iff.mpr ⟨member, inside⟩
  simp [isFilled, isContainer, List.ne_nil_of_mem found]

theorem depth_mem_depths {node : Node α} (member : node ∈ graph.nodes) :
    graph.depth node.path ∈ graph.depths := by
  rw [depths, List.mem_reverse, List.mem_range]
  have listed : graph.depth node.path ∈ graph.nodes.map fun node => graph.depth node.path :=
    List.mem_map.mpr ⟨node, member, rfl⟩
  exact Nat.lt_succ_of_le (Ranking.le_foldl_max_of_mem listed 0)

theorem pairwise_depths : graph.depths.Pairwise (· > ·) := by
  rw [depths, List.pairwise_reverse]
  exact List.pairwise_lt_range

/-- The containers are listed as a stable sort by depth lists them, deepest first. -/
theorem scopes_eq_mergeSort (graph : Graph α) :
    graph.scopes =
      ((graph.nodes.filter graph.isFilled).mergeSort fun first second =>
        graph.depth second.path ≤ graph.depth first.path).map
          (fun container => graph.scope (some container.path)) ++
        if graph.roots.isEmpty then [] else [graph.scope none] := by
  have bucket (depth : Nat) : graph.filledAt depth =
      (graph.nodes.filter graph.isFilled).filter (graph.depth ·.path = depth) := by
    simp only [filledAt, List.filter_filter, Bool.and_comm]
  rw [← flatMap_filter_eq_mergeSort (fun node : Node α => graph.depth node.path) graph.pairwise_depths
    fun node member => depth_mem_depths (List.mem_of_mem_filter member), List.map_flatMap]
  simp only [scopes, bucket]

theorem mem_scopes_iff {scope : Scope} :
    scope ∈ graph.scopes ↔
      (∃ node ∈ graph.nodes, graph.isFilled node = true ∧ scope = graph.scope (some node.path)) ∨
        graph.roots ≠ [] ∧ scope = graph.scope none := by
  rw [scopes_eq_mergeSort, List.mem_append]
  apply or_congr
  · simp only [List.mem_map, List.mem_mergeSort, List.mem_filter, and_assoc, eq_comm]
  · cases graph.roots <;> simp

theorem scope_container {scope : Scope} (listed : scope ∈ graph.scopes) :
    graph.scope scope.container = scope := by
  rcases mem_scopes_iff.mp listed with ⟨node, -, -, rfl⟩ | ⟨-, rfl⟩ <;> rfl

theorem mem_members_of_listed {scope : Scope} (listed : scope ∈ graph.scopes) {path : String} :
    path ∈ scope.members ↔
      ∃ node ∈ graph.nodes, node.parent = scope.container ∧ node.path = path := by
  rw [← scope_container listed]
  exact mem_scope_iff

theorem members_ne_nil {scope : Scope} (listed : scope ∈ graph.scopes) : scope.members ≠ [] := by
  rcases mem_scopes_iff.mp listed with ⟨node, member, filled, rfl⟩ | ⟨inhabited, rfl⟩
  · simpa [Graph.scope, isFilled] using (Bool.and_eq_true_iff.mp filled).2
  · simpa [Graph.scope, members, roots] using inhabited

def StandsInScope (graph : Graph α) (node : Node α) : Prop :=
  node.parent = none ∨
    ∃ parent ∈ graph.nodes, node.parent = some parent.path ∧ parent.isContainer = true

/-- The scopes of the nodes that stand in one are those that are listed. -/
theorem scope_mem_scopes_iff {node : Node α} (member : node ∈ graph.nodes) :
    graph.scope node.parent ∈ graph.scopes ↔ graph.StandsInScope node := by
  rw [mem_scopes_iff]
  constructor
  · rintro (⟨parent, parentMember, filled, same⟩ | ⟨-, same⟩)
    · have isContainer := (Bool.and_eq_true_iff.mp filled).1
      exact .inr ⟨parent, parentMember, congrArg Scope.container same, isContainer⟩
    · exact .inl (congrArg Scope.container same)
  · rintro (outermost | ⟨parent, parentMember, inside, isContainer⟩)
    · have root : node ∈ graph.roots := by simpa [roots] using ⟨member, outermost⟩
      exact .inr ⟨List.ne_nil_of_mem root, by rw [outermost]⟩
    · exact .inl ⟨parent, parentMember, isFilled_of_inside isContainer member inside, by rw [inside]⟩

theorem WellFormed.scope_listed (wellFormed : graph.WellFormed) (leavesEmpty : graph.LeavesEmpty)
    {node : Node α} (member : node ∈ graph.nodes) : graph.scope node.parent ∈ graph.scopes := by
  refine (scope_mem_scopes_iff member).mpr ?_
  cases inside : node.parent with
  | none => exact .inl inside
  | some outer =>
    obtain ⟨parent, parentMember, rfl⟩ := wellFormed.parent_mem member inside
    exact .inr ⟨parent, parentMember, inside, leavesEmpty parent parentMember node member inside⟩

def ListedBefore (earlier later : Scope) : Prop :=
  earlier.container ≠ later.container ∧
    ∀ container, later.container = some container → container ∉ earlier.members

theorem WellFormed.listedBefore (wellFormed : graph.WellFormed) {deep shallow : Node α}
    (deepMember : deep ∈ graph.nodes) (different : deep.path ≠ shallow.path)
    (order : graph.depth shallow.path ≤ graph.depth deep.path) :
    ListedBefore (graph.scope (some deep.path)) (graph.scope (some shallow.path)) := by
  refine ⟨fun same => different (Option.some.inj same), ?_⟩
  intro container same inside
  cases same
  obtain ⟨node, member, parent, path⟩ := mem_scope_iff.mp inside
  have deeper := wellFormed.depth_inner member deepMember parent
  rw [path] at deeper
  omega

/-- Every scope is listed once, and inner scopes before outer ones. -/
theorem WellFormed.pairwise_scopes (wellFormed : graph.WellFormed) :
    graph.scopes.Pairwise ListedBefore := by
  let filled := graph.nodes.filter graph.isFilled
  let deepestFirst := filled.mergeSort fun first second =>
    graph.depth second.path ≤ graph.depth first.path
  have sorted := pairwise_mergeSort_decreasing (fun node : Node α => graph.depth node.path) filled
  have distinct : filled.Pairwise fun left right => left.path ≠ right.path :=
    (List.pairwise_map.mp wellFormed.nodup_paths).sublist List.filter_sublist
  have apart : deepestFirst.Pairwise fun left right => left.path ≠ right.path :=
    (List.mergeSort_perm filled _).symm.pairwise distinct fun different => different.symm
  rw [scopes_eq_mergeSort, List.pairwise_append, List.pairwise_map]
  refine ⟨(sorted.and apart).imp_of_mem ?_, ?_, ?_⟩
  · intro deep shallow deepListed _ ordered
    have member := List.mem_of_mem_filter (List.mem_mergeSort.mp deepListed)
    exact wellFormed.listedBefore member ordered.2 ordered.1
  · split <;> simp
  · intro first firstFound second secondFound
    obtain ⟨node, -, rfl⟩ := List.mem_map.mp firstFound
    split at secondFound
    · cases secondFound
    · rw [List.mem_singleton.mp secondFound]
      exact ⟨by simp [scope], by simp [scope]⟩

def addLayers (graph : Graph α) (ranking : Ranking) (sweeps : Nat) (layering : Layering)
    (scope : Scope) : Layering :=
  match scope.container with
  | some container =>
    { layering with
      containers := layering.containers ++ [(container, graph.scopeLayers ranking sweeps scope)] }
  | none => { layering with root := graph.scopeLayers ranking sweeps scope }

theorem layering_eq (graph : Graph α) (ranking : Ranking) (sweeps : Nat) :
    graph.layering ranking sweeps = graph.scopes.foldl (graph.addLayers ranking sweeps) {} := rfl

variable {ranking : Ranking} {sweeps : Nat}

theorem containers_foldl_addLayers (scopes : List Scope)
    (known : ∀ scope ∈ scopes, graph.scope scope.container = scope) (layering : Layering) :
    (scopes.foldl (graph.addLayers ranking sweeps) layering).containers =
      layering.containers ++ (scopes.filterMap Scope.container).map fun container =>
        (container, graph.scopeLayers ranking sweeps (graph.scope (some container))) := by
  induction scopes generalizing layering with
  | nil => simp
  | cons scope rest ih =>
    rw [List.foldl_cons, ih fun other later => known other (List.mem_cons_of_mem _ later)]
    have same := known scope List.mem_cons_self
    cases inside : scope.container with
    | none => simp [addLayers, inside]
    | some container =>
      rw [inside] at same
      simp [addLayers, inside, same]

theorem root_foldl_addLayers (scopes : List Scope)
    (known : ∀ scope ∈ scopes, graph.scope scope.container = scope) (layering : Layering)
    (listed : layering.root = graph.scopeLayers ranking sweeps (graph.scope none) ∨
      graph.scope none ∈ scopes) :
    (scopes.foldl (graph.addLayers ranking sweeps) layering).root =
      graph.scopeLayers ranking sweeps (graph.scope none) := by
  induction scopes generalizing layering with
  | nil => simpa using listed
  | cons scope rest ih =>
    apply ih fun other later => known other (List.mem_cons_of_mem _ later)
    have same := known scope List.mem_cons_self
    cases inside : scope.container with
    | none =>
      rw [inside] at same
      simp [addLayers, inside, same]
    | some container =>
      have other : graph.scope none ≠ scope := by
        intro equal
        rw [← equal] at inside
        cases inside
      simpa [addLayers, inside, other] using listed

theorem layersOf_layering {scope : Scope} (listed : scope ∈ graph.scopes) :
    (graph.layering ranking sweeps).layersOf scope.container =
      graph.scopeLayers ranking sweeps scope := by
  have known : ∀ scope ∈ graph.scopes, graph.scope scope.container = scope :=
    fun _ => scope_container
  have same := known scope listed
  rw [layering_eq]
  cases inside : scope.container with
  | none =>
    rw [inside] at same
    rw [← same] at listed ⊢
    exact root_foldl_addLayers graph.scopes known {} (.inr listed)
  | some container =>
    have found : container ∈ graph.scopes.filterMap Scope.container :=
      List.mem_filterMap.mpr ⟨scope, listed, inside⟩
    rw [inside] at same
    rw [Layering.layersOf, containers_foldl_addLayers graph.scopes known, List.nil_append,
      Ranking.lookup_map found, Option.getD_some, same]

/-- The layerings that a placement is made with: one that is swept for the ranking, or none. -/
def OrderedFor (graph : Graph α) (ranking : Ranking) (layering : Layering) : Prop :=
  layering = {} ∨ ∃ sweeps, layering = graph.layering ranking sweeps

/-- The layers that a listed scope is placed by part its members by rank. -/
theorem OrderedFor.rankLayers {layering : Layering} (ordered : graph.OrderedFor ranking layering)
    {scope : Scope} (listed : scope ∈ graph.scopes) :
    RankLayers ranking.rankOf scope.members (Placement.layersOf layering ranking scope) := by
  have fallback : RankLayers ranking.rankOf scope.members
      (Placement.groupByRank ranking.rankOf scope.members) := by
    rw [Layers.groupByRank_eq_byRank]
    exact Layers.rankLayers_byRank ranking.rankOf scope.members
  unfold Placement.layersOf
  rcases ordered with rfl | ⟨sweeps, rfl⟩
  · have unlisted : (Layering.layersOf {} scope.container).layers = [] := by
      cases scope.container <;> rfl
    rw [unlisted]
    exact fallback
  · rw [layersOf_layering listed]
    split
    · exact fallback
    · exact Layers.rankLayers_ofMembers ranking.rankOf scope.members _ sweeps

end Graph

end BoxDiagram
