import BoxDiagram.Parse
import BoxDiagram.Proofs.BraceMarks
import BoxDiagram.Proofs.WellFormed

/-!
Bodies and braces. A line opens one body, closes one or leaves the open bodies alone, and which of these
it does can be told from what it says. Where each line that was cut off at an opening brace opens a
body, the open bodies are those of the braces that are not matched yet, whatever the lines are.
-/

namespace BoxDiagram

open Line (Brace)

variable {α : Type}

/-- The number of bodies that are open behind braces, when some are open before them and every closing
brace has one to close. -/
def heightAfter : Nat → List Brace → Option Nat
  | height, [] => some height
  | height, .opening :: rest => heightAfter (height + 1) rest
  | 0, .closing :: _ => none
  | height + 1, .closing :: rest => heightAfter height rest

def Balanced (braces : List Brace) : Prop := heightAfter 0 braces = some 0

instance (braces : List Brace) : Decidable (Balanced braces) :=
  inferInstanceAs (Decidable (_ = _))

namespace Diagnostic

def concernsBodies (diagnostic : Diagnostic) : Bool :=
  diagnostic.code == some .unmatchedClose || diagnostic.code == some .unclosedContainer

theorem concernsBodies_ambiguousEndpoint (name : String) (endpoint : Span)
    (candidates : List (String × Span)) :
    (ambiguousEndpoint name endpoint candidates).concernsBodies = false := by
  unfold ambiguousEndpoint
  extract_lets choices base
  have labelled : ∀ diagnostic : Diagnostic, diagnostic.concernsBodies = false →
      (candidates.foldl (fun diagnostic candidate =>
        diagnostic.withSecondaryLabel candidate.2 "candidate") diagnostic).concernsBodies = false := by
    induction candidates with
    | nil => exact fun _ silent => silent
    | cons candidate others ih => exact fun _ silent => ih _ silent
  exact labelled base rfl

end Diagnostic

/-- A malformed line says nothing about bodies. -/
theorem Statement.concernsBodies_of_malformed {line : List Char} {start : Nat}
    {diagnostic : Diagnostic} (malformed : classify line start = .malformed diagnostic) :
    diagnostic.concernsBodies = false := by
  have reads := reads_classify line start
  rw [malformed] at reads
  cases reads <;> rfl

def Line.IsRead (line : Line) : Prop := ∃ body start, line.statement = Statement.classify body start

theorem Line.exists_piece_of_mem {source : String} {line : Line} (member : line ∈ Line.ofSource source) :
    ∃ physical ∈ Text.physicalLines source.toList, ∃ start text,
      .statement text ∈ Line.pieces physical ∧ Line.ofText? start text = some line := by
  have several (start : Nat) (pieces : List Line.Piece) (found : line ∈ Line.ofPieces start pieces) :
      ∃ start text, .statement text ∈ pieces ∧ Line.ofText? start text = some line := by
    induction pieces generalizing start with
    | nil => simp [Line.ofPieces] at found
    | cons piece others ih =>
      have later (start : Nat) (found : line ∈ Line.ofPieces start others) :
          ∃ start text, .statement text ∈ piece :: others ∧ Line.ofText? start text = some line := by
        obtain ⟨place, text, listed, same⟩ := ih start found
        exact ⟨place, text, List.mem_cons_of_mem _ listed, same⟩
      cases piece with
      | statement text =>
        rcases List.mem_append.mp found with here | behind
        · exact ⟨_, _, List.mem_cons_self, Option.mem_toList.mp here⟩
        · exact later _ behind
      | separator => exact later _ found
      | remark words => exact later _ found
  have all (start : Nat) (physicals : List (List Char))
      (found : line ∈ Line.ofPhysicalLines start physicals) :
      ∃ physical ∈ physicals, ∃ start text,
        .statement text ∈ Line.pieces physical ∧ Line.ofText? start text = some line := by
    induction physicals generalizing start with
    | nil => simp [Line.ofPhysicalLines] at found
    | cons physical others ih =>
      rcases List.mem_append.mp found with here | behind
      · exact ⟨physical, List.mem_cons_self, several _ _ here⟩
      · obtain ⟨other, listed, made⟩ := ih _ behind
        exact ⟨other, List.mem_cons_of_mem _ listed, made⟩
  exact all _ _ member

theorem Line.exists_ofText?_of_mem {source : String} {line : Line} (member : line ∈ Line.ofSource source) :
    ∃ start text, Line.ofText? start text = some line := by
  obtain ⟨-, -, start, text, -, found⟩ := Line.exists_piece_of_mem member
  exact ⟨start, text, found⟩

theorem Line.reads_of_mem {source : String} {line : Line} (member : line ∈ Line.ofSource source) :
    ∃ body ≠ [], ∃ start, line.span = Span.ofLength start (Text.byteLength body) ∧
      line.statement = Statement.classify body start := by
  obtain ⟨start, text, found⟩ := Line.exists_ofText?_of_mem member
  unfold Line.ofText? at found
  extract_lets body first at found
  split at found
  next => cases found
  next inhabited =>
    cases found
    exact ⟨body, inhabited, first, rfl, rfl⟩

theorem Line.isRead_of_mem {source : String} {line : Line} (member : line ∈ Line.ofSource source) :
    line.IsRead := by
  obtain ⟨body, -, start, -, same⟩ := Line.reads_of_mem member
  exact ⟨body, start, same⟩

namespace Assembly

def bodyFindings (assembly : Assembly α) : List Diagnostic :=
  assembly.diagnostics.filter Diagnostic.concernsBodies

theorem bodyFindings_report {assembly : Assembly α} {diagnostic : Diagnostic}
    (silent : diagnostic.concernsBodies = false) :
    (assembly.report diagnostic).bodyFindings = assembly.bodyFindings := by
  simp [bodyFindings, silent]

structure SameBodies (earlier later : Assembly α) : Prop where
  bodies : later.bodies = earlier.bodies
  findings : later.bodyFindings = earlier.bodyFindings

theorem SameBodies.refl (assembly : Assembly α) : SameBodies assembly assembly := ⟨rfl, rfl⟩

theorem SameBodies.trans {first second third : Assembly α} (before : SameBodies first second)
    (behind : SameBodies second third) : SameBodies first third :=
  ⟨behind.bodies.trans before.bodies, behind.findings.trans before.findings⟩

theorem SameBodies.report {earlier later : Assembly α} (same : SameBodies earlier later)
    {diagnostic : Diagnostic} (silent : diagnostic.concernsBodies = false) :
    SameBodies earlier (later.report diagnostic) :=
  ⟨same.bodies, (bodyFindings_report silent).trans same.findings⟩

theorem sameBodies_connect (assembly : Assembly α) (hop : Hop) :
    SameBodies assembly (assembly.connect hop) := by
  have unresolved {graph : Graph α} {endpoint : Located String} {diagnostic : Diagnostic}
      (failed : resolve graph endpoint = .error diagnostic) : diagnostic.concernsBodies = false := by
    unfold resolve at failed
    extract_lets name at failed
    split at failed
    next => cases failed
    next =>
      split at failed
      next =>
        cases failed
        rfl
      next => cases failed
      next =>
        cases failed
        exact Diagnostic.concernsBodies_ambiguousEndpoint _ _ _
  unfold connect
  split
  next =>
    split
    next => exact ⟨rfl, rfl⟩
    next => exact .refl assembly
  next source target => exact ((SameBodies.refl assembly).report (unresolved source)).report (unresolved target)
  next source _ => exact (SameBodies.refl assembly).report (unresolved source)
  next _ target => exact (SameBodies.refl assembly).report (unresolved target)

def Opens (earlier later : Assembly α) : Prop :=
  (∃ body, later.bodies = body :: earlier.bodies) ∧ later.bodyFindings = earlier.bodyFindings

theorem SameBodies.push {earlier later : Assembly α} (same : SameBodies earlier later)
    (owner : Option String) (span : Span) : Opens earlier (later.push owner span) :=
  ⟨⟨⟨owner, span⟩, congrArg _ same.bodies⟩, same.findings⟩

inductive Shifts (earlier : Assembly α) : Option Brace → Assembly α → Prop where
  | still {later : Assembly α} (same : SameBodies earlier later) : Shifts earlier none later
  | opening {later : Assembly α} (opens : Opens earlier later) : Shifts earlier (some .opening) later
  | closing {later : Assembly α} {body : OpenBody} (closes : earlier.bodies = body :: later.bodies)
      (findings : later.bodyFindings = earlier.bodyFindings) : Shifts earlier (some .closing) later
  | unmatched {later : Assembly α} (before : earlier.bodies = []) (behind : later.bodies = []) :
      Shifts earlier (some .closing) later

variable [Scalar α]

theorem sameBodies_declare (assembly : Assembly α) (declaration : Declaration) (kind : NodeKind)
    (span : Span) : SameBodies assembly (assembly.declare declaration kind span).2 := by
  unfold declare
  extract_lets list properties noted id
  have told : SameBodies assembly noted := by
    refine ⟨rfl, ?_⟩
    have silent : ((PropertyList.keyless list).map Event.keyless).filterMap Event.diagnostic? = [] := by
      simp [Event.diagnostic?]
    simp [bodyFindings, diagnostics, noted, silent]
  split
  next existing _ =>
    have merged : SameBodies noted { noted with graph := noted.graph.mergeProperties id.path properties } :=
      ⟨rfl, rfl⟩
    exact told.trans (merged.report rfl)
  next =>
    split
    next => exact ⟨told.bodies, told.findings⟩
    next => exact told

theorem sameBodies_flush (assembly : Assembly α) : SameBodies assembly assembly.flush := by
  unfold flush
  split
  next => exact .refl assembly
  next declaration span _ =>
    have released : SameBodies assembly { assembly with pending := none } := ⟨rfl, rfl⟩
    exact released.trans (sameBodies_declare _ declaration .leaf span)

theorem opens_openContainer (assembly : Assembly α) (declaration : Declaration) (span : Span) :
    Opens assembly (assembly.openContainer declaration span) :=
  (sameBodies_declare assembly declaration .container span).push _ span

theorem shifts_process (assembly : Assembly α) {line : Line} (isRead : line.IsRead) :
    Shifts assembly line.statement.brace? (assembly.process line) := by
  have flushed := sameBodies_flush assembly
  have noted : SameBodies assembly (assembly.note (.ignored line.text)) :=
    ⟨rfl, by simp [bodyFindings, diagnostics, note, Event.diagnostic?]⟩
  unfold process
  cases said : line.statement with
  | blockOpen =>
    refine .opening ?_
    dsimp only
    split
    next declaration span _ =>
      exact opens_openContainer { assembly with pending := none } declaration (span.union line.span)
    next => exact ((SameBodies.refl assembly).report rfl).push none line.span
  | comment => exact .still noted
  | ignorable => exact .still noted
  | containerOpen declaration =>
    obtain ⟨opened, findings⟩ := opens_openContainer assembly.flush declaration line.span
    rw [flushed.bodies] at opened
    exact .opening ⟨opened, findings.trans flushed.findings⟩
  | leaf declaration => exact .still ⟨flushed.bodies, flushed.findings⟩
  | containerClose =>
    have same := flushed.bodies
    dsimp only
    unfold close
    split
    next empty => exact .unmatched (same.symm.trans empty) empty
    next body bodies inhabited => exact .closing (same.symm.trans inhabited) flushed.findings
  | connection hops => exact .still ⟨flushed.bodies, flushed.findings⟩
  | title text => exact .still ⟨flushed.bodies, flushed.findings⟩
  | malformed diagnostic =>
    obtain ⟨body, start, same⟩ := isRead
    exact .still (flushed.report (Statement.concernsBodies_of_malformed (same.symm.trans said)))

theorem parent_declare {assembly : Assembly α} {declaration : Declaration} {kind : NodeKind}
    {span : Span} {node : Node α}
    (member : node ∈ (assembly.declare declaration kind span).2.graph.nodes)
    (new : assembly.graph.contains node.path = false) : node.parent = assembly.enclosing := by
  unfold declare at member
  extract_lets list properties noted id at member
  split at member
  next =>
    obtain ⟨earlier, listed, rfl⟩ := List.mem_map.mp member
    have known : noted.graph.contains earlier.path = true := Graph.contains_iff.mpr ⟨earlier, listed, rfl⟩
    split at new <;> exact absurd (known.symm.trans new) (by decide)
  next =>
    split at member
    next graph added =>
      obtain ⟨-, -, rfl⟩ := Graph.addNode_eq_ok_iff.mp added
      rcases List.mem_append.mp member with earlier | last
      · have known : noted.graph.contains node.path = true := Graph.contains_iff.mpr ⟨node, earlier, rfl⟩
        exact absurd (known.symm.trans new) (by decide)
      · rw [List.mem_singleton.mp last]
        rfl
    next =>
      have known : noted.graph.contains node.path = true := Graph.contains_iff.mpr ⟨node, member, rfl⟩
      exact absurd (known.symm.trans new) (by decide)

def takeIn (assembly : Assembly α) (entries : List (Line × Option Brace)) : Assembly α :=
  (entries.map Prod.fst).foldl process assembly

/-- Where what the lines say goes with the braces that cut them off, the bodies that they open and close
are counted by those braces, and the bodies around stay as they are. -/
theorem bodies_takeIn {entries : List (Line × Option Brace)}
    (isRead : ∀ entry ∈ entries, entry.1.IsRead)
    (goes : ∀ entry ∈ entries, entry.1.statement.brace? = entry.2) {assembly : Assembly α}
    {own base : List OpenBody} {height : Nat} (around : assembly.bodies = own ++ base)
    (ends : heightAfter own.length (entries.filterMap Prod.snd) = some height) :
    ∃ left, (assembly.takeIn entries).bodies = left ++ base ∧ left.length = height ∧
      (assembly.takeIn entries).bodyFindings = assembly.bodyFindings := by
  induction entries generalizing assembly own with
  | nil =>
    simp only [List.filterMap_nil, heightAfter, Option.some.injEq] at ends
    exact ⟨own, around, ends, rfl⟩
  | cons entry entries ih =>
    obtain ⟨line, mark⟩ := entry
    obtain ⟨lineRead, isRead⟩ := List.forall_mem_cons.mp isRead
    obtain ⟨lineGoes, goes⟩ := List.forall_mem_cons.mp goes
    have shifts := shifts_process assembly lineRead
    rw [lineGoes] at shifts
    -- The same run from the state behind the line.
    have onward (own : List OpenBody) (behind : (assembly.process line).bodies = own ++ base)
        (findings : (assembly.process line).bodyFindings = assembly.bodyFindings)
        (rest : heightAfter own.length (entries.filterMap Prod.snd) = some height) :
        ∃ left, (assembly.takeIn ((line, mark) :: entries)).bodies = left ++ base ∧
          left.length = height ∧
          (assembly.takeIn ((line, mark) :: entries)).bodyFindings = assembly.bodyFindings := by
      rw [← findings]
      exact ih isRead goes behind rest
    generalize assembly.process line = later at shifts onward
    cases shifts with
    | still same => exact onward own (same.bodies.trans around) same.findings (by simpa using ends)
    | opening opens =>
      obtain ⟨⟨body, pushed⟩, findings⟩ := opens
      rw [around] at pushed
      exact onward (body :: own) pushed findings (by simpa [heightAfter] using ends)
    | closing closes findings =>
      cases own with
      | nil => simp [heightAfter] at ends
      | cons body own =>
        rw [around] at closes
        obtain ⟨-, same⟩ := List.cons.inj closes
        exact onward own same.symm findings (by simpa [heightAfter] using ends)
    | unmatched before _ =>
      obtain ⟨rfl, -⟩ := List.append_eq_nil_iff.mp (around.symm.trans before)
      simp [heightAfter] at ends

theorem bodies_takeIn_balanced {entries : List (Line × Option Brace)}
    (isRead : ∀ entry ∈ entries, entry.1.IsRead)
    (goes : ∀ entry ∈ entries, entry.1.statement.brace? = entry.2)
    (balanced : Balanced (entries.filterMap Prod.snd)) (assembly : Assembly α) :
    SameBodies assembly (assembly.takeIn entries) := by
  have start : assembly.bodies = [] ++ assembly.bodies := rfl
  obtain ⟨left, bodies, none, findings⟩ := bodies_takeIn isRead goes start balanced
  rw [List.length_eq_zero_iff.mp none] at bodies
  exact ⟨bodies, findings⟩

theorem bodyFindings_finish {assembly : Assembly α} (closed : assembly.bodies = []) :
    assembly.finish.bodyFindings = assembly.bodyFindings := by
  have flushed := sameBodies_flush assembly
  have connected : SameBodies assembly.flush.reportOpen assembly.finish :=
    List.foldlRecOn (motive := SameBodies assembly.flush.reportOpen) _ _ ⟨rfl, rfl⟩
      fun _ same hop _ => same.trans (sameBodies_connect _ hop)
  have none : assembly.flush.reportOpen.bodyFindings = assembly.flush.bodyFindings := by
    simp [bodyFindings, diagnostics, reportOpen, flushed.bodies, closed]
  rw [connected.findings, none, flushed.findings]

end Assembly

open Assembly Line

/-- Every line that was cut off at an opening brace says that it opens a body. -/
def OpensBodies (source : String) : Prop :=
  ∀ entry ∈ bracedLines source, entry.2 = some .opening → entry.1.statement.brace? = some .opening

instance (source : String) : Decidable (OpensBodies source) :=
  inferInstanceAs (Decidable (∀ entry ∈ _, _))

def behind [Scalar α] (entries : List (Line × Option Brace)) : Assembly α := takeIn {} entries

theorem isRead_of_mem_bracedLines {source : String} {entry : Line × Option Brace}
    (member : entry ∈ bracedLines source) : entry.1.IsRead := by
  have line : entry.1 ∈ ofSource source := by
    rw [← bracedLines_fst]
    exact List.mem_map_of_mem member
  exact Line.isRead_of_mem line

theorem OpensBodies.goes {source : String} (opens : OpensBodies source) :
    ∀ entry ∈ bracedLines source, entry.1.statement.brace? = entry.2 := by
  intro entry member
  rcases follows_bracedLines source entry member with same | ⟨mark, -⟩
  · exact same
  · rw [mark]
    exact opens entry member mark

section Matching

variable (α) [Scalar α] {source : String} {before inside more after : List (Line × Option Brace)}
variable {opened closed : Line}

theorem OpensBodies.pushes (opens : OpensBodies source)
    (whole : bracedLines source = before ++ (opened, some .opening) :: after) :
    ∃ body, ((behind before : Assembly α).process opened).bodies =
      body :: (behind before : Assembly α).bodies := by
  have member : (opened, some Brace.opening) ∈ bracedLines source := by simp [whole]
  have shifts := shifts_process (behind before : Assembly α) (isRead_of_mem_bracedLines member)
  rw [opens.goes _ member] at shifts
  cases shifts with
  | opening opens => exact opens.1

theorem opensBodies_of_pushes
    (pushes : ∀ before opened after,
      bracedLines source = before ++ (opened, some .opening) :: after →
        ∃ body, ((behind before : Assembly α).process opened).bodies =
          body :: (behind before : Assembly α).bodies) : OpensBodies source := by
  rintro ⟨line, mark⟩ member rfl
  obtain ⟨before, after, whole⟩ := List.append_of_mem member
  obtain ⟨body, pushed⟩ := pushes before line after whole
  have shifts := shifts_process (behind before : Assembly α) (isRead_of_mem_bracedLines member)
  rcases follows_bracedLines source _ member with same | ⟨-, silent⟩
  · exact same
  · rw [silent] at shifts
    cases shifts with
    | still same => simp [same.bodies] at pushed

/-- A closing brace closes the body of the brace that it matches. -/
theorem OpensBodies.closes (opens : OpensBodies source)
    (whole : bracedLines source =
      before ++ (opened, some .opening) :: inside ++ (closed, some .closing) :: after)
    (balanced : Balanced (inside.filterMap Prod.snd)) :
    ∃ body, ((behind before : Assembly α).process opened).bodies =
        body :: (behind before : Assembly α).bodies ∧
      (behind (before ++ (opened, some .opening) :: inside) : Assembly α).bodies =
        body :: (behind before : Assembly α).bodies ∧
      ((behind (before ++ (opened, some .opening) :: inside) : Assembly α).process closed).bodies =
        (behind before : Assembly α).bodies := by
  have within : ∀ entry ∈ inside, entry ∈ bracedLines source := by
    intro entry member
    simp [whole, member]
  have last : (closed, some Brace.closing) ∈ bracedLines source := by simp [whole]
  have cut : bracedLines source =
      before ++ (opened, some .opening) :: (inside ++ (closed, some .closing) :: after) := by
    simpa using whole
  obtain ⟨body, pushed⟩ := opens.pushes α cut
  have kept := bodies_takeIn_balanced (fun entry member => isRead_of_mem_bracedLines (within entry member))
    (fun entry member => opens.goes entry (within entry member)) balanced
    ((behind before : Assembly α).process opened)
  have spelled : (behind (before ++ (opened, some .opening) :: inside) : Assembly α) =
      ((behind before).process opened).takeIn inside := by
    simp [behind, takeIn]
  rw [← spelled] at kept
  have inner := kept.bodies.trans pushed
  refine ⟨body, pushed, inner, ?_⟩
  have shifts := shifts_process (behind (before ++ (opened, some .opening) :: inside) : Assembly α)
    (isRead_of_mem_bracedLines last)
  rw [opens.goes _ last] at shifts
  generalize (Assembly.process _ closed : Assembly α) = later at shifts ⊢
  cases shifts with
  | closing closes _ =>
    rw [inner] at closes
    exact (List.cons.inj closes).2.symm
  | unmatched none _ =>
    rw [inner] at none
    cases none

theorem OpensBodies.silent (opens : OpensBodies source) (balanced : Balanced (braces source)) :
    (assemble source : Assembly α).bodyFindings = [] := by
  rw [← bracedLines_snd] at balanced
  have run := bodies_takeIn_balanced (fun entry => isRead_of_mem_bracedLines) opens.goes balanced
    ({} : Assembly α)
  have spelled : (assemble source : Assembly α) = (takeIn {} (bracedLines source)).finish := by
    rw [assemble, ofLines, takeIn, bracedLines_fst]
  rw [spelled, bodyFindings_finish run.bodies, run.findings]
  rfl

end Matching

/-- Each opening brace opens a body exactly when its line says so. If all of them do, a closing brace
closes the body of the brace that it matches; behind it the bodies around are open as before, also for
what is declared there; and balanced braces give no finding about bodies. -/
theorem bodies_match_braces [Scalar α] (source : String) :
    (OpensBodies source ↔ ∀ before opened after,
      bracedLines source = before ++ (opened, some .opening) :: after →
        ∃ body, ((behind before : Assembly α).process opened).bodies =
          body :: (behind before : Assembly α).bodies) ∧
    (OpensBodies source →
      (∀ before opened inside closed more after, bracedLines source =
          before ++ (opened, some .opening) :: inside ++ (closed, some .closing) :: (more ++ after) →
        Balanced (inside.filterMap Prod.snd) → Balanced (more.filterMap Prod.snd) →
        let outer : Assembly α := behind before
        let inner : Assembly α := behind (before ++ (opened, some .opening) :: inside)
        let last : Assembly α := (inner.process closed).takeIn more
        (∃ body, (outer.process opened).bodies = body :: outer.bodies ∧
          inner.bodies = body :: outer.bodies ∧ (inner.process closed).bodies = outer.bodies) ∧
        ∀ declaration kind span, ∀ node ∈ (last.declare declaration kind span).2.graph.nodes,
          last.graph.contains node.path = false → node.parent = outer.enclosing) ∧
      (Balanced (braces source) → ∀ diagnostic ∈ (parse source : Parsed α).diagnostics,
        diagnostic.code ≠ some .unmatchedClose ∧ diagnostic.code ≠ some .unclosedContainer)) := by
  refine ⟨⟨fun opens before opened after => opens.pushes α, opensBodies_of_pushes α⟩, ?_⟩
  intro opens
  refine ⟨?_, ?_⟩
  · intro before opened inside closed more after whole balanced moreBalanced outer inner last
    obtain ⟨body, pushed, kept, closes⟩ := opens.closes α whole balanced
    refine ⟨⟨body, pushed, kept, closes⟩, ?_⟩
    have within : ∀ entry ∈ more, entry ∈ bracedLines source := by
      intro entry member
      simp [whole, member]
    have same := bodies_takeIn_balanced
      (fun entry member => isRead_of_mem_bracedLines (within entry member))
      (fun entry member => opens.goes entry (within entry member)) moreBalanced
      (inner.process closed)
    intro declaration kind span node member new
    rw [parent_declare member new, enclosing, enclosing, same.bodies, closes]
  · intro balanced diagnostic member
    have silent := opens.silent α balanced
    rw [bodyFindings, List.filter_eq_nil_iff] at silent
    simpa [Diagnostic.concernsBodies] using silent diagnostic member

theorem closedBody_matched :
    OpensBodies "A \x7b\nB [x: 1]\n\x7d; C [y: 2]" ∧
    Balanced (braces "A \x7b\nB [x: 1]\n\x7d; C [y: 2]") ∧
    ∀ diagnostic ∈ (parse "A \x7b\nB [x: 1]\n\x7d; C [y: 2]" : Parsed Float32).diagnostics,
      diagnostic.code ≠ some .unmatchedClose ∧ diagnostic.code ≠ some .unclosedContainer :=
  ⟨by decide +kernel, by decide +kernel,
    ((bodies_match_braces _).2 (by decide +kernel)).2 (by decide +kernel)⟩

/-- The brace behind a list without a name opens no body, though the braces are balanced: the body
around is closed in its place, and what follows is declared outside of it. -/
theorem namelessList_spares_brace :
    Balanced (braces "Box [a: b] \x7b\n[c: d] \x7b\n\x7d\nB [y: 2]\n\x7d") ∧
    ¬OpensBodies "Box [a: b] \x7b\n[c: d] \x7b\n\x7d\nB [y: 2]\n\x7d" ∧
    ((parse "Box [a: b] \x7b\n[c: d] \x7b\n\x7d\nB [y: 2]\n\x7d" : Parsed Float32).diagnostics.map
      (·.code)) = [some .missingName, some .unmatchedClose] ∧
    ((parse "Box [a: b] \x7b\n[c: d] \x7b\n\x7d\nB [y: 2]\n\x7d" : Parsed Float32).graph.nodes.map
      fun node => (node.path, node.parent)) = [("Box", none), ("B", none)] := by
  refine ⟨?_, ?_, ?_, ?_⟩ <;> decide +kernel

end BoxDiagram
