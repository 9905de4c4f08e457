import BoxDiagram.Proofs.OpenBodies

/-!
What is found about the lines of a source one by one: what is wrong with a malformed line, and a brace on
a line of its own that no leaf waits for. Each such finding is marked inside its own line, so no two of
them are the same.
-/

namespace BoxDiagram

open Text

namespace Statement

def isLeaf : Statement → Bool
  | .leaf _ => true
  | _ => false

theorem diagnose_of_malformed {line : List Char} {start : Nat} {diagnostic : Diagnostic}
    (malformed : classify line start = .malformed diagnostic) :
    diagnose line start = .malformed diagnostic := by
  unfold classify at malformed
  split at malformed
  all_goals try cases malformed
  split at malformed
  next =>
    dsimp only at malformed
    split at malformed <;> cases malformed
  next =>
    split at malformed
    next => cases malformed
    next =>
      split at malformed
      next => cases malformed
      next => cases malformed
      next => exact malformed

end Statement

namespace Diagnostic

def concernsLine (diagnostic : Diagnostic) : Bool :=
  diagnostic.code == some .malformedList || diagnostic.code == some .missingName ||
    diagnostic.code == some .malformedConnection

def BeginsIn (diagnostic : Diagnostic) (span : Span) : Prop :=
  ∃ place, diagnostic.primarySpan = some place ∧ span.start ≤ place.start ∧ place.start < span.stop

def PlacedBefore (first second : Diagnostic) : Prop :=
  ∃ before behind, first.primarySpan = some before ∧ second.primarySpan = some behind ∧
    before.start < behind.start

theorem PlacedBefore.ne {first second : Diagnostic} (placed : first.PlacedBefore second) :
    first ≠ second := by
  rintro rfl
  obtain ⟨before, behind, found, again, less⟩ := placed
  rw [found] at again
  cases again
  exact Nat.lt_irrefl _ less

theorem BeginsIn.placedBefore {first second : Diagnostic} {earlier later : Span}
    (firstIn : first.BeginsIn earlier) (secondIn : second.BeginsIn later)
    (apart : earlier.stop ≤ later.start) : first.PlacedBefore second := by
  obtain ⟨before, found, -, ends⟩ := firstIn
  obtain ⟨behind, also, begins, -⟩ := secondIn
  exact ⟨before, behind, found, also, by omega⟩

end Diagnostic

namespace Statement

variable {line : List Char} {start : Nat} {diagnostic : Diagnostic}

theorem byteLength_beforeBracket? {before : List Char}
    (found : Grammar.beforeBracket? line = some before) : byteLength before < byteLength line := by
  unfold Grammar.beforeBracket? at found
  split at found
  next bracketed =>
    cases found
    obtain ⟨bracket, member, isBracket⟩ := List.any_eq_true.mp bracketed
    have rest : line.dropWhile (fun char => !(char == '[' || char == ']')) ≠ [] := by
      rw [ne_eq, List.dropWhile_eq_nil_iff]
      intro plain
      have other := plain bracket member
      rw [isBracket] at other
      cases other
    have positive := byteLength_pos rest
    have parts := congrArg byteLength (List.takeWhile_append_dropWhile
      (p := fun char => !(char == '[' || char == ']')) (l := line))
    rw [byteLength_append] at parts
    omega
  next => cases found

theorem missingName_ne_strayBlock (line span : Span) :
    Diagnostic.missingName line ≠ .strayBlock span := by
  intro same
  have messages : ("declaration is missing a node name" : String) =
      "`\x7b` does not follow a node declaration" := congrArg Diagnostic.message same
  revert messages
  decide

/-- What is wrong with a line is placed inside of it, and is no stray brace. -/
theorem placed_of_malformed (inhabited : line ≠ [])
    (malformed : classify line start = .malformed diagnostic) :
    diagnostic.BeginsIn (Span.ofLength start (byteLength line)) ∧ diagnostic.concernsLine = true ∧
      ∀ span, diagnostic ≠ .strayBlock span := by
  have long : 0 < byteLength line := byteLength_pos inhabited
  have whole : start < start + byteLength line := by omega
  have malformed := diagnose_of_malformed malformed
  unfold diagnose at malformed
  extract_lets span at malformed
  split at malformed
  next =>
    cases malformed
    exact ⟨⟨span, rfl, Nat.le_refl _, whole⟩, rfl, missingName_ne_strayBlock span⟩
  next =>
    split at malformed
    next =>
      cases malformed
      exact ⟨⟨span, rfl, Nat.le_refl _, whole⟩, rfl, fun _ same => by cases same⟩
    next =>
      split at malformed
      next before found =>
        cases malformed
        have inside := byteLength_beforeBracket? found
        refine ⟨⟨_, rfl, Nat.le_add_right _ _, ?_⟩, rfl, fun _ same => by cases same⟩
        exact Nat.add_lt_add_left inside start
      next => cases malformed

end Statement

/-- The last thing that is said by some lines, comments and lines that mean nothing left aside. -/
def lastSaid (lines : List Line) : Option Statement :=
  ((lines.map (·.statement)).filter (!·.isIgnorable)).getLast?

/-- Behind some lines a leaf may still get a body. -/
def leafWaits (lines : List Line) : Bool := (lastSaid lines).any Statement.isLeaf

namespace Line

/-- The line is a brace alone, and no leaf waits for it behind the lines before. -/
def isStray (before : List Line) (line : Line) : Bool :=
  line.statement = .blockOpen && !leafWaits before

def findings (before : List Line) (line : Line) : List Diagnostic :=
  match line.statement with
  | .malformed diagnostic => [diagnostic]
  | _ => if line.isStray before then [.strayBlock line.span] else []

theorem pairwise_findings (line : Line) (before : List Line) :
    (line.findings before).Pairwise Diagnostic.PlacedBefore := by
  unfold findings
  split
  · exact List.pairwise_singleton _ _
  · split
    · exact List.pairwise_singleton _ _
    · exact .nil

end Line

def strayLines (lines : List Line) : List Line :=
  (lines.zipIdx.filter fun (line, index) => line.isStray (lines.take index)).map Prod.fst

/-- The finding that a name is missing, other than what is wrong with a malformed line. -/
def Diagnostic.missesName (lines : List Line) (diagnostic : Diagnostic) : Bool :=
  diagnostic.code = some .missingName &&
    !(lines.any fun line => line.statement = .malformed diagnostic)

theorem Diagnostic.concernsLine_of_missesName {lines : List Line} {diagnostic : Diagnostic}
    (misses : diagnostic.missesName lines = true) : diagnostic.concernsLine = true := by
  simp only [missesName, Bool.and_eq_true, decide_eq_true_eq] at misses
  simp [concernsLine, misses.1]

def lineFindings (lines : List Line) : List Diagnostic :=
  lines.zipIdx.flatMap fun (line, index) => line.findings (lines.take index)

/-- What is kept of the results for the entries of a list, when something is kept for some of them. -/
theorem filter_flatMap_eq {β γ : Type} {entries : List β} {results : β → List γ} {keeps : γ → Bool}
    {chosen : β → Bool} {result : β → γ}
    (each : ∀ entry ∈ entries, (results entry).filter keeps =
      if chosen entry then [result entry] else []) :
    (entries.flatMap results).filter keeps = (entries.filter chosen).map result := by
  induction entries with
  | nil => rfl
  | cons entry rest ih =>
    obtain ⟨here, each⟩ := List.forall_mem_cons.mp each
    rw [List.flatMap_cons, List.filter_append, here, ih each, List.filter_cons]
    split <;> rfl

theorem leafWaits_concat (lines : List Line) (line : Line) :
    leafWaits (lines ++ [line]) =
      if line.statement.isIgnorable then leafWaits lines else line.statement.isLeaf := by
  unfold leafWaits lastSaid
  rw [List.map_append, List.filter_append]
  cases ignorable : line.statement.isIgnorable <;> simp [ignorable]

theorem lineFindings_concat (lines : List Line) (line : Line) :
    lineFindings (lines ++ [line]) = lineFindings lines ++ line.findings lines := by
  have earlier : ∀ entry ∈ lines.zipIdx, entry.1.findings ((lines ++ [line]).take entry.2) =
      entry.1.findings (lines.take entry.2) := by
    intro entry member
    have within := (List.getElem?_eq_some_iff.mp (List.mk_mem_zipIdx_iff_getElem?.mp member)).1
    rw [List.take_append_of_le_length within.le]
  unfold lineFindings
  rw [List.zipIdx_append, List.flatMap_append, List.flatMap_congr earlier]
  simp

section Source

variable {source : String}

theorem beginsIn_findings {line : Line} (member : line ∈ Line.ofSource source) {before : List Line}
    {diagnostic : Diagnostic} (found : diagnostic ∈ line.findings before) :
    diagnostic.BeginsIn line.span ∧ diagnostic.concernsLine = true := by
  obtain ⟨body, inhabited, start, place, same⟩ := Line.reads_of_mem member
  unfold Line.findings at found
  split at found
  next said =>
    rw [List.mem_singleton.mp found, place]
    obtain ⟨begins, concerns, -⟩ := Statement.placed_of_malformed inhabited (same.symm.trans said)
    exact ⟨begins, concerns⟩
  next =>
    split at found
    next =>
      have long := byteLength_pos inhabited
      rw [List.mem_singleton.mp found]
      refine ⟨⟨line.span, rfl, Nat.le_refl _, ?_⟩, rfl⟩
      rw [place]
      exact Nat.lt_add_of_pos_right long
    next => cases found

theorem concernsLine_of_mem_lineFindings {diagnostic : Diagnostic}
    (found : diagnostic ∈ lineFindings (Line.ofSource source)) : diagnostic.concernsLine = true := by
  obtain ⟨entry, member, own⟩ := List.mem_flatMap.mp found
  exact (beginsIn_findings (List.fst_mem_of_mem_zipIdx member) own).2

/-- The findings about the lines of a source are placed one behind the other. -/
theorem pairwise_lineFindings (source : String) :
    (lineFindings (Line.ofSource source)).Pairwise Diagnostic.PlacedBefore := by
  have apart := (Line.laid_ofSource source).pairwise
  rw [← List.zipIdx_map_fst 0 (Line.ofSource source), List.pairwise_map] at apart
  have listed : ∀ entry ∈ (Line.ofSource source).zipIdx, entry.1 ∈ Line.ofSource source :=
    fun _ member => List.fst_mem_of_mem_zipIdx member
  refine List.pairwise_flatMap.mpr ⟨?_, ?_⟩
  · rintro ⟨line, index⟩ -
    exact line.pairwise_findings _
  · refine apart.imp_of_mem ?_
    intro earlier later earlierListed laterListed ends first firstFound second secondFound
    exact (beginsIn_findings (listed _ earlierListed) firstFound).1.placedBefore
      (beginsIn_findings (listed _ laterListed) secondFound).1 ends

theorem count_lineFindings {line : Line} (member : line ∈ Line.ofSource source)
    {diagnostic : Diagnostic} (malformed : line.statement = .malformed diagnostic) :
    (lineFindings (Line.ofSource source)).count diagnostic = 1 := by
  have distinct : (lineFindings (Line.ofSource source)).Nodup :=
    (pairwise_lineFindings source).imp Diagnostic.PlacedBefore.ne
  obtain ⟨index, found⟩ := List.mem_iff_getElem?.mp member
  have entry := List.mk_mem_zipIdx_iff_getElem?.mpr found
  refine List.count_eq_one_of_mem distinct (List.mem_flatMap.mpr ⟨_, entry, ?_⟩)
  simp [Line.findings, malformed]

theorem filter_findings {line : Line} (member : line ∈ Line.ofSource source) (before : List Line) :
    (line.findings before).filter (Diagnostic.missesName (Line.ofSource source)) =
      if line.isStray before then [.strayBlock line.span] else [] := by
  have foreign : ∀ other ∈ Line.ofSource source,
      other.statement ≠ .malformed (.strayBlock line.span) := by
    intro other listed same
    obtain ⟨body, inhabited, start, -, reads⟩ := Line.reads_of_mem listed
    exact (Statement.placed_of_malformed inhabited (reads.symm.trans same)).2.2 _ rfl
  unfold Line.findings
  split
  next diagnostic said =>
    have known : ∃ other ∈ Line.ofSource source, other.statement = .malformed diagnostic :=
      ⟨line, member, said⟩
    simp [Line.isStray, Diagnostic.missesName, said, known]
  next =>
    split
    next =>
      have named : (Diagnostic.strayBlock line.span).code = some .missingName := rfl
      simpa [Diagnostic.missesName, named] using foreign
    next => rfl

/-- The findings of a missing name, those of malformed lines apart, are one for each stray brace. -/
theorem filter_lineFindings (source : String) :
    (lineFindings (Line.ofSource source)).filter (Diagnostic.missesName (Line.ofSource source)) =
      (strayLines (Line.ofSource source)).map fun line => .strayBlock line.span := by
  unfold lineFindings strayLines
  rw [List.map_map]
  exact filter_flatMap_eq fun entry member =>
    filter_findings (List.fst_mem_of_mem_zipIdx member) _

end Source

end BoxDiagram
