import BoxDiagram.Proofs.PhysicalLines
import BoxDiagram.Proofs.Relocation

/-!
Comments are inert. A physical line that begins with a comment mark is one logical line, and a comment.
The other lines do not see it but for the places of those behind it, so nothing comes of it: neither the
leaf that waits for its brace, nor an open body, nor a quote or a bracket that was left open on a line
before takes notice. All that changes is where things stand.
-/

namespace BoxDiagram

open Text

variable {α : Type}

/-- Behind a place, bytes are put in; what stands up to the place stays. -/
def makeRoom (place length : Nat) : Nat →o Nat where
  toFun byte := if place < byte then byte + length else byte
  monotone' first second le := by
    dsimp only
    split <;> split <;> omega

namespace Line

def Marked (words : List Char) : Prop := words.head? = some '#' ∨ ∃ more, words = '/' :: '/' :: more

section Comments

variable {words : List Char} (marked : Marked words)
include marked

/-- No character of a comment cuts it. -/
theorem pieces_comment : pieces words = [.statement words] := by
  rcases marked with hash | ⟨more, rfl⟩
  · obtain ⟨more, rfl⟩ := List.head?_eq_some_iff.mp hash
    simp [pieces, Scan.pieces, Scan.step, Scan.isBlank, Scan.text]
  · simp [pieces, Scan.pieces, Scan.step, Scan.isBlank, Scan.text, Scan.admitsRemark]

theorem ofText?_comment (start : Nat) :
    ∃ line, ofText? start words = some line ∧ line.statement = .comment := by
  have blank : ∀ char ∈ ([] : List Char), isBlank char = true := List.forall_mem_nil _
  rcases marked with hash | ⟨more, rfl⟩
  · obtain ⟨more, rfl⟩ := List.head?_eq_some_iff.mp hash
    have kept : trim ('#' :: more) = _ := trim_append_cons more blank (by decide)
    exact ⟨_, by simp [ofText?, kept]; rfl, rfl⟩
  · have kept : trim ('/' :: '/' :: more) = '/' :: '/' :: trimEnd more := by
      rw [← trimEnd_cons (by decide)]
      exact trim_append_cons ('/' :: more) blank (by decide)
    exact ⟨_, by simp [ofText?, kept]; rfl, rfl⟩

theorem ofPhysicalLines_comment (single : '\n' ∉ words) (start : Nat) :
    ∃ line, ofPhysicalLines start (physicalLines words) = [line] ∧ line.statement = .comment := by
  have whole := physicalLines_of_notMem single
  obtain ⟨line, found, comment⟩ := ofText?_comment marked start
  refine ⟨line, ?_, comment⟩
  simp [whole, ofPhysicalLines, pieces_comment marked, ofPieces, found]

end Comments

theorem relocate_before (source : String) (length : Nat) :
    (ofSource source).map (relocate (makeRoom source.utf8ByteSize length)) = ofSource source := by
  -- Lines that are not moved at all are moved by nothing.
  have still : ∀ line ∈ ofSource source, line.shift 0 = line := by
    have all : (ofSource source).map (shift 0) = (ofSource source).map id :=
      (shift_ofPhysicalLines 0 0 (physicalLines source.toList)).trans (List.map_id _).symm
    exact fun line member => List.map_inj_left.mp all line member
  refine (List.map_congr_left fun line member => ?_).trans (List.map_id _)
  have fixed : ∀ span ∈ line.spans,
      (span.shift 0).relocate (makeRoom source.utf8ByteSize length) = span.shift 0 := by
    intro span inside
    have stop := stop_le_of_mem member inside
    have start := span.start_le_stop.trans stop
    exact Span.relocate_shift (if_neg (by omega)) (if_neg (by omega))
  have same := Line.relocate_shift fixed
  rwa [still line member] at same

theorem relocate_behind (lines : List Line) (place length : Nat) :
    (lines.map (shift (place + 1))).map (relocate (makeRoom place length)) =
      lines.map (shift (place + length + 1)) := by
  rw [List.map_map]
  refine List.map_congr_left fun line _ => Line.relocate_shift fun span _ => ?_
  have moved (byte : Nat) : makeRoom place length (byte + (place + 1)) = byte + (place + length + 1) := by
    have behind : place < byte + (place + 1) := by omega
    exact (if_pos behind).trans (by omega)
  exact Span.relocate_shift (moved _) (moved _)

/-- With a comment between two texts there is one line more, and those behind it are further right. -/
theorem ofSource_comment (before behind : String) {words : String} (marked : Marked words.toList)
    (single : '\n' ∉ words.toList) :
    ∃ comment, comment.statement = .comment ∧
      ofSource (before ++ "\n" ++ words ++ "\n" ++ behind) = ofSource before ++ comment ::
        ((ofSource behind).map (shift (before.utf8ByteSize + 1))).map
          (relocate (makeRoom before.utf8ByteSize ("\n" ++ words).utf8ByteSize)) := by
  obtain ⟨comment, alone, means⟩ := ofPhysicalLines_comment marked single 0
  have line : ofSource words = [comment] := alone
  have size : (before ++ "\n" ++ words).utf8ByteSize =
      before.utf8ByteSize + ("\n" ++ words).utf8ByteSize := by
    simp only [String.utf8ByteSize_append, Nat.add_assoc]
  refine ⟨comment.shift (before.utf8ByteSize + 1), by rw [shift, means]; rfl, ?_⟩
  rw [(ofSource_newline _ behind).1, (ofSource_newline before words).1, line, relocate_behind, size,
    List.append_assoc]
  rfl

end Line

open Line

variable [Scalar α]

/-- A comment on a line of its own changes nothing but places. The graph and the findings are those of
the text without it; the ends of spans behind the place where it stands move right by its length and
that of its newline, and all others stay. -/
theorem parse_comment (before behind comment : String) {mark : String}
    (isMark : mark = "# " ∨ mark = "// ") (single : '\n' ∉ comment.toList) :
    (parse (before ++ "\n" ++ (mark ++ comment) ++ "\n" ++ behind) : Parsed α) =
      (parse (before ++ "\n" ++ behind)).relocate
        (makeRoom before.utf8ByteSize ("\n" ++ (mark ++ comment)).utf8ByteSize) := by
  have marked : Marked (mark ++ comment).toList := by
    rcases isMark with rfl | rfl
    · exact .inl (by simp)
    · exact .inr ⟨' ' :: comment.toList, by simp⟩
  have oneLine : '\n' ∉ (mark ++ comment).toList := by
    rw [String.toList_append, List.mem_append]
    rcases isMark with rfl | rfl <;> simpa using single
  obtain ⟨line, means, commented⟩ := ofSource_comment before behind marked oneLine
  let room := makeRoom before.utf8ByteSize ("\n" ++ (mark ++ comment)).utf8ByteSize
  have plain : ofSource before ++ ((ofSource behind).map (shift (before.utf8ByteSize + 1))).map
      (Line.relocate room) = (ofSource (before ++ "\n" ++ behind)).map (Line.relocate room) := by
    rw [(ofSource_newline before behind).1, List.map_append, relocate_before]
  have agrees : Assembly.Agrees ((assemble (before ++ "\n" ++ behind) : Assembly α).relocate room)
      (assemble (before ++ "\n" ++ (mark ++ comment) ++ "\n" ++ behind)) := by
    rw [assemble, assemble, commented, ← Assembly.ofLines_relocate, ← plain]
    exact Assembly.agrees_ofLines _ _ (by rw [means]; rfl)
  have found := agrees.diagnostics
  rw [Assembly.diagnostics_relocate] at found
  exact congrArg₂ Parsed.mk agrees.graph found

/-- A brace alone still opens the body of a leaf in front of a comment, and the span of the container
grows at its end only. -/
theorem commentedBrace_spans :
    '\n' ∉ "\x7b".toList ∧
      (parse ("A [x: 1]" ++ "\n" ++ ("// " ++ "\x7b") ++ "\n" ++ "\x7b\nB []") :
          Parsed Float32).graph.nodes.map (fun node => (node.path, node.span)) =
        [("A", Span.ofLength 0 15), ("A.B", Span.ofLength 16 4)] := by
  refine ⟨by decide, ?_⟩
  rw [parse_comment _ _ _ (.inr rfl) (by decide)]
  decide +kernel

end BoxDiagram
