import BoxDiagram.Proofs.Exports

/-!
Exports to sinks that fill up. A chunk is taken in whole or refused, and behind the first refused one
nothing is written. However a document is cut into chunks, one of them is refused exactly when the document
does not fit as a whole, and the line break behind it exactly when the document fits with no byte to spare.
The cuts only decide how much of a document that does not fit is in the sink in the end.
-/

namespace BoxDiagram

namespace Sink

def extend (sink : Sink) (text : String) : Sink := { sink with content := sink.content ++ text }

def HasRoom (sink : Sink) (room : Nat) : Prop :=
  sink.capacity = some (sink.content.utf8ByteSize + room)

theorem extend_extend (sink : Sink) (first second : String) :
    (sink.extend first).extend second = sink.extend (first ++ second) := by
  simp only [extend, String.append_assoc]

theorem extend_empty (sink : Sink) : sink.extend "" = sink := by
  simp only [extend, String.append_empty]

namespace HasRoom

variable {sink : Sink} {room : Nat}

theorem extend (hasRoom : sink.HasRoom room) {text : String} (fits : text.utf8ByteSize ≤ room) :
    (sink.extend text).HasRoom (room - text.utf8ByteSize) := by
  have size : (sink.extend text).content.utf8ByteSize + (room - text.utf8ByteSize) =
      sink.content.utf8ByteSize + room := by
    rw [Sink.extend, String.utf8ByteSize_append]
    omega
  rw [HasRoom, size]
  exact hasRoom

theorem write (hasRoom : sink.HasRoom room) (chunk : String) :
    sink.write chunk =
      if chunk.utf8ByteSize ≤ room then .ok (sink.extend chunk) else .error .diskFull := by
  obtain ⟨content, capacity, failsToFlush⟩ := sink
  obtain rfl : capacity = some (content.utf8ByteSize + room) := hasRoom
  simp only [Sink.write, String.utf8ByteSize_append, Nat.add_le_add_iff_left]
  rfl

theorem writeAll_of_le (hasRoom : sink.HasRoom room) {chunks : List String}
    (fits : (String.join chunks).utf8ByteSize ≤ room) :
    sink.writeAll chunks = (sink.extend (String.join chunks), none) := by
  induction chunks generalizing sink room with
  | nil => rw [writeAll, String.join_nil, extend_empty]
  | cons chunk rest ih =>
    rw [String.join_cons, String.utf8ByteSize_append] at fits
    have first : chunk.utf8ByteSize ≤ room := by omega
    rw [writeAll, hasRoom.write, if_pos first]
    dsimp only
    rw [ih (hasRoom.extend first) (by omega), extend_extend, String.join_cons]

/-- When there is no room for all chunks, those in front of the first that does not fit go in. -/
theorem writeAll_of_lt (hasRoom : sink.HasRoom room) {chunks : List String}
    (full : room < (String.join chunks).utf8ByteSize) :
    ∃ taken refused left, chunks = taken ++ refused :: left ∧
      (String.join taken).utf8ByteSize ≤ room ∧
      room < (String.join taken).utf8ByteSize + refused.utf8ByteSize ∧
      sink.writeAll chunks = (sink.extend (String.join taken), some .diskFull) := by
  induction chunks generalizing sink room with
  | nil => exact absurd full (Nat.not_lt_zero room)
  | cons chunk rest ih =>
    rw [String.join_cons, String.utf8ByteSize_append] at full
    rw [writeAll, hasRoom.write]
    by_cases first : chunk.utf8ByteSize ≤ room
    · rw [if_pos first]
      obtain ⟨taken, refused, left, rfl, fits, past, made⟩ := ih (hasRoom.extend first) (by omega)
      refine ⟨chunk :: taken, refused, left, rfl, ?_, ?_, ?_⟩
      · rw [String.join_cons, String.utf8ByteSize_append]
        omega
      · rw [String.join_cons, String.utf8ByteSize_append]
        omega
      · dsimp only
        rw [made, extend_extend, String.join_cons]
    · rw [if_neg first]
      refine ⟨[], chunk, rest, rfl, Nat.zero_le room, ?_, ?_⟩
      · rw [String.join_nil, String.utf8ByteSize_empty]
        omega
      · rw [String.join_nil, extend_empty]

theorem exportChunks_of_lt (hasRoom : sink.HasRoom room) {chunks : List String}
    (full : room < (String.join chunks).utf8ByteSize) :
    ∃ taken left, taken ++ left = String.join chunks ∧ taken.utf8ByteSize ≤ room ∧
      sink.exportChunks chunks = (sink.extend taken, some (.document .diskFull)) := by
  obtain ⟨taken, refused, left, rfl, fits, -, made⟩ := hasRoom.writeAll_of_lt full
  refine ⟨String.join taken, String.join (refused :: left), String.join_append.symm, fits, ?_⟩
  rw [exportChunks, made]

theorem exportChunks_of_eq {chunks : List String}
    (hasRoom : sink.HasRoom (String.join chunks).utf8ByteSize) :
    sink.exportChunks chunks = (sink.extend (String.join chunks), some (.io .diskFull)) := by
  have full := hasRoom.extend (Nat.le_refl _)
  rw [Nat.sub_self] at full
  rw [exportChunks, hasRoom.writeAll_of_le (Nat.le_refl _)]
  dsimp only
  rw [full.write, if_neg (by decide)]

theorem exportChunks_of_gt (hasRoom : sink.HasRoom room) {chunks : List String}
    (spare : (String.join chunks).utf8ByteSize < room) :
    sink.exportChunks chunks = (sink.extend (String.join chunks ++ "\n"),
      if sink.failsToFlush then some (.io .flushFailed) else none) := by
  have rest := hasRoom.extend (Nat.le_of_lt spare)
  have goesIn : "\n".utf8ByteSize ≤ room - (String.join chunks).utf8ByteSize :=
    Nat.sub_pos_of_lt spare
  rw [exportChunks, hasRoom.writeAll_of_le (Nat.le_of_lt spare)]
  dsimp only
  rw [rest.write, if_pos goesIn, extend_extend]
  have flush : (sink.extend (String.join chunks ++ "\n")).flush = sink.flush := rfl
  dsimp only
  rw [flush, Sink.flush]
  cases sink.failsToFlush <;> rfl

end HasRoom

/-- What comes of it when a text and a line break are handed to a sink with so much room. The text is
refused when it does not fit, and the line break when the text just fits; otherwise all is in the sink,
and only flushing can fail. What is in the sink is always the front of what was handed over. -/
structure Received (sink : Sink) (room : Nat) (text : String) (result : Sink × Option Failure) : Prop where
  document : (∃ fault, result.2 = some (.document fault)) ↔ room < text.utf8ByteSize
  io : (∃ fault, result.2 = some (.io fault)) ↔
    room = text.utf8ByteSize ∨ (text.utf8ByteSize < room ∧ sink.failsToFlush = true)
  success : result.2 = none ↔ text.utf8ByteSize < room ∧ sink.failsToFlush = false
  whole : text.utf8ByteSize < room → result.1 = sink.extend (text ++ "\n")
  front : ∃ taken left, taken ++ left = text ++ "\n" ∧ taken.utf8ByteSize ≤ room ∧
    result.1 = sink.extend taken

theorem HasRoom.received {sink : Sink} {room : Nat} (hasRoom : sink.HasRoom room)
    (chunks : List String) : sink.Received room (String.join chunks) (sink.exportChunks chunks) := by
  rcases Nat.lt_trichotomy room (String.join chunks).utf8ByteSize with full | same | spare
  · obtain ⟨taken, left, cut, fits, made⟩ := hasRoom.exportChunks_of_lt full
    rw [made]
    constructor
    case front => exact ⟨taken, left ++ "\n", by rw [← String.append_assoc, cut], fits, rfl⟩
    all_goals simp; omega
  · subst same
    rw [hasRoom.exportChunks_of_eq]
    constructor
    case front => exact ⟨_, "\n", rfl, Nat.le_refl _, rfl⟩
    all_goals simp
  · rw [hasRoom.exportChunks_of_gt spare]
    have fits : (String.join chunks ++ "\n").utf8ByteSize ≤ room := by
      rw [String.utf8ByteSize_append]
      exact spare
    constructor
    case front => exact ⟨_, "", String.append_empty, fits, rfl⟩
    case whole => exact fun _ => rfl
    all_goals cases sink.failsToFlush <;> simp <;> omega

end Sink

/-- To a sink that takes in up to so many more bytes, a document is handed on with a line break behind it.
The failure is one of the document exactly when the document does not fit, and one of writing exactly when
it just fits or when all is in the sink but flushing fails; else there is none. The sink holds the document
and the line break when there is room for both, and always a front of them. This is so however the document
is cut into the chunks that are written. -/
theorem Graph.exportTo_limited (graph : Graph Float32) (isPretty : Bool) {sink : Sink} {limit : Nat}
    (hasRoom : sink.HasRoom limit) :
    sink.Received limit (graph.documentText isPretty) (graph.exportTo isPretty sink) ∧
      ∀ chunks, String.join chunks = graph.documentText isPretty →
        sink.Received limit (graph.documentText isPretty) (sink.exportChunks chunks) := by
  refine ⟨hasRoom.received (graph.documentChunks isPretty), ?_⟩
  intro chunks whole
  rw [← whole]
  exact hasRoom.received chunks

/-- A document of 36 bytes and 35 characters, which just fits. -/
theorem Graph.exportTo_limited_border :
    let graph : Graph Float32 := { title := some "é" }
    let sink : Sink := { capacity := some 36 }
    let chunks := (graph.documentText false).toList.map String.singleton
    sink.HasRoom 36 ∧ (∃ fault, (graph.exportTo false sink).2 = some (.io fault)) ∧
      String.join chunks = graph.documentText false ∧
      ∃ fault, (sink.exportChunks chunks).2 = some (.io fault) := by
  intro graph sink chunks
  have hasRoom : sink.HasRoom 36 := rfl
  have size : 36 = (graph.documentText false).utf8ByteSize := by decide +kernel
  have whole : String.join chunks = graph.documentText false := by decide +kernel
  obtain ⟨own, cut⟩ := graph.exportTo_limited false hasRoom
  exact ⟨hasRoom, own.io.mpr (.inl size), whole, (cut chunks whole).io.mpr (.inl size)⟩

/-- With a byte less the last bracket is refused. -/
example : ({ title := some "é" } : Graph Float32).exportTo false { capacity := some 35 } =
    ({ content := "\x7b\"title\":\"é\",\"nodes\":[],\"edges\":[]", capacity := some 35 },
      some (.document .diskFull)) := by
  decide +kernel

end BoxDiagram
