import BoxDiagram.PropertyList

/-!
Property lists are read to their end. Each part of an entry takes something of the text, and an entry ends
nowhere but at a comma or at the end of the text, so the list of entries has no other place to stop. The
entries are told by one pass over the characters that knows which run each of them is in. All of this holds
of every text, also when a quote or a bracket in it is never closed.
-/

namespace BoxDiagram.PropertyList

open Text

inductive Run where
  | plain
  | quoted
  | bracketed
  deriving DecidableEq, Repr

def Run.next : Run → Char → Run
  | .plain, '"' => .quoted
  | .plain, '[' => .bracketed
  | .plain, _ => .plain
  | .quoted, '"' => .plain
  | .quoted, _ => .quoted
  | .bracketed, ']' => .plain
  | .bracketed, _ => .bracketed

def entriesFrom : Run → List Char → List (List Char)
  | _, [] => [[]]
  | run, char :: rest =>
    if run = .plain ∧ char = ',' then [] :: entriesFrom .plain rest
    else match entriesFrom (run.next char) rest with
      | [] => [[char]]
      | entry :: entries => (char :: entry) :: entries

def runAfter (text : List Char) : Run := text.foldl Run.next .plain

theorem entriesFrom_ne_nil (run : Run) (text : List Char) : entriesFrom run text ≠ [] := by
  cases text with
  | nil => simp [entriesFrom]
  | cons char rest =>
    unfold entriesFrom
    split
    · simp
    · split <;> simp

theorem intercalate_entriesFrom (run : Run) (text : List Char) :
    [','].intercalate (entriesFrom run text) = text := by
  induction text generalizing run with
  | nil => rfl
  | cons char rest ih =>
    rw [entriesFrom]
    by_cases separates : run = .plain ∧ char = ','
    · obtain ⟨entry, entries, cut⟩ := List.exists_cons_of_ne_nil (entriesFrom_ne_nil .plain rest)
      have joined := ih .plain
      rw [cut] at joined
      rw [if_pos separates, cut, List.intercalate_cons_cons, joined, separates.2]
      rfl
    · obtain ⟨entry, entries, cut⟩ :=
        List.exists_cons_of_ne_nil (entriesFrom_ne_nil (run.next char) rest)
      have joined := ih (run.next char)
      rw [cut] at joined
      rw [if_neg separates, cut]
      cases entries with
      | nil => simpa using joined
      | cons next entries => simpa [List.intercalate_cons_cons] using joined

variable {run : Run} {char : Char} {text part middle rest : List Char}

/-- A text that begins inside of a run is not cut in front of the given rest, and the rest is cut as it is
outside of runs. -/
def UncutTo (run : Run) (text rest : List Char) : Prop :=
  ∃ part, text = part ++ rest ∧
    entriesFrom run text = (entriesFrom .plain rest).modifyHead (part ++ ·)

namespace UncutTo

theorem refl (text : List Char) : UncutTo .plain text text := by
  obtain ⟨entry, entries, cut⟩ := List.exists_cons_of_ne_nil (entriesFrom_ne_nil .plain text)
  exact ⟨[], rfl, by rw [cut]; rfl⟩

theorem trans (first : UncutTo run text middle) (second : UncutTo .plain middle rest) :
    UncutTo run text rest := by
  obtain ⟨part, rfl, cut⟩ := first
  obtain ⟨more, rfl, further⟩ := second
  refine ⟨part ++ more, (List.append_assoc ..).symm, ?_⟩
  rw [cut, further, List.modifyHead_modifyHead]
  simp [Function.comp_def]

theorem cons (joins : ¬(run = .plain ∧ char = ',')) (further : UncutTo (run.next char) text rest) :
    UncutTo run (char :: text) rest := by
  obtain ⟨part, rfl, cut⟩ := further
  obtain ⟨entry, entries, behind⟩ := List.exists_cons_of_ne_nil (entriesFrom_ne_nil .plain rest)
  refine ⟨char :: part, rfl, ?_⟩
  rw [entriesFrom, if_neg joins, cut, behind]
  rfl

theorem cut (uncut : UncutTo run (part ++ rest) rest) :
    entriesFrom run (part ++ rest) = (entriesFrom .plain rest).modifyHead (part ++ ·) := by
  obtain ⟨other, same, cut⟩ := uncut
  rw [List.append_cancel_right same]
  rwa [List.append_cancel_right same] at cut

end UncutTo

structure Run.EndsAt (run : Run) (closing : Char) : Prop where
  inside : run ≠ .plain
  ends : run.next closing = .plain
  goes : ∀ char, char ≠ closing → run.next char = run

theorem Run.endsAt_quoted : Run.quoted.EndsAt '"' :=
  ⟨by decide, rfl, fun char other => by simp [Run.next]⟩

theorem Run.endsAt_bracketed : Run.bracketed.EndsAt ']' :=
  ⟨by decide, rfl, fun char other => by simp [Run.next]⟩

theorem Run.EndsAt.uncutTo {closing : Char} (endsAt : run.EndsAt closing) (text : List Char) :
    UncutTo run text ((text.dropWhile (· != closing)).drop 1) := by
  induction text with
  | nil => exact ⟨[], rfl, rfl⟩
  | cons char text ih =>
    have joins : ¬(run = .plain ∧ char = ',') := fun separates => endsAt.inside separates.1
    by_cases closes : char = closing
    · subst closes
      rw [List.dropWhile_cons_of_neg (by simp)]
      apply UncutTo.cons joins
      rw [endsAt.ends]
      exact UncutTo.refl text
    · rw [List.dropWhile_cons_of_pos (by simpa using closes)]
      apply UncutTo.cons joins
      rw [endsAt.goes char closes]
      exact ih

theorem run_delimited (opening closing : Char) (text : List Char) :
    (delimited opening closing).run (opening :: text) =
      (.ok (), (text.dropWhile (· != closing)).drop 1) := by
  have first := List.head?_dropWhile_not (· != closing) text
  simp only [delimited, Parser.andThen, Parser.run_char, Parser.skipWhile, Parser.optional]
  cases behind : text.dropWhile (· != closing) with
  | nil => rfl
  | cons char rest =>
    obtain rfl : char = closing := by simpa [behind] using first
    rw [Parser.run_char]
    rfl

theorem run_delimited_of_ne {opening : Char} (other : text.head? ≠ some opening) (closing : Char) :
    (delimited opening closing).run text = (.error .mismatch, text) := by
  simp only [delimited, Parser.andThen, Parser.run_char_of_ne other]

theorem takes_delimited (opening closing : Char) : (delimited opening closing).Takes :=
  (Parser.takes_char opening).andThen _

theorem takes_fragment : fragment.Takes :=
  (takes_delimited '"' '"').orElse ((takes_delimited '[' ']').orElse (Parser.takes_skipSome _))

theorem uncutTo_quiet (quiet : ∀ char ∈ part, char ∉ [',', '"', '[']) (rest : List Char) :
    UncutTo .plain (part ++ rest) rest := by
  induction part with
  | nil => exact UncutTo.refl rest
  | cons char part ih =>
    obtain ⟨first, others⟩ := List.forall_mem_cons.mp quiet
    simp only [List.mem_cons, List.not_mem_nil, or_false, not_or] at first
    have plain : Run.next .plain char = .plain := by simp [Run.next, first]
    exact UncutTo.cons (by simp [first]) (plain.symm ▸ ih others)

theorem uncutTo_dropWhile (text : List Char) :
    UncutTo .plain text (text.dropWhile (· ∉ [',', '"', '['])) := by
  have quiet := List.all_eq_true.mp (@List.all_takeWhile _ (· ∉ [',', '"', '[']) text)
  have skipped := uncutTo_quiet (fun char member => of_decide_eq_true (quiet char member))
    (text.dropWhile (· ∉ [',', '"', '[']))
  rwa [List.takeWhile_append_dropWhile] at skipped

/-- Nothing but a comma and the end of the text stops an entry, and what it goes past is not cut. -/
theorem fragment_cases (text : List Char) :
    (fragment.run text = (.error .mismatch, text) ∧ (text = [] ∨ ∃ rest, text = ',' :: rest)) ∨
      ∃ rest, fragment.run text = (.ok (), rest) ∧ UncutTo .plain text rest := by
  -- The first character tells which of the parsers goes on from here.
  cases text with
  | nil => exact .inl ⟨rfl, .inl rfl⟩
  | cons char text =>
    by_cases quote : char = '"'
    · subst quote
      refine .inr ⟨(text.dropWhile (· != '"')).drop 1, ?_, ?_⟩
      · simp [fragment, Parser.orElse, run_delimited]
      · exact UncutTo.cons (by simp) (Run.endsAt_quoted.uncutTo text)
    have unquoted := @run_delimited_of_ne (char :: text) '"' (by simpa using quote) '"'
    by_cases bracket : char = '['
    · subst bracket
      refine .inr ⟨(text.dropWhile (· != ']')).drop 1, ?_, ?_⟩
      · simp [fragment, Parser.orElse, run_delimited, unquoted]
      · exact UncutTo.cons (by simp) (Run.endsAt_bracketed.uncutTo text)
    have unbracketed := @run_delimited_of_ne (char :: text) '[' (by simpa using bracket) ']'
    by_cases comma : char = ','
    · subst comma
      refine .inl ⟨?_, .inr ⟨text, rfl⟩⟩
      simp [fragment, Parser.orElse, unquoted, unbracketed, Parser.skipSome]
    · have quiet : char ∉ [',', '"', '['] := by simp [comma, quote, bracket]
      have uncut := uncutTo_dropWhile (char :: text)
      rw [List.dropWhile_cons_of_pos (by simpa using quiet)] at uncut
      refine .inr ⟨text.dropWhile (· ∉ [',', '"', '[']), ?_, uncut⟩
      simp [fragment, Parser.orElse, unquoted, unbracketed, Parser.skipSome, comma, quote, bracket]

theorem fragments_run (text : List Char) :
    ∃ values last, fragment.many.run text = (.ok values, last) ∧
      (last = [] ∨ ∃ rest, last = ',' :: rest) ∧ UncutTo .plain text last := by
  induction length : text.length using Nat.strongRecOn generalizing text with
  | ind size ih =>
    have same := takes_fragment.run_consuming text
    rcases fragment_cases text with ⟨found, stops⟩ | ⟨rest, found, uncut⟩
    · have ended : (fragment.consuming.run text).1 = .error .mismatch := by rw [same, found]
      exact ⟨[], text, Parser.rounds_of_mismatch _ ended, stops, UncutTo.refl text⟩
    · have shorter := takes_fragment text rest () found
      obtain ⟨values, last, reached, stops, further⟩ := ih rest.length (length ▸ shorter) rest rfl
      refine ⟨() :: values, last, ?_, stops, uncut.trans further⟩
      have onward := Parser.rounds_of_ok fragment.takes_consuming (same.trans found)
      simp only [Parser.many] at reached ⊢
      rw [onward, reached]
      rfl

theorem entry_cases (text : List Char) :
    (entry.run text = (.ok text, []) ∧ entriesFrom .plain text = [text]) ∨
      ∃ part rest, text = part ++ ',' :: rest ∧ entry.run text = (.ok part, ',' :: rest) ∧
        entriesFrom .plain text = part :: entriesFrom .plain rest := by
  obtain ⟨values, last, found, stops, part, rfl, cut⟩ := fragments_run text
  have read : entry.run (part ++ last) = (.ok part, last) := Parser.run_taken found
  rcases stops with rfl | ⟨rest, rfl⟩
  · rw [List.append_nil] at read cut ⊢
    left
    refine ⟨read, ?_⟩
    rw [cut, entriesFrom]
    simp
  · right
    refine ⟨part, rest, rfl, read, ?_⟩
    rw [cut, entriesFrom, if_pos ⟨rfl, rfl⟩]
    simp

def commaEntry : Parser (List Char) := (Parser.char ',').consuming.andThen entry

theorem takes_commaEntry : commaEntry.Takes := (Parser.takes_consuming _).andThen entry

theorem run_commaEntry (text : List Char) : commaEntry.run (',' :: text) = entry.run text := by
  simp only [commaEntry, Parser.andThen, (Parser.takes_char ',').run_consuming, Parser.run_char]

theorem run_commaEntry_of_ne (other : text.head? ≠ some ',') :
    commaEntry.run text = (.error .mismatch, text) := by
  simp only [commaEntry, Parser.andThen, (Parser.takes_char ',').run_consuming,
    Parser.run_char_of_ne other]

/-- Behind a comma there is always one more entry, so that the list goes on as long as there are commas. -/
theorem rounds_commaEntry (text : List Char) :
    Parser.rounds commaEntry takes_commaEntry (',' :: text) = (.ok (entriesFrom .plain text), []) := by
  -- An entry may be empty. It is the comma in front of it that makes what is left shorter.
  induction length : text.length using Nat.strongRecOn generalizing text with
  | ind size ih =>
    have next := run_commaEntry text
    rcases entry_cases text with ⟨found, cut⟩ | ⟨part, rest, rfl, found, cut⟩
    · have ended : (commaEntry.run []).1 = .error .mismatch := by
        rw [run_commaEntry_of_ne (by simp)]
      rw [Parser.rounds_of_ok _ (next.trans found), Parser.rounds_of_mismatch _ ended, cut]
      rfl
    · have shorter : rest.length < size := by
        rw [← length, List.length_append, List.length_cons]
        omega
      rw [Parser.rounds_of_ok _ (next.trans found), ih rest.length shorter rest rfl, cut]
      rfl

/-- The list of entries stops nowhere but at the end of the text. -/
theorem entryList_run (text : List Char) :
    entryList.run text = (.ok (entriesFrom .plain text), []) := by
  have repeated := rounds_commaEntry text
  obtain ⟨part, rest, found⟩ : ∃ part rest, entry.run text = (.ok part, rest) := by
    rcases entry_cases text with ⟨found, -⟩ | ⟨part, rest, -, found, -⟩
    · exact ⟨text, [], found⟩
    · exact ⟨part, ',' :: rest, found⟩
  rw [Parser.rounds_of_ok _ ((run_commaEntry text).trans found)] at repeated
  simp only [entryList, Parser.separated, found]
  exact repeated

theorem entries_eq_entriesFrom (text : List Char) : entries text = entriesFrom .plain text := by
  rw [entries, entryList_run]
  rfl

/-- Every text is read to its end, also one with a quote or a bracket that nothing closes. No round of a
repetition takes nothing, so that the list of entries comes to a value, and nothing is left of the text
that would make one more entry. The entries are those that lie between the commas outside of runs, and with
commas between them they are the text again. -/
theorem entries_whole (text : List Char) :
    entryList.run text = (.ok (entries text), []) ∧
      entries text = entriesFrom .plain text ∧
      [','].intercalate (entries text) = text := by
  rw [entries_eq_entriesFrom]
  exact ⟨entryList_run text, rfl, intercalate_entriesFrom .plain text⟩

/-- Neither the quote nor the bracket is ever closed, and the commas behind the quote separate nothing. -/
example : entries "a: [x], b, c: \"y, [z, ]".toList =
    ["a: [x]".toList, " b".toList, " c: \"y, [z, ]".toList] := by decide +kernel

end BoxDiagram.PropertyList
