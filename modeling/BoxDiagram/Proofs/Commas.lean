import BoxDiagram.Proofs.ListEntries
import BoxDiagram.Statement.Grammar

/-!
Which commas of a property list separate properties. A list is handed over with its quotes paired and
its brackets balanced to any depth, but its entries are told apart by runs that know no depth: a
bracketed run ends at the first closing bracket. Runs and brackets tell the same commas apart exactly in
shallow lists, where that first bracket closes the outermost pair.
-/

namespace BoxDiagram.PropertyList

structure Enclosure where
  quoted : Bool := false
  depth : Nat := 0
  deriving DecidableEq, Repr

namespace Enclosure

/-- Brackets inside quotes do not count. -/
def next (enclosure : Enclosure) (char : Char) : Enclosure :=
  if char = '"' then { enclosure with quoted := !enclosure.quoted }
  else if enclosure.quoted then enclosure
  else if char = '[' then { enclosure with depth := enclosure.depth + 1 }
  else if char = ']' then { enclosure with depth := enclosure.depth - 1 }
  else enclosure

def after (text : List Char) : Enclosure := text.foldl next {}

def isFree (enclosure : Enclosure) : Bool := !enclosure.quoted && enclosure.depth == 0

end Enclosure

/-- Cuts a text at the commas in front of which the text satisfies a test, `before` included. -/
def cutFrom (test : List Char → Bool) (before : List Char) : List Char → List (List Char)
  | [] => [[]]
  | char :: rest =>
    match cutFrom test (before ++ [char]) rest with
    | [] => [[char]]
    | part :: parts =>
      if char = ',' && test before then [] :: part :: parts else (char :: part) :: parts

/-- Cuts a text at the commas outside of double quotes and of every bracket pair. -/
def topLevel (text : List Char) : List (List Char) :=
  cutFrom (fun before => (Enclosure.after before).isFree) [] text

/-- Whether every outermost bracket pair ends at the first closing bracket: inside of it there is no
opening bracket outside of quotes, and no closing bracket inside. -/
def isShallowFrom (enclosure : Enclosure) : List Char → Bool
  | [] => true
  | char :: rest =>
    (enclosure.depth == 0 || (if enclosure.quoted then char != ']' else char != '[')) &&
      isShallowFrom (enclosure.next char) rest

def isShallow (text : List Char) : Bool := isShallowFrom {} text

/-- The entries of a list lie between the commas in front of which no run is open. -/
theorem entriesFrom_eq_cutFrom (before text : List Char) :
    entriesFrom (runAfter before) text = cutFrom (fun before => runAfter before == .plain) before text := by
  induction text generalizing before with
  | nil => rfl
  | cons char rest ih =>
    have onward : runAfter (before ++ [char]) = (runAfter before).next char := by
      simp [runAfter]
    have later := ih (before ++ [char])
    rw [onward] at later
    rw [entriesFrom, cutFrom, ← later]
    by_cases separates : runAfter before = .plain ∧ char = ','
    · obtain ⟨plain, rfl⟩ := separates
      obtain ⟨part, parts, split⟩ := List.exists_cons_of_ne_nil (entriesFrom_ne_nil .plain rest)
      simp [plain, Run.next, split]
    · rw [if_neg separates]
      cases entriesFrom ((runAfter before).next char) rest with
      | nil => rfl
      | cons part parts => grind

theorem entries_eq_cutFrom (text : List Char) :
    entries text = cutFrom (fun before => runAfter before == .plain) [] text := by
  rw [entries_eq_entriesFrom]
  exact entriesFrom_eq_cutFrom [] text

theorem cutFrom_congr {first second : List Char → Bool} {before text : List Char}
    (same : ∀ part rest, text = part ++ ',' :: rest →
      first (before ++ part) = second (before ++ part)) :
    cutFrom first before text = cutFrom second before text := by
  induction text generalizing before with
  | nil => rfl
  | cons char rest ih =>
    have later : cutFrom first (before ++ [char]) rest = cutFrom second (before ++ [char]) rest := by
      apply ih
      rintro part others rfl
      simpa using same (char :: part) others rfl
    rw [cutFrom, cutFrom, later]
    by_cases comma : char = ','
    · subst comma
      have here : first before = second before := by simpa using same [] rest rfl
      rw [here]
    · simp [comma]

def Agree (run : Run) (enclosure : Enclosure) (text : List Char) : Prop :=
  ∀ part rest, text = part ++ rest →
    (part.foldl Run.next run = .plain ↔ (part.foldl Enclosure.next enclosure).isFree = true)

theorem Agree.here {run : Run} {enclosure : Enclosure} {text : List Char}
    (agree : Agree run enclosure text) : run = .plain ↔ enclosure.isFree = true :=
  agree [] text rfl

theorem agree_cons {run : Run} {enclosure : Enclosure} {char : Char} {rest : List Char} :
    Agree run enclosure (char :: rest) ↔
      (run = .plain ↔ enclosure.isFree = true) ∧ Agree (run.next char) (enclosure.next char) rest := by
  constructor
  · intro agree
    refine ⟨agree.here, ?_⟩
    rintro part others rfl
    exact agree (char :: part) others rfl
  · rintro ⟨here, later⟩ part others whole
    cases part with
    | nil => exact here
    | cons other part =>
      obtain ⟨rfl, rfl⟩ := List.cons.inj whole
      exact later part others rfl

/-- How a run and an enclosure go together; a bracketed run does not know the depth. -/
def Matches : Run → Enclosure → Prop
  | .plain, enclosure => enclosure = {}
  | .quoted, enclosure => enclosure = { quoted := true }
  | .bracketed, enclosure => 0 < enclosure.depth

theorem Matches.free {run : Run} {enclosure : Enclosure} (together : Matches run enclosure) :
    run = .plain ↔ enclosure.isFree = true := by
  cases run with
  | plain =>
    obtain rfl := together
    simp [Enclosure.isFree]
  | quoted =>
    obtain rfl := together
    simp [Enclosure.isFree]
  | bracketed =>
    have deep : 0 < enclosure.depth := together
    simp only [reduceCtorEq, Enclosure.isFree, Bool.and_eq_true, beq_iff_eq, false_iff, not_and]
    omega

theorem Matches.depth_eq_zero {run : Run} {enclosure : Enclosure} (together : Matches run enclosure)
    (unbracketed : run ≠ .bracketed) : enclosure.depth = 0 := by
  cases run with
  | plain =>
    obtain rfl := together
    rfl
  | quoted =>
    obtain rfl := together
    rfl
  | bracketed => exact absurd rfl unbracketed

/-- Outside of brackets every character keeps a run and its enclosure together. -/
theorem Matches.next_unbracketed {run : Run} {enclosure : Enclosure} (together : Matches run enclosure)
    (unbracketed : run ≠ .bracketed) (char : Char) :
    Matches (run.next char) (enclosure.next char) := by
  cases run with
  | plain =>
    obtain rfl := together
    by_cases quote : char = '"'
    · subst quote
      rfl
    by_cases bracket : char = '['
    · subst bracket
      exact Nat.one_pos
    · simp [Matches, Run.next, Enclosure.next, quote, bracket]
  | quoted =>
    obtain rfl := together
    by_cases quote : char = '"'
    · subst quote
      rfl
    · simp [Matches, Run.next, Enclosure.next, quote]
  | bracketed => exact absurd rfl unbracketed

theorem Run.next_bracketed {char : Char} (inside : char ≠ ']') :
    Run.next .bracketed char = .bracketed := by
  simp [Run.next]

theorem Enclosure.depth_next_le (enclosure : Enclosure) (char : Char) :
    (enclosure.next char).depth ≤ enclosure.depth + 1 := by
  unfold Enclosure.next
  grind

theorem Enclosure.depth_le_next (enclosure : Enclosure) {char : Char} (inside : char ≠ ']') :
    enclosure.depth ≤ (enclosure.next char).depth := by
  unfold Enclosure.next
  grind

/-- In a shallow text a bracketed run ends where the bracket pair ends. -/
theorem agree_of_shallow {run : Run} {enclosure : Enclosure} {text : List Char}
    (together : Matches run enclosure) (low : enclosure.depth ≤ 1)
    (shallow : isShallowFrom enclosure text = true) : Agree run enclosure text := by
  induction text generalizing run enclosure with
  | nil =>
    intro part rest whole
    obtain ⟨rfl, -⟩ := List.append_eq_nil_iff.mp whole.symm
    exact together.free
  | cons char rest ih =>
    rw [agree_cons]
    refine ⟨together.free, ?_⟩
    simp only [isShallowFrom, Bool.and_eq_true, Bool.or_eq_true, beq_iff_eq] at shallow
    obtain ⟨here, later⟩ := shallow
    by_cases bracketed : run = .bracketed
    · subst bracketed
      have one : enclosure.depth = 1 := Nat.le_antisymm low together
      have kept := here.resolve_left (by omega)
      by_cases close : char = ']'
      · subst close
        have unquoted : enclosure.quoted = false := by
          cases quoted : enclosure.quoted with
          | false => rfl
          | true => simp [quoted] at kept
        have ended : enclosure.next ']' = {} := by simp [Enclosure.next, unquoted, one]
        rw [ended] at later ⊢
        exact ih rfl (Nat.zero_le 1) later
      · have inside : (enclosure.next char).depth = 1 := by
          unfold Enclosure.next
          grind
        rw [Run.next_bracketed close]
        exact ih (inside ▸ Nat.one_pos : 0 < (enclosure.next char).depth) (by omega) later
    · have flat : enclosure.depth = 0 := together.depth_eq_zero bracketed
      have next := enclosure.depth_next_le char
      exact ih (together.next_unbracketed bracketed char) (by omega) later

/-- Where runs and enclosures agree on a text that ends outside of brackets, no bracketed run goes on
inside a nested pair. -/
theorem Agree.depth_le {enclosure : Enclosure} {text : List Char}
    (agree : Agree .bracketed enclosure text)
    (ends : (text.foldl Enclosure.next enclosure).isFree = true) : enclosure.depth ≤ 1 := by
  induction text generalizing enclosure with
  | nil =>
    have free : enclosure.isFree = true := ends
    exact absurd (agree.here.mpr free) (by decide)
  | cons char rest ih =>
    obtain ⟨-, later⟩ := agree_cons.mp agree
    by_cases close : char = ']'
    · subst close
      have free : (enclosure.next ']').isFree = true := later.here.mp rfl
      unfold Enclosure.next Enclosure.isFree at free
      grind
    · rw [Run.next_bracketed close] at later
      have kept := enclosure.depth_le_next close
      have low := ih later ends
      omega

theorem shallow_of_agree {run : Run} {enclosure : Enclosure} {text : List Char}
    (together : Matches run enclosure) (agree : Agree run enclosure text)
    (ends : (text.foldl Enclosure.next enclosure).isFree = true) :
    isShallowFrom enclosure text = true := by
  induction text generalizing run enclosure with
  | nil => rfl
  | cons char rest ih =>
    obtain ⟨-, later⟩ := agree_cons.mp agree
    simp only [isShallowFrom, Bool.and_eq_true, Bool.or_eq_true, beq_iff_eq]
    by_cases bracketed : run = .bracketed
    · subst bracketed
      have one : enclosure.depth = 1 := Nat.le_antisymm (agree.depth_le ends) together
      by_cases close : char = ']'
      · subst close
        have free : (enclosure.next ']').isFree = true := later.here.mp rfl
        have unquoted : enclosure.quoted = false := by
          unfold Enclosure.next Enclosure.isFree at free
          grind
        have ended : enclosure.next ']' = {} := by simp [Enclosure.next, unquoted, one]
        refine ⟨.inr (by simp [unquoted]), ih ?_ later ends⟩
        exact ended
      · rw [Run.next_bracketed close] at later
        have low := later.depth_le ends
        have kept := enclosure.depth_le_next close
        have deep : Matches .bracketed (enclosure.next char) := Nat.lt_of_lt_of_le together kept
        refine ⟨.inr ?_, ih deep later ends⟩
        split
        next => simpa using close
        next unquoted =>
          have single : char ≠ '[' := by
            rintro rfl
            simp [Enclosure.next, unquoted] at low
            omega
          simpa using single
    · have flat : enclosure.depth = 0 := together.depth_eq_zero bracketed
      exact ⟨.inl flat, ih (together.next_unbracketed bracketed char) later ends⟩

theorem map_cons_eq_some_iff {char : Char} {further : Option (List Char × List Char)}
    {text left : List Char} :
    further.map (fun (body, left) => (char :: body, left)) = some (text, left) ↔
      ∃ body, text = char :: body ∧ further = some (body, left) := by
  cases further with
  | none => simp
  | some found =>
    obtain ⟨body, more⟩ := found
    grind

/-- A list ends at the closing bracket that nothing else encloses. -/
theorem listTail?_cons {enclosure : Enclosure} {char : Char} {rest text left : List Char} :
    Grammar.listTail? enclosure.quoted enclosure.depth (char :: rest) = some (text, left) ↔
      (char = ']' ∧ enclosure = {} ∧ text = [] ∧ left = rest) ∨
      (¬(char = ']' ∧ enclosure = {}) ∧ ∃ body, text = char :: body ∧
        Grammar.listTail? (enclosure.next char).quoted (enclosure.next char).depth rest =
          some (body, left)) := by
  obtain ⟨quoted, depth⟩ := enclosure
  rw [Grammar.listTail?.eq_def]
  by_cases quote : char = '"'
  · subst quote
    simp only [beq_self_eq_true, if_true, map_cons_eq_some_iff, Enclosure.next]
    simp
  have unquote : (char == '"') = false := by simpa using quote
  cases quoted with
  | true => simp [-Option.map_eq_some_iff, unquote, map_cons_eq_some_iff, Enclosure.next, quote]
  | false =>
    by_cases bracket : char = '['
    · subst bracket
      simp [-Option.map_eq_some_iff, map_cons_eq_some_iff, Enclosure.next]
    · by_cases close : char = ']'
      · subst close
        cases depth with
        | zero => simp [eq_comm]
        | succ depth => simp [-Option.map_eq_some_iff, map_cons_eq_some_iff, Enclosure.next]
      · simp [-Option.map_eq_some_iff, unquote, bracket, close, map_cons_eq_some_iff, Enclosure.next,
          quote]

theorem foldl_next_of_listTail? {enclosure : Enclosure} {source text left : List Char}
    (found : Grammar.listTail? enclosure.quoted enclosure.depth source = some (text, left)) :
    text.foldl Enclosure.next enclosure = {} := by
  induction source generalizing enclosure text with
  | nil => simp [Grammar.listTail?] at found
  | cons char rest ih =>
    rcases listTail?_cons.mp found with ⟨-, rfl, rfl, -⟩ | ⟨-, body, rfl, onward⟩
    · rfl
    · rw [List.foldl_cons]
      exact ih onward

theorem free_of_list? {source text left : List Char}
    (handed : Grammar.list? source = some (text, left)) :
    (Enclosure.after text).isFree = true := by
  unfold Grammar.list? at handed
  split at handed
  next rest =>
    rw [Enclosure.after, @foldl_next_of_listTail? {} _ _ _ handed]
    rfl
  next => cases handed

/-- The properties of a list that is handed over are read from the texts between its commas outside of
quotes and bracket pairs, if the list is shallow; and just then does a place count as outside when it
is. -/
theorem entries_topLevel {source text left : List Char}
    (handed : Grammar.list? source = some (text, left)) :
    (isShallow text = true → entries text = topLevel text ∧
      read (String.ofList text) =
        PropertyMap.ofList (((topLevel text).filterMap readEntry).filterMap Item.pair?)) ∧
    ((∀ part rest, text = part ++ rest →
      (runAfter part = .plain ↔ (Enclosure.after part).isFree = true)) ↔ isShallow text = true) := by
  have together : Matches .plain {} := rfl
  have agrees (shallow : isShallow text = true) : Agree .plain {} text :=
    agree_of_shallow together (Nat.zero_le 1) shallow
  refine ⟨?_, ?_, agrees⟩
  · intro shallow
    have same : entries text = topLevel text := by
      rw [entries_eq_cutFrom, topLevel]
      apply cutFrom_congr
      intro part rest whole
      rw [Bool.eq_iff_iff, beq_iff_eq]
      exact agrees shallow part (',' :: rest) whole
    refine ⟨same, ?_⟩
    rw [read, items, String.toList_ofList, same]
  · intro agree
    exact shallow_of_agree together agree (free_of_list? handed)

theorem quotedComma_topLevel :
    Grammar.list? "[a: \"]\", b: [x, \"[y, z\"], c] -> d".toList =
      some ("a: \"]\", b: [x, \"[y, z\"], c".toList, " -> d".toList) ∧
    entries "a: \"]\", b: [x, \"[y, z\"], c".toList =
      topLevel "a: \"]\", b: [x, \"[y, z\"], c".toList :=
  ⟨by decide +kernel,
    ((@entries_topLevel "[a: \"]\", b: [x, \"[y, z\"], c] -> d".toList _ " -> d".toList
      (by decide +kernel)).1 (by decide +kernel)).1⟩

/-- A comma behind an inner pair of a nested list is taken for one that separates properties. -/
theorem nestedComma_separates :
    Grammar.list? "[tags: [[a], b], icon: x]".toList = some ("tags: [[a], b], icon: x".toList, []) ∧
    topLevel "tags: [[a], b], icon: x".toList = ["tags: [[a], b]".toList, " icon: x".toList] ∧
    entries "tags: [[a], b], icon: x".toList =
      ["tags: [[a]".toList, " b]".toList, " icon: x".toList] ∧
    (read "tags: [[a], b], icon: x").entries = [("tags", "[[a]"), ("b]", ""), ("icon", "x")] := by
  decide +kernel

end BoxDiagram.PropertyList
