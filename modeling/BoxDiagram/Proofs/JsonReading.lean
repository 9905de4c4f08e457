import BoxDiagram.Proofs.JsonGrammar

/-!
The reader takes in every text of the grammar. Given fuel for each character it stops right behind the
value, up to blanks. So it finds the value that a text spells, and no text spells two values.
-/

namespace BoxDiagram.Json

variable {fuel : Nat} {text rest : List Char} {json : Json}

-- The proofs below open the reader one step at a time, by its equations.
attribute [local simp] value? items? fields?

theorem value?_congr {other : List Char} (same : skipSpace text = skipSpace other) :
    value? fuel text = value? fuel other := by
  cases fuel with
  | zero => rfl
  | succ fuel => rw [value?, value?, same]

theorem items?_skipSpace (fuel : Nat) (text : List Char) : items? fuel (skipSpace text) = items? fuel text := by
  cases fuel with
  | zero => rfl
  | succ fuel => rw [items?, items?, value?_congr (skipSpace_skipSpace text)]

theorem fields?_skipSpace (fuel : Nat) (text : List Char) :
    fields? fuel (skipSpace text) = fields? fuel text := by
  cases fuel with
  | zero => rfl
  | succ fuel => rw [fields?, fields?, skipSpace_skipSpace]

theorem items?_bracket (starts : skipSpace text = ']' :: rest) : items? fuel text = none := by
  cases fuel with
  | zero => rfl
  | succ fuel =>
    have none : value? fuel text = none := by
      cases fuel with
      | zero => rfl
      | succ fuel => simp [starts, isNumberChar, isNumber, dropSign, dropWhole?, dropDigits?]
    rw [items?, none]
    rfl

theorem fields?_bracket (starts : skipSpace text = '\x7d' :: rest) : fields? fuel text = none := by
  cases fuel with
  | zero => rfl
  | succ fuel => simp [starts]

theorem value?_string {inner chars left : List Char} (starts : skipSpace text = '"' :: inner)
    (read : stringTail? inner = some (chars, left)) :
    value? (fuel + 1) text = some (.string (String.ofList chars), left) := by
  rw [value?, starts]
  simp only [read, Option.map_some]

theorem value?_emptyArray {inner left : List Char} (starts : skipSpace text = '[' :: inner)
    (closes : skipSpace inner = ']' :: left) : value? (fuel + 1) text = some (.array [], left) := by
  rw [value?, starts]
  simp only [closes]

theorem value?_array {inner left : List Char} {items : List Json} (starts : skipSpace text = '[' :: inner)
    (read : items? fuel inner = some (items, left)) :
    value? (fuel + 1) text = some (.array items, left) := by
  rw [value?, starts]
  simp only
  split
  next closes =>
    rw [items?_bracket closes] at read
    cases read
  next => rw [items?_skipSpace, read, Option.map_some]

theorem value?_emptyObject {inner left : List Char} (starts : skipSpace text = '\x7b' :: inner)
    (closes : skipSpace inner = '\x7d' :: left) : value? (fuel + 1) text = some (.object [], left) := by
  rw [value?, starts]
  simp only [closes]

theorem value?_object {inner left : List Char} {fields : List (String × Json)}
    (starts : skipSpace text = '\x7b' :: inner) (read : fields? fuel inner = some (fields, left)) :
    value? (fuel + 1) text = some (.object fields, left) := by
  rw [value?, starts]
  simp only
  split
  next closes =>
    rw [fields?_bracket closes] at read
    cases read
  next => rw [fields?_skipSpace, read, Option.map_some]

section Items

variable {item : Json} {left : List Char} (read : value? fuel text = some (item, left))
include read

theorem items?_last (closes : skipSpace left = ']' :: rest) :
    items? (fuel + 1) text = some ([item], rest) := by
  rw [items?, read, Option.bind_eq_bind, Option.bind_some]
  simp only [closes]

theorem items?_more {more : List Char} {items : List Json} (goes : skipSpace left = ',' :: more)
    (others : items? fuel more = some (items, rest)) :
    items? (fuel + 1) text = some (item :: items, rest) := by
  rw [items?, read, Option.bind_eq_bind, Option.bind_some]
  simp only [goes, others, Option.map_some]

end Items

section Fields

variable {inner chars behind valueText left : List Char} {value : Json}
  (opens : skipSpace text = '"' :: inner) (key : stringTail? inner = some (chars, behind))
  (colon : skipSpace behind = ':' :: valueText) (read : value? fuel valueText = some (value, left))
include opens key colon read

theorem fields?_last (closes : skipSpace left = '\x7d' :: rest) :
    fields? (fuel + 1) text = some ([(String.ofList chars, value)], rest) := by
  simp only [fields?, opens, key, colon, read, closes, Option.bind_eq_bind, Option.bind_some]

theorem fields?_more {more : List Char} {fields : List (String × Json)}
    (goes : skipSpace left = ',' :: more) (others : fields? fuel more = some (fields, rest)) :
    fields? (fuel + 1) text = some ((String.ofList chars, value) :: fields, rest) := by
  simp only [fields?, opens, key, colon, read, goes, others, Option.bind_eq_bind, Option.bind_some,
    Option.map_some]

end Fields

theorem value?_number (number : Number text) (ends : Ends rest) :
    value? (fuel + 1) (text ++ rest) = some (.number (String.ofList text), rest) := by
  have chars := number.chars
  have taken : (text ++ rest).takeWhile isNumberChar = text := by
    rw [List.takeWhile_append_of_pos chars]
    cases rest with
    | nil => simp
    | cons char more => simp [ends char more rfl]
  have left : (text ++ rest).dropWhile isNumberChar = rest := by
    rw [List.dropWhile_append_of_pos chars]
    cases rest with
    | nil => rfl
    | cons char more => simp [ends char more rfl]
  obtain ⟨first, others, rfl⟩ := number.exists_cons
  have starts : isNumberChar first = true := chars first List.mem_cons_self
  have printed : isSpace first = false := by
    by_contra blank
    simp only [isSpace, Bool.not_eq_false, Bool.or_eq_true, beq_iff_eq] at blank
    rcases blank with ((rfl | rfl) | rfl) | rfl <;> cases starts
  have apart : ∀ {char : Char} {tail : List Char}, first :: others ++ rest = char :: tail →
      isNumberChar char = true := by
    rintro _ _ ⟨⟩
    exact starts
  rw [value?, List.cons_append, skipSpace_cons printed, ← List.cons_append]
  split
  next same => cases apart same
  next same => cases apart same
  next same => cases apart same
  next same => cases apart same
  next same => cases apart same
  next same => cases apart same
  next => rw [taken, left, if_pos (isNumber_of_number number)]

/-- The reader finds the value at the front of a text, given fuel for each character, and stops behind
it, up to blanks. -/
def Accepted (text : List Char) (json : Json) : Prop :=
  ∀ fuel rest, text.length ≤ fuel → Ends rest →
    ∃ left, value? (fuel + 1) (text ++ rest) = some (json, left) ∧ skipSpace left = skipSpace rest

theorem skipSpace_closing {blanks left : List Char} {bracket : Char} (blank : Blank blanks)
    (printed : isSpace bracket = false) (same : skipSpace left = skipSpace (blanks ++ bracket :: rest)) :
    skipSpace left = bracket :: rest := by
  rw [same, skipSpace_append blank, skipSpace_cons printed]

theorem intercalate_append (first next : List Char) (texts : List (List Char)) (rest : List Char) :
    [','].intercalate (first :: next :: texts) ++ rest =
      first ++ ',' :: ([','].intercalate (next :: texts) ++ rest) := by
  simp [List.intercalate_cons_cons]

theorem length_intercalate (first next : List Char) (texts : List (List Char)) :
    ([','].intercalate (first :: next :: texts)).length =
      first.length + ([','].intercalate (next :: texts)).length + 1 := by
  simp only [List.intercalate_cons_cons, List.length_append, List.length_singleton]
  omega

theorem items?_of_accepted {item : List Char × Json} {items : List (List Char × Json)}
    {blanks : List Char} (each : ∀ other ∈ item :: items, Accepted other.1 other.2) (blank : Blank blanks)
    (enough : ([','].intercalate ((item :: items).map Prod.fst)).length ≤ fuel) :
    items? (fuel + 2) ([','].intercalate ((item :: items).map Prod.fst) ++ (blanks ++ ']' :: rest)) =
      some ((item :: items).map Prod.snd, rest) := by
  -- One step goes to the list and one to its first value; the comma pays for the list behind it.
  induction items generalizing item fuel with
  | nil =>
    obtain ⟨first, -⟩ := List.forall_mem_cons.mp each
    rw [List.map_singleton, List.intercalate_singleton] at enough ⊢
    obtain ⟨left, read, same⟩ := first fuel (blanks ++ ']' :: rest) enough
      (Ends.append blank (Ends.cons rfl rest))
    exact items?_last read (skipSpace_closing blank rfl same)
  | cons next items ih =>
    obtain ⟨first, others⟩ := List.forall_mem_cons.mp each
    rw [List.map_cons, List.map_cons, length_intercalate] at enough
    rw [List.map_cons, List.map_cons, intercalate_append]
    cases fuel with
    | zero => omega
    | succ fuel =>
      obtain ⟨left, read, same⟩ := first (fuel + 1)
        (',' :: ([','].intercalate (next.1 :: items.map Prod.fst) ++ (blanks ++ ']' :: rest))) (by omega)
        (ends_comma _)
      rw [skipSpace_cons rfl] at same
      exact items?_more read same (ih others (by rw [List.map_cons]; omega))

theorem SpellsKey.read {text : List Char} {key : String} (spells : SpellsKey text key) (rest : List Char) :
    ∃ inner chars left, skipSpace (text ++ ':' :: rest) = '"' :: inner ∧
      stringTail? inner = some (chars, left) ∧ skipSpace left = ':' :: rest ∧ key = String.ofList chars := by
  cases spells with
  | @quoted before spelled text after blankBefore inside blankAfter =>
    refine ⟨spelled ++ '"' :: (after ++ ':' :: rest), text, after ++ ':' :: rest, ?_,
      stringTail?_of_spells inside _, ?_, rfl⟩
    · simp only [List.append_assoc, List.cons_append]
      rw [skipSpace_append blankBefore, skipSpace_cons rfl]
    · rw [skipSpace_append blankAfter, skipSpace_cons rfl]

theorem fields?_of_accepted {entry : Entry} {entries : List Entry} {blanks : List Char}
    (keys : ∀ other ∈ entry :: entries, SpellsKey other.keyText other.key)
    (values : ∀ other ∈ entry :: entries, Accepted other.valueText other.value) (blank : Blank blanks)
    (enough : ([','].intercalate ((entry :: entries).map Entry.text)).length ≤ fuel) :
    fields? (fuel + 2)
        ([','].intercalate ((entry :: entries).map Entry.text) ++ (blanks ++ '\x7d' :: rest)) =
      some ((entry :: entries).map Entry.field, rest) := by
  have longer (entry : Entry) : entry.text.length = entry.keyText.length + (entry.valueText.length + 1) := by
    rw [Entry.text, List.length_append, List.length_cons]
  induction entries generalizing entry fuel with
  | nil =>
    obtain ⟨firstKey, -⟩ := List.forall_mem_cons.mp keys
    obtain ⟨firstValue, -⟩ := List.forall_mem_cons.mp values
    rw [List.map_singleton, List.intercalate_singleton, longer] at enough
    rw [List.map_singleton, List.intercalate_singleton, Entry.text, List.append_assoc, List.cons_append]
    obtain ⟨inner, chars, behind, opens, key, colon, named⟩ := firstKey.read
      (entry.valueText ++ (blanks ++ '\x7d' :: rest))
    obtain ⟨left, read, same⟩ := firstValue fuel (blanks ++ '\x7d' :: rest) (by omega)
      (Ends.append blank (Ends.cons rfl rest))
    rw [fields?_last opens key colon read (skipSpace_closing blank rfl same), ← named]
    rfl
  | cons next entries ih =>
    obtain ⟨firstKey, otherKeys⟩ := List.forall_mem_cons.mp keys
    obtain ⟨firstValue, otherValues⟩ := List.forall_mem_cons.mp values
    rw [List.map_cons, List.map_cons, length_intercalate, longer] at enough
    rw [List.map_cons, List.map_cons, intercalate_append, Entry.text, List.append_assoc, List.cons_append]
    cases fuel with
    | zero => omega
    | succ fuel =>
      have others : fields? (fuel + 2) ([','].intercalate (next.text :: entries.map Entry.text) ++
          (blanks ++ '\x7d' :: rest)) = some ((next :: entries).map Entry.field, rest) :=
        ih otherKeys otherValues (by rw [List.map_cons]; omega)
      obtain ⟨inner, chars, behind, opens, key, colon, named⟩ := firstKey.read (entry.valueText ++
        ',' :: ([','].intercalate (next.text :: entries.map Entry.text) ++ (blanks ++ '\x7d' :: rest)))
      obtain ⟨left, read, same⟩ := firstValue (fuel + 1) _ (by omega) (ends_comma
        ([','].intercalate (next.text :: entries.map Entry.text) ++ (blanks ++ '\x7d' :: rest)))
      rw [skipSpace_cons rfl] at same
      rw [fields?_more opens key colon read same others, ← named]
      rfl

theorem accepted_array {items : List (List Char × Json)} {blanks : List Char}
    (each : ∀ item ∈ items, Accepted item.1 item.2) (blank : Blank blanks) :
    Accepted ('[' :: ([','].intercalate (items.map Prod.fst) ++ (blanks ++ [']'])))
      (.array (items.map Prod.snd)) := by
  intro fuel rest enough _
  have starts : skipSpace (('[' :: ([','].intercalate (items.map Prod.fst) ++ (blanks ++ [']']))) ++ rest) =
      '[' :: ([','].intercalate (items.map Prod.fst) ++ (blanks ++ ']' :: rest)) := by
    rw [List.cons_append, skipSpace_cons rfl]
    simp
  refine ⟨rest, ?_, rfl⟩
  cases items with
  | nil =>
    apply value?_emptyArray starts
    rw [List.map_nil, List.intercalate_nil, List.nil_append, skipSpace_append blank, skipSpace_cons rfl]
  | cons item items =>
    simp only [List.length_cons, List.length_append] at enough
    obtain ⟨fuel, rfl⟩ : ∃ less, fuel = less + 2 := ⟨fuel - 2, by omega⟩
    exact value?_array starts (items?_of_accepted each blank (by omega))

theorem accepted_object {entries : List Entry} {blanks : List Char}
    (keys : ∀ entry ∈ entries, SpellsKey entry.keyText entry.key)
    (values : ∀ entry ∈ entries, Accepted entry.valueText entry.value) (blank : Blank blanks) :
    Accepted ('\x7b' :: ([','].intercalate (entries.map Entry.text) ++ (blanks ++ ['\x7d'])))
      (.object (entries.map Entry.field)) := by
  intro fuel rest enough _
  have starts : skipSpace
      (('\x7b' :: ([','].intercalate (entries.map Entry.text) ++ (blanks ++ ['\x7d']))) ++ rest) =
      '\x7b' :: ([','].intercalate (entries.map Entry.text) ++ (blanks ++ '\x7d' :: rest)) := by
    rw [List.cons_append, skipSpace_cons rfl]
    simp
  refine ⟨rest, ?_, rfl⟩
  cases entries with
  | nil =>
    apply value?_emptyObject starts
    rw [List.map_nil, List.intercalate_nil, List.nil_append, skipSpace_append blank, skipSpace_cons rfl]
  | cons entry entries =>
    simp only [List.length_cons, List.length_append] at enough
    obtain ⟨fuel, rfl⟩ : ∃ less, fuel = less + 2 := ⟨fuel - 2, by omega⟩
    exact value?_object starts (fields?_of_accepted keys values blank (by omega))

/-- The reader accepts what the grammar derives. -/
theorem Spells.accepted {text : List Char} {json : Json} (spells : Spells text json) :
    Accepted text json := by
  induction spells with
  | null => exact fun fuel rest _ _ => ⟨rest, rfl, rfl⟩
  | true => exact fun fuel rest _ _ => ⟨rest, rfl, rfl⟩
  | false => exact fun fuel rest _ _ => ⟨rest, rfl, rfl⟩
  | number number => exact fun fuel rest _ ends => ⟨rest, value?_number number ends, rfl⟩
  | string inside =>
    intro fuel rest _ _
    refine ⟨rest, value?_string ?_ (stringTail?_of_spells inside rest), rfl⟩
    rw [List.cons_append, skipSpace_cons rfl, List.append_assoc, List.singleton_append]
  | array _ blank ih => exact accepted_array ih blank
  | object keys _ blank ih => exact accepted_object keys ih blank
  | @spaced before text after json blankBefore _ blankAfter ih =>
    intro fuel rest enough ends
    obtain ⟨left, read, same⟩ := ih fuel (after ++ rest) (by simp only [List.length_append] at enough; omega)
      (Ends.append blankAfter ends)
    refine ⟨left, ?_, by rw [same, skipSpace_append blankAfter]⟩
    rw [← read]
    apply value?_congr
    rw [List.append_assoc, skipSpace_append blankBefore, List.append_assoc]

theorem Spells.read (spells : Spells text json) : ofChars? text = some json := by
  have ends : Ends [] := by rintro _ _ ⟨⟩
  obtain ⟨left, read, same⟩ := spells.accepted text.length [] (Nat.le_refl _) ends
  rw [List.append_nil] at read
  rw [ofChars?, read]
  simp only [same]
  rfl

theorem Spells.unique {other : Json} (spells : Spells text json) (again : Spells text other) :
    other = json := by
  have read := again.read
  rw [spells.read] at read
  exact (Option.some.inj read).symm

end BoxDiagram.Json
