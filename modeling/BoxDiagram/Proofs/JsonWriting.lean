import BoxDiagram.Proofs.JsonGrammar

/-!
What is written of a value is a text of the grammar. Escaping keeps the quote and the backslash apart from
the ends of a string, so a value is spelled both by its line and by its pages of lines, as long as the
texts of its numbers are numbers. The line has no character below the space.
-/

namespace BoxDiagram.Json

inductive Valid : Json → Prop
  | null : Valid .null
  | bool (value : Bool) : Valid (.bool value)
  | number {text : String} (number : Number text.toList) : Valid (.number text)
  | string (value : String) : Valid (.string value)
  | array {items : List Json} (each : ∀ item ∈ items, Valid item) : Valid (.array items)
  | object {fields : List (String × Json)} (each : ∀ field ∈ fields, Valid field.2) : Valid (.object fields)

def Printed (text : List Char) : Prop := ∀ char ∈ text, 0x20 ≤ char.toNat

theorem boolText_spells (value : Bool) : Spells (boolText value).toList (.bool value) := by
  cases value with
  | false => exact .false
  | true => exact .true

theorem number_spells {text : String} (number : Number text.toList) :
    Spells text.toList (.number text) := by
  have spelled := Spells.number number
  rwa [String.ofList_toList] at spelled

section Strings

theorem unit?_escape : ∀ number < 0x20,
    unit? '0' '0' (hexDigit (number / 16)) (hexDigit (number % 16)) = some number := by
  decide +kernel

theorem escape_cases (char : Char) :
    (∃ letter, escape char = ['\\', letter] ∧ unescape? letter = some char ∧ 0x20 ≤ letter.toNat) ∨
      (escape char = ['\\', 'u', '0', '0', hexDigit (char.toNat / 16), hexDigit (char.toNat % 16)] ∧
        char.toNat < 0x20) ∨
      (escape char = [char] ∧ char ≠ '"' ∧ char ≠ '\\' ∧ 0x20 ≤ char.toNat) := by
  by_cases special : char ∈ ['"', '\\', '\x08', '\x0c', '\n', '\r', '\t']
  · left
    simp only [List.mem_cons, List.not_mem_nil, or_false] at special
    rcases special with rfl | rfl | rfl | rfl | rfl | rfl | rfl <;> exact ⟨_, rfl, rfl, by simp⟩
  · right
    simp only [List.mem_cons, List.not_mem_nil, or_false, not_or] at special
    obtain ⟨quote, backslash, others⟩ := special
    by_cases below : char.toNat < 0x20
    · exact .inl ⟨by simp [escape, quote, backslash, others, below], below⟩
    · exact .inr ⟨by simp [escape, quote, backslash, others, below], quote, backslash,
        Nat.not_lt.mp below⟩

theorem escape_spells (char : Char) : SpellsChar (escape char) char := by
  rcases escape_cases char with ⟨letter, escaped, named, -⟩ | ⟨escaped, below⟩ |
    ⟨escaped, quote, backslash, printed⟩
  · rw [escaped]
    exact .letter named
  · have spelled := SpellsChar.unit (unit?_escape char.toNat below) (.inl (by omega))
    rwa [Char.ofNat_toNat, ← escaped] at spelled
  · rw [escaped]
    exact .plain quote backslash printed

theorem flatMap_escape_spells (text : List Char) : SpellsText (text.flatMap escape) text := by
  induction text with
  | nil => exact .nil
  | cons char rest ih =>
    rw [List.flatMap_cons]
    exact .cons (escape_spells char) ih

theorem toList_quote (text : String) :
    (quote text).toList = '"' :: (text.toList.flatMap escape ++ ['"']) := by
  rw [quote, String.toList_ofList, List.cons_append]

theorem hexDigit_printed : ∀ number < 16, 0x20 ≤ (hexDigit number).toNat := by
  decide +kernel

theorem escape_printed (char : Char) : Printed (escape char) := by
  rcases escape_cases char with ⟨letter, escaped, -, printed⟩ | ⟨escaped, below⟩ | ⟨escaped, -, -, printed⟩
  · rw [escaped]
    simpa [Printed] using printed
  · have high := hexDigit_printed (char.toNat / 16) (by omega)
    have low := hexDigit_printed (char.toNat % 16) (by omega)
    rw [escaped]
    simpa [Printed] using ⟨high, low⟩
  · rw [escaped]
    simpa [Printed] using printed

theorem quote_spellsKey {before : List Char} (blank : Blank before) (key : String) :
    SpellsKey (before ++ (quote key).toList) key := by
  have spelled := SpellsKey.quoted blank (flatMap_escape_spells key.toList) blank_nil
  rwa [← toList_quote, String.ofList_toList] at spelled

theorem quote_spells (text : String) : Spells (quote text).toList (.string text) := by
  have spelled := Spells.string (flatMap_escape_spells text.toList)
  rwa [← toList_quote, String.ofList_toList] at spelled

theorem quote_printed (text : String) : Printed (quote text).toList := by
  rw [toList_quote, Printed, List.forall_mem_cons, List.forall_mem_append, List.forall_mem_singleton]
  refine ⟨by simp, fun char inside => ?_, by simp⟩
  obtain ⟨origin, -, escaped⟩ := List.mem_flatMap.mp inside
  exact escape_printed origin char escaped

end Strings

section Separated

variable {β : Type}

theorem spells_array (items : List Json) {texts : Json → List Char} {blanks : List Char}
    (each : ∀ item ∈ items, Spells (texts item) item) (blank : Blank blanks) :
    Spells ('[' :: ([','].intercalate (items.map texts) ++ (blanks ++ [']']))) (.array items) := by
  have spelled := @Spells.array (items.map fun item => (texts item, item)) blanks
    (List.forall_mem_map.mpr each) blank
  simpa [Function.comp_def] using spelled

theorem spells_object (fields : List (String × Json)) {keys values : String × Json → List Char}
    {blanks : List Char} (named : ∀ field ∈ fields, SpellsKey (keys field) field.1)
    (each : ∀ field ∈ fields, Spells (values field) field.2) (blank : Blank blanks) :
    Spells ('\x7b' :: ([','].intercalate (fields.map fun field => keys field ++ ':' :: values field) ++
      (blanks ++ ['\x7d']))) (.object fields) := by
  have spelled := @Spells.object (fields.map fun field => ⟨keys field, field.1, values field, field.2⟩)
    blanks (List.forall_mem_map.mpr named) (List.forall_mem_map.mpr each) blank
  simpa [Function.comp_def, Entry.text, Entry.field] using spelled

theorem toList_join_separated {write : List β → List String} {chunks : β → List String}
    (none : write [] = []) (last : ∀ item, write [item] = chunks item)
    (more : ∀ item next rest, write (item :: next :: rest) = chunks item ++ "," :: write (next :: rest))
    (items : List β) :
    (String.join (write items)).toList =
      [','].intercalate (items.map fun item => (String.join (chunks item)).toList) := by
  induction items with
  | nil =>
    rw [none]
    rfl
  | cons item rest ih =>
    cases rest with
    | nil => rw [last, List.map_singleton, List.intercalate_singleton]
    | cons next rest =>
      rw [List.map_cons] at ih
      rw [List.map_cons, List.map_cons, List.intercalate_cons_cons, ← ih, more]
      simp

end Separated

section Compact

theorem toList_compact_array (items : List Json) :
    (Json.array items).compact.toList =
      '[' :: ([','].intercalate (items.map fun item => item.compact.toList) ++ ([] ++ [']'])) := by
  have joined := @toList_join_separated _ itemChunks chunks rfl (fun _ => rfl) (fun _ _ _ => rfl) items
  rw [compact, chunks, String.join_append, String.toList_append, String.join_cons, String.toList_append,
    joined]
  rfl

theorem toList_compact_object (fields : List (String × Json)) :
    (Json.object fields).compact.toList =
      '\x7b' :: ([','].intercalate (fields.map fun field =>
        (quote field.1).toList ++ ':' :: field.2.compact.toList) ++ ([] ++ ['\x7d'])) := by
  have joined := @toList_join_separated _ fieldChunks
    (fun field => quote field.1 :: ":" :: field.2.chunks) rfl (fun _ => rfl) (fun _ _ _ => rfl) fields
  simp only [String.join_cons, String.toList_append] at joined
  rw [compact, chunks, String.join_append, String.toList_append, String.join_cons, String.toList_append,
    joined]
  rfl

theorem Valid.spells_compact {json : Json} (valid : Valid json) : Spells json.compact.toList json := by
  induction valid with
  | null => exact .null
  | bool value => simpa [compact, chunks] using boolText_spells value
  | number number => simpa [compact, chunks] using number_spells number
  | string value => simpa [compact, chunks] using quote_spells value
  | array each ih =>
    rw [toList_compact_array]
    exact spells_array _ ih blank_nil
  | @object fields each ih =>
    have named : ∀ field ∈ fields, SpellsKey (quote field.1).toList field.1 := by
      intro field _
      have key := quote_spellsKey blank_nil field.1
      rwa [List.nil_append] at key
    have spelled := spells_object fields named ih blank_nil
    rwa [← toList_compact_object] at spelled

theorem printed_intercalate {texts : List (List Char)} (each : ∀ text ∈ texts, Printed text) :
    Printed ([','].intercalate texts) := by
  induction texts with
  | nil => simp [Printed]
  | cons text rest ih =>
    obtain ⟨first, others⟩ := List.forall_mem_cons.mp each
    cases rest with
    | nil => rwa [List.intercalate_singleton]
    | cons next rest =>
      rw [List.intercalate_cons_cons, Printed, List.forall_mem_append, List.forall_mem_append]
      exact ⟨⟨first, by simp⟩, ih others⟩

theorem Number.printed {text : List Char} (number : Number text) : Printed text := by
  intro char inside
  have listed := number.chars char inside
  simp only [isNumberChar, Char.isDigit, Bool.or_eq_true, Bool.and_eq_true, decide_eq_true_eq,
    beq_iff_eq] at listed
  rcases listed with ((((⟨low, -⟩ | rfl) | rfl) | rfl) | rfl) | rfl
  · exact Nat.le_trans (by simp) (UInt32.le_iff_toNat_le.mp low)
  all_goals simp

theorem Valid.printed_compact {json : Json} (valid : Valid json) : Printed json.compact.toList := by
  induction valid with
  | null => simp [Printed, compact, chunks]
  | bool value => cases value <;> simp [Printed, compact, chunks, boolText]
  | @number text number => simpa [compact, chunks] using number.printed
  | string value => simpa [compact, chunks] using quote_printed value
  | array each ih =>
    rw [toList_compact_array, Printed, List.forall_mem_cons, List.forall_mem_append]
    exact ⟨by simp, printed_intercalate (List.forall_mem_map.mpr ih), by simp⟩
  | object each ih =>
    rw [toList_compact_object, Printed, List.forall_mem_cons, List.forall_mem_append]
    refine ⟨by simp, printed_intercalate (List.forall_mem_map.mpr fun field listed => ?_), by simp⟩
    rw [Printed, List.forall_mem_append, List.forall_mem_cons]
    exact ⟨quote_printed field.1, by simp, ih field listed⟩

end Compact

section Pretty

theorem blank_lineBreak (depth : Nat) : Blank (lineBreak depth).toList := by
  intro char inside
  rw [lineBreak, String.toList_ofList] at inside
  rcases List.mem_cons.mp inside with rfl | later
  · rfl
  · rw [List.eq_of_mem_replicate later]
    rfl

def lines (depth : Nat) (json : Json) : List Char := (String.join (prettyChunks depth json)).toList

theorem lines_array (depth : Nat) {items : List Json} (some : items ≠ []) :
    lines depth (.array items) =
      '[' :: ([','].intercalate (items.map fun item =>
        (lineBreak (depth + 1)).toList ++ lines (depth + 1) item) ++
          ((lineBreak depth).toList ++ [']'])) := by
  have joined := @toList_join_separated _ (prettyItemChunks (depth + 1))
    (fun item => lineBreak (depth + 1) :: prettyChunks (depth + 1) item) rfl (fun _ => rfl)
    (fun _ _ _ => rfl) items
  simp only [String.join_cons, String.toList_append] at joined
  rw [lines, prettyChunks, String.join_append, String.toList_append, String.join_cons,
    String.toList_append, joined]
  · simp only [String.join_cons, String.toList_append, String.join_nil]
    rfl
  · exact some

theorem lines_object (depth : Nat) {fields : List (String × Json)} (some : fields ≠ []) :
    lines depth (.object fields) =
      '\x7b' :: ([','].intercalate (fields.map fun field =>
        ((lineBreak (depth + 1)).toList ++ (quote field.1).toList) ++
          ':' :: ' ' :: lines (depth + 1) field.2) ++ ((lineBreak depth).toList ++ ['\x7d'])) := by
  have joined := @toList_join_separated _ (prettyFieldChunks (depth + 1))
    (fun field => lineBreak (depth + 1) :: quote field.1 :: ": " :: prettyChunks (depth + 1) field.2) rfl
    (fun _ => rfl) (fun _ _ _ => rfl) fields
  simp only [String.join_cons, String.toList_append] at joined
  rw [lines, prettyChunks, String.join_append, String.toList_append, String.join_cons,
    String.toList_append, joined]
  · simp only [String.join_cons, String.toList_append, String.join_nil, List.append_assoc]
    rfl
  · exact some

theorem Spells.behind {before text : List Char} {json : Json} (spells : Spells text json)
    (blank : Blank before) : Spells (before ++ text) json := by
  have spelled := Spells.spaced blank spells blank_nil
  rwa [List.append_nil] at spelled

theorem Valid.spells_lines {json : Json} (valid : Valid json) (depth : Nat) :
    Spells (lines depth json) json := by
  induction valid generalizing depth with
  | null => simpa [lines, prettyChunks] using Spells.null
  | bool value => simpa [lines, prettyChunks] using boolText_spells value
  | number number => simpa [lines, prettyChunks] using number_spells number
  | string value => simpa [lines, prettyChunks] using quote_spells value
  | @array items each ih =>
    by_cases none : items = []
    · subst none
      have spelled := @Spells.array [] [] (by simp) blank_nil
      simpa [lines, prettyChunks] using spelled
    · rw [lines_array depth none]
      exact spells_array items (fun item listed => (ih item listed (depth + 1)).behind (blank_lineBreak _))
        (blank_lineBreak depth)
  | @object fields each ih =>
    by_cases none : fields = []
    · subst none
      have spelled := @Spells.object [] [] (by simp) (by simp) blank_nil
      simpa [lines, prettyChunks] using spelled
    · rw [lines_object depth none]
      have space : Blank [' '] := by
        intro char inside
        rw [List.mem_singleton.mp inside]
        rfl
      exact spells_object fields (fun field _ => quote_spellsKey (blank_lineBreak _) field.1)
        (fun field listed => (ih field listed (depth + 1)).behind space) (blank_lineBreak depth)

theorem Valid.spells_pretty {json : Json} (valid : Valid json) : Spells json.pretty.toList json :=
  valid.spells_lines 0

end Pretty

end BoxDiagram.Json
