import BoxDiagram.Proofs.BraceMarks
import Mathlib.Data.List.Basic

/-!
Property lists whose values are all written in quotes. Keys hold nothing that means anything to a list
and values nothing that ends a quoted text, so the grammar reads such a list up to its own bracket and
the properties are read back as they were, in their order.
-/

namespace BoxDiagram

open Text

def IsQuotable (text : String) : Prop := '"' ∉ text.toList ∧ '\n' ∉ text.toList

structure IsKey (key : String) : Prop where
  inhabited : key ≠ ""
  trimmed : trim key.toList = key.toList
  quiet : ∀ char ∈ key.toList, char ∉ [',', ':', '"', '[', ']', '\n']

structure PropertyMap.Writable (properties : PropertyMap) : Prop where
  nodup : properties.keys.Nodup
  isKey : ∀ key ∈ properties.keys, IsKey key
  isQuotable : ∀ entry ∈ properties.entries, IsQuotable entry.2

theorem PropertyMap.Writable.entry {properties : PropertyMap} (writable : properties.Writable)
    {entry : String × String} (member : entry ∈ properties.entries) :
    IsKey entry.1 ∧ IsQuotable entry.2 :=
  ⟨writable.isKey entry.1 (List.mem_map_of_mem member), writable.isQuotable entry member⟩

theorem PropertyMap.insert_of_fresh {properties : PropertyMap} {key : String}
    (fresh : key ∉ properties.keys) (value : String) :
    properties.insert key value = ⟨properties.entries ++ [(key, value)]⟩ := by
  obtain ⟨entries⟩ := properties
  unfold insert
  congr 1
  induction entries with
  | nil => rfl
  | cons entry entries ih =>
    simp only [keys, List.map_cons, List.mem_cons, not_or] at fresh
    rw [insertEntry, if_neg (Ne.symm fresh.1), ih fresh.2, List.cons_append]

theorem PropertyMap.insertAll_of_fresh {properties : PropertyMap} {entries : List (String × String)}
    (fresh : (properties.keys ++ entries.map Prod.fst).Nodup) :
    properties.insertAll entries = ⟨properties.entries ++ entries⟩ := by
  induction entries generalizing properties with
  | nil => simp [insertAll]
  | cons entry entries ih =>
    have new : entry.1 ∉ properties.keys := by
      intro member
      exact (List.nodup_append.mp fresh).2.2 entry.1 member entry.1 (by simp) rfl
    have inserted := insert_of_fresh new entry.2
    rw [insertAll, List.foldl_cons, ← insertAll, ih, inserted]
    · simp
    · rw [inserted]
      simpa [keys] using fresh

theorem PropertyMap.ofList_of_nodup {entries : List (String × String)}
    (nodup : (entries.map Prod.fst).Nodup) : ofList entries = ⟨entries⟩ := by
  have fresh : (empty.keys ++ entries.map Prod.fst).Nodup := nodup
  simpa [ofList, empty] using insertAll_of_fresh fresh

theorem Text.stripQuotes_quoted (text : List Char) : stripQuotes ('"' :: text ++ ['"']) = text := by
  have turned : (text ++ ['"']).reverse = '"' :: text.reverse := by simp
  rw [List.cons_append, stripQuotes]
  simp [turned]

namespace PropertyList

def writeEntry (entry : String × String) : List Char :=
  entry.1.toList ++ ':' :: ' ' :: '"' :: entry.2.toList ++ ['"']

def write (properties : PropertyMap) : List Char :=
  [',', ' '].intercalate (properties.entries.map writeEntry)

section Written

variable {text first second : List Char}

def Enclosed (text : List Char) : Prop :=
  ∀ rest, Grammar.listTail? false 0 (text ++ rest) =
    (Grammar.listTail? false 0 rest).map fun (body, left) => (text ++ body, left)

theorem enclosed_nil : Enclosed [] := by simp [Enclosed]

theorem Enclosed.append (before : Enclosed first) (behind : Enclosed second) :
    Enclosed (first ++ second) := by
  intro rest
  rw [List.append_assoc, before, behind, Option.map_map]
  simp [Function.comp_def]

theorem enclosed_quiet (quiet : ∀ char ∈ text, char ∉ ['"', '[', ']']) : Enclosed text := by
  induction text with
  | nil => exact enclosed_nil
  | cons char text ih =>
    obtain ⟨first, others⟩ := List.forall_mem_cons.mp quiet
    simp only [List.mem_cons, List.not_mem_nil, or_false, not_or] at first
    intro rest
    rw [List.cons_append, Grammar.listTail?]
    simp [first, ih others rest, Function.comp_def]

theorem enclosed_quoted (unquoted : '"' ∉ text) : Enclosed ('"' :: text ++ ['"']) := by
  intro rest
  have inside : Grammar.listTail? true 0 (text ++ '"' :: rest) =
      (Grammar.listTail? false 0 rest).map fun (body, left) => (text ++ '"' :: body, left) := by
    induction text with
    | nil => simp [Grammar.listTail?]
    | cons char text ih =>
      simp only [List.mem_cons, not_or] at unquoted
      rw [List.cons_append, Grammar.listTail?]
      simp [Ne.symm unquoted.1, ih unquoted.2, Function.comp_def]
  rw [List.cons_append, List.cons_append, Grammar.listTail?]
  simp [inside, Function.comp_def]

def Uncut (text : List Char) : Prop :=
  ∀ rest, entriesFrom .plain (text ++ rest) = (entriesFrom .plain rest).modifyHead (text ++ ·)

theorem Uncut.append (before : Uncut first) (behind : Uncut second) : Uncut (first ++ second) := by
  intro rest
  rw [List.append_assoc, before, behind, List.modifyHead_modifyHead]
  simp [Function.comp_def]

theorem uncut_quiet (quiet : ∀ char ∈ text, char ∉ [',', '"', '[']) : Uncut text :=
  fun rest => (uncutTo_quiet quiet rest).cut

theorem uncut_quoted (unquoted : '"' ∉ text) : Uncut ('"' :: text ++ ['"']) := by
  intro rest
  have inside : ∀ char ∈ text, (char != '"') = true := by
    rintro char member
    rw [bne_iff_ne]
    rintro rfl
    exact unquoted member
  have ends := Run.endsAt_quoted.uncutTo (text ++ '"' :: rest)
  rw [List.dropWhile_append_of_pos inside, List.dropWhile_cons_of_neg (by simp), List.drop_one,
    List.tail_cons] at ends
  apply UncutTo.cut
  rw [List.append_assoc]
  exact UncutTo.cons (by simp) ends

end Written

section Entries

variable {entry : String × String}

theorem quiet_key (isKey : IsKey entry.1) :
    ∀ char ∈ entry.1.toList ++ [':', ' '], char ∉ [',', '"', '[', ']'] := by
  intro char member
  rcases List.mem_append.mp member with inKey | colon
  · have quiet := isKey.quiet char inKey
    simp only [List.mem_cons, not_or] at quiet ⊢
    grind
  · grind

theorem enclosed_writeEntry (isKey : IsKey entry.1) (isQuotable : IsQuotable entry.2) :
    Enclosed (writeEntry entry) := by
  have key : Enclosed (entry.1.toList ++ [':', ' ']) := enclosed_quiet fun char member special =>
    quiet_key isKey char member (List.mem_cons_of_mem _ special)
  simpa [writeEntry] using key.append (enclosed_quoted isQuotable.1)

theorem uncut_writeEntry (isKey : IsKey entry.1) (isQuotable : IsQuotable entry.2) :
    Uncut (writeEntry entry) := by
  have key : Uncut (entry.1.toList ++ [':', ' ']) := uncut_quiet fun char member special =>
    quiet_key isKey char member (List.mem_append_left [']'] special)
  simpa [writeEntry] using key.append (uncut_quoted isQuotable.1)

theorem trimmed_writeEntry (isKey : IsKey entry.1) : Trimmed (writeEntry entry) := by
  have inhabited : entry.1.toList ≠ [] := by simpa using isKey.inhabited
  obtain ⟨first, rest, key⟩ := List.exists_cons_of_ne_nil inhabited
  have trimmed := trimmed_trim entry.1.toList
  rw [isKey.trimmed, key] at trimmed
  simpa [writeEntry, key] using
    trimmed_between (trimmed.1 first rfl) (by decide) (rest ++ ':' :: ' ' :: '"' :: entry.2.toList)

/-- An entry is read as the property that it was written for, also behind blanks. -/
theorem readEntry_writeEntry (isKey : IsKey entry.1) {blanks : List Char}
    (white : ∀ char ∈ blanks, isBlank char = true) :
    readEntry (blanks ++ writeEntry entry) = some (.property entry.1 entry.2) := by
  have trimmed : trim (blanks ++ writeEntry entry) = writeEntry entry := by
    rw [trim, trimStart_append_blanks white, ← trim, trim_of_trimmed (trimmed_writeEntry isKey)]
  have noColon : ∀ char ∈ entry.1.toList, (char != ':') = true := by
    intro char member
    have quiet := isKey.quiet char member
    simp only [List.mem_cons, not_or] at quiet
    simpa using quiet.2.1
  have before : (writeEntry entry).takeWhile (· != ':') = entry.1.toList := by
    rw [writeEntry, List.append_assoc, List.takeWhile_append_of_pos noColon]
    simp
  have behind : (writeEntry entry).dropWhile (· != ':') = ':' :: ' ' :: '"' :: entry.2.toList ++ ['"'] := by
    rw [writeEntry, List.append_assoc, List.dropWhile_append_of_pos noColon]
    rfl
  have value : stripQuotes (trim (' ' :: '"' :: entry.2.toList ++ ['"'])) = entry.2.toList := by
    have black : isBlank '"' = false := by decide
    have quotes : trim (' ' :: '"' :: entry.2.toList ++ ['"']) = '"' :: entry.2.toList ++ ['"'] :=
      trim_of_trimmed (trimmed_between black black _)
    rw [quotes, stripQuotes_quoted]
  have inhabited : entry.1.toList ≠ [] := by simpa using isKey.inhabited
  have written : writeEntry entry ≠ [] := by simp [writeEntry]
  unfold readEntry
  simp only [trimmed, before, behind, isKey.trimmed]
  rw [if_neg written, if_neg inhabited]
  simp only [List.cons_append] at value ⊢
  rw [value, String.ofList_toList, String.ofList_toList]

end Entries

/-- Entries with a comma and a space between neighbours are told apart. -/
theorem entries_intercalate {part : List Char} {parts : List (List Char)}
    (uncut : ∀ other ∈ part :: parts, Uncut other) :
    entries ([',', ' '].intercalate (part :: parts)) = part :: parts.map (' ' :: ·) := by
  induction parts generalizing part with
  | nil =>
    have alone := uncut part List.mem_cons_self []
    simpa [entries_eq_entriesFrom, entriesFrom] using alone
  | cons next parts ih =>
    obtain ⟨first, others⟩ := List.forall_mem_cons.mp uncut
    have further : entriesFrom .plain ([',', ' '].intercalate (next :: parts)) =
        next :: parts.map (' ' :: ·) := by
      rw [← entries_eq_entriesFrom, ih others]
    have space : Uncut [' '] := uncut_quiet (by simp)
    have behind := space ([',', ' '].intercalate (next :: parts))
    rw [List.singleton_append, further] at behind
    have cut := first (',' :: ' ' :: [',', ' '].intercalate (next :: parts))
    rw [entriesFrom, if_pos ⟨rfl, rfl⟩, behind] at cut
    rw [entries_eq_entriesFrom, List.intercalate_cons_cons, List.append_assoc]
    simpa using cut

section Lists

variable {properties : PropertyMap} (writable : properties.Writable)

include writable

theorem enclosed_write : Enclosed (write properties) := by
  have listed : ∀ entries : List (String × String), (∀ entry ∈ entries, entry ∈ properties.entries) →
      Enclosed ([',', ' '].intercalate (entries.map writeEntry)) := by
    intro entries within
    induction entries with
    | nil => exact enclosed_nil
    | cons entry entries ih =>
      obtain ⟨first, others⟩ := List.forall_mem_cons.mp within
      obtain ⟨isKey, isQuotable⟩ := writable.entry first
      have here := enclosed_writeEntry isKey isQuotable
      cases entries with
      | nil => simpa using here
      | cons next entries =>
        have comma : Enclosed [',', ' '] := enclosed_quiet (by simp)
        rw [List.map_cons, List.map_cons, List.intercalate_cons_cons]
        exact (here.append comma).append (ih others)
  exact listed properties.entries fun _ => id

theorem list?_write (left : List Char) :
    Grammar.list? ('[' :: write properties ++ ']' :: left) = some (write properties, left) := by
  have ends : Grammar.listTail? false 0 (']' :: left) = some ([], left) := by simp [Grammar.listTail?]
  rw [List.cons_append, Grammar.list?, enclosed_write writable, ends]
  simp

theorem read_write : read (String.ofList (write properties)) = properties := by
  obtain ⟨pairs⟩ := properties
  have each : ∀ entry ∈ pairs, IsKey entry.1 ∧ IsQuotable entry.2 := fun _ => writable.entry
  have all : items (String.ofList (write ⟨pairs⟩)) =
      pairs.map fun entry => .property entry.1 entry.2 := by
    rw [items, String.toList_ofList, write]
    cases pairs with
    | nil =>
      have alone : entries [] = [[]] := entries_eq_entriesFrom []
      rw [List.map_nil, List.intercalate_nil, alone]
      rfl
    | cons entry pairs =>
      have uncut : ∀ part ∈ (entry :: pairs).map writeEntry, Uncut part := by
        rw [List.forall_mem_map]
        exact fun other member => uncut_writeEntry (each other member).1 (each other member).2
      rw [List.map_cons] at uncut ⊢
      rw [entries_intercalate uncut]
      obtain ⟨first, others⟩ := List.forall_mem_cons.mp each
      have here := readEntry_writeEntry first.1 (by simp : ∀ char ∈ [], isBlank char = true)
      rw [List.nil_append] at here
      rw [List.filterMap_cons_some here, List.map_map, List.filterMap_map, List.map_cons]
      congr 1
      rw [List.filterMap_eq_map_iff_forall_eq_some]
      intro other member
      have space : ∀ char ∈ [' '], isBlank char = true := by simp [isBlank]
      exact readEntry_writeEntry (others other member).1 space
  have kept : (pairs.map fun entry => Item.property entry.1 entry.2).filterMap Item.pair? = pairs := by
    rw [List.filterMap_map]
    exact List.filterMap_some
  rw [read, all, kept]
  exact PropertyMap.ofList_of_nodup writable.nodup

theorem newline_notMem_write : '\n' ∉ write properties := by
  have listed : ∀ entries : List (String × String), (∀ entry ∈ entries, entry ∈ properties.entries) →
      '\n' ∉ [',', ' '].intercalate (entries.map writeEntry) := by
    intro entries within
    induction entries with
    | nil => simp
    | cons entry entries ih =>
      obtain ⟨first, others⟩ := List.forall_mem_cons.mp within
      obtain ⟨isKey, isQuotable⟩ := writable.entry first
      have key : '\n' ∉ entry.1.toList := fun member => isKey.quiet _ member (by decide)
      have here : '\n' ∉ writeEntry entry := by simp [writeEntry, key, isQuotable.2]
      cases entries with
      | nil => simpa using here
      | cons next entries =>
        rw [List.map_cons, List.map_cons, List.intercalate_cons_cons]
        simpa [here] using ih others
  exact listed properties.entries fun _ => id

end Lists

end PropertyList

end BoxDiagram
