import BoxDiagram.Text.Blank
import Mathlib.Data.List.TakeWhile

/-!
What trimming takes away and what it leaves. A text is what it has after trimming, with blanks before
and behind; what is left neither begins nor ends with a blank.
-/

namespace BoxDiagram.Text

theorem byteLength_utf8Encode (text : List Char) : text.utf8Encode.size = byteLength text := by
  induction text with
  | nil => rfl
  | cons char rest ih =>
    rw [List.utf8Encode_cons, ByteArray.size_append, ih, byteLength_cons, List.utf8Encode_singleton,
      List.size_toByteArray, String.length_utf8EncodeChar]

theorem byteLength_toList (text : String) : byteLength text.toList = text.utf8ByteSize := by
  rw [← byteLength_utf8Encode]
  simp

theorem byteLength_pos {text : List Char} (inhabited : text ≠ []) : 0 < byteLength text := by
  cases text with
  | nil => exact absurd rfl inhabited
  | cons char rest =>
    have positive := char.utf8Size_pos
    rw [byteLength_cons]
    omega

def Trimmed (text : List Char) : Prop :=
  (∀ char, text.head? = some char → isBlank char = false) ∧
    ∀ char, text.getLast? = some char → isBlank char = false

def trailingBlanks (text : List Char) : List Char := (text.reverse.takeWhile isBlank).reverse

theorem trimEnd_append (text : List Char) : trimEnd text ++ trailingBlanks text = text := by
  rw [trimEnd, dropEndWhile, trailingBlanks, ← List.reverse_append, List.takeWhile_append_dropWhile,
    List.reverse_reverse]

theorem leadingBlanks_append (text : List Char) :
    leadingBlanks text ++ (trim text ++ trailingBlanks (trimStart text)) = text := by
  rw [trim, trimEnd_append, leadingBlanks, trimStart, List.takeWhile_append_dropWhile]

theorem isBlank_of_mem_leadingBlanks {text : List Char} {char : Char}
    (member : char ∈ leadingBlanks text) : isBlank char = true :=
  List.mem_takeWhile_imp member

theorem isBlank_of_mem_trailingBlanks {text : List Char} {char : Char}
    (member : char ∈ trailingBlanks text) : isBlank char = true :=
  List.mem_takeWhile_imp (List.mem_reverse.mp member)

theorem isBlank_of_head?_trimStart {text : List Char} {char : Char}
    (first : (trimStart text).head? = some char) : isBlank char = false := by
  induction text with
  | nil => cases first
  | cons other rest ih =>
    rw [trimStart, List.dropWhile_cons] at first
    split at first
    next => exact ih first
    next stops =>
      cases first
      exact Bool.eq_false_iff.mpr stops

theorem trimmed_trim (text : List Char) : Trimmed (trim text) := by
  constructor
  · intro char first
    have started : (trimStart text).head? = some char := by
      rw [← trimEnd_append (trimStart text), List.head?_append, ← trim, first]
      rfl
    exact isBlank_of_head?_trimStart started
  · intro char last
    rw [trim, trimEnd, dropEndWhile, List.getLast?_reverse] at last
    exact isBlank_of_head?_trimStart last

theorem dropWhile_of_head? {test : Char → Bool} {text : List Char}
    (stops : ∀ char, text.head? = some char → test char = false) : text.dropWhile test = text := by
  cases text with
  | nil => rfl
  | cons char rest => simp [stops char rfl]

theorem trim_of_trimmed {text : List Char} (trimmed : Trimmed text) : trim text = text := by
  obtain ⟨first, last⟩ := trimmed
  rw [← List.head?_reverse] at last
  rw [trim, trimStart, dropWhile_of_head? first, trimEnd, dropEndWhile, dropWhile_of_head? last,
    List.reverse_reverse]

theorem trimmed_between {first last : Char} (begins : isBlank first = false)
    (ends : isBlank last = false) (middle : List Char) : Trimmed (first :: middle ++ [last]) := by
  constructor
  · intro char head
    cases head
    exact begins
  · intro char behind
    rw [List.getLast?_concat] at behind
    cases behind
    exact ends

theorem trimStart_append_of_ne_nil {text : List Char} (inhabited : trimStart text ≠ [])
    (more : List Char) : trimStart (text ++ more) = trimStart text ++ more := by
  unfold trimStart at inhabited ⊢
  rw [List.dropWhile_append, if_neg (by simpa using inhabited)]

theorem leadingBlanks_append_of_ne_nil {text : List Char} (inhabited : trimStart text ≠ [])
    (more : List Char) : leadingBlanks (text ++ more) = leadingBlanks text := by
  have whole : leadingBlanks (text ++ more) ++ trimStart (text ++ more) = text ++ more :=
    List.takeWhile_append_dropWhile
  have part : leadingBlanks text ++ trimStart text = text := List.takeWhile_append_dropWhile
  rw [trimStart_append_of_ne_nil inhabited, ← List.append_assoc] at whole
  exact List.append_cancel_right ((List.append_cancel_right whole).trans part.symm)

theorem trimEnd_append_blank (text : List Char) {blank : Char} (white : isBlank blank = true) :
    trimEnd (text ++ [blank]) = trimEnd text := by
  simp [trimEnd, dropEndWhile, white]

theorem trim_append_blank (text : List Char) {blank : Char} (white : isBlank blank = true) :
    trim (text ++ [blank]) = trim text := by
  by_cases empty : trimStart text = []
  · have none : trimStart (text ++ [blank]) = [] := by
      unfold trimStart at empty ⊢
      simp [List.dropWhile_append, empty, white]
    rw [trim, trim, none, empty]
  · rw [trim, trim, trimStart_append_of_ne_nil empty, trimEnd_append_blank _ white]

theorem trim_append_black (text : List Char) {char : Char} (black : isBlank char = false) :
    trim (text ++ [char]) = trimStart text ++ [char] := by
  have begins : trimStart (text ++ [char]) = trimStart text ++ [char] := by
    by_cases empty : trimStart text = []
    · unfold trimStart at empty ⊢
      simp [List.dropWhile_append, empty, black]
    · exact trimStart_append_of_ne_nil empty [char]
  simp [trim, begins, trimEnd, dropEndWhile, black]

theorem trailingBlanks_ne_nil {text : List Char} {blank : Char} (last : text.getLast? = some blank)
    (white : isBlank blank = true) (inhabited : trim text ≠ []) :
    trailingBlanks (trimStart text) ≠ [] := by
  intro none
  have whole := leadingBlanks_append text
  rw [none, List.append_nil] at whole
  have ends : (trim text).getLast? = some blank := by
    have same := congrArg List.getLast? whole
    have found := List.getLast?_eq_some_getLast inhabited
    rw [List.getLast?_append, last, found, Option.some_or] at same
    exact found.trans same
  exact Bool.false_ne_true (((trimmed_trim text).2 blank ends).symm.trans white)

end BoxDiagram.Text
