import BoxDiagram.Line

/-!
What a character does to a scan. A scan carries characters along until one of them stops it; which
characters do that, and what the scan knows behind one that does not, is told once here.
-/

namespace BoxDiagram.Line.Scan

open Text

def isOutside (scan : Scan) : Bool := !scan.quoted && scan.depth == 0

/-- Whether a comment begins at a character, when it stands outside of quotes and brackets. -/
def marksComment (scan : Scan) (char : Char) (rest : List Char) : Bool :=
  (char == '#' && scan.isBlank) || (char == '/' && rest.head? == some '/' && scan.admitsRemark)

def stops (scan : Scan) (char : Char) (rest : List Char) : Bool :=
  scan.isOutside &&
    ((!scan.inLabel && (char == '{' || char == '}' || char == ';')) || scan.marksComment char rest)

def advance (scan : Scan) (char : Char) (rest : List Char) : Scan where
  seen := char :: scan.seen
  quoted := if char = '"' then !scan.quoted else scan.quoted
  depth :=
    if scan.quoted then scan.depth
    else if char = '[' then scan.depth + 1
    else if char = ']' then scan.depth - 1
    else scan.depth
  arrowSeen := scan.arrowSeen || (scan.isOutside && char == '-' && rest.head? == some '>')
  inLabel :=
    if scan.isOutside && char == ':' && scan.arrowSeen && !scan.inLabel then startsUnquoted rest
    else scan.inLabel

/-- A scan that looks ahead cannot tell the two texts apart. -/
structure SameAhead (first second : List Char) : Prop where
  arrow : (first.head? == some '>') = (second.head? == some '>')
  slash : (first.head? == some '/') = (second.head? == some '/')
  label : startsUnquoted first = startsUnquoted second

section Ahead

variable {first second : List Char} (same : SameAhead first second)
include same

theorem SameAhead.append (text : List Char) : SameAhead (text ++ first) (text ++ second) := by
  induction text with
  | nil => exact same
  | cons char text ih =>
    refine ⟨rfl, rfl, ?_⟩
    have further := ih.label
    unfold startsUnquoted at further ⊢
    rw [List.cons_append, List.cons_append, List.dropWhile_cons, List.dropWhile_cons]
    split
    next => exact further
    next => rfl

theorem marksComment_ahead (scan : Scan) (char : Char) :
    scan.marksComment char first = scan.marksComment char second := by
  rw [marksComment, marksComment, same.slash]

theorem stops_ahead (scan : Scan) (char : Char) : scan.stops char first = scan.stops char second := by
  rw [stops, stops, marksComment_ahead same]

theorem advance_ahead (scan : Scan) (char : Char) :
    scan.advance char first = scan.advance char second := by
  rw [advance, advance, same.arrow, same.label]

end Ahead

inductive Outcome (scan : Scan) (char : Char) (rest : List Char) : Step → Prop where
  | carry (goes : scan.stops char rest = false) :
      Outcome scan char rest (.carry (scan.advance char rest))
  | opening (brace : char = '{') (outside : scan.isOutside = true) (free : scan.inLabel = false) :
      Outcome scan char rest (.cut [.statement (scan.text ++ ['{'])])
  | closing (brace : char = '}') (outside : scan.isOutside = true) (free : scan.inLabel = false) :
      Outcome scan char rest (.cut [.statement scan.text, .statement ['}']])
  | separator (semicolon : char = ';') (outside : scan.isOutside = true)
      (free : scan.inLabel = false) :
      Outcome scan char rest (.cut [.statement scan.text, .separator])
  | comment (outside : scan.isOutside = true) (mark : scan.marksComment char rest = true)
      (blank : scan.isBlank = true) :
      Outcome scan char rest (.finish [.statement (scan.text ++ char :: rest)])
  | remark {words : List Char} (slash : char = '/') (second : rest = '/' :: words)
      (outside : scan.isOutside = true) (mark : scan.marksComment char rest = true)
      (written : scan.isBlank = false) :
      Outcome scan char rest (.finish [.statement scan.text, .remark ('/' :: '/' :: words)])

theorem text_advance (scan : Scan) (char : Char) (rest : List Char) :
    (scan.advance char rest).text = scan.text ++ [char] := by
  simp [text, advance]

theorem isOutside_iff {scan : Scan} :
    scan.isOutside = true ↔ scan.quoted = false ∧ scan.depth = 0 := by
  simp [isOutside]

theorem step_inside {scan : Scan} (inside : scan.isOutside = false) (char : Char)
    (rest : List Char) : scan.step char rest = .carry (scan.advance char rest) := by
  unfold step advance
  extract_lets onward
  by_cases quote : char = '"'
  · subst quote
    simp [onward, inside]
  by_cases within : scan.quoted
  · simp [onward, inside, quote, within]
  have deep : 0 < scan.depth := by
    simp only [isOutside, within, Bool.not_false, Bool.true_and, beq_eq_false_iff_ne] at inside
    omega
  by_cases bracket : char = '['
  · simp [onward, inside, within, bracket]
  · by_cases closed : char = ']' <;> simp [onward, inside, quote, within, deep, bracket, closed]

def isMark (scan : Scan) (char : Char) (rest : List Char) : Bool :=
  char == '"' || char == '[' || (char == '-' && rest.head? == some '>') ||
    (char == ':' && scan.arrowSeen && !scan.inLabel)

theorem step_mark {scan : Scan} {char : Char} {rest : List Char} (outside : scan.isOutside = true)
    (mark : scan.isMark char rest = true) :
    scan.step char rest = .carry (scan.advance char rest) := by
  obtain ⟨unquoted, flat⟩ := isOutside_iff.mp outside
  simp only [isMark, Bool.or_eq_true, Bool.and_eq_true, beq_iff_eq, Bool.not_eq_true'] at mark
  rcases mark with ((rfl | rfl) | ⟨rfl, head⟩) | ⟨⟨rfl, seen⟩, free⟩
  · simp [step, advance, unquoted, flat]
  · simp [step, advance, unquoted, flat]
  · simp [step, advance, unquoted, flat, outside, head]
  · simp [step, advance, unquoted, flat, outside, seen, free]

theorem step_eq_carry {scan : Scan} {char : Char} {rest : List Char}
    (goes : scan.stops char rest = false) :
    scan.step char rest = .carry (scan.advance char rest) := by
  by_cases inside : scan.isOutside = false
  · exact step_inside inside char rest
  by_cases mark : scan.isMark char rest = true
  · exact step_mark (by simpa using inside) mark
  rw [Bool.not_eq_false] at inside
  rw [← Bool.not_eq_true] at goes
  obtain ⟨unquoted, flat⟩ := isOutside_iff.mp inside
  simp only [isMark, stops, marksComment, inside, Bool.true_and, Bool.or_eq_true, Bool.and_eq_true,
    beq_iff_eq, Bool.not_eq_true', not_or] at mark goes
  obtain ⟨⟨⟨quote, bracket⟩, arrow⟩, label⟩ := mark
  obtain ⟨cuts, hash, slash⟩ := goes
  have same : scan.advance char rest = { scan with seen := char :: scan.seen } := by
    simp only [advance, inside, quote, bracket, unquoted, flat, Nat.zero_sub, ite_self, if_false,
      Bool.false_eq_true, Scan.mk.injEq, true_and]
    grind
  rw [same, step]
  simp only [Bool.and_eq_true, decide_eq_true_eq, beq_iff_eq, Bool.not_eq_true', quote, unquoted,
    bracket, flat, arrow, label, hash, slash, Nat.lt_irrefl, if_false, Bool.false_eq_true]
  grind

theorem outcome (scan : Scan) (char : Char) (rest : List Char) :
    scan.Outcome char rest (scan.step char rest) := by
  by_cases goes : scan.stops char rest = false
  · rw [step_eq_carry goes]
    exact .carry goes
  simp only [stops, marksComment, Bool.not_eq_false, Bool.and_eq_true, Bool.or_eq_true, beq_iff_eq,
    Bool.not_eq_true'] at goes
  obtain ⟨outside, ⟨free, (rfl | rfl) | rfl⟩ | ⟨rfl, blank⟩ | ⟨⟨rfl, head⟩, admitted⟩⟩ := goes
  all_goals obtain ⟨unquoted, flat⟩ := isOutside_iff.mp outside
  · have cut : scan.step '{' rest = .cut [.statement (scan.text ++ ['{'])] := by
      simp [step, Scan.text, unquoted, flat, free]
    exact cut ▸ .opening rfl outside free
  · have cut : scan.step '}' rest = .cut [.statement scan.text, .statement ['}']] := by
      simp [step, unquoted, flat, free]
    exact cut ▸ .closing rfl outside free
  · have cut : scan.step ';' rest = .cut [.statement scan.text, .separator] := by
      simp [step, unquoted, flat, free]
    exact cut ▸ .separator rfl outside free
  · have finish : scan.step '#' rest = .finish [.statement (scan.text ++ '#' :: rest)] := by
      simp [step, unquoted, flat, blank]
    exact finish ▸ .comment outside (by simp [marksComment, blank]) blank
  · obtain ⟨words, rfl⟩ := List.head?_eq_some_iff.mp head
    have marks : scan.marksComment '/' ('/' :: words) = true := by simp [marksComment, admitted]
    cases blank : scan.isBlank with
    | true =>
      have finish : scan.step '/' ('/' :: words) =
          .finish [.statement (scan.text ++ '/' :: '/' :: words)] := by
        simp [step, unquoted, flat, admitted, blank]
      exact finish ▸ .comment outside marks blank
    | false =>
      have finish : scan.step '/' ('/' :: words) =
          .finish [.statement scan.text, .remark ('/' :: '/' :: words)] := by
        simp [step, unquoted, flat, admitted, blank]
      exact finish ▸ .remark rfl rfl outside marks blank

end BoxDiagram.Line.Scan
