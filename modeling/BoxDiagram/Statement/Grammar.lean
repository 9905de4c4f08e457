import BoxDiagram.Kind
import BoxDiagram.Text.Alphanumeric
import BoxDiagram.Text.Blank

/-!
The grammar of a logical line. Every function takes a text from its front and gives the part it
read together with what is left; parts carry no positions, these follow from the lengths of the
parts before.
-/

namespace BoxDiagram.Grammar

open Text

def isWordStart (char : Char) : Bool :=
  isAlphanumeric char || char == '_' || char == '&' || char == '/'

def isWordChar (char : Char) : Bool := isWordStart char || char == '.'

def startsWord : List Char → Bool
  | [] => false
  | char :: _ => isWordStart char

/-- Whether a character goes on with an identifier, given what follows it: a word character, a
hyphen that does not begin an arrow, or a space in a run that leads to another word. -/
def continuesIdentifier (char : Char) (rest : List Char) : Bool :=
  isWordChar char || (char == '-' && rest.head? != some '>') ||
    (isInlineSpace char && startsWord (rest.dropWhile isInlineSpace))

def identifierTail : List Char → List Char × List Char
  | [] => ([], [])
  | char :: rest =>
    if continuesIdentifier char rest then
      let (taken, left) := identifierTail rest
      (char :: taken, left)
    else ([], char :: rest)

/-- An identifier: words with runs of inline space between them. -/
def identifier? : List Char → Option (List Char × List Char)
  | [] => none
  | char :: rest =>
    if isWordStart char then
      let (taken, left) := identifierTail rest
      some (char :: taken, left)
    else none

theorem identifierTail_append (text : List Char) :
    (identifierTail text).1 ++ (identifierTail text).2 = text := by
  induction text with
  | nil => rfl
  | cons char rest ih =>
    unfold identifierTail
    split
    · simp [ih]
    · rfl

theorem identifier?_append {text name left : List Char}
    (found : identifier? text = some (name, left)) : name ++ left = text := by
  cases text with
  | nil => simp [identifier?] at found
  | cons char rest =>
    simp only [identifier?] at found
    split at found
    · simp only [Option.some.injEq, Prod.mk.injEq] at found
      obtain ⟨rfl, rfl⟩ := found
      simp [identifierTail_append]
    · simp at found

theorem identifier?_ne_nil {text name left : List Char}
    (found : identifier? text = some (name, left)) : name ≠ [] := by
  cases text with
  | nil => simp [identifier?] at found
  | cons char rest =>
    simp only [identifier?] at found
    split at found
    · simp only [Option.some.injEq, Prod.mk.injEq] at found
      obtain ⟨rfl, rfl⟩ := found
      simp
    · simp at found

/-- The text up to the bracket that closes a list, and what follows that bracket. Quotes must be
paired and brackets outside of them balanced. -/
def listTail? : Bool → Nat → List Char → Option (List Char × List Char)
  | _, _, [] => none
  | quoted, depth, char :: rest =>
    let further (quoted : Bool) (depth : Nat) :=
      (listTail? quoted depth rest).map fun (body, left) => (char :: body, left)
    if char == '"' then further (!quoted) depth
    else if quoted then further true depth
    else if char == '[' then further false (depth + 1)
    else if char == ']' then
      match depth with
      | 0 => some ([], rest)
      | depth + 1 => further false depth
    else further false depth

def list? : List Char → Option (List Char × List Char)
  | '[' :: rest => listTail? false 0 rest
  | _ => none

structure DeclarationParts where
  name : List Char
  gap : List Char
  body : Option (List Char)
  opens : Bool
  deriving DecidableEq, Repr

def optionalList (text : List Char) : Option (List Char) × List Char :=
  match list? text with
  | some (body, left) => (some body, left)
  | none => (none, text)

def optionalBrace : List Char → Bool × List Char
  | '{' :: rest => (true, rest)
  | text => (false, text)

/-- A declaration needs a list or a brace behind its name, and only space behind these. -/
def declaration? (line : List Char) : Option DeclarationParts := do
  let (name, rest) ← identifier? line
  let gap := rest.takeWhile isInlineSpace
  let (body, rest) := optionalList (rest.dropWhile isInlineSpace)
  let (opens, rest) := optionalBrace (rest.dropWhile isInlineSpace)
  if rest.all isInlineSpace && (body.isSome || opens) then some ⟨name, gap, body, opens⟩
  else none

structure HopParts where
  arrow : List Char
  kind : EdgeKind
  target : List Char
  deriving DecidableEq, Repr

def arrowHead? : List Char → Option (List Char × EdgeKind × List Char)
  | '<' :: '-' :: '>' :: rest => some (['<', '-', '>'], .bidirectional, rest)
  | '-' :: '>' :: rest => some (['-', '>'], .directed, rest)
  | _ => none

def hop? (text : List Char) : Option (HopParts × List Char) := do
  let (head, kind, rest) ← arrowHead? (text.dropWhile isInlineSpace)
  let (target, left) ← identifier? (rest.dropWhile isInlineSpace)
  some (⟨text.takeWhile isInlineSpace ++ head ++ rest.takeWhile isInlineSpace, kind, target⟩, left)

theorem arrowHead?_append {text head left : List Char} {kind : EdgeKind}
    (found : arrowHead? text = some (head, kind, left)) : head ++ left = text := by
  unfold arrowHead? at found
  split at found <;> simp only [Option.some.injEq, Prod.mk.injEq, reduceCtorEq] at found
  · obtain ⟨rfl, -, rfl⟩ := found; rfl
  · obtain ⟨rfl, -, rfl⟩ := found; rfl

theorem hop?_append {text left : List Char} {hop : HopParts}
    (found : hop? text = some (hop, left)) : hop.arrow ++ hop.target ++ left = text := by
  simp only [hop?, bind, Option.bind_eq_some_iff, Prod.exists, Option.some.injEq,
    Prod.mk.injEq] at found
  obtain ⟨head, kind, rest, arrow, target, left', name, rfl, rfl⟩ := found
  have h := arrowHead?_append arrow
  have n := identifier?_append name
  simp only [List.append_assoc, n, List.takeWhile_append_dropWhile, h]

theorem hop?_length {text left : List Char} {hop : HopParts}
    (found : hop? text = some (hop, left)) : left.length < text.length := by
  have whole := congrArg List.length (hop?_append found)
  simp only [hop?, bind, Option.bind_eq_some_iff, Prod.exists, Option.some.injEq,
    Prod.mk.injEq] at found
  obtain ⟨head, kind, rest, arrow, target, left', name, rfl, rfl⟩ := found
  have := List.length_pos_iff.2 (identifier?_ne_nil name)
  simp only [List.length_append] at whole
  omega

def hops (text : List Char) : List HopParts × List Char :=
  match _found : hop? text with
  | none => ([], text)
  | some (hop, rest) =>
    let (more, left) := hops rest
    (hop :: more, left)
termination_by text.length
decreasing_by exact hop?_length _found

def quotedToEnd? : List Char → Option (List Char)
  | '"' :: rest =>
    match rest.dropWhile (· != '"') with
    | [] => none
    | _ :: after => if after.all isInlineSpace then some (rest.takeWhile (· != '"')) else none
  | _ => none

/-- What stands behind the last name of a connection: nothing, or a colon and a label that runs to
the end of the line. An empty label is none. -/
def label? (text : List Char) : Option (Option (List Char)) :=
  match text.dropWhile isInlineSpace with
  | [] => some none
  | ':' :: rest =>
    let rest := rest.dropWhile isInlineSpace
    let label := (quotedToEnd? rest).getD (trimEnd rest)
    some (if label = [] then none else some label)
  | _ => none

structure ConnectionParts where
  first : List Char
  hops : List HopParts
  label : Option (List Char)
  deriving DecidableEq, Repr

def connection? (line : List Char) : Option ConnectionParts := do
  let (first, rest) ← identifier? line
  let (hops, rest) := hops rest
  if hops.isEmpty then none
  else
    let label ← label? rest
    some ⟨first, hops, label⟩

def titleText (rest : List Char) : List Char :=
  stripQuotes (trimEnd (rest.dropWhile isInlineSpace))

def title? : List Char → Option (List Char)
  | 't' :: 'i' :: 't' :: 'l' :: 'e' :: rest =>
    match rest.dropWhile isInlineSpace with
    | ':' :: after => some (titleText after)
    | _ => if (rest.takeWhile isInlineSpace).isEmpty then none else some (titleText rest)
  | _ => none

def beforeArrow? : Bool → Nat → List Char → Option (List Char)
  | _, _, [] => none
  | quoted, depth, char :: rest =>
    let further (quoted : Bool) (depth : Nat) :=
      (beforeArrow? quoted depth rest).map (char :: ·)
    if char == '"' then further (!quoted) depth
    else if quoted then further true depth
    else if char == '[' then further false (depth + 1)
    else if char == ']' then further false (depth - 1)
    else if char == '-' && depth == 0 && rest.head? == some '>' then some []
    else further false depth

def beforeBracket? (text : List Char) : Option (List Char) :=
  if text.any fun char => char == '[' || char == ']' then
    some (text.takeWhile fun char => !(char == '[' || char == ']'))
  else none

end BoxDiagram.Grammar
