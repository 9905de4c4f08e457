import BoxDiagram.Text.Basic

/-!
Blank characters, in the sense of the Unicode property White_Space, and what depends on them:
trimming, words, and the normal form of a name. The grammar of lines knows a narrower blank, the
inline space, and a comment mark asks for an ASCII blank before it.
-/

namespace BoxDiagram.Text

/-- The Unicode property White_Space. -/
def isBlank (char : Char) : Bool :=
  char == ' ' || ('\t' ≤ char && char ≤ '\r') || char == '\u0085' || char == '\u00a0' ||
    char == '\u1680' || ('\u2000' ≤ char && char ≤ '\u200a') || char == '\u2028' ||
    char == '\u2029' || char == '\u202f' || char == '\u205f' || char == '\u3000'

/-- Space, tab, line feed, form feed and carriage return; the vertical tab is not among them. -/
def isAsciiBlank (char : Char) : Bool :=
  char == ' ' || char == '\t' || char == '\n' || char == '\u000c' || char == '\r'

def isInlineSpace (char : Char) : Bool :=
  char == ' ' || char == '\t'

def trimStart (text : List Char) : List Char :=
  text.dropWhile isBlank

def trimEnd (text : List Char) : List Char :=
  dropEndWhile isBlank text

def trim (text : List Char) : List Char :=
  trimEnd (trimStart text)

def leadingBlanks (text : List Char) : List Char :=
  text.takeWhile isBlank

def words (text : List Char) : List (List Char) :=
  (splitOn isBlank text).filter (· ≠ [])

def joinWords (parts : List (List Char)) : List Char :=
  List.intercalate [' '] parts

/-- The normal form of a name: no blanks around it and one space for every blank run within. -/
def normalize (name : String) : String :=
  String.ofList (joinWords (words name.toList))

def stripQuotes (text : List Char) : List Char :=
  match text with
  | '"' :: inner =>
    match inner.reverse with
    | '"' :: reversed => reversed.reverse
    | _ => text
  | _ => text

end BoxDiagram.Text
