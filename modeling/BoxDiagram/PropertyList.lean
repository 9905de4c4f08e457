import BoxDiagram.PropertyMap
import BoxDiagram.Text.Blank
import BoxDiagram.Text.Parser

/-!
The text between the brackets of a declaration. It is a list of entries with commas between them, where
a comma inside of double quotes or brackets belongs to an entry; an entry is a key and a value around its
first colon. A quoted run ends at the next quote and a bracketed run at the next closing bracket, or at the
end of the text.
-/

namespace BoxDiagram.PropertyList

open Text

def delimited (opening closing : Char) : Parser Unit :=
  (Parser.char opening).andThen
    ((Parser.skipWhile (· != closing)).andThen (Parser.char closing).optional)

/-- A quoted run, a bracketed run, or characters that begin neither and separate nothing. -/
def fragment : Parser Unit :=
  (delimited '"' '"').orElse ((delimited '[' ']').orElse (Parser.skipSome (· ∉ [',', '"', '['])))

/-- The text up to a comma outside of runs. It may be empty. -/
def entry : Parser (List Char) := fragment.many.taken

def entryList : Parser (List (List Char)) := entry.separated (Parser.char ',')

/-- The texts between the commas that separate properties. What the list of entries leaves of the text
makes one more. -/
def entries (text : List Char) : List (List Char) :=
  let (outcome, left) := entryList.run text
  let found := outcome.toOption.getD []
  if left = [] then found else found ++ [left]

inductive Item where
  | property (key value : String)
  | keyless (entry : String)
  deriving DecidableEq, Repr

/-- Reads one entry: nothing for a blank one, a flag with an empty value without a colon. -/
def readEntry (entry : List Char) : Option Item :=
  let entry := Text.trim entry
  if entry = [] then none
  else
    let before := entry.takeWhile (· != ':')
    let key := Text.trim before
    let value := match entry.dropWhile (· != ':') with
      | [] => []
      | _ :: after => Text.stripQuotes (Text.trim after)
    if key = [] then some (.keyless (String.ofList entry))
    else some (.property (String.ofList key) (String.ofList value))

def items (text : String) : List Item := (entries text.toList).filterMap readEntry

def Item.pair? : Item → Option (String × String)
  | .property key value => some (key, value)
  | .keyless _ => none

def Item.keyless? : Item → Option String
  | .property .. => none
  | .keyless entry => some entry

/-- The properties of a list: a repeated key keeps its first place and takes its last value. -/
def read (text : String) : PropertyMap :=
  PropertyMap.ofList ((items text).filterMap Item.pair?)

def keyless (text : String) : List String := (items text).filterMap Item.keyless?

end BoxDiagram.PropertyList
