import BoxDiagram.Text.Blank

/-!
Names of nodes. A node declared inside another one is named by the path of the outer node, a dot
and its own name; since names may hold dots themselves, the own name is kept apart. Two ids name
the same node when their paths are equal.
-/

namespace BoxDiagram

/-- The id of a node: the path of the enclosing node, if there is one, and the node's own name in
normal form. -/
structure NodeId where
  outer : Option String
  localName : String
  deriving DecidableEq, Inhabited

namespace NodeId

def ofName (name : String) : NodeId := ⟨none, Text.normalize name⟩

def path (id : NodeId) : String :=
  match id.outer with
  | none => id.localName
  | some outer => outer ++ "." ++ id.localName

def within (outer : String) (name : String) : NodeId := ⟨some outer, Text.normalize name⟩

def nested (id : NodeId) (name : String) : NodeId := within id.path name

def isNested (id : NodeId) : Bool := id.outer.isSome

/-- The name as it is shown when nothing else is asked for: dots, hyphens and underscores are
read as blanks. -/
def readableName (id : NodeId) : String :=
  let softened := id.localName.toList.map fun char =>
    if char = '.' || char = '-' || char = '_' then ' ' else char
  Text.normalize (String.ofList softened)

end NodeId

end BoxDiagram
