import BoxDiagram.Failure
import BoxDiagram.Text.Basic

/-!
Files and directories by their places, and how paths lead to them from a working directory. A place
is the list of names from the outermost directory on.
-/

namespace BoxDiagram

/-- Names from the outermost directory on. -/
abbrev Place := List String

/-- Contents are compared byte by byte, whatever other instance is in scope. -/
local instance decidableEqContent : DecidableEq ByteArray := ByteArray.instDecidableEq

inductive FileEntry where
  | file (content : ByteArray)
  | directory
  deriving DecidableEq

structure FileTree where
  here : Place
  /-- What is at a place, the outermost directory apart. -/
  entries : List (Place × FileEntry) := []
  deriving DecidableEq

namespace FileTree

def entryAt? (tree : FileTree) (place : Place) : Option FileEntry :=
  if place = [] then some .directory else tree.entries.lookup place

def put (tree : FileTree) (place : Place) (entry : FileEntry) : FileTree :=
  { tree with entries := (place, entry) :: tree.entries.filter (·.1 ≠ place) }

theorem entryAt?_put (tree : FileTree) (place other : Place) (entry : FileEntry)
    (inner : place ≠ []) :
    (tree.put place entry).entryAt? other =
      if other = place then some entry else tree.entryAt? other := by
  by_cases outermost : other = []
  · simp [entryAt?, outermost, Ne.symm inner]
  · by_cases same : other = place
    · subst same
      simp [entryAt?, put, outermost]
    · have apart : (other == place) = false := by simp [same]
      simp only [entryAt?, put, outermost, same, if_false, List.lookup_cons, apart]
      induction tree.entries with
      | nil => rfl
      | cons first rest ih =>
        obtain ⟨key, value⟩ := first
        by_cases removed : key = place
        · simpa [removed, List.lookup_cons, apart] using ih
        · have kept : decide (key ≠ place) = true := by simp [removed]
          simp only [List.filter, kept, List.lookup_cons]
          cases other == key
          · exact ih
          · rfl

def around (place : Place) : List Place :=
  (List.range place.length).map place.take

def ensureDirectory (tree : FileTree) (place : Place) : FileTree :=
  if (tree.entryAt? place).isNone then tree.put place .directory else tree

def plant (tree : FileTree) (place : Place) (entry : FileEntry) : FileTree :=
  ((around place).foldl ensureDirectory tree).put place entry

def parts (path : String) : List String :=
  (Text.splitOn (· = '/') path.toList).map String.ofList

def start (tree : FileTree) (path : String) : Place :=
  if path.toList.head? = some '/' then [] else tree.here

def descend (place : Place) (part : String) : Place :=
  if part = "" ∨ part = "." then place
  else if part = ".." then place.dropLast
  else place ++ [part]

def placeOf (tree : FileTree) (path : String) : Place :=
  (parts path).foldl descend (tree.start path)

def plantAll (tree : FileTree) (entries : List (String × FileEntry)) : FileTree :=
  entries.foldl (fun tree (path, entry) => tree.plant (tree.placeOf path) entry) tree

def maxNameSize : Nat := 255

def maxPathSize : Nat := 4095

/-- Where the parts of a path lead from a place. Every part needs a directory to be looked up in;
nothing need be at the last place. -/
def walk (tree : FileTree) : Place → List String → Except IoFault Place
  | place, [] => .ok place
  | place, part :: rest =>
    match tree.entryAt? place with
    | none => .error .notFound
    | some (.file _) => .error .notDirectory
    | some .directory =>
      if maxNameSize < part.utf8ByteSize then .error .nameTooLong
      else tree.walk (descend place part) rest

/-- Refuses the texts that are no path whatever the files. -/
def checkPath (path : String) : Except IoFault Unit :=
  if path.toList.contains '\x00' then .error .nulInPath
  else if path = "" then .error .notFound
  else if maxPathSize < path.utf8ByteSize then .error .nameTooLong
  else .ok ()

def locate (tree : FileTree) (path : String) : Except IoFault Place := do
  checkPath path
  tree.walk (tree.start path) (parts path)

def isPresent (tree : FileTree) (path : String) : Bool :=
  match tree.locate path with
  | .ok place => (tree.entryAt? place).isSome
  | .error _ => false

def read (tree : FileTree) (path : String) : Except IoFault ByteArray := do
  match tree.entryAt? (← tree.locate path) with
  | none => .error .notFound
  | some .directory => .error .isDirectory
  | some (.file content) => .ok content

def readText (tree : FileTree) (path : String) : Except IoFault String := do
  match String.fromUTF8? (← tree.read path) with
  | some text => .ok text
  | none => .error .invalidUtf8

/-- The place of a file that is about to be written. A path that ends in a slash can only be that
of a directory, even where nothing is; what leads to it is looked up first. -/
def writable (tree : FileTree) (path : String) : Except IoFault Place := do
  checkPath path
  if path.endsWith "/" then
    let _ ← tree.walk (tree.start path) ((parts path).reverse.dropWhile (· = "")).reverse
    .error .isDirectory
  else
    let place ← tree.locate path
    match tree.entryAt? place with
    | some .directory => .error .isDirectory
    | _ => .ok place

end FileTree

end BoxDiagram
