import BoxDiagram.Settings.Value

/-!
Tables while a TOML document is read. A key may be given a value once. A table may be opened by
one header; it may also come to be on the way to a deeper table, by a header or by a dotted key,
and then it matters how it came to be whether it can still be opened or added to.
-/

namespace BoxDiagram.Toml

open Settings

inductive Origin where
  /-- On the way of a header to a deeper table. -/
  | implied
  | header
  /-- On the way of a dotted key, even if it was implied before. -/
  | dotted
  deriving DecidableEq, Repr

/-- What stands under a key so far. A value can no more be added to; of a list of tables the last
one can. -/
inductive Node where
  | value (value : Value)
  | table (origin : Origin) (entries : List (String × Node))
  | tables (earlier : List Value) (last : List (String × Node))

abbrev Entries := List (String × Node)

mutual

def Node.toValue : Node → Value
  | .value value => value
  | .table _ entries => .table (toEntries entries)
  | .tables earlier last => .list (earlier ++ [.table (toEntries last)])

def toEntries : List (String × Node) → List (String × Value)
  | [] => []
  | (key, node) :: rest => (key, node.toValue) :: toEntries rest

end

def setEntry (key : String) (node : Node) (entries : Entries) : Entries :=
  entries.map fun entry => if entry.1 = key then (key, node) else entry

/-- Gives a value to a dotted key. The tables on its way must not have been opened by headers. -/
def insertAt? (value : Value) : Entries → List String → Option Entries
  | _, [] => none
  | entries, [key] =>
    if (entries.lookup key).isNone then some (entries ++ [(key, .value value)]) else none
  | entries, key :: path =>
    match entries.lookup key with
    | none => (insertAt? value [] path).map fun inner => entries ++ [(key, .table .dotted inner)]
    | some (.table .implied inner) | some (.table .dotted inner) =>
      (insertAt? value inner path).map fun inner => setEntry key (.table .dotted inner) entries
    | some _ => none

def openTable? (key : String) (entries : Entries) : Option Entries :=
  match entries.lookup key with
  | none => some (entries ++ [(key, .table .header [])])
  | some (.table .implied inner) => some (setEntry key (.table .header inner) entries)
  | some _ => none

def openItem? (key : String) (entries : Entries) : Option Entries :=
  match entries.lookup key with
  | none => some (entries ++ [(key, .tables [] [])])
  | some (.tables earlier last) =>
    some (setEntry key (.tables (earlier ++ [.table (toEntries last)]) []) entries)
  | some _ => none

/-- Changes the table at a path; a table that is missing on the way is implied. -/
def changeAt? (change : Entries → Option Entries) : Entries → List String → Option Entries
  | entries, [] => change entries
  | entries, key :: path =>
    match entries.lookup key with
    | none => (changeAt? change [] path).map fun inner => entries ++ [(key, .table .implied inner)]
    | some (.table origin inner) =>
      (changeAt? change inner path).map fun inner => setEntry key (.table origin inner) entries
    | some (.tables earlier last) =>
      (changeAt? change last path).map fun last => setEntry key (.tables earlier last) entries
    | some (.value _) => none

def ofPairs? (pairs : List (List String × Value)) : Option Value :=
  (pairs.foldlM (fun entries (key, value) => insertAt? value entries key) []).map
    fun entries => .table (toEntries entries)

end BoxDiagram.Toml
