/-!
Properties of a node: texts under keys, in the order in which the keys first came.
-/

namespace BoxDiagram

/-- Keys with their values; a key has its place from its first value and its value from the
last. -/
structure PropertyMap where
  entries : List (String × String) := []
  deriving DecidableEq, Inhabited

namespace PropertyMap

def empty : PropertyMap := {}

def keys (properties : PropertyMap) : List String := properties.entries.map Prod.fst

def get? (properties : PropertyMap) (key : String) : Option String :=
  properties.entries.lookup key

def insertEntry (key value : String) : List (String × String) → List (String × String)
  | [] => [(key, value)]
  | entry :: rest =>
    if entry.1 = key then (key, value) :: rest else entry :: insertEntry key value rest

def insert (properties : PropertyMap) (key value : String) : PropertyMap :=
  ⟨insertEntry key value properties.entries⟩

def insertAll (properties : PropertyMap) (entries : List (String × String)) : PropertyMap :=
  entries.foldl (fun map entry => map.insert entry.1 entry.2) properties

def ofList (entries : List (String × String)) : PropertyMap := empty.insertAll entries

def merge (properties later : PropertyMap) : PropertyMap := properties.insertAll later.entries

theorem keys_insert (properties : PropertyMap) (key value : String) :
    (properties.insert key value).keys =
      if key ∈ properties.keys then properties.keys else properties.keys ++ [key] := by
  cases properties with
  | mk entries =>
    simp only [insert, keys]
    induction entries with
    | nil => simp [insertEntry]
    | cons entry rest ih =>
      by_cases same : entry.1 = key
      · simp [insertEntry, same]
      · have other : key ≠ entry.1 := fun h => same h.symm
        by_cases later : key ∈ rest.map Prod.fst <;> simp_all [insertEntry]

theorem get?_insert (properties : PropertyMap) (key value other : String) :
    (properties.insert key value).get? other =
      if other = key then some value else properties.get? other := by
  cases properties with
  | mk entries =>
    simp only [insert, get?]
    induction entries with
    | nil =>
      by_cases h : other = key
      · simp [insertEntry, h]
      · have : (other == key) = false := by simp [h]
        simp [insertEntry, List.lookup_cons, h, this]
    | cons entry rest ih =>
      obtain ⟨first, text⟩ := entry
      by_cases same : first = key
      · subst same
        by_cases h : other = first
        · simp [insertEntry, h]
        · have : (other == first) = false := by simp [h]
          simp [insertEntry, List.lookup_cons, h, this]
      · simp only [insertEntry, same, if_false, List.lookup_cons]
        by_cases h : other = first
        · subst h; simp [same]
        · have : (other == first) = false := by simp [h]
          simp [this, ih]

end PropertyMap

end BoxDiagram
