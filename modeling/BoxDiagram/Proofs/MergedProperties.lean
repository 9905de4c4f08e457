import BoxDiagram.PropertyList
import Mathlib.Data.List.Induction
import Mathlib.Data.List.Nodup

/-!
Properties that are put together from several lists. Each key stands where it first came and has the value
that came last, and it does not matter whether the lists are merged one by one or read as one.
-/

namespace BoxDiagram

theorem eraseDups_concat {β : Type} [DecidableEq β] (before : List β) (last : β) :
    (before ++ [last]).eraseDups = if last ∈ before then before.eraseDups else before.eraseDups ++ [last] := by
  rw [List.eraseDups_append]
  split <;> simp_all [List.removeAll, List.eraseDups_cons]

theorem nodup_eraseDups {β : Type} [DecidableEq β] (values : List β) : values.eraseDups.Nodup := by
  induction values using List.reverseRecOn with
  | nil => exact .nil
  | append_singleton before last ih =>
    rw [eraseDups_concat]
    split
    next => exact ih
    next new =>
      rw [← List.concat_eq_append]
      exact ih.concat (by simpa using new)

theorem eraseDups_append_eraseDups {β : Type} [DecidableEq β] (before values : List β) :
    (before ++ values.eraseDups).eraseDups = (before ++ values).eraseDups := by
  induction values using List.reverseRecOn with
  | nil => rfl
  | append_singleton values last ih =>
    rw [← List.append_assoc, eraseDups_concat values, eraseDups_concat (before ++ values), ← ih]
    split
    next again => simp [again]
    next new => rw [← List.append_assoc, eraseDups_concat]; simp [new]

theorem eraseDups_append_eq_filter {β : Type} [DecidableEq β] (before values : List β) :
    (before ++ values).eraseDups =
      before.eraseDups ++ values.eraseDups.filter (· ∉ before.eraseDups) := by
  induction values using List.reverseRecOn with
  | nil => simp
  | append_singleton values last ih =>
    rw [← List.append_assoc, eraseDups_concat values, eraseDups_concat (before ++ values), ih]
    by_cases again : last ∈ values
    · simp [again]
    · by_cases known : last ∈ before <;> simp [again, known]

namespace PropertyMap

structure Merges (properties : PropertyMap) (pairs : List (String × String)) : Prop where
  keys : properties.keys = (pairs.map Prod.fst).eraseDups
  values : ∀ key, properties.get? key = pairs.reverse.lookup key

variable {properties later : PropertyMap} {pairs more : List (String × String)}

theorem merges_empty : empty.Merges [] := ⟨rfl, fun _ => rfl⟩

theorem Merges.insert (merges : properties.Merges pairs) (key value : String) :
    (properties.insert key value).Merges (pairs ++ [(key, value)]) where
  keys := by
    rw [keys_insert, merges.keys, List.map_append, List.map_singleton, eraseDups_concat]
    simp only [List.mem_eraseDups]
  values other := by
    rw [get?_insert, merges.values, List.reverse_append, List.reverse_singleton, List.singleton_append,
      List.lookup_cons]
    by_cases same : other = key
    · simp [same]
    · have apart : (other == key) = false := by simpa using same
      rw [if_neg same, apart]

theorem Merges.insertAll (merges : properties.Merges pairs) (more : List (String × String)) :
    (properties.insertAll more).Merges (pairs ++ more) := by
  unfold PropertyMap.insertAll
  induction more generalizing properties pairs with
  | nil => rwa [List.append_nil]
  | cons pair more ih => simpa using ih (merges.insert pair.1 pair.2)

theorem merges_ofList (pairs : List (String × String)) : (ofList pairs).Merges pairs :=
  merges_empty.insertAll pairs

theorem lookup_of_notMem {entries : List (String × String)} {key : String}
    (absent : key ∉ entries.map Prod.fst) : entries.lookup key = none := by
  rw [List.lookup_eq_none_iff]
  intro entry member
  have other : key ≠ entry.1 := fun equal => absent (List.mem_map.mpr ⟨entry, member, equal.symm⟩)
  simpa using other

/-- Where no key comes twice, it makes no difference from which end one looks. -/
theorem lookup_reverse {entries : List (String × String)} (distinct : (entries.map Prod.fst).Nodup)
    (key : String) : entries.reverse.lookup key = entries.lookup key := by
  induction entries with
  | nil => rfl
  | cons entry entries ih =>
    obtain ⟨first, value⟩ := entry
    obtain ⟨absent, distinct⟩ := List.nodup_cons.mp distinct
    rw [List.reverse_cons, List.lookup_append, ih distinct, List.lookup_cons, List.lookup_cons]
    split
    next same =>
      obtain rfl : key = first := by simpa using same
      rw [lookup_of_notMem absent]
      rfl
    next => simp

/-- What is merged into properties counts as if it came behind them, pair by pair. -/
theorem Merges.merge (merges : properties.Merges pairs) (behind : later.Merges more) :
    (properties.merge later).Merges (pairs ++ more) := by
  obtain ⟨keys, values⟩ := merges.insertAll later.entries
  have listed : later.entries.map Prod.fst = (more.map Prod.fst).eraseDups := behind.keys
  have distinct : (later.entries.map Prod.fst).Nodup := listed ▸ nodup_eraseDups _
  constructor
  · rw [PropertyMap.merge, keys, List.map_append, listed, eraseDups_append_eraseDups, List.map_append]
  · intro key
    have last : later.entries.reverse.lookup key = more.reverse.lookup key :=
      (lookup_reverse distinct key).trans (behind.values key)
    rw [PropertyMap.merge, values, List.reverse_append, List.lookup_append, last, List.reverse_append,
      List.lookup_append]

theorem eq_of_keys {first second : PropertyMap} (distinct : first.keys.Nodup)
    (same : second.keys = first.keys) (values : ∀ key, second.get? key = first.get? key) :
    second = first := by
  obtain ⟨entries⟩ := first
  obtain ⟨others⟩ := second
  refine congrArg PropertyMap.mk ?_
  simp only [keys, get?] at distinct same values
  induction entries generalizing others with
  | nil => exact List.map_eq_nil_iff.mp same
  | cons entry rest ih =>
    obtain ⟨key, value⟩ := entry
    obtain ⟨⟨key, other⟩, others, rfl, rfl, further⟩ := List.map_eq_cons_iff.mp same
    obtain ⟨fresh, distinct⟩ := List.nodup_cons.mp distinct
    have equal : other = value := by simpa using values key
    have tails (asked : String) : others.lookup asked = rest.lookup asked := by
      by_cases own : asked = key
      · rw [own, lookup_of_notMem (further ▸ fresh), lookup_of_notMem fresh]
      · have apart : (asked == key) = false := by simpa using own
        simpa [List.lookup_cons, apart] using values asked
    rw [equal, ih distinct others further tails]

theorem Merges.nodup_keys (merges : properties.Merges pairs) : properties.keys.Nodup :=
  merges.keys ▸ nodup_eraseDups _

theorem Merges.unique (merges : properties.Merges pairs) (again : later.Merges pairs) :
    later = properties :=
  eq_of_keys merges.nodup_keys (again.keys.trans merges.keys.symm) fun key =>
    (again.values key).trans (merges.values key).symm

theorem Merges.keys_merge (merges : properties.Merges pairs) (behind : later.Merges more) :
    (properties.merge later).keys =
      properties.keys ++ later.keys.filter (· ∉ properties.keys) := by
  rw [(merges.merge behind).keys, List.map_append, eraseDups_append_eq_filter, ← merges.keys,
    ← behind.keys]

theorem Merges.get?_merge (merges : properties.Merges pairs) (behind : later.Merges more)
    (key : String) : (properties.merge later).get? key = (later.get? key).or (properties.get? key) := by
  rw [(merges.merge behind).values, List.reverse_append, List.lookup_append, ← merges.values,
    ← behind.values]

end PropertyMap

namespace PropertyList

def pairs (text : String) : List (String × String) := (items text).filterMap Item.pair?

theorem merges_read (text : String) : (read text).Merges (pairs text) := PropertyMap.merges_ofList _

end PropertyList

end BoxDiagram
