/-!
Finite maps that list their entries in the order in which the keys were first inserted. Overwriting a
key keeps its place and erasing one keeps the order of the others, so a scan over a map is reproducible.
The lookup lemmas say what each operation does to `find?`; the key lemmas say what it does to the order.
-/

namespace Cassowary

/-- A map as its list of entries, with at most one entry for each key. -/
structure OrderedMap (κ ν : Type) where
  toList : List (κ × ν)
  distinct : (toList.map Prod.fst).Nodup

namespace OrderedMap

variable {κ ν μ : Type}

/-- Two maps are equal when they list the same entries in the same order. -/
@[ext] theorem ext {m n : OrderedMap κ ν} (same : m.toList = n.toList) : m = n := by
  cases m; cases n; cases same; rfl

def empty : OrderedMap κ ν := ⟨[], .nil⟩

instance : EmptyCollection (OrderedMap κ ν) := ⟨empty⟩

instance : Inhabited (OrderedMap κ ν) := ⟨empty⟩

def keys (m : OrderedMap κ ν) : List κ := m.toList.map Prod.fst

def values (m : OrderedMap κ ν) : List ν := m.toList.map Prod.snd

def size (m : OrderedMap κ ν) : Nat := m.toList.length

def isEmpty (m : OrderedMap κ ν) : Bool := m.toList.isEmpty

/-- Changes every value and no key. -/
def mapValues (f : κ → ν → μ) (m : OrderedMap κ ν) : OrderedMap κ μ where
  toList := m.toList.map fun entry => (entry.1, f entry.1 entry.2)
  distinct := by simpa [Function.comp_def] using m.distinct

variable [DecidableEq κ]

/-- The value listed for a key. -/
def seek (key : κ) : List (κ × ν) → Option ν
  | [] => none
  | (k, v) :: rest => if k = key then some v else seek key rest

def find? (m : OrderedMap κ ν) (key : κ) : Option ν := seek key m.toList

def findD (m : OrderedMap κ ν) (key : κ) (default : ν) : ν := (m.find? key).getD default

def contains (m : OrderedMap κ ν) (key : κ) : Bool := (m.find? key).isSome

/-- Puts a value in the place its key already has, or at the end. -/
def place (key : κ) (value : ν) : List (κ × ν) → List (κ × ν)
  | [] => [(key, value)]
  | (k, v) :: rest => if k = key then (key, value) :: rest else (k, v) :: place key value rest

private theorem keys_place (key : κ) (value : ν) (entries : List (κ × ν)) :
    (place key value entries).map Prod.fst =
      if key ∈ entries.map Prod.fst then entries.map Prod.fst else entries.map Prod.fst ++ [key] := by
  induction entries with
  | nil => simp [place]
  | cons entry rest ih =>
    obtain ⟨k, v⟩ := entry
    by_cases same : k = key
    · simp [place, same]
    · by_cases member : key ∈ rest.map Prod.fst <;>
        simp_all [place, Ne.symm same]

/-- Sets the value of a key. A key that is present keeps its place, and a new one goes last. -/
def insert (m : OrderedMap κ ν) (key : κ) (value : ν) : OrderedMap κ ν where
  toList := place key value m.toList
  distinct := by
    rw [keys_place]
    split
    · exact m.distinct
    · rename_i fresh
      exact List.nodup_append.mpr ⟨m.distinct, by simp, by
        intro a member b last same
        simp_all⟩

/-- Removes a key and keeps the order of the others. -/
def erase (m : OrderedMap κ ν) (key : κ) : OrderedMap κ ν where
  toList := m.toList.filter fun entry => entry.1 ≠ key
  distinct := m.distinct.sublist (List.filter_sublist.map Prod.fst)

@[simp] theorem find?_empty (key : κ) : (∅ : OrderedMap κ ν).find? key = none := rfl

private theorem seek_place (key other : κ) (value : ν) (entries : List (κ × ν)) :
    seek other (place key value entries) = if key = other then some value else seek other entries := by
  induction entries with
  | nil => simp [place, seek]
  | cons entry rest ih =>
    obtain ⟨k, v⟩ := entry
    by_cases here : k = key
    · by_cases found : key = other <;> simp [place, seek, here, found]
    · by_cases found : k = other
      · simp [place, seek, found, show ¬other = key from found ▸ here, Ne.symm (found ▸ here : ¬other = key)]
      · simp [place, seek, here, found, ih]

/-- After an insertion the key has the new value and every other key the value it had. -/
@[simp] theorem find?_insert (m : OrderedMap κ ν) (key other : κ) (value : ν) :
    (m.insert key value).find? other = if key = other then some value else m.find? other :=
  seek_place key other value m.toList

private theorem seek_filter (key other : κ) (entries : List (κ × ν)) :
    seek other (entries.filter fun entry => entry.1 ≠ key) =
      if key = other then none else seek other entries := by
  induction entries with
  | nil => simp [seek]
  | cons entry rest ih =>
    obtain ⟨k, v⟩ := entry
    by_cases here : k = key
    · by_cases found : key = other <;> simp_all [seek]
    · by_cases found : k = other
      · subst found
        simp [here, seek, Ne.symm here]
      · simp_all [seek]

/-- After an erasure the key is gone and every other key has the value it had. -/
@[simp] theorem find?_erase (m : OrderedMap κ ν) (key other : κ) :
    (m.erase key).find? other = if key = other then none else m.find? other :=
  seek_filter key other m.toList

private theorem seek_map (f : κ → ν → μ) (key : κ) (entries : List (κ × ν)) :
    seek key (entries.map fun entry => (entry.1, f entry.1 entry.2)) =
      (seek key entries).map (f key) := by
  induction entries with
  | nil => rfl
  | cons entry rest ih =>
    obtain ⟨k, v⟩ := entry
    by_cases found : k = key
    · simp [seek, found]
    · simp [seek, found, ih]

@[simp] theorem find?_mapValues (f : κ → ν → μ) (m : OrderedMap κ ν) (key : κ) :
    (m.mapValues f).find? key = (m.find? key).map (f key) :=
  seek_map f key m.toList

private theorem seek_eq_some_iff {key : κ} {value : ν} (entries : List (κ × ν))
    (distinct : (entries.map Prod.fst).Nodup) :
    seek key entries = some value ↔ (key, value) ∈ entries := by
  induction entries with
  | nil => simp [seek]
  | cons entry rest ih =>
    obtain ⟨k, v⟩ := entry
    rw [List.map_cons, List.nodup_cons] at distinct
    by_cases found : k = key
    · have absent : (key, value) ∉ rest := fun member =>
        distinct.1 (List.mem_map.mpr ⟨_, member, found.symm⟩)
      simp [seek, found, absent, eq_comm]
    · simp [seek, found, Ne.symm found, ih distinct.2]

/-- Looking up is reading off the listed entries. -/
theorem find?_eq_some_iff {m : OrderedMap κ ν} {key : κ} {value : ν} :
    m.find? key = some value ↔ (key, value) ∈ m.toList :=
  seek_eq_some_iff m.toList m.distinct

theorem mem_keys_iff {m : OrderedMap κ ν} {key : κ} :
    key ∈ m.keys ↔ (m.find? key).isSome = true := by
  simp [keys, Option.isSome_iff_exists, find?_eq_some_iff]

/-- Inserting a new key puts it last, and overwriting one changes no place. -/
theorem keys_insert (m : OrderedMap κ ν) (key : κ) (value : ν) :
    (m.insert key value).keys = if key ∈ m.keys then m.keys else m.keys ++ [key] :=
  keys_place key value m.toList

@[simp] theorem keys_erase (m : OrderedMap κ ν) (key : κ) :
    (m.erase key).keys = m.keys.filter (· ≠ key) := by
  simp [keys, erase, List.filter_map, Function.comp_def]

omit [DecidableEq κ] in
@[simp] theorem keys_mapValues (f : κ → ν → μ) (m : OrderedMap κ ν) :
    (m.mapValues f).keys = m.keys := by
  simp [keys, mapValues, Function.comp_def]

end OrderedMap

end Cassowary
