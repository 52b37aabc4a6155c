import Mathlib.Algebra.Order.BigOperators.Group.List
import Mathlib.Data.List.Nodup
import Cassowary.OrderedMap

/-!
Maps as collections of entries. What matters here is which entries there are and not their order: an
erased entry is the one that is missing, an inserted one comes on top, and a total over the entries
changes by just that one.
-/

namespace Cassowary.MapEntries
open OrderedMap

variable {κ ν M : Type} [DecidableEq κ] {m : OrderedMap κ ν} {key other : κ} {value : ν}

theorem contains_iff : m.contains key = true ↔ ∃ value, m.find? key = some value := by
  simp [contains, Option.isSome_iff_exists]

theorem not_contains_iff : m.contains key = false ↔ m.find? key = none := by
  simp [contains]

theorem contains_of_find? (found : m.find? key = some value) : m.contains key = true :=
  contains_iff.mpr ⟨value, found⟩

@[simp] theorem contains_insert :
    (m.insert key value).contains other = true ↔ other = key ∨ m.contains other = true := by
  by_cases same : key = other
  · simp [contains, same]
  · simp [contains, same, Ne.symm same]

@[simp] theorem contains_erase :
    (m.erase key).contains other = true ↔ other ≠ key ∧ m.contains other = true := by
  by_cases same : key = other
  · simp [contains, same]
  · simp [contains, same, Ne.symm same]

@[simp] theorem contains_mapValues {μ : Type} (f : κ → ν → μ) :
    (m.mapValues f).contains key = m.contains key := by
  simp [contains]

theorem mem_toList_iff {entry : κ × ν} : entry ∈ m.toList ↔ m.find? entry.1 = some entry.2 :=
  find?_eq_some_iff.symm

/-- Looking for the one entry with a property finds it. -/
theorem find?_toList_of_only {property : κ × ν → Bool} (found : m.find? key = some value)
    (held : property (key, value) = true)
    (only : ∀ k v, m.find? k = some v → property (k, v) = true → k = key) :
    m.toList.find? property = some (key, value) := by
  cases sought : m.toList.find? property with
  | none =>
    have missing := List.find?_eq_none.mp sought (key, value) (mem_toList_iff.mpr found)
    exact absurd held missing
  | some entry =>
    obtain ⟨k, v⟩ := entry
    have here : m.find? k = some v := mem_toList_iff.mp (List.mem_of_find?_eq_some sought)
    obtain rfl := only k v here (List.find?_some sought)
    cases found.symm.trans here
    rfl

private theorem toList_eq_filterMap (m : OrderedMap κ ν) :
    m.toList = m.keys.filterMap fun key => (m.find? key).map (key, ·) := by
  have entries : ∀ entry ∈ m.toList,
      (m.find? entry.1).map (entry.1, ·) = some entry := fun entry member => by
    rw [mem_toList_iff.mp member, Option.map_some]
  rw [keys, List.filterMap_map]
  exact ((List.filterMap_congr entries).trans List.filterMap_some).symm

/-- A map is known by the order of its keys and what it lists for each. -/
theorem ext_of_find? {m n : OrderedMap κ ν} (order : m.keys = n.keys)
    (same : ∀ key, m.find? key = n.find? key) : m = n := by
  apply OrderedMap.ext
  rw [toList_eq_filterMap m, toList_eq_filterMap n, order]
  simp only [same]

omit [DecidableEq κ] in
theorem toList_nodup (m : OrderedMap κ ν) : m.toList.Nodup := List.Nodup.of_map Prod.fst m.distinct

/-- Maps that list the same for each key have the same entries, in some order. -/
theorem perm_of_find? {m n : OrderedMap κ ν} (same : ∀ key, m.find? key = n.find? key) :
    m.toList.Perm n.toList := by
  rw [List.perm_ext_iff_of_nodup (toList_nodup m) (toList_nodup n)]
  intro entry
  rw [mem_toList_iff, mem_toList_iff, same]

theorem erase_of_absent (absent : m.find? key = none) : m.erase key = m := by
  apply OrderedMap.ext
  refine List.filter_eq_self.mpr fun entry member => ?_
  have held := mem_toList_iff.mp member
  have other : entry.1 ≠ key := by
    rintro rfl
    rw [absent] at held
    cases held
  simpa using other

private theorem place_of_absent (entries : List (κ × ν))
    (absent : ∀ entry ∈ entries, entry.1 ≠ key) :
    place key value entries = entries ++ [(key, value)] := by
  induction entries with
  | nil => rfl
  | cons entry rest ih =>
    have first : entry.1 ≠ key := absent entry (by simp)
    have later := ih fun e member => absent e (by simp [member])
    simp [place, first, later]

/-- A new key goes last. -/
theorem toList_insert_of_absent (absent : m.find? key = none) :
    (m.insert key value).toList = m.toList ++ [(key, value)] := by
  refine place_of_absent m.toList fun entry member same => ?_
  rw [← same, mem_toList_iff.mp member] at absent
  cases absent

private theorem perm_cons_filter (entries : List (κ × ν))
    (distinct : (entries.map Prod.fst).Nodup) (member : (key, value) ∈ entries) :
    entries.Perm ((key, value) :: entries.filter fun entry => entry.1 ≠ key) := by
  induction entries with
  | nil => cases member
  | cons entry rest ih =>
    obtain ⟨fresh, restDistinct⟩ := List.nodup_cons.mp distinct
    rcases List.mem_cons.mp member with rfl | later
    · have kept : rest.filter (fun entry => entry.1 ≠ key) = rest := by
        refine List.filter_eq_self.mpr fun e held => ?_
        have apart : e.1 ≠ key := fun same => fresh (List.mem_map.mpr ⟨e, held, same⟩)
        simpa using apart
      rw [List.filter_cons_of_neg (by simp), kept]
    · have apart : entry.1 ≠ key := by
        rintro same
        exact fresh (same ▸ List.mem_map_of_mem (f := Prod.fst) later)
      rw [List.filter_cons_of_pos (by simpa using apart)]
      exact ((ih restDistinct later).cons entry).trans (List.Perm.swap ..)

/-- Taking an entry out takes out just that entry. -/
theorem perm_erase (found : m.find? key = some value) :
    m.toList.Perm ((key, value) :: (m.erase key).toList) :=
  perm_cons_filter m.toList m.distinct (find?_eq_some_iff.mp found)

theorem size_erase (found : m.find? key = some value) : (m.erase key).size + 1 = m.size :=
  (perm_erase found).length_eq.symm

/-- What holds of all entries after an insertion. -/
theorem forall_insert {F : κ → ν → Prop} (absent : m.find? key = none) :
    (∀ k v, (m.insert key value).find? k = some v → F k v) ↔
      F key value ∧ ∀ k v, m.find? k = some v → F k v := by
  refine ⟨fun all => ⟨all key value (by simp), fun k v found => all k v ?_⟩,
    fun ⟨own, all⟩ k v found => ?_⟩
  · rw [find?_insert, if_neg]
    · exact found
    · rintro rfl
      rw [absent] at found
      cases found
  · rw [find?_insert] at found
    split at found
    · rename_i same
      cases found
      exact same ▸ own
    · exact all k v found

/-- What holds of all entries, told for one of them and for the others. -/
theorem forall_erase {F : κ → ν → Prop} (found : m.find? key = some value) :
    (∀ k v, m.find? k = some v → F k v) ↔
      F key value ∧ ∀ k v, (m.erase key).find? k = some v → F k v := by
  refine ⟨fun all => ⟨all key value found, fun k v held => all k v ?_⟩,
    fun ⟨own, all⟩ k v held => ?_⟩
  · rw [find?_erase] at held
    split at held
    · cases held
    · exact held
  · by_cases same : key = k
    · subst same
      cases found.symm.trans held
      exact own
    · exact all k v (by rw [find?_erase, if_neg same, held])

omit [DecidableEq κ] in
/-- Values that are related whenever their keys differ are related pairwise. -/
theorem pairwise_values {R : ν → ν → Prop}
    (apart : ∀ entry ∈ m.toList, ∀ entry' ∈ m.toList, entry.1 ≠ entry'.1 → R entry.2 entry'.2) :
    m.values.Pairwise R := by
  refine List.pairwise_map.mpr ((List.pairwise_map.mp m.distinct).imp_of_mem ?_)
  exact fun member member' differ => apart _ member _ member' differ

/-- The sum of a quantity over the entries of a map. -/
def total [AddCommMonoid M] (f : κ → ν → M) (m : OrderedMap κ ν) : M :=
  (m.toList.map fun entry => f entry.1 entry.2).sum

variable [AddCommMonoid M] {f g : κ → ν → M}

omit [DecidableEq κ] in
@[simp] theorem total_empty : total f (∅ : OrderedMap κ ν) = 0 := rfl

theorem total_insert_of_absent (absent : m.find? key = none) :
    total f (m.insert key value) = total f m + f key value := by
  simp [total, toList_insert_of_absent absent]

theorem total_erase (found : m.find? key = some value) :
    total f m = f key value + total f (m.erase key) := by
  rw [total, ((perm_erase found).map _).sum_eq, List.map_cons, List.sum_cons, total]

private theorem filter_place (entries : List (κ × ν)) :
    (place key value entries).filter (fun entry => entry.1 ≠ key) =
      entries.filter fun entry => entry.1 ≠ key := by
  induction entries with
  | nil => simp [place]
  | cons entry rest ih =>
    by_cases same : entry.1 = key
    · simp [place, same]
    · simp only [place, if_neg same, List.filter_cons, ih]

theorem erase_insert : (m.insert key value).erase key = m.erase key :=
  OrderedMap.ext (filter_place m.toList)

theorem total_insert : total f (m.insert key value) = f key value + total f (m.erase key) := by
  have here : (m.insert key value).find? key = some value := by simp
  rw [total_erase here, erase_insert]

omit [DecidableEq κ] in
theorem total_mapValues {μ : Type} {f : κ → μ → M} (change : κ → ν → μ) :
    total f (m.mapValues change) = total (fun key value => f key (change key value)) m := by
  simp [total, mapValues, Function.comp_def]

theorem total_congr (same : ∀ key value, m.find? key = some value → f key value = g key value) :
    total f m = total g m := by
  unfold total
  refine congrArg List.sum (List.map_congr_left fun entry member => ?_)
  exact same _ _ (mem_toList_iff.mp member)

omit [DecidableEq κ] in
theorem total_add : total (fun key value => f key value + g key value) m = total f m + total g m :=
  List.sum_map_add

theorem total_le_total [Preorder M] [AddLeftMono M] [AddRightMono M]
    (less : ∀ key value, m.find? key = some value → f key value ≤ g key value) :
    total f m ≤ total g m :=
  List.sum_le_sum fun _ member => less _ _ (mem_toList_iff.mp member)

end Cassowary.MapEntries
