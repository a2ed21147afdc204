import LineCensus.Proofs.Language.Lookup
import LineCensus.Proofs.Language.Overrides
import LineCensus.Proofs.Sorting

/-!
# Overrides in the order of their ids

Sorted by their ids, overrides make the same definitions available. Only the places of the
new languages change, and with them the language of a file that two new ones contend for.
-/
namespace LineCensus

namespace OrderedMap

variable {α : Type}

/-- The same entries in the order of their keys. -/
def sorted (m : OrderedMap α) : OrderedMap α :=
  ⟨m.entries.mergeSort fun a b => decide (a.1 ≤ b.1),
    ((List.mergeSort_perm m.entries _).map Prod.fst).nodup_iff.2 m.nodup_keys⟩

theorem mem_entries_sorted {m : OrderedMap α} {e : String × α} :
    e ∈ m.sorted.entries ↔ e ∈ m.entries :=
  List.mem_mergeSort

theorem keys_sorted_perm (m : OrderedMap α) : m.sorted.keys.Perm m.keys :=
  (List.mergeSort_perm m.entries _).map Prod.fst

theorem pairwise_keys_sorted (m : OrderedMap α) : m.sorted.keys.Pairwise (· < ·) :=
  List.pairwise_map.2 (pairwise_lt_mergeSort m.nodup_keys)

theorem get?_sorted (m : OrderedMap α) (k : String) : m.sorted.get? k = m.get? k := by
  ext v
  have hmem := mem_entries_sorted (m := m) (e := (k, v))
  rwa [mem_entries_iff, mem_entries_iff] at hmem

theorem sorted_eq_self_iff {m : OrderedMap α} : m.sorted = m ↔ m.keys.Pairwise (· < ·) := by
  rw [keys, List.pairwise_map, ← mergeSort_eq_self_iff m.nodup_keys]
  exact ⟨congrArg entries, fun h => eq_of_entries_eq h⟩

end OrderedMap

namespace Registry

variable {r r' r'' : Registry} {o : Overrides}

theorem exists_load_eq_ok_iff : (∃ r', r.load o = .ok r') ↔ firstRefusal? o = none := by
  unfold load
  cases firstRefusal? o <;> simp

theorem exists_load_sorted_iff :
    (∃ r'', r.load o.sorted = .ok r'') ↔ ∃ r', r.load o = .ok r' := by
  simp only [exists_load_eq_ok_iff, firstRefusal?_eq_none_iff, OrderedMap.mem_entries_sorted]

theorem get?_load_sorted (h : r.load o = .ok r') (h' : r.load o.sorted = .ok r'') (id : String) :
    r''.get? id = r'.get? id := by
  rw [get?_of_load h, get?_of_load h', OrderedMap.get?_sorted]

/-- The registry is the same if and only if the new ids had been in order. -/
theorem load_sorted_eq_iff (h : r.load o = .ok r') (h' : r.load o.sorted = .ok r'') :
    r'' = r' ↔ (o.keys.filter (· ∉ r.ids)).Pairwise (· < ·) := by
  have hperm := o.keys_sorted_perm.filter (· ∉ r.ids)
  have hsorted := o.pairwise_keys_sorted.filter (· ∉ r.ids)
  have hids : r'' = r' ↔ o.sorted.keys.filter (· ∉ r.ids) = o.keys.filter (· ∉ r.ids) := by
    rw [← List.append_right_inj r.ids, ← ids_of_load h, ← ids_of_load h']
    refine ⟨congrArg ids, fun heq => eq_of_definitions_eq ?_⟩
    exact OrderedMap.eq_of_get?_eq heq (get?_load_sorted h h')
  rw [hids]
  constructor
  · exact fun heq => heq ▸ hsorted
  · exact fun hnew => hperm.eq_of_pairwise (fun _ _ _ _ hab hba => absurd hba (lt_asymm hab))
      hsorted hnew

/-! ## The language of a file -/

theorem toList_eq_filterMap (r : Registry) : r.toList = r.ids.filterMap r.get? := by
  rw [toList, OrderedMap.values, OrderedMap.entries_eq_filterMap, List.map_filterMap]
  simp only [Option.map_map, Function.comp_def, Option.map_id']
  rfl

theorem id_mem_of_find? {p : LanguageDefinition → Bool} {ids : List String} {d : LanguageDefinition}
    (h : (ids.filterMap r'.get?).find? p = some d) : d.id ∈ ids := by
  obtain ⟨id, hid, hget⟩ := List.mem_filterMap.1 (List.mem_of_find?_eq_some h)
  rwa [id_of_get? hget]

/-- Only new languages take files from each other: a file that is found to be of another
language goes to one whose id is before. -/
theorem resolve?_load_sorted (h : r.load o = .ok r') (h' : r.load o.sorted = .ok r'')
    (path : Path) :
    r'.resolve? path = r''.resolve? path ∨
      ∃ d d', r'.resolve? path = some d ∧ r''.resolve? path = some d' ∧
        (d.id ∉ r.ids ∧ d'.id ∉ r.ids ∧ d'.id < d.id) := by
  have hget : r''.get? = r'.get? := funext (get?_load_sorted h h')
  have hperm := (o.keys_sorted_perm.filter (· ∉ r.ids)).symm
  have hsorted : ((o.sorted.keys.filter (· ∉ r.ids)).filterMap r'.get?).Pairwise
      fun d d' => d.id < d'.id := by
    refine (o.pairwise_keys_sorted.filter _).filterMap r'.get? fun id id' hlt d hd d' hd' => ?_
    rwa [id_of_get? hd, id_of_get? hd']
  have hfind : ∀ p : LanguageDefinition → Bool, r'.toList.find? p = r''.toList.find? p ∨
      ∃ d d', r'.toList.find? p = some d ∧ r''.toList.find? p = some d' ∧
        (d.id ∉ r.ids ∧ d'.id ∉ r.ids ∧ d'.id < d.id) := by
    intro p
    simp only [toList_eq_filterMap, hget, ids_of_load h, ids_of_load h', List.filterMap_append,
      List.find?_append]
    cases (r.ids.filterMap r'.get?).find? p with
    | some d => exact Or.inl rfl
    | none =>
      refine (find?_eq_or_lt (hperm.filterMap r'.get?) hsorted).imp_right ?_
      rintro ⟨d, d', hd, hd', hlt⟩
      have hnew := (List.mem_filter.1 (id_mem_of_find? hd)).2
      have hnew' := (List.mem_filter.1 (id_mem_of_find? hd')).2
      exact ⟨d, d', hd, hd', by simpa using hnew, by simpa using hnew', hlt⟩
  simp only [resolve?, byName_eq_find?, bySuffix_eq_find?]
  rcases hfind (·.ListsName path) with heq | ⟨d, d', hd, hd', hlt⟩
  · rw [heq]
    cases r''.toList.find? (·.ListsName path) with
    | some d => exact Or.inl rfl
    | none => exact hfind (·.HasSuffix path)
  · exact Or.inr ⟨d, d', by rw [hd], by rw [hd'], hlt⟩

end Registry

end LineCensus
