import LineCensus.Language.Registry
import Std.Data.HashMap.Lemmas

/-!
# Finding the language of a file

The indexes of a registry answer as a search through its definitions would: a key leads to
the first definition that has it. So a file belongs to the first definition that lists its
whole name, or else to the first one that has its suffix, both in lower case.
-/
namespace LineCensus

/-! ## Belonging by name and by suffix -/

namespace LanguageDefinition

/-- The definition lists the name of the file, letter by letter. -/
def ListsName (d : LanguageDefinition) (path : Path) : Prop :=
  ∃ name ∈ path.fileName?, name ∈ d.filenames

/-- A suffix of the definition and that of the file are the same in lower case. -/
def HasSuffix (d : LanguageDefinition) (path : Path) : Prop :=
  ∃ ext ∈ path.extension?, ∃ suffix ∈ d.extensions,
    Text.lowercase suffix = "." ++ Text.lowercase ext

instance (d : LanguageDefinition) (path : Path) : Decidable (d.ListsName path) :=
  inferInstanceAs (Decidable (∃ name ∈ path.fileName?, _))

instance (d : LanguageDefinition) (path : Path) : Decidable (d.HasSuffix path) :=
  inferInstanceAs (Decidable (∃ ext ∈ path.extension?, _))

end LanguageDefinition

namespace Registry

open LanguageDefinition

/-! ## The indexes -/

/-- Adding a definition's keys changes the answer for those that had none. -/
theorem getElem?_addKeys (d : LanguageDefinition) (keys : List String) (index : Index)
    (k : String) :
    (addKeys d keys index)[k]? = index[k]?.or (if k ∈ keys then some d else none) := by
  induction keys generalizing index with
  | nil => simp [addKeys]
  | cons key keys ih =>
    have hcons : addKeys d (key :: keys) index = addKeys d keys (index.insertIfNew key d) := rfl
    rw [hcons, ih, Std.HashMap.getElem?_insertIfNew]
    by_cases hk : key = k
    · subst hk
      by_cases hmem : key ∈ index
      · rw [if_neg fun h => h.2 hmem, Std.HashMap.getElem?_eq_some_getElem hmem]
        rfl
      · rw [if_pos ⟨beq_self_eq_true key, hmem⟩, Std.HashMap.getElem?_eq_none hmem]
        simp
    · simp [hk, Ne.symm hk]

/-- A key leads to the first definition that has it. -/
theorem getElem?_indexBy (keys : LanguageDefinition → List String)
    (ds : List LanguageDefinition) (k : String) :
    (indexBy keys ds)[k]? = ds.find? (k ∈ keys ·) := by
  have hfold : ∀ index : Index,
      (ds.foldl (fun index d => addKeys d (keys d) index) index)[k]? =
        index[k]?.or (ds.find? (k ∈ keys ·)) := by
    induction ds with
    | nil => simp
    | cons d ds ih =>
      intro index
      rw [List.foldl_cons, ih, getElem?_addKeys, Option.or_assoc, List.find?_cons]
      by_cases hk : k ∈ keys d <;> simp [hk]
  simp [indexBy, hfold]

theorem byName_eq_find? (r : Registry) (path : Path) :
    path.fileName?.bind (r.byName[·]?) = r.toList.find? (·.ListsName path) := by
  cases hname : path.fileName? with
  | none => exact (List.find?_eq_none.2 fun d _ => by simp [ListsName, hname]).symm
  | some name =>
    have hlists : ∀ d : LanguageDefinition, d.ListsName path ↔ name ∈ nameKeys d := fun d => by
      simp [ListsName, nameKeys, hname]
    simp only [Option.bind_some, r.byName_eq, getElem?_indexBy, hlists, toList]

theorem bySuffix_eq_find? (r : Registry) (path : Path) :
    path.extension?.bind (fun ext => r.bySuffix["." ++ Text.lowercase ext]?) =
      r.toList.find? (·.HasSuffix path) := by
  cases hext : path.extension? with
  | none => exact (List.find?_eq_none.2 fun d _ => by simp [HasSuffix, hext]).symm
  | some ext =>
    have hsuffix : ∀ d : LanguageDefinition,
        d.HasSuffix path ↔ "." ++ Text.lowercase ext ∈ suffixKeys d := fun d => by
      simp [HasSuffix, suffixKeys, hext]
    simp only [Option.bind_some, r.bySuffix_eq, getElem?_indexBy, hsuffix, toList]

/-- A file belongs to the first definition that lists its name, or else to the first one
that has its suffix, or else to none. -/
theorem resolve?_eq_find? (r : Registry) (path : Path) :
    r.resolve? path =
      (r.toList.find? (·.ListsName path)).or (r.toList.find? (·.HasSuffix path)) := by
  rw [resolve?, byName_eq_find?, bySuffix_eq_find?]
  cases r.toList.find? (·.ListsName path) <;> rfl

theorem mem_toList_of_resolve? {r : Registry} {path : Path} {d : LanguageDefinition}
    (h : r.resolve? path = some d) : d ∈ r.toList := by
  rw [resolve?, byName_eq_find?, bySuffix_eq_find?] at h
  split at h
  · rename_i hname
    cases h
    exact List.mem_of_find?_eq_some hname
  · exact List.mem_of_find?_eq_some h

theorem ids_eq_map_toList (r : Registry) : r.toList.map (·.id) = r.ids := by
  rw [toList, OrderedMap.values, List.map_map, ids, OrderedMap.keys]
  exact List.map_congr_left fun e he => r.id_eq_key e he

end Registry

end LineCensus
