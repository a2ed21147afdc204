import LineCensus.Proofs.Language.Lookup
import LineCensus.Proofs.Language.Overrides

/-!
# New languages

Overrides whose ids are all new stand behind the definitions that were there, so a search
comes to them last. But a file is looked up by its whole name before it is looked up by its
suffix: a new language takes a file from an old one if it lists the name of the file, which
was found by its suffix alone before. All other files stay where they are, and those that
belonged to no language go where the new languages alone would have them.
-/
namespace LineCensus

namespace Registry

open LanguageDefinition

variable {r r' : Registry} {o : Overrides} {path : Path}

/-! ## The order of the definitions -/

theorem entries_ofDefinitions {ds : List LanguageDefinition} (h : (ds.map (·.id)).Nodup) :
    (ofDefinitions ds).definitions.entries = ds.map fun d => (d.id, d) := by
  have hfold : (ofDefinitions ds).definitions =
      OrderedMap.empty.insertAll (ds.map fun d => (d.id, d)) := by
    simp only [ofDefinitions, ofMap, putAll, OrderedMap.insertAll, List.foldl_map]
  rw [hfold, OrderedMap.entries_insertAll]
  · rfl
  · simpa [OrderedMap.keys, OrderedMap.empty, Function.comp_def] using h

theorem toList_ofDefinitions {ds : List LanguageDefinition} (h : (ds.map (·.id)).Nodup) :
    (ofDefinitions ds).toList = ds := by
  rw [toList, OrderedMap.values, entries_ofDefinitions h, List.map_map]
  exact List.map_id' ds

/-- Every registry, whatever was loaded into it, is made from the definitions that it holds. -/
theorem ofDefinitions_toList (r : Registry) : ofDefinitions r.toList = r := by
  have hids : (r.toList.map (·.id)).Nodup := r.ids_eq_map_toList ▸ r.definitions.nodup_keys
  refine eq_of_definitions_eq (OrderedMap.eq_of_entries_eq ?_)
  rw [entries_ofDefinitions hids, toList, OrderedMap.values, List.map_map]
  have hkeys : ∀ e ∈ r.definitions.entries, (e.2.id, e.2) = e := fun e he =>
    Prod.ext (r.id_eq_key e he) rfl
  exact (List.map_congr_left hkeys).trans (List.map_id _)

theorem ids_rekeyed (o : Overrides) : (rekeyed o).map (·.id) = o.keys := by
  rw [rekeyed, List.map_map]
  rfl

theorem toList_ofDefinitions_rekeyed (o : Overrides) :
    (ofDefinitions (rekeyed o)).toList = rekeyed o :=
  toList_ofDefinitions (ids_rekeyed o ▸ o.nodup_keys)

/-- Definitions under new ids stand behind those that were there. -/
theorem toList_of_load_new (h : r.load o = .ok r') (hnew : ∀ id ∈ o.keys, id ∉ r.ids) :
    r'.toList = r.toList ++ rekeyed o := by
  have hentries := OrderedMap.entries_extend (m := r.definitions)
    (n := o.mapWithKey fun id d => { d with id }) (by rwa [OrderedMap.keys_mapWithKey])
  rw [toList, OrderedMap.values, definitions_of_load h, hentries, List.map_append]
  simp [rekeyed, toList, OrderedMap.values, OrderedMap.mapWithKey]

/-! ## The language of a file -/

/-- Some of the overrides list the name of the file, and none of the definitions of the
registry does. -/
def NewlyListed (r : Registry) (o : Overrides) (path : Path) : Prop :=
  (∃ e ∈ o.entries, e.2.ListsName path) ∧ ∀ d ∈ r.toList, ¬ d.ListsName path

instance (r : Registry) (o : Overrides) (path : Path) : Decidable (r.NewlyListed o path) :=
  inferInstanceAs (Decidable (_ ∧ _))

theorem newlyListed_iff : r.NewlyListed o path ↔
    (∃ d, (rekeyed o).find? (·.ListsName path) = some d) ∧
      r.toList.find? (·.ListsName path) = none := by
  have hnames : (∃ d ∈ rekeyed o, d.ListsName path) ↔ ∃ e ∈ o.entries, e.2.ListsName path := by
    simp only [rekeyed, List.mem_map, exists_exists_and_eq_and]
    rfl
  simp only [NewlyListed, ← hnames, ← Option.isSome_iff_exists, List.find?_isSome,
    List.find?_eq_none, decide_eq_true_eq]

/-- Where files go once new languages are there: to the new ones, as they alone would have
it, if a name is newly listed or the file belonged to no language. -/
theorem resolve?_of_load_new (h : r.load o = .ok r') (hnew : ∀ id ∈ o.keys, id ∉ r.ids)
    (path : Path) :
    r'.resolve? path =
      if r.NewlyListed o path then (ofDefinitions (rekeyed o)).resolve? path
      else (r.resolve? path).or ((ofDefinitions (rekeyed o)).resolve? path) := by
  simp only [resolve?, byName_eq_find?, bySuffix_eq_find?, toList_of_load_new h hnew,
    toList_ofDefinitions_rekeyed, List.find?_append]
  cases hold : r.toList.find? (·.ListsName path) with
  | some d =>
    rw [if_neg fun hlisted => by simpa [hold] using newlyListed_iff.1 hlisted]
    rfl
  | none =>
    cases hname : (rekeyed o).find? (·.ListsName path) with
    | some d =>
      rw [if_pos (newlyListed_iff.2 ⟨⟨d, hname⟩, hold⟩)]
      rfl
    | none =>
      rw [if_neg fun hlisted => by simpa [hname] using newlyListed_iff.1 hlisted]
      rfl

theorem exists_of_mem_rekeyed {d : LanguageDefinition} (h : d ∈ rekeyed o) :
    ∃ e ∈ o.entries, d = { e.2 with id := e.1 } := by
  obtain ⟨e, he, rfl⟩ := List.mem_map.1 h
  exact ⟨e, he, rfl⟩

theorem exists_of_resolve?_rekeyed {d : LanguageDefinition}
    (h : (ofDefinitions (rekeyed o)).resolve? path = some d) :
    ∃ e ∈ o.entries, d = { e.2 with id := e.1 } := by
  have hmem := mem_toList_of_resolve? h
  rw [toList_ofDefinitions_rekeyed] at hmem
  exact exists_of_mem_rekeyed hmem

/-- A newly listed name is looked up before any suffix. -/
theorem NewlyListed.exists_resolve?_rekeyed (h : r.NewlyListed o path) :
    ∃ e ∈ o.entries, e.2.ListsName path ∧
      (ofDefinitions (rekeyed o)).resolve? path = some { e.2 with id := e.1 } := by
  obtain ⟨⟨d, hd⟩, -⟩ := newlyListed_iff.1 h
  obtain ⟨e, he, rfl⟩ := exists_of_mem_rekeyed (List.mem_of_find?_eq_some hd)
  refine ⟨e, he, of_decide_eq_true (List.find?_some hd :), ?_⟩
  rw [resolve?, byName_eq_find?, toList_ofDefinitions_rekeyed, hd]

end Registry

namespace Settings

open Registry

variable {r r' : Registry} {source : String} {o : Overrides}

/-- Overrides whose ids are all new leave the files of a language with it, but for those whose
name is newly listed: these go to a new language that lists it. A file that belonged to no
language still belongs to none, or to a new one. -/
theorem resolve?_loadOverrides_new (h : loadOverrides r source o = .ok r')
    (hnew : ∀ id ∈ o.keys, id ∉ r.ids) (path : Path) :
    (∀ d, r.resolve? path = some d →
        (r'.resolve? path = some d ↔ ¬ r.NewlyListed o path)) ∧
      (r.NewlyListed o path → ∃ e ∈ o.entries, e.2.ListsName path ∧
        r'.resolve? path = some { e.2 with id := e.1 }) ∧
      (r.resolve? path = none → ∀ d, r'.resolve? path = some d →
        ∃ e ∈ o.entries, d = { e.2 with id := e.1 }) := by
  have hresolve := resolve?_of_load_new (loadOverrides_eq_ok_iff.1 h) hnew path
  have hlisted : r.NewlyListed o path → ∃ e ∈ o.entries, e.2.ListsName path ∧
      r'.resolve? path = some { e.2 with id := e.1 } := by
    intro hlisted
    rw [hresolve, if_pos hlisted]
    exact hlisted.exists_resolve?_rekeyed
  refine ⟨fun d hd => ⟨fun hsame hname => ?_, fun hname => ?_⟩, hlisted, fun hnone d hd => ?_⟩
  · -- the old definition and the new one would have one id
    obtain ⟨e, he, -, hnewly⟩ := hlisted hname
    obtain rfl : d = { e.2 with id := e.1 } := Option.some.inj (hsame.symm.trans hnewly)
    have hold : e.1 ∈ r.toList.map (·.id) := List.mem_map_of_mem (mem_toList_of_resolve? hd)
    rw [ids_eq_map_toList] at hold
    exact hnew e.1 (List.mem_map_of_mem he) hold
  · rw [hresolve, if_neg hname, hd, Option.some_or]
  · rw [hresolve, hnone, Option.none_or, ite_self] at hd
    exact exists_of_resolve?_rekeyed hd

/-- A new language with the suffix of an old one, a suffix of its own and the name of a file. -/
def buildLanguage : Overrides :=
  .ofList [("build", { id := "", extensions := [".rs", ".bld"], filenames := ["build.rs"] })]

/-- Of the files of Rust only the one whose name the new language lists goes over to it. -/
theorem resolve?_loadOverrides_new_file_name :
    ∃ r', loadOverrides .builtin "languages.json" buildLanguage = .ok r' ∧
      (∀ id ∈ buildLanguage.keys, id ∉ Registry.builtin.ids) ∧
      (r'.resolve? ⟨"src/main.rs"⟩).map (·.id) = some "rust" ∧
      (r'.resolve? ⟨"src/build.rs"⟩).map (·.id) = some "build" := by
  obtain ⟨r', h⟩ : ∃ r', loadOverrides .builtin "languages.json" buildLanguage = .ok r' :=
    ⟨_, rfl⟩
  have hnew : ∀ id ∈ buildLanguage.keys, id ∉ Registry.builtin.ids := by decide +kernel
  have hmain : (Registry.builtin.resolve? ⟨"src/main.rs"⟩).map (·.id) = some "rust" := by
    rw [resolve?, byName_eq_find?, bySuffix_eq_find?]
    decide +kernel
  obtain ⟨d, hd, hid⟩ := Option.map_eq_some_iff.1 hmain
  obtain ⟨e, he, -, hbuild⟩ :=
    (resolve?_loadOverrides_new h hnew ⟨"src/build.rs"⟩).2.1 (by decide +kernel)
  obtain rfl := List.mem_singleton.1 he
  refine ⟨r', h, hnew, ?_, by rw [hbuild]; rfl⟩
  rw [((resolve?_loadOverrides_new h hnew ⟨"src/main.rs"⟩).1 d hd).2 (by decide +kernel), ← hid]
  rfl

end Settings

end LineCensus
