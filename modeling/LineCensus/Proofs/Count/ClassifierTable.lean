import LineCensus.Count.ClassifierTable
import LineCensus.Proofs.Count.LiteralWords
import LineCensus.Proofs.Language.Lookup
import LineCensus.Proofs.OrderedMap

/-!
# The classifier of a file

No two definitions of a registry have one id, so the table keeps a classifier for each of
them, and finds for a file the one that was made from the definition the file belongs to. The
languages whose literals stay in place are those with a literal that nothing opens.
-/
namespace LineCensus

/-- Some literal has no opening token. -/
def LanguageDefinition.HasUnopenedLiteral (d : LanguageDefinition) : Prop :=
  ∃ pair ∈ d.lineStrings, pair.start = ""

instance (d : LanguageDefinition) : Decidable d.HasUnopenedLiteral :=
  inferInstanceAs (Decidable (∃ pair ∈ d.lineStrings, _))

namespace Count

namespace Classifier

@[simp] theorem name_ofDefinition (d : LanguageDefinition) :
    (ofDefinition d).name = d.displayName := rfl

/-- The literals that a classifier is compiled with: their opening tokens are no beginnings of
a block's opening token, nor the other way round. -/
def literals (d : LanguageDefinition) : List Delimiters :=
  d.lineStrings.filter
    (keepsLiteral ((ofDefinition d).blockComments ++ (ofDefinition d).blockStrings))

/-- Whatever the blocks are, a literal without an opening token is not left out. -/
theorem exists_mem_literals_iff {d : LanguageDefinition} :
    (∃ pair ∈ literals d, pair.start = "") ↔ d.HasUnopenedLiteral := by
  constructor
  · rintro ⟨pair, hpair, hstart⟩
    exact ⟨pair, (List.mem_filter.1 hpair).1, hstart⟩
  · rintro ⟨pair, hpair, hstart⟩
    refine ⟨pair, List.mem_filter.2 ⟨hpair, ?_⟩, hstart⟩
    simp [keepsLiteral, hstart]

/-- The fault of a definition with such a literal: the place of the first one among those that
are compiled. -/
def unopenedFault (d : LanguageDefinition) : Stripper.Fault :=
  .emptyStart ((literals d).findIdx (·.start = ""))

theorem literalFault_of_error {d : LanguageDefinition} {fault : Stripper.Fault}
    (h : Stripper.compile (literals d) = .error fault) :
    (ofDefinition d).literalFault = some fault := by
  simp only [literals, ofDefinition] at h
  simp only [ofDefinition, h]

theorem literalFault_of_ok {d : LanguageDefinition} {stripper : Stripper}
    (h : Stripper.compile (literals d) = .ok stripper) : (ofDefinition d).literalFault = none := by
  simp only [literals, ofDefinition] at h
  simp only [ofDefinition, h]

theorem literalFault_ofDefinition (d : LanguageDefinition) :
    (ofDefinition d).literalFault =
      if d.HasUnopenedLiteral then some (unopenedFault d) else none := by
  split_ifs with hd
  · obtain ⟨pair, hpair, hstart⟩ := exists_mem_literals_iff.2 hd
    have hfirst : (literals d).findIdx? (·.start = "") =
        some ((literals d).findIdx (·.start = "")) :=
      List.findIdx?_eq_some_of_exists ⟨pair, hpair, decide_eq_true hstart⟩
    exact literalFault_of_error (Stripper.compile_eq_error_iff.2 ⟨_, hfirst, rfl⟩)
  · have hopened : ∀ pair ∈ literals d, pair.start ≠ "" := fun pair hpair hstart =>
      hd (exists_mem_literals_iff.1 ⟨pair, hpair, hstart⟩)
    obtain ⟨stripper, hstripper, -⟩ := Stripper.exists_compile hopened
    exact literalFault_of_ok hstripper

end Classifier

namespace ClassifierTable

/-- Every definition has its classifier, in the same order. -/
theorem classifiers_ofRegistry (r : Registry) :
    (ofRegistry r).classifiers.entries = r.toList.map fun d => (d.id, .ofDefinition d) := by
  have hkeys : ((r.toList.map fun d => (d.id, Classifier.ofDefinition d)).map Prod.fst).Nodup := by
    rw [List.map_map]
    exact r.ids_eq_map_toList ▸ r.definitions.nodup_keys
  rw [ofRegistry, OrderedMap.ofList_eq hkeys]

theorem resolve?_ofRegistry (r : Registry) (path : Path) :
    (ofRegistry r).resolve? path = (r.resolve? path).map .ofDefinition := by
  rw [resolve?]
  show (r.resolve? path).bind _ = _
  cases hd : r.resolve? path with
  | none => rfl
  | some d =>
    have hmem : (d.id, Classifier.ofDefinition d) ∈ (ofRegistry r).classifiers.entries := by
      rw [classifiers_ofRegistry]
      exact List.mem_map_of_mem (Registry.mem_toList_of_resolve? hd)
    exact OrderedMap.mem_entries_iff.1 hmem

theorem values_classifiers_ofRegistry (r : Registry) :
    (ofRegistry r).classifiers.values = r.toList.map .ofDefinition := by
  rw [OrderedMap.values, classifiers_ofRegistry, List.map_map]
  rfl

theorem literalFaults_ofRegistry (r : Registry) :
    (ofRegistry r).literalFaults =
      (r.toList.filter (·.HasUnopenedLiteral)).map fun d =>
        (d.displayName, Classifier.unopenedFault d) := by
  rw [literalFaults, values_classifiers_ofRegistry, List.filterMap_map, ← List.filterMap_eq_map,
    ← List.filterMap_eq_filter, List.filterMap_filterMap]
  refine List.filterMap_congr fun d _ => ?_
  rw [Function.comp_apply, Classifier.literalFault_ofDefinition]
  by_cases hd : d.HasUnopenedLiteral <;> simp [Option.guard, hd]

/-- The table of any registry, whatever definitions it was made from and whatever was loaded
into it, has one classifier for each definition, under its id and in the same order. A file
has a classifier if and only if it belongs to a language, and then it is the one that the
definition of this language makes. The faults name the definitions with a literal that nothing
opens, and no others, in their order. -/
theorem ofRegistry_follows (r : Registry) :
    (ofRegistry r).size = r.size ∧
      (ofRegistry r).classifiers.entries = r.toList.map (fun d => (d.id, .ofDefinition d)) ∧
      (∀ path, (ofRegistry r).resolve? path = (r.resolve? path).map .ofDefinition) ∧
      (ofRegistry r).literalFaults =
        (r.toList.filter (·.HasUnopenedLiteral)).map fun d =>
          (d.displayName, Classifier.unopenedFault d) := by
  refine ⟨?_, classifiers_ofRegistry r, resolve?_ofRegistry r, literalFaults_ofRegistry r⟩
  rw [size, OrderedMap.size, classifiers_ofRegistry, List.length_map, Registry.toList,
    OrderedMap.values, List.length_map]
  rfl

end ClassifierTable

end Count

end LineCensus
