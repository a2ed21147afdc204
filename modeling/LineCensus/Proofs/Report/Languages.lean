import LineCensus.Proofs.OrderedMap
import LineCensus.Proofs.Report.Directories
import LineCensus.Proofs.Sorting

/-!
# The entries of languages

Every file has one language, so the entries of the languages share the files out among them:
each holds the sums over its own, and together they come to the total. The root directory
comes to it as well, since every file counts there and no entry of own files is called a dot.
Listed by language, the files are all there once more, in the order of their paths.
-/
namespace LineCensus

namespace Report

/-! ## Groups of files -/

/-- The sums over some groups, under a name. -/
def Group.ofGroups (name : String) (gs : List Group) : Group where
  name
  files := (gs.map (·.files)).sum
  tally := Tally.sum (gs.map (·.tally))
  tokens := (gs.map (·.tokens)).sum

/-- The sums over groups are the sums over the files in them. -/
theorem Group.ofGroups_ofFiles (name : String) (keys : List String)
    (members : String → List FileRecord) :
    ofGroups name (keys.map fun k => ofFiles k (members k)) =
      ofFiles name (keys.flatMap members) := by
  have hfiles : (keys.map fun k => (members k).length).sum = (keys.flatMap members).length :=
    List.length_flatMap.symm
  have htokens : (keys.map fun k => ((members k).map (·.tokens)).sum).sum =
      ((keys.flatMap members).map (·.tokens)).sum := by
    rw [List.map_flatMap, List.flatMap_def, List.sum_flatten, List.map_map]
    rfl
  have htally : Tally.sum (keys.map fun k => Tally.sum ((members k).map (·.tally))) =
      Tally.sum ((keys.flatMap members).map (·.tally)) := by
    rw [List.map_flatMap, Tally.sum_flatMap]
  simp only [ofGroups, ofFiles, List.map_map, Function.comp_def, hfiles, htally, htokens]

/-- The number of lines of code in some files. -/
def codeIn (fs : List FileRecord) : ℕ := (Tally.sum (fs.map (·.tally))).code

/-- What has more code comes first; what has the same keeps its order. -/
theorem pairwise_byCode {α : Type} (code : α → ℕ) (xs : List α) :
    (byCode code xs).Pairwise fun a b =>
      code b < code a ∨ code a = code b ∧ [a, b].Sublist xs := by
  have htrans : ∀ a b c : α, decide (code b ≤ code a) = true → decide (code c ≤ code b) = true →
      decide (code c ≤ code a) = true := by
    simp only [decide_eq_true_eq]
    omega
  have htotal : ∀ a b : α,
      (decide (code b ≤ code a) || decide (code a ≤ code b)) = true := by
    simp only [Bool.or_eq_true, decide_eq_true_eq]
    omega
  refine (pairwise_mergeSort_of_ties htrans htotal xs).imp fun {a b} h => ?_
  simp only [decide_eq_true_eq] at h
  rcases Nat.lt_or_eq_of_le h.1 with hlt | heq
  · exact Or.inl hlt
  · exact Or.inr ⟨heq.symm, h.2 heq.ge⟩

/-- What stands in the order of its code stays as it is. -/
theorem byCode_of_pairwise {α : Type} {code : α → ℕ} {xs : List α}
    (h : xs.Pairwise fun a b => code b ≤ code a) : byCode code xs = xs :=
  List.mergeSort_of_pairwise (h.imp fun hle => decide_eq_true hle)

namespace Gathering

/-- The languages stand in the order of their first files. -/
theorem keys_languages_foldl (fs : List FileRecord) :
    (fs.foldl addFile {}).languages.keys = (fs.map (·.language)).eraseDups := by
  induction fs using List.reverseRecOn with
  | nil => rfl
  | append_singleton fs f ih =>
    have hadd : ((fs ++ [f]).foldl addFile {}).languages =
        addLanguage (fs.foldl addFile {}).languages f := by
      rw [List.foldl_append]
      rfl
    rw [hadd, addLanguage, OrderedMap.keys_insert, ih, List.map_append, List.map_singleton,
      OrderedMap.eraseDups_concat]
    simp only [List.mem_eraseDups]

end Gathering

namespace Project

open Gathering

variable (root : String) (records : List FileRecord)

theorem keys_languages :
    (ofRecords root records).languages.keys =
      ((ofRecords root records).files.map (·.language)).eraseDups :=
  keys_languages_foldl _

theorem mem_keys_languages_iff {l : String} :
    l ∈ (ofRecords root records).languages.keys ↔ ∃ f ∈ records, f.language = l := by
  rw [keys_languages, List.mem_eraseDups, List.mem_map]
  simp only [(files_perm root records).mem_iff]

/-- The files of a language, in the order of their paths. -/
def filesOf (p : Project) (l : String) : List FileRecord := p.files.filter (·.language = l)

theorem filesOf_ofRecords_perm (l : String) :
    ((ofRecords root records).filesOf l).Perm (records.filter (·.language = l)) :=
  (files_perm root records).filter _

theorem filesOf_ne_nil {l : String} (h : l ∈ (ofRecords root records).languages.keys) :
    (ofRecords root records).filesOf l ≠ [] := by
  obtain ⟨f, hf, hl⟩ := (mem_keys_languages_iff root records).1 h
  refine List.ne_nil_of_mem (List.mem_filter.2 ⟨(files_perm root records).mem_iff.2 hf, ?_⟩)
  exact decide_eq_true hl

/-- The entries of the languages hold the sums over their files. -/
theorem entries_languages :
    (ofRecords root records).languages.entries =
      (ofRecords root records).languages.keys.map fun l =>
        (l, .ofFiles l ((ofRecords root records).filesOf l)) := by
  rw [OrderedMap.entries_eq_filterMap, ← List.filterMap_eq_map]
  refine List.filterMap_congr fun l hl => ?_
  have hget : (ofRecords root records).languages.get? l =
      gathered? l ((ofRecords root records).filesOf l) := get?_languages_foldl _ l
  rw [hget, gathered?, if_neg (filesOf_ne_nil root records hl)]
  rfl

theorem values_languages :
    (ofRecords root records).languages.values =
      (ofRecords root records).languages.keys.map fun l =>
        .ofFiles l ((ofRecords root records).filesOf l) := by
  rw [OrderedMap.values, entries_languages, List.map_map]
  rfl

/-- Every file is one of the files of one language. -/
theorem flatMap_filesOf_perm :
    ((ofRecords root records).languages.keys.flatMap (ofRecords root records).filesOf).Perm
      (ofRecords root records).files := by
  refine flatMap_filter_perm (ofRecords root records).languages.nodup_keys fun f hf => ?_
  exact (mem_keys_languages_iff root records).2 ⟨f, (files_perm root records).mem_iff.1 hf, rfl⟩

/-- Together the languages come to the total. -/
theorem ofGroups_languages :
    Group.ofGroups "Total" (ofRecords root records).languages.values =
      (ofRecords root records).total := by
  rw [values_languages, Group.ofGroups_ofFiles, total_ofRecords]
  exact Group.ofFiles_perm _ ((flatMap_filesOf_perm root records).trans (files_perm root records))

/-- All files count in the root directory. -/
theorem get?_directories_dot :
    (ofRecords root records).directories.get? "." = gathered? "." records := by
  have hall : filesBelow "." records = records :=
    List.filter_eq_self.2 fun f _ =>
      decide_eq_true (List.mem_map_of_mem (dot_mem_selfAndAncestors (parentDir f.path.toList)))
  rw [get?_directories_of_forall_ne root records fun dir _ h => ?_, hall]
  have hlength := congrArg String.length h
  rw [String.length_append] at hlength
  have hmark : ownFilesMark.length = 8 := rfl
  have hdot : ".".length = 1 := rfl
  omega

/-! ## Files by language -/

/-- The languages are ranked by the code in their files, and listed with these. -/
theorem filesByLanguage_ofRecords :
    let p := ofRecords root records
    p.filesByLanguage =
      (byCode (fun l => codeIn (p.filesOf l)) p.languages.keys).map fun l => (l, p.filesOf l) := by
  intro p
  have hranked : p.languagesByCode =
      (byCode (fun l => codeIn (p.filesOf l)) p.languages.keys).map fun l =>
        .ofFiles l (p.filesOf l) := by
    rw [languagesByCode, values_languages]
    exact (List.map_mergeSort (f := fun l => Group.ofFiles l (p.filesOf l))
      fun _ _ _ _ => rfl).symm
  rw [filesByLanguage, hranked, List.map_map]
  refine List.map_congr_left fun l _ => ?_
  simp [filesOf, Group.ofFiles, beq_eq_decide]

/-- The records in the order of their paths, those of one path as they stood. -/
def InPathOrder (fs records : List FileRecord) : Prop :=
  fs.Perm records ∧ (fs.Pairwise fun a b => a.path ≤ b.path) ∧
    ∀ path, fs.filter (·.path = path) = records.filter (·.path = path)

theorem inPathOrder_files : InPathOrder (ofRecords root records).files records := by
  refine ⟨files_perm root records, pairwise_mergeSort_key FileRecord.path records, fun path => ?_⟩
  exact filter_mergeSort_key FileRecord.path path records

/-- The languages share the files out among them. They stand in the order of their first files;
each entry holds the sums over the records of its language, and together the entries come to
the total, as the root directory does. Listed by language, every file stands once, in the group
of its language and there in the order of the paths; the language with the most code comes
first, and languages with equal code keep their order. With room for the sums over all files
the counters hold these numbers in words. -/
theorem languages_partition_files (root : String) {records : List FileRecord}
    (hsums : SumsFit records) :
    let p := ofRecords root records
    p.NeverOverflows ∧
      InPathOrder p.files records ∧
      p.languages.keys = (p.files.map (·.language)).eraseDups ∧
      (∀ e ∈ p.languages.entries, e.2 = .ofFiles e.1 (records.filter (·.language = e.1))) ∧
      Group.ofGroups "Total" p.languages.values = p.total ∧
      p.directories.get? "." = (if records = [] then none else some { p.total with name := "." }) ∧
      (∀ e ∈ p.filesByLanguage, e.2 ≠ [] ∧ e.2 = p.files.filter (·.language = e.1)) ∧
      (p.filesByLanguage.flatMap Prod.snd).Perm p.files ∧
      p.filesByLanguage.Pairwise fun e e' =>
        codeIn e'.2 < codeIn e.2 ∨
          codeIn e.2 = codeIn e'.2 ∧ [e.1, e'.1].Sublist p.languages.keys := by
  intro p
  refine ⟨neverOverflows_iff.2 hsums, inPathOrder_files root records,
    keys_languages root records, ?_, ofGroups_languages root records, ?_, ?_, ?_, ?_⟩
  · intro e he
    rw [entries_languages] at he
    obtain ⟨l, -, rfl⟩ := List.mem_map.1 he
    exact Group.ofFiles_perm l (filesOf_ofRecords_perm root records l)
  · rw [get?_directories_dot, gathered?, total_ofRecords]
    rfl
  · intro e he
    rw [filesByLanguage_ofRecords] at he
    obtain ⟨l, hl, rfl⟩ := List.mem_map.1 he
    exact ⟨filesOf_ne_nil root records (List.mem_mergeSort.1 hl), rfl⟩
  · rw [filesByLanguage_ofRecords, List.flatMap_map]
    exact ((List.mergeSort_perm _ _).flatMap_right p.filesOf).trans
      (flatMap_filesOf_perm root records)
  · rw [filesByLanguage_ofRecords, List.pairwise_map]
    exact pairwise_byCode _ _

/-- Two files of one language with a file of another between them: the language that comes
first in the paths comes first, and the root directory has what both have. -/
def twoLanguages : List FileRecord :=
  [⟨"a.rs", "Rust", ⟨5, 1, 0⟩, 7⟩, ⟨"b/c.py", "Python", ⟨2, 0, 1⟩, 3⟩,
    ⟨"b/d.rs", "Rust", ⟨1, 0, 0⟩, 2⟩]

theorem languages_partition_twoLanguages :
    SumsFit twoLanguages ∧
      (ofRecords "p" twoLanguages).languages.keys = ["Rust", "Python"] ∧
      (ofRecords "p" twoLanguages).directories.get? "." = some ⟨".", 3, ⟨8, 1, 1⟩, 12⟩ := by
  have hsums : SumsFit twoLanguages := .of_lt (by decide)
  obtain ⟨-, -, hkeys, -, -, hdot, -⟩ := languages_partition_files "p" hsums
  refine ⟨hsums, ?_, ?_⟩
  · rw [hkeys, files_of_sorted "p" (by decide +kernel)]
    decide +kernel
  · rw [hdot, total_ofRecords]
    decide +kernel

end Project

end Report

end LineCensus
