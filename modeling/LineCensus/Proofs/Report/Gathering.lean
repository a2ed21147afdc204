import LineCensus.Report.Statistics
import Mathlib.Algebra.BigOperators.Group.List.Basic
import Mathlib.Algebra.GroupWithZero.Nat
import Mathlib.Data.List.Induction
import Mathlib.Data.List.Nodup

/-!
# What is gathered from the files

Adding files one by one, each to the entries of its own keys, leaves under every key the
sums over the files that have it. Both maps of a gathering are filled that way: the one
with all the directories that a file counts in, the other with the one it lies in. The
sums do not depend on the order of the files.
-/
namespace LineCensus

theorem Tally.sum_concat (ts : List Tally) (t : Tally) :
    Tally.sum (ts ++ [t]) = Tally.sum ts + t := by
  rw [Tally.sum, List.foldl_append]
  rfl

theorem Tally.sum_perm {ts us : List Tally} (h : ts.Perm us) : Tally.sum ts = Tally.sum us := by
  refine h.foldl_eq' (fun s _ t _ u => ?_) 0
  rw [Tally.add_assoc, Tally.add_comm s, ← Tally.add_assoc]

theorem Tally.sum_cons (t : Tally) (ts : List Tally) : Tally.sum (t :: ts) = t + Tally.sum ts := by
  rw [Tally.sum_perm (List.perm_append_singleton t ts).symm, Tally.sum_concat, Tally.add_comm]

theorem Tally.sum_append (ts us : List Tally) :
    Tally.sum (ts ++ us) = Tally.sum ts + Tally.sum us := by
  induction ts with
  | nil => exact (Tally.zero_add _).symm
  | cons t ts ih => rw [List.cons_append, Tally.sum_cons, Tally.sum_cons, ih, Tally.add_assoc]

theorem Tally.sum_flatMap {α : Type} (xs : List α) (tallies : α → List Tally) :
    Tally.sum (xs.flatMap tallies) = Tally.sum (xs.map fun x => Tally.sum (tallies x)) := by
  induction xs with
  | nil => rfl
  | cons x xs ih => rw [List.flatMap_cons, Tally.sum_append, List.map_cons, Tally.sum_cons, ih]

/-- What is zero for no lines and adds up for two tallies adds up for any number of them. -/
theorem Tally.map_sum {count : Tally → ℕ} (hzero : count 0 = 0)
    (hadd : ∀ s t, count (s + t) = count s + count t) (ts : List Tally) :
    count (Tally.sum ts) = (ts.map count).sum := by
  induction ts with
  | nil => exact hzero
  | cons t ts ih => rw [Tally.sum_cons, hadd, ih, List.map_cons, List.sum_cons]

namespace Report

/-! ## Sums over files -/

/-- The sums over some files, under a name. -/
def Group.ofFiles (name : String) (fs : List FileRecord) : Group where
  name
  files := fs.length
  tally := Tally.sum (fs.map (·.tally))
  tokens := (fs.map (·.tokens)).sum

theorem Group.add_ofFiles (name : String) (fs : List FileRecord) (f : FileRecord) :
    (Group.ofFiles name fs).add f = Group.ofFiles name (fs ++ [f]) := by
  simp [Group.add, Group.ofFiles, Tally.sum_concat]

theorem Group.ofFiles_perm (name : String) {fs gs : List FileRecord} (h : fs.Perm gs) :
    Group.ofFiles name fs = Group.ofFiles name gs := by
  simp only [Group.ofFiles, h.length_eq, Tally.sum_perm (h.map _), (h.map _).sum_eq]

/-- What is counted in a group is counted in its files. -/
theorem Group.count_tally_ofFiles {count : Tally → ℕ} (hzero : count 0 = 0)
    (hadd : ∀ s t, count (s + t) = count s + count t) (name : String) (fs : List FileRecord) :
    count (Group.ofFiles name fs).tally = (fs.map fun f => count f.tally).sum := by
  rw [Group.ofFiles, Tally.map_sum hzero hadd, List.map_map]
  rfl

/-- The files that count in a directory. -/
def filesBelow (dir : String) (fs : List FileRecord) : List FileRecord :=
  fs.filter fun f => dir ∈ directoriesOf f.path

/-- The files that lie in a directory itself. -/
def filesIn (dir : String) (fs : List FileRecord) : List FileRecord :=
  fs.filter fun f => directoryOf f.path = dir

/-- A file counts once in each directory. -/
theorem nodup_directoriesOf (path : String) : (directoriesOf path).Nodup := by
  have hinjective : Function.Injective String.ofList := fun _ _ h => String.ofList_injective h
  exact (nodup_selfAndAncestors _).map hinjective

namespace Gathering

/-! ## Maps filled file by file -/

/-- Adds a file to the entries of its keys. -/
def addKeys (name : String → String) (keys : FileRecord → List String) (m : SortedMap Group)
    (f : FileRecord) : SortedMap Group :=
  (keys f).foldl (fun m key => addTo m key (name key) f) m

/-- The sums over some files, if there are any. -/
def gathered? (name : String) (fs : List FileRecord) : Option Group :=
  if fs = [] then none else some (.ofFiles name fs)

theorem gathered?_perm (name : String) {fs gs : List FileRecord} (h : fs.Perm gs) :
    gathered? name fs = gathered? name gs := by
  unfold gathered?
  rw [Group.ofFiles_perm name h]
  exact if_congr ⟨fun hnil => (hnil ▸ h).nil_eq.symm, fun hnil => (hnil ▸ h).eq_nil⟩ rfl rfl

theorem name_of_gathered? {name : String} {fs : List FileRecord} {g : Group}
    (h : gathered? name fs = some g) : g.name = name := by
  unfold gathered? at h
  split at h
  · cases h
  · rw [← Option.some.inj h]
    rfl

theorem add_gathered? (name : String) (fs : List FileRecord) (f : FileRecord) :
    ((gathered? name fs).getD { name }).add f = .ofFiles name (fs ++ [f]) := by
  unfold gathered?
  split
  · rename_i h
    rw [h]
    exact Group.add_ofFiles name [] f
  · exact Group.add_ofFiles name fs f

theorem gathered?_concat (name : String) (fs : List FileRecord) (f : FileRecord) :
    gathered? name (fs ++ [f]) = some (((gathered? name fs).getD { name }).add f) := by
  rw [add_gathered?, gathered?, if_neg (by simp)]

variable {name : String → String} {keys : FileRecord → List String}

/-- A file is added to the entries of its keys, and the others stay as they are. -/
theorem get?_addKeys (m : SortedMap Group) {f : FileRecord} (hnodup : (keys f).Nodup)
    (d : String) :
    (addKeys name keys m f).get? d =
      if d ∈ keys f then some (((m.get? d).getD { name := name d }).add f) else m.get? d := by
  unfold addKeys
  generalize keys f = ks at hnodup ⊢
  induction ks generalizing m with
  | nil => rfl
  | cons key ks ih =>
    obtain ⟨hkey, hks⟩ := List.nodup_cons.1 hnodup
    rw [List.foldl_cons, ih _ hks, addTo, SortedMap.get?_insert]
    by_cases hd : d = key
    · subst hd
      rw [if_neg hkey, if_pos rfl, if_pos List.mem_cons_self]
    · simp only [hd, if_false, List.mem_cons, false_or]

/-- Every entry holds the sums over the files that have its key. -/
theorem get?_foldl_addKeys (hnodup : ∀ f, (keys f).Nodup) (fs : List FileRecord) (d : String) :
    (fs.foldl (addKeys name keys) .empty).get? d =
      gathered? (name d) (fs.filter fun f => d ∈ keys f) := by
  induction fs using List.reverseRecOn with
  | nil => rfl
  | append_singleton fs f ih =>
    rw [List.foldl_append, List.foldl_cons, List.foldl_nil, get?_addKeys _ (hnodup f), ih,
      List.filter_append]
    by_cases hd : d ∈ keys f
    · rw [if_pos hd, List.filter_cons_of_pos (by simpa using hd), List.filter_nil,
        gathered?_concat]
    · rw [if_neg hd, List.filter_cons_of_neg (by simpa using hd), List.filter_nil,
        List.append_nil]

/-! ## The total and the two maps of a gathering -/

/-- The total is the sum over all files. -/
theorem total_foldl_addFile (fs : List FileRecord) :
    (fs.foldl addFile {}).total = .ofFiles "Total" fs := by
  induction fs using List.reverseRecOn with
  | nil => rfl
  | append_singleton fs f ih =>
    rw [List.foldl_append, List.foldl_cons, List.foldl_nil, ← Group.add_ofFiles, ← ih]
    rfl

theorem directories_foldl_addFile (fs : List FileRecord) (g : Gathering) :
    (fs.foldl addFile g).directories =
      fs.foldl (addKeys id fun f => directoriesOf f.path) g.directories := by
  induction fs generalizing g with
  | nil => rfl
  | cons f fs ih => exact ih (g.addFile f)

theorem own_foldl_addFile (fs : List FileRecord) (g : Gathering) :
    (fs.foldl addFile g).own =
      fs.foldl (addKeys (· ++ ownFilesMark) fun f => [directoryOf f.path]) g.own := by
  induction fs generalizing g with
  | nil => rfl
  | cons f fs ih => exact ih (g.addFile f)

/-- A language's entry holds the sums over its files. -/
theorem get?_languages_foldl (fs : List FileRecord) (l : String) :
    (fs.foldl addFile {}).languages.get? l = gathered? l (fs.filter (·.language = l)) := by
  induction fs using List.reverseRecOn with
  | nil => rfl
  | append_singleton fs f ih =>
    have hadd : ((fs ++ [f]).foldl addFile {}).languages =
        addLanguage (fs.foldl addFile {}).languages f := by
      rw [List.foldl_append]
      rfl
    rw [hadd, addLanguage, OrderedMap.get?_insert, List.filter_append]
    by_cases hl : l = f.language
    · subst hl
      rw [if_pos rfl, ih, List.filter_cons_of_pos (by simp), List.filter_nil, gathered?_concat]
    · rw [if_neg hl, ih, List.filter_cons_of_neg (by simpa using Ne.symm hl), List.filter_nil,
        List.append_nil]

/-- A directory's entry holds the sums over the files that count in it. -/
theorem get?_directories_foldl (fs : List FileRecord) (d : String) :
    (fs.foldl addFile {}).directories.get? d = gathered? d (filesBelow d fs) := by
  rw [directories_foldl_addFile]
  exact get?_foldl_addKeys (fun f => nodup_directoriesOf f.path) fs d

/-- The entry of a directory's own files holds the sums over these. -/
theorem get?_own_foldl (fs : List FileRecord) (d : String) :
    (fs.foldl addFile {}).own.get? d = gathered? (d ++ ownFilesMark) (filesIn d fs) := by
  have hfilter : (fs.filter fun f => d ∈ [directoryOf f.path]) = filesIn d fs := by
    simp [filesIn, eq_comm]
  rw [own_foldl_addFile, ← hfilter]
  exact get?_foldl_addKeys (fun f => List.nodup_singleton _) fs d

end Gathering

/-- The files of a project are the records, in another order. -/
theorem Project.files_perm (root : String) (records : List FileRecord) :
    (ofRecords root records).files.Perm records := List.mergeSort_perm records _

end Report

end LineCensus
