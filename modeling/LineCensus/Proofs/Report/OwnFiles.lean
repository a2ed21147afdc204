import LineCensus.Proofs.Report.Directories

/-!
# Entries of own files

Where no directory is called as such an entry would be, the entries of directories and those of
own files do not meet. Whether a directory's own files are listed apart is then decided by the
records alone: some files lie in the directory itself, and with the files further down it has
another number of lines. So there are files further down, and no other directory has an entry
for its own files.
-/
namespace LineCensus.Report

/-- The directory `sub` lies in `dir`, at whatever depth. In the root, the single dot, lie all
others. -/
def LiesIn (dir sub : String) : Prop :=
  sub ≠ dir ∧ (dir = "." ∨ dir.toList ++ ['/'] <+: sub.toList)

theorem directoryOf_mem_directoriesOf (path : String) : directoryOf path ∈ directoriesOf path :=
  List.mem_map_of_mem (mem_selfAndAncestors_self (parentDir_ne_nil _))

/-- Of the directories that a file counts in, all but the one that it lies in hold that one. -/
theorem liesIn_of_mem_directoriesOf {path dir : String} (h : dir ∈ directoriesOf path)
    (hne : directoryOf path ≠ dir) : LiesIn dir (directoryOf path) := by
  obtain ⟨t, ht, rfl⟩ := List.mem_map.1 h
  refine ⟨hne, ?_⟩
  rcases prefix_of_mem_selfAndAncestors ht with rfl | rfl | hbegins
  · exact absurd rfl hne
  · exact Or.inl rfl
  · exact Or.inr (by simpa [directoryOf] using hbegins)

/-- Some files lie in the directory itself, and their lines are not all the lines of the files
that count in it. -/
def HasMoreBelow (records : List FileRecord) (dir : String) : Prop :=
  filesIn dir records ≠ [] ∧ linesIn (filesIn dir records) ≠ linesIn (filesBelow dir records)

instance (records : List FileRecord) (dir : String) : Decidable (HasMoreBelow records dir) :=
  inferInstanceAs (Decidable (_ ∧ _))

/-- What a directory has more than its own files lies in a directory in it. -/
theorem HasMoreBelow.exists_liesIn {records : List FileRecord} {dir : String}
    (h : HasMoreBelow records dir) :
    ∃ f ∈ records, dir ∈ directoriesOf f.path ∧ LiesIn dir (directoryOf f.path) := by
  by_contra hnone
  refine h.2 (congrArg linesIn ?_)
  refine List.filter_congr fun f hf => decide_eq_decide.2 ⟨?_, ?_⟩
  · rintro rfl
    exact directoryOf_mem_directoriesOf f.path
  · intro hdir
    by_contra hne
    exact hnone ⟨f, hf, hdir, liesIn_of_mem_directoriesOf hdir hne⟩

namespace Project

/-- No directory has a name that ends as the name of an entry of own files does. -/
def NoneMarked (records : List FileRecord) : Prop :=
  ∀ f ∈ records, ∀ dir ∈ directoriesOf f.path, ¬ ownFilesMark.toList <:+ dir.toList

instance (records : List FileRecord) : Decidable (NoneMarked records) :=
  inferInstanceAs (Decidable (∀ f ∈ records, ∀ dir ∈ directoriesOf f.path, _))

variable {root : String} {records : List FileRecord}

theorem NoneMarked.ne (h : NoneMarked records) {f : FileRecord} (hf : f ∈ records) {dir : String}
    (hdir : dir ∈ directoriesOf f.path) (dir' : String) : dir ≠ dir' ++ ownFilesMark := by
  rintro rfl
  refine h f hf _ hdir ?_
  rw [String.toList_append]
  exact List.suffix_append _ _

/-- Where no directory is called so, a directory's entry has the lines of the files that count
in it. -/
theorem linesUnder_directories (h : NoneMarked records) {f : FileRecord} (hf : f ∈ records)
    {dir : String} (hdir : dir ∈ directoriesOf f.path) :
    Gathering.linesUnder (ofRecords root records).directories dir =
      linesIn (filesBelow dir records) := by
  have hbelow : filesBelow dir records ≠ [] :=
    List.ne_nil_of_mem (List.mem_filter.2 ⟨hf, decide_eq_true hdir⟩)
  have hentry : (ofRecords root records).directories.get? dir =
      some (.ofFiles dir (filesBelow dir records)) := by
    rw [get?_directories_of_forall_ne root records fun dir' _ => h.ne hf hdir dir',
      Gathering.gathered?, if_neg hbelow]
  rw [Gathering.linesUnder, hentry]
  rfl

theorem listsApart_iff (h : NoneMarked records) {dir : String} :
    (ofRecords root records).ListsApart dir ↔ HasMoreBelow records dir := by
  have hperm : (filesIn dir (ofRecords root records).files).Perm (filesIn dir records) :=
    (files_perm root records).filter _
  have hnil : filesIn dir (ofRecords root records).files = [] ↔ filesIn dir records = [] :=
    ⟨fun hs => (hs ▸ hperm).nil_eq.symm, fun hs => (hs ▸ hperm).eq_nil⟩
  unfold ListsApart HasMoreBelow
  rw [Ne, hnil]
  refine and_congr_right fun hfiles => not_congr ?_
  -- a file that lies in the directory counts in it, so the directory has an entry
  obtain ⟨f, hf⟩ := List.exists_mem_of_ne_nil _ hfiles
  obtain ⟨hmem, hdir⟩ := List.mem_filter.1 hf
  have hcounts : dir ∈ directoriesOf f.path :=
    of_decide_eq_true hdir ▸ directoryOf_mem_directoriesOf f.path
  rw [linesUnder_directories h hmem hcounts, ← linesIn_perm hperm]
  rfl

/-- An entry that is no directory's is one of own files that are listed apart. -/
theorem exists_listsApart_of_key {key : String} {g : Group}
    (hget : (ofRecords root records).directories.get? key = some g)
    (hkey : ∀ f ∈ records, key ∉ directoriesOf f.path) :
    ∃ dir, (ofRecords root records).ListsApart dir ∧ key = dir ++ ownFilesMark := by
  have hbelow : filesBelow key records = [] :=
    List.filter_eq_nil_iff.2 fun f hf => by simpa using hkey f hf
  have hgathered : Gathering.gathered? key (filesBelow key records) = none := if_pos hbelow
  by_cases hmarked : ∃ dir, key = dir ++ ownFilesMark
  · obtain ⟨dir, rfl⟩ := hmarked
    by_cases hapart : (ofRecords root records).ListsApart dir
    · exact ⟨dir, hapart, rfl⟩
    · rw [get?_directories_append_ownFilesMark, if_neg hapart, hgathered] at hget
      cases hget
  · rw [get?_directories_of_forall_ne root records fun dir _ h => hmarked ⟨dir, h⟩,
      hgathered] at hget
    cases hget

/-- Where no directory is called as an entry of own files would be, the entries that are no
directory's are those of the directories whose own files have other lines than all their files.
Each of them holds the sums over the files that lie in the directory itself, and of such a
directory some file lies further down. With room for the sums over all files the counters hold
these numbers, and the compared ones, in words. -/
theorem key_of_no_directory_iff_hasMoreBelow (root : String) (hsums : SumsFit records)
    (h : NoneMarked records) :
    (ofRecords root records).NeverOverflows ∧
    (∀ key, (key ∈ (ofRecords root records).directories.keys ∧
        ∀ f ∈ records, key ∉ directoriesOf f.path) ↔
      ∃ dir, HasMoreBelow records dir ∧ key = dir ++ ownFilesMark) ∧
    ∀ dir, HasMoreBelow records dir →
      (ofRecords root records).directories.get? (dir ++ ownFilesMark) =
          some ⟨dir ++ ownFilesMark, (filesIn dir records).length,
            Tally.sum ((filesIn dir records).map (·.tally)),
            ((filesIn dir records).map (·.tokens)).sum⟩ ∧
        ∃ f ∈ records, dir ∈ directoriesOf f.path ∧ LiesIn dir (directoryOf f.path) := by
  have hentry : ∀ dir, HasMoreBelow records dir →
      (ofRecords root records).directories.get? (dir ++ ownFilesMark) =
        some (.ofFiles (dir ++ ownFilesMark) (filesIn dir records)) := fun dir hmore => by
    rw [get?_directories_append_ownFilesMark, if_pos ((listsApart_iff h).2 hmore)]
  refine ⟨neverOverflows_iff.2 hsums, fun key => ⟨?_, ?_⟩,
    fun dir hmore => ⟨hentry dir hmore, hmore.exists_liesIn⟩⟩
  · rintro ⟨hmem, hkey⟩
    obtain ⟨g, hget⟩ := SortedMap.mem_keys_iff.1 hmem
    obtain ⟨dir, hapart, rfl⟩ := exists_listsApart_of_key hget hkey
    exact ⟨dir, (listsApart_iff h).1 hapart, rfl⟩
  · rintro ⟨dir, hmore, rfl⟩
    exact ⟨SortedMap.mem_keys_iff.2 ⟨_, hentry dir hmore⟩, fun f hf hdir => h.ne hf hdir dir rfl⟩

/-- A file in `a` beside a directory with another file. -/
def fileBesideDirectory : List FileRecord :=
  [⟨"a/b/g", "Rust", ⟨1, 0, 0⟩, 2⟩, ⟨"a/f", "Rust", ⟨10, 0, 0⟩, 5⟩]

/-- The file in `a` has ten of the eleven lines of `a`, so it is listed apart; the file in `a/b`
has all the lines of `a/b`. -/
theorem key_of_no_directory_file_beside_directory :
    SumsFit fileBesideDirectory ∧ NoneMarked fileBesideDirectory ∧
      (ofRecords "p" fileBesideDirectory).directories.get? ("a" ++ ownFilesMark) =
        some ⟨"a (Files)", 1, ⟨10, 0, 0⟩, 5⟩ ∧
      "a/b" ++ ownFilesMark ∉ (ofRecords "p" fileBesideDirectory).directories.keys := by
  have hsums : SumsFit fileBesideDirectory := .of_lt (by decide)
  have hnone : NoneMarked fileBesideDirectory := by decide +kernel
  obtain ⟨-, hkeys, hentries⟩ := key_of_no_directory_iff_hasMoreBelow "p" hsums hnone
  refine ⟨hsums, hnone, (hentries "a" (by decide +kernel)).1.trans (by decide +kernel),
    fun hmem => ?_⟩
  obtain ⟨dir, hmore, heq⟩ := (hkeys _).1 ⟨hmem, by decide +kernel⟩
  rw [← append_ownFilesMark_inj heq] at hmore
  exact hmore.2 (by decide +kernel)

end Project

end LineCensus.Report
