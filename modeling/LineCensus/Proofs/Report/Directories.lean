import LineCensus.Proofs.Report.Counters
import Mathlib.Data.String.Basic

/-!
# The entries of directories

The entries for directories' own files are put into the map that already holds the
directories themselves, under names that directories can have too. So a directory's entry
holds the sums over all files that count in it, unless the name ends in the mark and the
directory without the mark has its own files listed apart: then it holds the sums over
these. No other entry is touched, since what is put in for a directory is decided by an
entry that nothing changes afterwards.
-/
namespace LineCensus.Report

theorem lt_append_ownFilesMark (dir : String) : dir < dir ++ ownFilesMark := by
  have hlt : dir.toList ++ [] < dir.toList ++ ownFilesMark.toList :=
    List.append_left_lt (by decide)
  rwa [List.append_nil, ← String.toList_append, ← String.lt_iff_toList_lt] at hlt

theorem append_ownFilesMark_inj {dir dir' : String}
    (h : dir ++ ownFilesMark = dir' ++ ownFilesMark) : dir = dir' := by
  have hchars := congrArg String.toList h
  rw [String.toList_append, String.toList_append] at hchars
  exact String.toList_inj.1 (List.append_cancel_right hchars)

namespace Gathering

/-- The lines in the entry of a directory, none if it has no entry. -/
def linesUnder (m : SortedMap Group) (dir : String) : ℕ := ((m.get? dir).map Group.total).getD 0

/-- An entry of a directory's own files is under that directory's name with the mark. -/
def Marked (es : List (String × Group)) : Prop := ∀ e ∈ es, e.2.name = e.1 ++ ownFilesMark

section Marked

variable {es : List (String × Group)} {x y : String × Group}

theorem Marked.name_ne (h : Marked es) (hx : x ∈ es) (hy : y ∈ es) (hlt : x.1 < y.1) :
    x.2.name ≠ y.2.name := by
  intro heq
  rw [h x hx, h y hy] at heq
  rw [append_ownFilesMark_inj heq] at hlt
  exact String.lt_irrefl _ hlt

/-- What stands at a directory is not put there by the entry of the directory itself or of
a later one. -/
theorem Marked.key_ne_name (h : Marked es) (hy : y ∈ es) (hle : x = y ∨ x.1 < y.1) :
    x.1 ≠ y.2.name := by
  intro heq
  have hlt : x.1 < y.1 ++ ownFilesMark := by
    rcases hle with rfl | hlt
    · exact lt_append_ownFilesMark x.1
    · exact String.lt_trans hlt (lt_append_ownFilesMark y.1)
  rw [← h y hy, ← heq] at hlt
  exact String.lt_irrefl _ hlt

end Marked

/-- The own files of a directory are put under their name, if their lines are not all the
lines of the directory, and all other entries stay as they are. -/
theorem get?_addOwn (m : SortedMap Group) (e : String × Group) (d : String) :
    (addOwn m e).get? d =
      if d = e.2.name ∧ e.2.total ≠ linesUnder m e.1 then some e.2 else m.get? d := by
  unfold addOwn linesUnder
  dsimp only
  split
  · rename_i h
    rw [if_neg fun hd => hd.2 h]
  · rename_i h
    rw [SortedMap.get?_insert]
    simp [h]

theorem get?_foldl_addOwn_of_ne {es : List (String × Group)} {d : String}
    (h : ∀ e ∈ es, d ≠ e.2.name) (m : SortedMap Group) :
    (es.foldl addOwn m).get? d = m.get? d := by
  induction es generalizing m with
  | nil => rfl
  | cons e es ih =>
    rw [List.foldl_cons, ih fun x hx => h x (List.mem_cons_of_mem _ hx), get?_addOwn,
      if_neg fun hd => h e List.mem_cons_self hd.1]

/-- Whether a directory's own files are listed apart can be read off the map as it is at
the end: what changes the directory's entry comes before it. -/
theorem get?_foldl_addOwn {es : List (String × Group)}
    (hordered : es.Pairwise fun a b => a.1 < b.1) (hmarked : Marked es)
    {e : String × Group} (he : e ∈ es) (m : SortedMap Group) :
    (es.foldl addOwn m).get? e.2.name =
      if e.2.total = linesUnder (es.foldl addOwn m) e.1 then m.get? e.2.name else some e.2 := by
  obtain ⟨front, back, rfl⟩ := List.append_of_mem he
  obtain ⟨-, hback, hcross⟩ := List.pairwise_append.1 hordered
  have hlater := (List.pairwise_cons.1 hback).1
  have hnameFront : ∀ x ∈ front, e.2.name ≠ x.2.name := fun x hx =>
    (hmarked.name_ne (List.mem_append_left _ hx) he (hcross x hx e List.mem_cons_self)).symm
  have hmemBack : ∀ x ∈ back, x ∈ front ++ e :: back := fun x hx =>
    List.mem_append_right _ (List.mem_cons_of_mem _ hx)
  have hnameBack : ∀ x ∈ back, e.2.name ≠ x.2.name := fun x hx =>
    hmarked.name_ne he (hmemBack x hx) (hlater x hx)
  have hkeyBack : ∀ x ∈ back, e.1 ≠ x.2.name := fun x hx =>
    hmarked.key_ne_name (hmemBack x hx) (Or.inr (hlater x hx))
  have hkey : e.1 ≠ e.2.name := hmarked.key_ne_name he (Or.inl rfl)
  have hlines : linesUnder ((front ++ e :: back).foldl addOwn m) e.1 =
      linesUnder (front.foldl addOwn m) e.1 := by
    rw [linesUnder, List.foldl_append, List.foldl_cons, get?_foldl_addOwn_of_ne hkeyBack,
      get?_addOwn, if_neg fun h => hkey h.1, linesUnder]
  rw [hlines, List.foldl_append, List.foldl_cons, get?_foldl_addOwn_of_ne hnameBack, get?_addOwn,
    get?_foldl_addOwn_of_ne hnameFront]
  by_cases h : e.2.total = linesUnder (front.foldl addOwn m) e.1
  · rw [if_neg fun hd => hd.2 h, if_pos h]
  · rw [if_pos ⟨rfl, h⟩, if_neg h]

theorem marked_own (fs : List FileRecord) :
    Marked (fs.foldl addFile {}).own.entries := by
  intro e he
  have hget := SortedMap.mem_entries_iff.1 he
  rw [get?_own_foldl, gathered?] at hget
  split at hget
  · cases hget
  · rw [← Option.some.inj hget]
    rfl

end Gathering

namespace Project

open Gathering

/-- Some files lie in the directory itself, and their lines are not all the lines in the
directory's entry. -/
def ListsApart (p : Project) (dir : String) : Prop :=
  filesIn dir p.files ≠ [] ∧
    (Group.ofFiles dir (filesIn dir p.files)).total ≠ linesUnder p.directories dir

instance (p : Project) (dir : String) : Decidable (p.ListsApart dir) :=
  inferInstanceAs (Decidable (_ ∧ _))

theorem files_of_sorted (root : String) {records : List FileRecord}
    (h : records.Pairwise fun a b => a.path ≤ b.path) :
    (ofRecords root records).files = records :=
  List.mergeSort_of_pairwise (h.imp fun hle => decide_eq_true hle)

theorem total_ofRecords (root : String) (records : List FileRecord) :
    (ofRecords root records).total = .ofFiles "Total" records := by
  have htotal : (ofRecords root records).total =
      ((ofRecords root records).files.foldl addFile {}).total := rfl
  rw [htotal, total_foldl_addFile, Group.ofFiles_perm _ (files_perm root records)]

/-- What is gathered before the entries of own files are put in. -/
def gathering (root : String) (records : List FileRecord) : Gathering :=
  (ofRecords root records).files.foldl addFile {}

theorem directories_ofRecords (root : String) (records : List FileRecord) :
    (ofRecords root records).directories =
      (gathering root records).own.entries.foldl addOwn (gathering root records).directories :=
  rfl

theorem get?_directories_gathering (root : String) (records : List FileRecord) (d : String) :
    (gathering root records).directories.get? d = gathered? d (filesBelow d records) := by
  rw [gathering, get?_directories_foldl]
  exact gathered?_perm d ((files_perm root records).filter _)

theorem mem_own_gathering_iff {root : String} {records : List FileRecord} {dir : String}
    {g : Group} :
    (dir, g) ∈ (gathering root records).own.entries ↔
      filesIn dir (ofRecords root records).files ≠ [] ∧
        g = .ofFiles (dir ++ ownFilesMark) (filesIn dir (ofRecords root records).files) := by
  rw [SortedMap.mem_entries_iff, gathering, get?_own_foldl, gathered?]
  split
  · rename_i h
    simp [h]
  · rename_i h
    simp [h, eq_comm]

/-- No own files are put under a name that is not a directory's with the mark. -/
theorem get?_directories_of_forall_ne (root : String) (records : List FileRecord) {d : String}
    (h : ∀ dir, filesIn dir (ofRecords root records).files ≠ [] → d ≠ dir ++ ownFilesMark) :
    (ofRecords root records).directories.get? d = gathered? d (filesBelow d records) := by
  have hne : ∀ e ∈ (gathering root records).own.entries, d ≠ e.2.name := by
    rintro ⟨dir, g⟩ he
    obtain ⟨hfiles, rfl⟩ := mem_own_gathering_iff.1 he
    exact h dir hfiles
  rw [directories_ofRecords, get?_foldl_addOwn_of_ne hne, get?_directories_gathering]

/-- Under a directory's name with the mark stand its own files if they are listed apart,
and else what counts in the directory that is called so. -/
theorem get?_directories_append_ownFilesMark (root : String) (records : List FileRecord)
    (dir : String) :
    (ofRecords root records).directories.get? (dir ++ ownFilesMark) =
      if (ofRecords root records).ListsApart dir then
        some (.ofFiles (dir ++ ownFilesMark) (filesIn dir records))
      else gathered? (dir ++ ownFilesMark) (filesBelow (dir ++ ownFilesMark) records) := by
  by_cases hfiles : filesIn dir (ofRecords root records).files = []
  · rw [if_neg fun h => h.1 hfiles]
    refine get?_directories_of_forall_ne root records fun dir' hfiles' heq => hfiles' ?_
    rwa [← append_ownFilesMark_inj heq]
  · have hown : Group.ofFiles (dir ++ ownFilesMark) (filesIn dir (ofRecords root records).files) =
        .ofFiles (dir ++ ownFilesMark) (filesIn dir records) :=
      Group.ofFiles_perm _ ((files_perm root records).filter _)
    have hget : (ofRecords root records).directories.get? (dir ++ ownFilesMark) =
        if (Group.ofFiles dir (filesIn dir (ofRecords root records).files)).total =
            linesUnder (ofRecords root records).directories dir then
          (gathering root records).directories.get? (dir ++ ownFilesMark)
        else some (.ofFiles (dir ++ ownFilesMark) (filesIn dir (ofRecords root records).files)) :=
      get?_foldl_addOwn (gathering root records).own.ordered (marked_own _)
        (mem_own_gathering_iff.2 ⟨hfiles, rfl⟩) _
    rw [hget, get?_directories_gathering, hown]
    by_cases hlines : (Group.ofFiles dir (filesIn dir (ofRecords root records).files)).total =
        linesUnder (ofRecords root records).directories dir
    · rw [if_pos hlines, if_neg fun h => h.2 hlines]
    · rw [if_neg hlines, if_pos (show ListsApart _ dir from ⟨hfiles, hlines⟩)]

/-- The entries are called by their keys. -/
theorem name_of_mem_directories {root : String} {records : List FileRecord} {e : String × Group}
    (he : e ∈ (ofRecords root records).directories.entries) : e.2.name = e.1 := by
  have hget := SortedMap.mem_entries_iff.1 he
  by_cases hmarked : ∃ dir, e.1 = dir ++ ownFilesMark
  · obtain ⟨dir, hdir⟩ := hmarked
    rw [hdir, get?_directories_append_ownFilesMark] at hget
    rw [hdir]
    split at hget
    · rw [← Option.some.inj hget]
      rfl
    · exact name_of_gathered? hget
  · rw [get?_directories_of_forall_ne root records fun dir _ h => hmarked ⟨dir, h⟩] at hget
    exact name_of_gathered? hget

variable {root : String} {records : List FileRecord} {d : String}

/-- Every directory that a file counts in has an entry. It holds the sums over all files
that count in the directory, each of them once, unless the name ends in the mark and the
directory without the mark lists its own files apart: then it holds the sums over these.
With room for the sums over all files the counters hold these numbers in words. -/
theorem get?_directories_of_mem (hsums : SumsFit records)
    (hd : ∃ f ∈ records, d ∈ directoriesOf f.path) :
    (ofRecords root records).NeverOverflows ∧
      ((∀ dir, d = dir ++ ownFilesMark → ¬ (ofRecords root records).ListsApart dir) →
        (ofRecords root records).directories.get? d = some (.ofFiles d (filesBelow d records))) ∧
      ∀ dir, d = dir ++ ownFilesMark → (ofRecords root records).ListsApart dir →
        (ofRecords root records).directories.get? d = some (.ofFiles d (filesIn dir records)) := by
  have hbelow : gathered? d (filesBelow d records) = some (.ofFiles d (filesBelow d records)) := by
    obtain ⟨f, hf, hdir⟩ := hd
    have hmem : f ∈ filesBelow d records := List.mem_filter.2 ⟨hf, by simpa using hdir⟩
    exact if_neg (List.ne_nil_of_mem hmem)
  refine ⟨neverOverflows_iff.2 hsums, ?_, ?_⟩
  · intro hapart
    rw [← hbelow]
    by_cases hmarked : ∃ dir, d = dir ++ ownFilesMark
    · obtain ⟨dir, rfl⟩ := hmarked
      rw [get?_directories_append_ownFilesMark, if_neg (hapart dir rfl)]
    · exact get?_directories_of_forall_ne root records fun dir _ h => hmarked ⟨dir, h⟩
  · rintro dir rfl hapart
    rw [get?_directories_append_ownFilesMark, if_pos hapart]

/-- Files below a directory that is called as the own files of `a` would be, and below `a`. -/
def belowMarkedDirectory : List FileRecord :=
  [⟨"a (Files)/h", "Rust", ⟨0, 10, 0⟩, 0⟩, ⟨"a/b/g", "Rust", ⟨1, 0, 0⟩, 0⟩]

/-- The directory that is called as the own files of `a` would be keeps its entry, since
no file lies in `a` itself. -/
theorem get?_directories_marked_directory :
    SumsFit belowMarkedDirectory ∧
      (∃ f ∈ belowMarkedDirectory, "a (Files)" ∈ directoriesOf f.path) ∧
      (ofRecords "p" belowMarkedDirectory).directories.get? "a (Files)" =
        some ⟨"a (Files)", 1, ⟨0, 10, 0⟩, 0⟩ := by
  have hsums : SumsFit belowMarkedDirectory := .of_lt (by decide)
  have hmem : ∃ f ∈ belowMarkedDirectory, "a (Files)" ∈ directoriesOf f.path := by
    decide +kernel
  refine ⟨hsums, hmem, ((get?_directories_of_mem hsums hmem).2.1 ?_).trans (by decide +kernel)⟩
  rintro dir hdir ⟨hfiles, -⟩
  have ha : "a" = dir := append_ownFilesMark_inj hdir
  rw [← ha, files_of_sorted _ (by decide +kernel)] at hfiles
  exact hfiles (by decide +kernel)

/-- The entry of the own files of `a` stands in the place of the directory that is called
so, and the ten lines of that directory's file are missing from it. -/
theorem not_all_directories_hold_subtree :
    ¬ ∀ (root : String) (records : List FileRecord) (d : String), SumsFit records →
      (∃ f ∈ records, d ∈ directoriesOf f.path) →
        ∃ g, (ofRecords root records).directories.get? d = some g ∧
          g.files = (filesBelow d records).length ∧
          g.tally = Tally.sum ((filesBelow d records).map (·.tally)) ∧
          g.tokens = ((filesBelow d records).map (·.tokens)).sum := by
  intro h
  obtain ⟨g, hget, -, htally, -⟩ := h "p"
    (belowMarkedDirectory ++ [⟨"a/f", "Rust", ⟨10, 0, 0⟩, 0⟩]) "a (Files)" (.of_lt (by decide))
    (by decide +kernel)
  rw [directories_ofRecords, gathering, files_of_sorted _ (by decide +kernel)] at hget
  have hown : g = ⟨"a (Files)", 1, ⟨10, 0, 0⟩, 0⟩ :=
    Option.some.inj (hget.symm.trans (by decide +kernel))
  rw [hown] at htally
  revert htally
  decide +kernel

end Project

end LineCensus.Report
