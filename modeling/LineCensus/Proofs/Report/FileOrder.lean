import LineCensus.Proofs.Report.Directories
import LineCensus.Proofs.Sorting

/-!
# The order in which files are counted

A project is made from its files in the order of their paths. So where no two files have
the same path, nothing in it tells in which order they were counted: neither the languages,
which stand in the order of their first files, nor the rankings, in which files and
directories with equal code keep their order.
-/
namespace LineCensus.Report.Project

variable {root : String} {records records' : List FileRecord}

/-- A project depends on its root and on the files in the order of their paths. -/
theorem ofRecords_eq_of_files_eq
    (h : (ofRecords root records).files = (ofRecords root records').files) :
    ofRecords root records = ofRecords root records' := by
  unfold ofRecords at *
  simp only at h ⊢
  rw [h]

/-- Records of files with different paths make the same project, and so the same rankings
and the same report in every form, if and only if they are the same in some order. -/
theorem ofRecords_eq_iff_perm (hpaths : (records.map (·.path)).Nodup) :
    ofRecords root records = ofRecords root records' ↔ records.Perm records' := by
  constructor
  · intro h
    have hfiles : (ofRecords root records).files = (ofRecords root records').files :=
      congrArg Project.files h
    exact (files_perm root records).symm.trans (hfiles ▸ files_perm root records')
  · intro h
    exact ofRecords_eq_of_files_eq (mergeSort_eq_of_perm hpaths h.symm).symm

/-- Two languages with equal code, of which the one counted last comes first by its path. -/
theorem ofRecords_of_languages_with_equal_code :
    (([⟨"b.c", "C", ⟨4, 0, 1⟩, 9⟩, ⟨"a/x.rs", "Rust", ⟨4, 2, 0⟩, 7⟩] : List FileRecord).map
        (·.path)).Nodup ∧
      ofRecords "p" [⟨"b.c", "C", ⟨4, 0, 1⟩, 9⟩, ⟨"a/x.rs", "Rust", ⟨4, 2, 0⟩, 7⟩] =
        ofRecords "p" [⟨"a/x.rs", "Rust", ⟨4, 2, 0⟩, 7⟩, ⟨"b.c", "C", ⟨4, 0, 1⟩, 9⟩] := by
  have hpaths : (([⟨"b.c", "C", ⟨4, 0, 1⟩, 9⟩, ⟨"a/x.rs", "Rust", ⟨4, 2, 0⟩, 7⟩] :
      List FileRecord).map (·.path)).Nodup := by decide
  exact ⟨hpaths, (ofRecords_eq_iff_perm hpaths).2 (.swap _ _ _)⟩

end LineCensus.Report.Project
