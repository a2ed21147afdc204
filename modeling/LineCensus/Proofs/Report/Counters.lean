import LineCensus.Proofs.OrderedMap
import LineCensus.Proofs.Report.Gathering
import Mathlib.Algebra.Order.BigOperators.Group.List
import Mathlib.Algebra.Order.Group.Nat

/-!
# Counters in words

The sums of a project are natural numbers here, and a machine counts them in words. A sum over
some of the files is no greater than the one over all of them, so the words hold the same
numbers at every moment, as long as one word has room for the number of all files, one for
their lines and one for their tokens. Without that room the words of the total overflow.
-/
namespace LineCensus.Report

/-- The number of lines in some files. -/
def linesIn (fs : List FileRecord) : ℕ := (Tally.sum (fs.map (·.tally))).total

theorem linesIn_perm {fs gs : List FileRecord} (h : fs.Perm gs) : linesIn fs = linesIn gs :=
  congrArg Tally.total (Tally.sum_perm (h.map _))

theorem linesIn_eq_sum (fs : List FileRecord) : linesIn fs = (fs.map (·.tally.total)).sum :=
  Group.count_tally_ofFiles Tally.total_zero Tally.total_add "" fs

/-- What is counted in some files fits into words: their number, their lines and their tokens. -/
structure SumsFit (fs : List FileRecord) : Prop where
  files : fs.length < USize.size
  lines : linesIn fs < USize.size
  tokens : (fs.map (·.tokens)).sum < USize.size

/-- Numbers of at most 32 bits fit into words of every machine. -/
theorem SumsFit.of_lt {fs : List FileRecord}
    (h : fs.length < UInt32.size ∧ linesIn fs < UInt32.size ∧
      (fs.map (·.tokens)).sum < UInt32.size) : SumsFit fs where
  files := Nat.lt_of_lt_of_le h.1 USize.le_size
  lines := Nat.lt_of_lt_of_le h.2.1 USize.le_size
  tokens := Nat.lt_of_lt_of_le h.2.2 USize.le_size

/-- What fits for some files fits for any of them. -/
theorem SumsFit.of_subperm {fs gs : List FileRecord} (h : SumsFit gs) (hsub : fs.Subperm gs) :
    SumsFit fs := by
  obtain ⟨us, hperm, hsublist⟩ := hsub
  have hsum : ∀ count : FileRecord → ℕ, (fs.map count).sum ≤ (gs.map count).sum := by
    intro count
    rw [← (hperm.map count).sum_eq]
    exact (hsublist.map count).sum_le_sum fun n _ => Nat.zero_le n
  refine ⟨?_, ?_, Nat.lt_of_le_of_lt (hsum _) h.tokens⟩
  · exact Nat.lt_of_le_of_lt (hperm.length_eq ▸ hsublist.length_le) h.files
  · have hlines := h.lines
    rw [linesIn_eq_sum] at hlines ⊢
    exact Nat.lt_of_le_of_lt (hsum _) hlines

theorem SumsFit.filter {fs : List FileRecord} (h : SumsFit fs) (p : FileRecord → Bool) :
    SumsFit (fs.filter p) :=
  h.of_subperm List.filter_sublist.subperm

namespace Group

/-- All that is counted in a group, the total of its lines included. -/
def counters (g : Group) : List ℕ :=
  [g.files, g.tally.code, g.tally.comment, g.tally.blank, g.total, g.tokens]

/-- The counters of a group fit into words. -/
def Fits (g : Group) : Prop := ∀ n ∈ g.counters, n < USize.size

theorem fits_ofFiles_iff {name : String} {fs : List FileRecord} :
    (ofFiles name fs).Fits ↔ SumsFit fs := by
  have htotal : (ofFiles name fs).total =
      (ofFiles name fs).tally.code + (ofFiles name fs).tally.comment +
        (ofFiles name fs).tally.blank := rfl
  constructor
  · intro h
    exact ⟨h fs.length (by simp [counters, ofFiles]),
      h (ofFiles name fs).total (by simp [counters]),
      h (fs.map (·.tokens)).sum (by simp [counters, ofFiles])⟩
  · intro h n hn
    have hlines : (ofFiles name fs).total < USize.size := h.lines
    simp only [counters, List.mem_cons, List.not_mem_nil, or_false] at hn
    rcases hn with rfl | rfl | rfl | rfl | rfl | rfl
    · exact h.files
    · omega
    · omega
    · omega
    · exact hlines
    · exact h.tokens

end Group

namespace Gathering

theorem fits_of_gathered? {name : String} {fs : List FileRecord} {g : Group} (h : SumsFit fs)
    (hg : gathered? name fs = some g) : g.Fits := by
  unfold gathered? at hg
  split at hg
  · cases hg
  · rw [← Option.some.inj hg]
    exact Group.fits_ofFiles_iff.2 h

/-- All counters of a gathering fit into words. -/
structure Fits (g : Gathering) : Prop where
  total : g.total.Fits
  languages : ∀ e ∈ g.languages.entries, e.2.Fits
  directories : ∀ e ∈ g.directories.entries, e.2.Fits
  own : ∀ e ∈ g.own.entries, e.2.Fits

/-- Of some files all counters fit if those of the total do. -/
theorem fits_foldl_addFile_iff {fs : List FileRecord} :
    (fs.foldl addFile {}).Fits ↔ SumsFit fs := by
  constructor
  · intro h
    have htotal := h.total
    rwa [total_foldl_addFile, Group.fits_ofFiles_iff] at htotal
  · intro h
    refine ⟨?_, fun e he => ?_, fun e he => ?_, fun e he => ?_⟩
    · rw [total_foldl_addFile]
      exact Group.fits_ofFiles_iff.2 h
    · have hget := OrderedMap.mem_entries_iff.1 he
      rw [get?_languages_foldl] at hget
      exact fits_of_gathered? (h.filter _) hget
    · have hget := SortedMap.mem_entries_iff.1 he
      rw [get?_directories_foldl] at hget
      exact fits_of_gathered? (h.filter _) hget
    · have hget := SortedMap.mem_entries_iff.1 he
      rw [get?_own_foldl] at hget
      exact fits_of_gathered? (h.filter _) hget

end Gathering

namespace Project

/-- However many of the files have been gathered, all counters fit into words. -/
def NeverOverflows (p : Project) : Prop :=
  ∀ front, front <+: p.files → (front.foldl Gathering.addFile {}).Fits

/-- No counter overflows exactly if the sums over all files fit. -/
theorem neverOverflows_iff {root : String} {records : List FileRecord} :
    (ofRecords root records).NeverOverflows ↔ SumsFit records := by
  have hperm := files_perm root records
  constructor
  · intro h
    have hall := Gathering.fits_foldl_addFile_iff.1 (h _ (List.prefix_refl _))
    exact hall.of_subperm hperm.symm.subperm
  · intro h front hfront
    have hfiles : SumsFit (ofRecords root records).files := h.of_subperm hperm.subperm
    exact Gathering.fits_foldl_addFile_iff.2 (hfiles.of_subperm hfront.sublist.subperm)

end Project

end LineCensus.Report
