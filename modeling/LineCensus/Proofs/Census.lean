import LineCensus.Census
import LineCensus.Proofs.Count.ClassifierTable
import LineCensus.Proofs.Report.Directories
import Mathlib.Logic.Function.Basic

/-!
# What a census records

A file comes to one record or to none, whatever the other files are: the language it belongs
to and its own content decide. So the records stand in the order of the files, their sum is
that of the files, and a file that changes or cannot be read any more changes no record but
its own.
-/
namespace LineCensus

open LineCensus.Count Report

namespace Census

/-- What a file is recorded as, if it is, when its language is looked up in a registry. -/
inductive RecordedAs (c : Census) (r : Registry) (path : Path) : Option FileRecord → Prop
  /-- The lines of its text count with the tokens of its language. A text that the counter of
  tokens rejects has none. -/
  | counted {d : LanguageDefinition} {bytes : List UInt8} (hlanguage : r.resolve? path = some d)
      (hread : c.read path = .ok bytes) :
      RecordedAs c r path (some
        { path := path.relativeTo c.root
          language := d.displayName
          tally := (Classifier.ofDefinition d).count (Text.Utf8.decodeLossy bytes) c.incompleteLine
          tokens := (c.tokens (Text.Utf8.decodeLossy bytes)).toOption.getD 0 })
  | unreadable {d : LanguageDefinition} {cause : IoFailure}
      (hlanguage : r.resolve? path = some d) (hread : c.read path = .error cause) :
      RecordedAs c r path none
  /-- It belongs to no language, and such files are recorded too. -/
  | unsupported (hlanguage : r.resolve? path = none) (hrecorded : c.unsupported = true) :
      RecordedAs c r path (some ⟨path.relativeTo c.root, "(Unsupported)", 0, 0⟩)
  | leftOut (hlanguage : r.resolve? path = none) (hrecorded : c.unsupported = false) :
      RecordedAs c r path none

theorem record?_countText (c : Census) (k : Classifier) (relative : String) (text : List Char) :
    (c.countText k relative text).record? =
      some ⟨relative, k.name, k.count text c.incompleteLine, (c.tokens text).toOption.getD 0⟩ := by
  unfold countText
  cases c.tokens text <;> rfl

theorem recordedAs_countFile {c : Census} {r : Registry} (h : c.table = .ofRegistry r)
    (path : Path) : RecordedAs c r path (c.countFile path).record? := by
  unfold countFile
  rw [h, ClassifierTable.resolve?_ofRegistry]
  cases hlanguage : r.resolve? path with
  | none =>
    dsimp only [Option.map_none]
    by_cases hrecorded : c.unsupported = true
    · rw [if_pos hrecorded]
      exact .unsupported hlanguage hrecorded
    · rw [if_neg hrecorded]
      exact .leftOut hlanguage (Bool.eq_false_iff.2 hrecorded)
  | some d =>
    dsimp only [Option.map_some]
    cases hread : c.read path with
    | error cause => exact .unreadable hlanguage hread
    | ok bytes =>
      dsimp only
      rw [record?_countText]
      exact .counted hlanguage hread

/-- Of what can be read, a file needs only its own content. -/
theorem countFile_update_read (c : Census) {path p : Path} (hp : p ≠ path)
    (answer : Except IoFailure (List UInt8)) :
    ({ c with read := Function.update c.read path answer } : Census).countFile p =
      c.countFile p := by
  unfold countFile
  dsimp only
  rw [Function.update_of_ne hp]
  rfl

theorem sum_tally_filterMap (record? : Path → Option FileRecord) (paths : List Path) :
    Tally.sum ((paths.filterMap record?).map (·.tally)) =
      Tally.sum (paths.map fun p => ((record? p).map (·.tally)).getD 0) := by
  induction paths with
  | nil => rfl
  | cons p paths ih =>
    rw [List.map_cons, Tally.sum_cons, ← ih]
    cases hp : record? p with
    | none => rw [List.filterMap_cons_none hp, Option.map_none, Option.getD_none, Tally.zero_add]
    | some f =>
      rw [List.filterMap_cons_some hp, List.map_cons, Tally.sum_cons, Option.map_some,
        Option.getD_some]

/-- In a census with the languages of a registry every file comes to the record that its
language and its content make it, or to none. The records of a run are those of its files, in
their order; the tally of the project is the sum of those of the files; and another content
of one file, or another failure to read it, leaves all other files with the records they had. -/
theorem records_count_ofRegistry (r : Registry) (root : Path) (tokens : TokenCounter)
    (read : Path → Except IoFailure (List UInt8)) (incompleteLine unsupported : Bool) :
    let c : Census := ⟨root, .ofRegistry r, tokens, read, incompleteLine, unsupported⟩
    ∃ record? : Path → Option FileRecord,
      (∀ path, RecordedAs c r path (record? path)) ∧
      (∀ paths, (c.count paths).records = paths.filterMap record?) ∧
      (∀ name paths, (Project.ofRecords name (c.count paths).records).total.tally =
        Tally.sum (paths.map fun p => ((record? p).map (·.tally)).getD 0)) ∧
      ∀ path answer, ∃ own,
        RecordedAs { c with read := Function.update read path answer } r path own ∧
        ∀ paths,
          (({ c with read := Function.update read path answer } : Census).count paths).records =
            paths.filterMap (Function.update record? path own) := by
  intro c
  refine ⟨fun p => (c.countFile p).record?, recordedAs_countFile rfl, records_count c,
    fun name paths => ?_, fun path answer => ?_⟩
  · rw [Project.total_ofRecords, records_count]
    exact sum_tally_filterMap _ paths
  · refine ⟨(({ c with read := Function.update read path answer } : Census).countFile path).record?,
      recordedAs_countFile rfl path, fun paths => ?_⟩
    rw [records_count]
    refine List.filterMap_congr fun p _ => ?_
    by_cases hp : p = path
    · rw [hp, Function.update_self]
    · rw [Function.update_of_ne hp, countFile_update_read c hp]

end Census

end LineCensus
