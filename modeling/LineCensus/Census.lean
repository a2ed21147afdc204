import LineCensus.Count.ClassifierTable
import LineCensus.Diagnostic
import LineCensus.Report.Statistics
import LineCensus.Text.Utf8
import LineCensus.Tokens

/-!
# The census

Every file that belongs to a language is read and counted, and so becomes a record. A
file that cannot be read is reported and left out; one whose tokens cannot be counted is
reported and has none.
-/
namespace LineCensus

open LineCensus.Count LineCensus.Report

/-- All that counting a file depends on. -/
structure Census where
  root : Path
  table : ClassifierTable
  tokens : TokenCounter
  read : Path → Except IoFailure (List UInt8)
  /-- Whether a last line without a terminator counts. -/
  incompleteLine : Bool
  /-- Whether files of no language are recorded. -/
  unsupported : Bool

namespace Census

/-- What is said of a file whose tokens cannot be counted. -/
def tokenWarning (relative : String) (fault : TokenFault) : Diagnostic :=
  .warning ("Failed to count tokens for " ++ relative) (some fault.message) none

/-- What is said of a file that is left out. -/
def readWarning (path : Path) (cause : IoFailure) : Diagnostic :=
  let failure := Failure.fileRead path cause
  .warning failure.message failure.source? none

/-- What a file adds to the census. -/
structure Entry where
  record? : Option FileRecord
  warnings : List Diagnostic := []
deriving DecidableEq, Repr

/-- Counts the text of a file with the classifier of its language. -/
def countText (c : Census) (k : Classifier) (relative : String) (text : List Char) : Entry :=
  let tally := k.count text c.incompleteLine
  match c.tokens text with
  | .ok tokens => ⟨some ⟨relative, k.name, tally, tokens⟩, []⟩
  | .error fault => ⟨some ⟨relative, k.name, tally, 0⟩, [tokenWarning relative fault]⟩

def countFile (c : Census) (path : Path) : Entry :=
  let relative := path.relativeTo c.root
  match c.table.resolve? path with
  | none => ⟨if c.unsupported then some (.unsupported relative) else none, []⟩
  | some k =>
    match c.read path with
    | .error cause => ⟨none, [readWarning path cause]⟩
    | .ok bytes => c.countText k relative (Text.Utf8.decodeLossy bytes)

/-- The records of files, and what there is to say about files; both in the order of the
files. -/
structure Result where
  records : List FileRecord
  warnings : List Diagnostic
deriving DecidableEq, Repr

def Result.ofEntries (es : List Entry) : Result :=
  ⟨es.filterMap (·.record?), es.flatMap (·.warnings)⟩

/-- Counts files one after the other. -/
def count (c : Census) (paths : List Path) : Result := .ofEntries (paths.map c.countFile)

@[simp] theorem records_count (c : Census) (paths : List Path) :
    (c.count paths).records = paths.filterMap fun p => (c.countFile p).record? := by
  simp only [count, Result.ofEntries, List.filterMap_map]
  rfl

@[simp] theorem warnings_count (c : Census) (paths : List Path) :
    (c.count paths).warnings = paths.flatMap fun p => (c.countFile p).warnings := by
  simp [count, Result.ofEntries, List.flatMap_map]

end Census

/-- What is said of a language whose literals stay in place. -/
def literalWarning (language : String) (fault : Stripper.Fault) : Diagnostic :=
  .warning ("String literals are not recognised for language '" ++ language ++ "'")
    (some fault.message) (some "give every lineStrings pair a non-empty start token")

def literalWarnings (t : ClassifierTable) : List Diagnostic :=
  t.literalFaults.map fun e => literalWarning e.1 e.2

end LineCensus
