import LineCensus.Disk
import LineCensus.Report.Format

/-!
# The results folder

All reports of a project as files of one directory, with a read-me file that lists them.
-/
namespace LineCensus.Report

/-- A file of the folder, with a line for the read-me file. -/
structure ResultFile where
  name : String
  description : String
  content : String
deriving DecidableEq, Repr

/-- Which reports the folder holds besides those that are always there. -/
structure FolderOptions where
  text : Bool := true
  markdown : Bool := true
deriving DecidableEq, Repr

structure ResultsFolder where
  project : Project
  numbers : NumberFormat
  options : FolderOptions
  time : Timestamp

namespace ResultsFolder

def readmeName : String := "README.md"

def json (f : ResultsFolder) : ResultFile :=
  ⟨"results.json", "Machine-readable totals, languages, directories and files",
    JsonReport.render f.project⟩

def text (f : ResultsFolder) : ResultFile :=
  ⟨"results.txt", "Plain text tables of every language, directory and file",
    TextReport.render ⟨f.numbers, true⟩ f.project⟩

def files (f : ResultsFolder) : ResultFile :=
  ⟨"files.csv", "One row per file", Csv.files f.project⟩

def directories (f : ResultsFolder) : ResultFile :=
  ⟨"directories.csv", "One row per directory, recursive", Csv.directories f.project⟩

def summary (f : ResultsFolder) : ResultFile :=
  ⟨MarkdownReport.summaryName, "Markdown summary of languages and directories",
    MarkdownReport.render ⟨f.numbers, f.time.date, false⟩ f.project⟩

def details (f : ResultsFolder) : ResultFile :=
  ⟨MarkdownReport.detailsName, "Markdown details with every file grouped by language",
    MarkdownReport.render ⟨f.numbers, f.time.date, true⟩ f.project⟩

/-- The reports in the order in which they are written. -/
def reports (f : ResultsFolder) : List ResultFile :=
  [f.json] ++ (if f.options.text then [f.text] else []) ++ [f.files, f.directories] ++
    (if f.options.markdown then [f.summary, f.details] else [])

def readme (f : ResultsFolder) : String :=
  document <|
    ["# Line Count Results", "",
      "Generated on: " ++ f.time.text, "",
      "Target Directory: " ++ f.project.root, "",
      "This directory contains the following files:", ""] ++
    f.reports.map fun r => "- `" ++ r.name ++ "`: " ++ r.description

/-- Names and contents of all files, the read-me file at the end. -/
def contents (f : ResultsFolder) : List (String × String) :=
  f.reports.map (fun r => (r.name, r.content)) ++ [(readmeName, f.readme)]

end ResultsFolder

/-- What becomes of a disk when files are written to it: what was written before a
failure stays there. -/
structure Written where
  disk : Disk
  result : Except IoFailure (List Path)

namespace Written

def failed (disk : Disk) (cause : IoFailure) : Written := ⟨disk, .error cause⟩

/-- Puts a path in front of those written after it. -/
def after (p : Path) (w : Written) : Written := { w with result := w.result.map (p :: ·) }

end Written

/-- Writes files into a directory one after the other, up to the first failure. -/
def writeAll (d : Disk) (dir : Path) : List (String × String) → Written
  | [] => ⟨d, .ok []⟩
  | (name, content) :: rest =>
    let p := dir.join ⟨name⟩
    match d.write p (Text.Utf8.encode content.toList) with
    | .error cause => .failed d cause
    | .ok d => .after p (writeAll d dir rest)

/-- Writes the folder into a directory, which is made if it is not there. -/
def ResultsFolder.write (f : ResultsFolder) (d : Disk) (dir : Path) : Written :=
  match d.makeDirectories dir with
  | .error cause => .failed d cause
  | .ok d => writeAll d dir f.contents

end LineCensus.Report
