import LineCensus.Report.Statistics
import LineCensus.Report.Table

/-!
# The text report

Boxed tables of languages, directories and files. The summary shows the largest
directories and files and shortens long names; the full report shows everything.
-/
namespace LineCensus.Report

namespace TextReport

def maxPathWidth : Nat := 60

def maxLanguageWidth : Nat := 15

/-- How many directories and files a summary shows. -/
def topCount : Nat := 10

def numberWidth : Nat := 10

/-- The cells of numbers that every row ends in. -/
def tallyCells (t : Tally) (tokens : Nat) : List Cell :=
  [.number t.code, .number t.comment, .number t.blank, .number t.total, .number tokens]

def tallyColumns : List Column :=
  [⟨"code", numberWidth⟩, ⟨"comment", numberWidth⟩, ⟨"blank", numberWidth⟩,
    ⟨"total", numberWidth⟩, ⟨"tokens", numberWidth⟩]

end TextReport

/-- A text report: how numbers look, and whether everything is shown. -/
structure TextReport where
  numbers : NumberFormat
  full : Bool
deriving DecidableEq, Repr

namespace TextReport

/-- A name as it is shown. -/
def fit (r : TextReport) (s : String) (max : Nat) : String :=
  if r.full then s else truncateMiddle s max

/-- The width of a column of names. -/
def width (r : TextReport) (longest max : Nat) : Nat := if r.full then longest else min longest max

def longestOf (texts : List String) : Nat := texts.foldl (fun n s => max n s.length) 0

def pathWidth (r : TextReport) (p : Project) : Nat :=
  r.width (longestOf (p.files.map (·.path) ++ p.directories.keys)) maxPathWidth

def languageWidth (r : TextReport) (p : Project) : Nat :=
  r.width (longestOf p.languages.keys) maxLanguageWidth

def groupTable (r : TextReport) (title : String) (width : Nat) : TextTable :=
  ⟨r.numbers, ⟨title, width⟩ :: ⟨"files", numberWidth⟩ :: tallyColumns⟩

def fileTable (r : TextReport) (p : Project) : TextTable :=
  ⟨r.numbers,
    ⟨"filename", r.pathWidth p⟩ :: ⟨"language", r.languageWidth p⟩ :: tallyColumns⟩

def groupRow (r : TextReport) (t : TextTable) (max : Nat) (g : Group) : String :=
  t.line (.text (r.fit g.name max) :: .number g.files :: tallyCells g.tally g.tokens)

def fileRow (r : TextReport) (t : TextTable) (f : FileRecord) : String :=
  t.line (.text (r.fit f.path maxPathWidth) :: .text (r.fit f.language maxLanguageWidth) ::
    tallyCells f.tally f.tokens)

def totalRow (t : TextTable) (g : Group) : String :=
  t.line (.text "Total" :: .text "" :: tallyCells g.tally g.tokens)

def headLines (r : TextReport) (p : Project) : List String :=
  let n := r.numbers.render
  let t := p.total
  ["Directory : " ++ p.root,
    "Total : " ++ n t.files ++ " files,  " ++ n t.tally.code ++ " codes, " ++
      n t.tally.comment ++ " comments, " ++ n t.tally.blank ++ " blanks, all " ++
      n t.total ++ " lines, " ++ n t.tokens ++ " tokens",
    ""]

def languageLines (r : TextReport) (p : Project) : List String :=
  let table := r.groupTable "language" (r.languageWidth p)
  "Languages" :: table.headerLines ++
    p.languagesByCode.map (r.groupRow table maxLanguageWidth) ++ [table.separator]

/-- The title of a list that is cut short in a summary. -/
def title (r : TextReport) (what : String) : String :=
  if r.full then what else "Top " ++ toString topCount ++ " " ++ what ++ " (by code count)"

def directoryLines (r : TextReport) (p : Project) : List String :=
  let table := r.groupTable "path" (r.pathWidth p)
  let shown := if r.full then p.directories.values else p.topDirectories topCount
  r.title "Directories" :: table.headerLines ++
    shown.map (r.groupRow table maxPathWidth) ++ [table.separator]

def fileLines (r : TextReport) (p : Project) : List String :=
  let table := r.fileTable p
  let shown := if r.full then p.files else p.topFiles topCount
  r.title "Files" :: table.headerLines ++ shown.map (r.fileRow table) ++
    [totalRow table p.total, table.separator]

def lines (r : TextReport) (p : Project) : List String :=
  r.headLines p ++ r.languageLines p ++ [""] ++ r.directoryLines p ++ [""] ++ r.fileLines p

def render (r : TextReport) (p : Project) : String := document (r.lines p)

end TextReport

end LineCensus.Report
