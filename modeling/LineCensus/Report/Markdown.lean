import LineCensus.Report.Statistics
import LineCensus.Report.Table
import LineCensus.Timestamp

/-!
# Markdown reports

A summary of languages and directories, and a report of details that shows every file
under its language as well. Each of the two links to the other.
-/
namespace LineCensus.Report

/-- A Markdown report: how numbers look, its date, and whether it shows every file. -/
structure MarkdownReport where
  numbers : NumberFormat
  date : String
  details : Bool
deriving DecidableEq, Repr

namespace MarkdownReport

def summaryName : String := "results.md"

def detailsName : String := "details.md"

/-- A backslash is an escape in Markdown, so it is written twice. -/
def guardBackslashes (s : String) : String :=
  String.ofList (s.toList.flatMap fun c => if c = '\\' then ['\\', '\\'] else [c])

def tallyColumns : List MarkdownColumn :=
  ["Code", "Comments", "Blanks", "Total", "Tokens"].map (⟨·, true⟩)

def tallyCells (t : Tally) (tokens : Nat) : List Cell :=
  [.number t.code, .number t.comment, .number t.blank, .number t.total, .number tokens]

def groupTable (r : MarkdownReport) (title : String) : MarkdownTable :=
  ⟨r.numbers, ⟨title, false⟩ :: ⟨"Files", true⟩ :: tallyColumns⟩

def fileTable (r : MarkdownReport) : MarkdownTable :=
  ⟨r.numbers, ⟨"Filename", false⟩ :: ⟨"Language", false⟩ :: tallyColumns⟩

def groupRow (t : MarkdownTable) (g : Group) : String :=
  t.line (.text (guardBackslashes g.name) :: .number g.files :: tallyCells g.tally g.tokens)

def fileRow (t : MarkdownTable) (f : FileRecord) : String :=
  t.line (.text (guardBackslashes f.path) :: .text f.language :: tallyCells f.tally f.tokens)

def headLines (r : MarkdownReport) (p : Project) : List String :=
  let n := r.numbers.render
  let t := p.total
  ["# " ++ (if r.details then "Details" else "Summary"), "",
    "Date : " ++ r.date, "",
    "Directory: " ++ guardBackslashes p.root, "",
    "Total Files : " ++ n t.files,
    "Lines of Code : " ++ n t.tally.code,
    "Comments : " ++ n t.tally.comment,
    "Blank Lines : " ++ n t.tally.blank,
    "Total Lines : " ++ n t.total,
    "Total Tokens : " ++ n t.tokens, "",
    (if r.details then "[Summary](./" ++ summaryName ++ ")"
      else "[Details](./" ++ detailsName ++ ")"), ""]

def groupLines (r : MarkdownReport) (heading title : String) (gs : List Group) : List String :=
  let table := r.groupTable title
  heading :: "" :: table.headerLines ++ gs.map (groupRow table)

def languageSection (r : MarkdownReport) (e : String × List FileRecord) : List String :=
  "" :: ("### " ++ e.1) :: "" :: r.fileTable.headerLines ++ e.2.map (fileRow r.fileTable)

def fileLines (r : MarkdownReport) (p : Project) : List String :=
  "" :: "## Files" :: p.filesByLanguage.flatMap r.languageSection

def lines (r : MarkdownReport) (p : Project) : List String :=
  r.headLines p ++ r.groupLines "## Languages" "Language" p.languagesByCode ++ [""] ++
    r.groupLines "## Directories" "Path" p.directories.values ++
    (if r.details then r.fileLines p else [])

def render (r : MarkdownReport) (p : Project) : String := document (r.lines p)

end MarkdownReport

end LineCensus.Report
