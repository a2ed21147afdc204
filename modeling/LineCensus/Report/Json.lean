import LineCensus.Document.Json.Printer
import LineCensus.Report.Statistics

/-!
# The JSON report

The whole of a project's statistics as one document.
-/
namespace LineCensus.Report.JsonReport

open Document (Value)

def tallyFields (t : Tally) (tokens : Nat) : List (String × Value) :=
  [("code", .count t.code), ("comment", .count t.comment), ("blank", .count t.blank),
    ("total", .count t.total), ("tokens", .count tokens)]

def groupValue (g : Group) : Value :=
  .table (("files", .count g.files) :: tallyFields g.tally g.tokens)

def fileValue (f : FileRecord) : Value :=
  .table (("path", .string f.path) :: ("language", .string f.language) ::
    tallyFields f.tally f.tokens)

def groupsValue (groups : List (String × Group)) : Value :=
  .table (groups.map fun e => (e.1, groupValue e.2))

def value (p : Project) : Value :=
  .table [("directory", .string p.root), ("total", groupValue p.total),
    ("languages", groupsValue p.languages.entries),
    ("directories", groupsValue p.directories.entries),
    ("files", .list (p.files.map fileValue))]

/-- The document, without an end to its last line. -/
def render (p : Project) : String := Document.Json.pretty (value p)

end LineCensus.Report.JsonReport
