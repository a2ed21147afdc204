import LineCensus.Report.Statistics
import LineCensus.Report.Table

/-!
# CSV reports

Rows of fields between commas. Texts stand in quotes, and a quote inside of one is
written twice; numbers stand as they are.
-/
namespace LineCensus.Report.Csv

def quote (s : String) : String :=
  String.ofList ('"' :: s.toList.flatMap (fun c => if c = '"' then ['"', '"'] else [c]) ++ ['"'])

/-- A field: a text, or a number. -/
def field : Cell → String
  | .text s => quote s
  | .number n => toString n

def row (cells : List Cell) : String := ",".intercalate (cells.map field)

def render (rows : List (List Cell)) : String := document (rows.map row)

def tallyCells (t : Tally) (tokens : Nat) : List Cell :=
  [.number t.code, .number t.comment, .number t.blank, .number t.total, .number tokens]

/-- One row per file. -/
def fileRows (p : Project) : List (List Cell) :=
  ["path", "language", "code", "comment", "blank", "total", "tokens"].map .text ::
    p.files.map fun f => .text f.path :: .text f.language :: tallyCells f.tally f.tokens

/-- One row per directory. -/
def directoryRows (p : Project) : List (List Cell) :=
  ["path", "files", "code", "comment", "blank", "total", "tokens"].map .text ::
    p.directories.values.map fun g => .text g.name :: .number g.files :: tallyCells g.tally g.tokens

/-- The last cells of a summary's row. -/
def restCells (t : Tally) : List Cell := [.number t.comment, .number t.blank, .number t.total]

def summaryHeader (p : Project) : List Cell :=
  ("filename" :: "language" :: p.languages.keys ++ ["comment", "blank", "total"]).map .text

/-- A file's code stands in the column of its language. -/
def summaryRow (languages : List String) (f : FileRecord) : List Cell :=
  .text f.path :: .text f.language ::
    languages.map (fun l => .number (if l = f.language then f.tally.code else 0)) ++
    restCells f.tally

def summaryTotal (p : Project) : List Cell :=
  .text "Total" :: .text "-" :: p.languages.values.map (fun g => .number g.tally.code) ++
    restCells p.total.tally

/-- One row per file with a column per language, and a row of totals. -/
def summaryRows (p : Project) : List (List Cell) :=
  summaryHeader p :: p.files.map (summaryRow p.languages.keys) ++ [summaryTotal p]

def files (p : Project) : String := render (fileRows p)

def directories (p : Project) : String := render (directoryRows p)

def summary (p : Project) : String := render (summaryRows p)

end LineCensus.Report.Csv
