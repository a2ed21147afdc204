import LineCensus.Report.Csv
import LineCensus.Report.Json
import LineCensus.Report.Markdown
import LineCensus.Report.Text
import LineCensus.Text.Lowercase

/-!
# Report formats

The four forms of the summary that a run prints.
-/
namespace LineCensus.Report

inductive Format
  | text
  | json
  | csv
  | markdown
deriving DecidableEq, Repr, Inhabited

namespace Format

def name : Format → String
  | text => "text"
  | json => "json"
  | csv => "csv"
  | markdown => "markdown"

/-- The format that goes by a name, in this case of letters. -/
def ofName? (s : String) : Option Format :=
  if s == "text" then some text
  else if s == "json" then some json
  else if s == "csv" then some csv
  else if s == "markdown" || s == "md" then some markdown
  else none

/-- The format that goes by a name, in any case of letters. -/
def ofAnyName? (s : String) : Option Format := ofName? (Text.lowercase s)

/-- What is said of a name that no format goes by. -/
def unknownMessage (s : String) : String := "Unknown output format: " ++ s

/-- The summary of a project, every line of it ended. -/
def render (f : Format) (numbers : NumberFormat) (time : Timestamp) (p : Project) : String :=
  match f with
  | text => TextReport.render ⟨numbers, false⟩ p
  | json => JsonReport.render p ++ "\n"
  | csv => Csv.summary p
  | markdown => MarkdownReport.render ⟨numbers, time.date, false⟩ p

end Format

end LineCensus.Report
