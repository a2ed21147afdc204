import LineCensus.Document.Json.Reader
import LineCensus.Document.Toml.Whole
import LineCensus.Failure
import LineCensus.Language.Registry
import LineCensus.Settings.Entry

/-!
# Override files

A file of language entries under their ids, in one of two notations that its name tells.
One bad entry makes the whole file bad.
-/
namespace LineCensus.Settings

open Document (Value)

inductive Notation
  | json
  | toml
deriving DecidableEq, Repr

namespace Notation

def name : Notation → String
  | json => "json"
  | toml => "toml"

/-- The suffix `.toml`, in any case, tells one notation; all else is the other. -/
def ofPath (path : Path) : Notation :=
  match path.extension? with
  | some ext => if Text.asciiLowercase ext == "toml" then toml else json
  | none => json

/-- The fields of a document that is a table. -/
def readTable : Notation → String → Except Document.Fault (List (String × Value))
  | json, content =>
    match Document.Json.parse? content with
    | none => .error .notJson
    | some (.table fields) => .ok fields
    | some _ => .error .notATable
  | toml, content =>
    match Document.Toml.parseFields? content with
    | some fields => .ok fields
    | none => .error .notToml

end Notation

/-- Reads the entries one after the other, up to the first that is bad. -/
def readEntries :
    List (String × Value) → Except LanguageRefusal (List (String × LanguageDefinition))
  | [] => .ok []
  | (id, v) :: rest =>
    match readEntry .overrides id v with
    | .error fault => .error ⟨id, .shape fault⟩
    | .ok d => (readEntries rest).map ((id, d) :: ·)

/-- The overrides that a document declares. A repeated id keeps its first place and
takes its last value. -/
def readOverrides (path : Path) (content : String) : Except Failure Overrides :=
  match (Notation.ofPath path).readTable content with
  | .error fault => .error (.parse path fault)
  | .ok fields =>
    match readEntries (OrderedMap.ofList fields).entries with
    | .error refusal => .error (.language path.text refusal)
    | .ok entries => .ok (.ofList entries)

end LineCensus.Settings
