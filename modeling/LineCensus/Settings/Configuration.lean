import LineCensus.Document.Toml.Reader
import LineCensus.OrderedMap
import LineCensus.Report.Format
import LineCensus.Settings.Entry

/-!
# Configuration files

A configuration file chooses what is scanned and how results are shown, and may add
languages. What it leaves out has a default; what it has too much is a fault.
-/
namespace LineCensus.Settings

open Document (Value)

structure ScanOptions where
  gitignore : Bool := true
  /-- Without patterns everything is included. -/
  includes : List String := []
  excludes : List String := []
deriving DecidableEq, Repr, Inhabited

structure OutputOptions where
  format : Report.Format := .text
  commas : Bool := true
  /-- Whether a last line counts that no terminator ends. -/
  incompleteLine : Bool := false
  /-- Whether files count that belong to no language. -/
  unsupported : Bool := false
deriving DecidableEq, Repr, Inhabited

structure Configuration where
  scanner : ScanOptions := {}
  output : OutputOptions := {}
  languages : OrderedMap LanguageDefinition := .empty

/-- The fields of a table, or the items of a list under the names of their positions. -/
def namedFields (names : List String) : Value → Except ShapeFault (List (String × Value))
  | .table fields => .ok fields
  | .list items => .ok (names.zip items)
  | v => .error (.invalidType v.misfit)

def readFlag : Value → Except ShapeFault Bool
  | .boolean b => .ok b
  | v => .error (.invalidType v.misfit)

/-- A format by its name, which may also be the only field of a table, over nothing. -/
def readFormat : Value → Except ShapeFault Report.Format
  | .string s => named s
  | .table [(s, .table [])] => named s
  | .table [(s, .list [])] => named s
  | v => .error (.invalidType v.misfit)
where
  /-- The format of exactly this name. -/
  named (s : String) : Except ShapeFault Report.Format :=
    match Report.Format.ofName? s with
    | some f => .ok f
    | none => .error (.unknownField s)

namespace ScanOptions

def names : List String := ["gitignore", "include", "exclude"]

def set (o : ScanOptions) (field : String × Value) : Except ShapeFault ScanOptions :=
  let texts := Strictness.texts .configuration field.2
  if field.1 == "gitignore" then (readFlag field.2).map fun b => { o with gitignore := b }
  else if field.1 == "include" then texts.map fun ts => { o with includes := ts }
  else if field.1 == "exclude" then texts.map fun ts => { o with excludes := ts }
  else .error (.unknownField field.1)

def read (v : Value) : Except ShapeFault ScanOptions := do
  (← namedFields names v).foldlM set {}

end ScanOptions

namespace OutputOptions

def names : List String :=
  ["format", "print_commas", "include_incomplete_line", "include_unsupported"]

def set (o : OutputOptions) (field : String × Value) : Except ShapeFault OutputOptions :=
  let flag := readFlag field.2
  if field.1 == "format" then (readFormat field.2).map fun f => { o with format := f }
  else if field.1 == "print_commas" then flag.map fun b => { o with commas := b }
  else if field.1 == "include_incomplete_line" then
    flag.map fun b => { o with incompleteLine := b }
  else if field.1 == "include_unsupported" then flag.map fun b => { o with unsupported := b }
  else .error (.unknownField field.1)

def read (v : Value) : Except ShapeFault OutputOptions := do
  (← namedFields names v).foldlM set {}

end OutputOptions

/-- The entries of a table of languages. -/
def readLanguages : Value → Except ShapeFault (OrderedMap LanguageDefinition)
  | .table fields => do
    let entries ← fields.mapM fun f => (readEntry .configuration f.1 f.2).map fun d => (f.1, d)
    return .ofList entries
  | v => .error (.invalidType v.misfit)

namespace Configuration

def set (c : Configuration) (field : String × Value) : Except ShapeFault Configuration :=
  if field.1 == "scanner" then (ScanOptions.read field.2).map fun o => { c with scanner := o }
  else if field.1 == "output" then (OutputOptions.read field.2).map fun o => { c with output := o }
  else if field.1 == "languages" then
    (readLanguages field.2).map fun m => { c with languages := m }
  else .error (.unknownField field.1)

/-- The configuration that a text describes. -/
def parse (content : String) : Except Document.Fault Configuration :=
  match Document.Toml.parse? content with
  | some (.table fields) =>
    match fields.foldlM set {} with
    | .ok c => .ok c
    | .error fault => .error (.shape fault)
  | _ => .error .notToml

end Configuration

end LineCensus.Settings
