import LineCensus.Language.Registry
import LineCensus.Report.Table

/-!
# The list of languages

A boxed table of all definitions, with every column as wide as its longest cell.
-/
namespace LineCensus.Report

structure LanguageRow where
  id : String
  name : String
  extensions : String
  filenames : String

def LanguageRow.ofDefinition (d : LanguageDefinition) : LanguageRow :=
  ⟨d.id, d.displayName, " ".intercalate d.extensions, " ".intercalate d.filenames⟩

def LanguageRow.cells (r : LanguageRow) : List Cell :=
  [.text r.id, .text r.name, .text r.extensions, .text r.filenames]

def longest (texts : List String) : Nat := texts.foldl (fun n s => max n s.length) 0

def languageTable (rows : List LanguageRow) : TextTable :=
  { numbers := {}
    columns := [
      ⟨"id", longest (rows.map (·.id))⟩,
      ⟨"name", longest (rows.map (·.name))⟩,
      ⟨"extensions", longest (rows.map (·.extensions))⟩,
      ⟨"filenames", longest (rows.map (·.filenames))⟩] }

def languageList (r : Registry) : String :=
  let rows := r.toList.map LanguageRow.ofDefinition
  let table := languageTable rows
  document (table.headerLines ++ rows.map (fun row => table.line row.cells) ++
    [table.separator, toString r.size ++ " languages"])

end LineCensus.Report
