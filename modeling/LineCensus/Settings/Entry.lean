import LineCensus.Document.Value
import LineCensus.Language.Definition

/-!
# Language entries of documents

An entry describes a language by its fields, each of which may be left out. A field of
several words may be spelled in two ways, but not in both. An entry may also list its
fields by position.
-/
namespace LineCensus.Settings

open Document (Value)

/-- The fields of an entry, in the order of their positions. -/
inductive Field
  | aliases
  | extensions
  | filenames
  | lineComments
  | blockComments
  | blockStrings
  | lineStrings
deriving DecidableEq, Repr

namespace Field

def all : List Field :=
  [aliases, extensions, filenames, lineComments, blockComments, blockStrings, lineStrings]

def name : Field → String
  | aliases => "aliases"
  | extensions => "extensions"
  | filenames => "filenames"
  | lineComments => "lineComments"
  | blockComments => "blockComments"
  | blockStrings => "blockStrings"
  | lineStrings => "lineStrings"

/-- The spelling with words apart. -/
def spacedName : Field → String
  | aliases => "aliases"
  | extensions => "extensions"
  | filenames => "filenames"
  | lineComments => "line_comments"
  | blockComments => "block_comments"
  | blockStrings => "block_strings"
  | lineStrings => "line_strings"

def ofName? (s : String) : Option Field := all.find? fun f => f.name == s || f.spacedName == s

@[simp] theorem ofName?_name (f : Field) : ofName? f.name = some f := by cases f <;> decide

@[simp] theorem ofName?_spacedName (f : Field) : ofName? f.spacedName = some f := by
  cases f <;> decide

end Field

/-- How strictly entries are read. -/
structure Strictness where
  /-- Items beyond those that are asked for are a fault. -/
  surplus : Bool
  /-- A date may stand where a text is asked for. -/
  datesAreText : Bool
deriving DecidableEq, Repr

namespace Strictness

/-- Override documents. -/
def overrides : Strictness := ⟨true, true⟩

/-- The entries of a configuration file. -/
def configuration : Strictness := ⟨false, false⟩

variable (rules : Strictness)

def text : Value → Except ShapeFault String
  | .string s => .ok s
  | .date s => if rules.datesAreText then .ok s else .error (.invalidType .table)
  | v => .error (.invalidType v.misfit)

def texts : Value → Except ShapeFault (List String)
  | .list items => items.mapM rules.text
  | v => .error (.invalidType v.misfit)

/-- Two texts. What is in the list is looked at before its length. -/
def delimiters : Value → Except ShapeFault Delimiters
  | .list (a :: b :: more) => do
    let start ← rules.text a
    let stop ← rules.text b
    if rules.surplus && !more.isEmpty then .error (.invalidLength (more.length + 2))
    else .ok ⟨start, stop⟩
  | .list [a] => do
    let _ ← rules.text a
    .error (.invalidLength 1)
  | .list [] => .error (.invalidLength 0)
  | v => .error (.invalidType v.misfit)

def pairs : Value → Except ShapeFault (List Delimiters)
  | .list items => items.mapM rules.delimiters
  | v => .error (.invalidType v.misfit)

/-- Takes a field's value into a definition. -/
def setField (d : LanguageDefinition) (v : Value) :
    Field → Except ShapeFault LanguageDefinition
  | .aliases => (rules.texts v).map fun x => { d with aliases := x }
  | .extensions => (rules.texts v).map fun x => { d with extensions := x }
  | .filenames => (rules.texts v).map fun x => { d with filenames := x }
  | .lineComments => (rules.texts v).map fun x => { d with lineComments := x }
  | .blockComments => (rules.pairs v).map fun x => { d with blockComments := x }
  | .blockStrings => (rules.pairs v).map fun x => { d with blockStrings := x }
  | .lineStrings => (rules.pairs v).map fun x => { d with lineStrings := x }

/-- Reads fields by name; `seen` are those that have been read. -/
def readFields (d : LanguageDefinition) (seen : List Field) :
    List (String × Value) → Except ShapeFault LanguageDefinition
  | [] => .ok d
  | (key, v) :: rest =>
    match Field.ofName? key with
    | none => .error (.unknownField key)
    | some f =>
      if f ∈ seen then .error (.duplicateField f.name)
      else match rules.setField d v f with
        | .error fault => .error fault
        | .ok d => readFields d (f :: seen) rest

/-- Reads fields by position. -/
def readItems (total : Nat) (d : LanguageDefinition) :
    List Field → List Value → Except ShapeFault LanguageDefinition
  | _, [] => .ok d
  | [], _ :: _ => if rules.surplus then .error (.invalidLength total) else .ok d
  | f :: fs, v :: vs =>
    match rules.setField d v f with
    | .error fault => .error fault
    | .ok d => readItems total d fs vs

end Strictness

/-- Puts a field among fields that are in the order of their names. -/
def putField (f : String × Value) : List (String × Value) → List (String × Value)
  | [] => [f]
  | g :: gs =>
    if f.1 < g.1 then f :: g :: gs
    else if f.1 = g.1 then f :: gs
    else g :: putField f gs

/-- Fields in the order of their names; of a repeated name the last one counts. -/
def orderFields (fs : List (String × Value)) : List (String × Value) :=
  fs.foldl (fun sorted f => putField f sorted) []

/-- The definition that an entry describes. -/
def readEntry (rules : Strictness) (id : String) : Value → Except ShapeFault LanguageDefinition
  | .table fields => rules.readFields { id } [] (orderFields fields)
  | .list items => rules.readItems items.length { id } Field.all items
  | v => .error (.invalidType v.misfit)

end LineCensus.Settings
