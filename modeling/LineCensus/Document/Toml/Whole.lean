import LineCensus.Document.Toml.Reader

/-!
# Whole documents

A reader that asks for single fields never looks at the rest of a document. One that
takes a document in as a whole looks at every value: each number must be one that can be
held, and a table whose first field has the name kept for dates stands for the date that
the field's text tells, whatever else is in it.
-/
namespace LineCensus.Document.Toml

/-- The name of a field that makes its table a date. -/
def dateField : String := "$__toml_private_datetime"

/-- The date of a table that stands for one: the text of its first field. -/
def dateOf? : List (String × Value) → Option Value
  | (_, .string s) :: _ => date? s.toList
  | _ => none

def standsForDate : List (String × Value) → Bool
  | (name, _) :: _ => name == dateField
  | [] => false

mutual

def whole? : Value → Option Value
  | .beyond => none
  | .list items => (wholeItems? items).map .list
  | .table fields =>
    if standsForDate fields then dateOf? fields else (wholeFields? fields).map .table
  | v => some v

def wholeItems? : List Value → Option (List Value)
  | [] => some []
  | v :: vs => (whole? v).bind fun v => (wholeItems? vs).map (v :: ·)

def wholeFields? : List (String × Value) → Option (List (String × Value))
  | [] => some []
  | f :: fs => (wholeField? f).bind fun f => (wholeFields? fs).map (f :: ·)

def wholeField? : String × Value → Option (String × Value)
  | (name, v) => (whole? v).map (name, ·)

end

/-- The fields of a document that is taken in as a whole. -/
def parseFields? (s : String) : Option (List (String × Value)) :=
  (parse? s).bind fun
    | .table fields => wholeFields? fields
    | _ => none

end LineCensus.Document.Toml
