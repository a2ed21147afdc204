import LineCensus.Document.Double
import LineCensus.Language.Fault

/-!
# Document values

What a JSON or a TOML document says, free of its notation. A table keeps its fields in
the order of the document, repeated names included; whoever reads it decides what a
repetition means.
-/
namespace LineCensus.Document

inductive Value
  | null
  | boolean (value : Bool)
  | integer (value : Int)
  | real (text : String)
  /-- A number that neither 64 bits nor a double can hold. -/
  | beyond
  | string (text : String)
  /-- A date or a time, in its one written form. -/
  | date (text : String)
  | list (items : List Value)
  | table (fields : List (String × Value))
deriving Repr, Inhabited

namespace Value

/-- A natural number as a value. -/
def count (n : Nat) : Value := .integer n

/-- How a message calls a value that stands in the wrong place. -/
def misfit : Value → Misfit
  | null => .null
  | boolean value => .boolean value
  | integer value => .integer value
  | real text => .real text
  | beyond => .real "inf"
  | string text => .string text
  | date text => .string text
  | list _ => .list
  | table _ => .table

end Value

/-- Why a text is no document of the sort that was asked for. -/
inductive Fault
  | notJson
  | notToml
  | notATable
  | shape (fault : ShapeFault)
  /-- A fault in the words of whoever found it. -/
  | other (message : String)
deriving DecidableEq, Repr

def Fault.message : Fault → String
  | notJson => "the text is not valid JSON"
  | notToml => "the text is not valid TOML"
  | notATable => "the document is not a table"
  | shape fault => fault.message
  | other message => message

end LineCensus.Document
