import LineCensus.Text.Quoted

/-!
# Faults of a language entry

Why an entry that describes a language is refused: its document has another shape than
an entry has, or the language it describes could never be found or scanned.
-/
namespace LineCensus

/-- A value that stands where another sort of value belongs. -/
inductive Misfit
  | null
  | table
  | list
  | boolean (value : Bool)
  | integer (value : Int)
  | real (text : String)
  | string (text : String)
deriving DecidableEq, Repr

def Misfit.describe : Misfit → String
  | null => "null"
  | table => "map"
  | list => "sequence"
  | boolean value => "boolean `" ++ toString value ++ "`"
  | integer value => "integer `" ++ toString value ++ "`"
  | real text => "floating point `" ++ text ++ "`"
  | string text => "string " ++ Text.quoted text

/-- Why a document's value is no entry. -/
inductive ShapeFault
  | unknownField (name : String)
  /-- One field under both of its spellings. -/
  | duplicateField (name : String)
  | invalidLength (found : Nat)
  | invalidType (found : Misfit)
deriving DecidableEq, Repr

/-- What stands before the first place where a mark begins. -/
def before (mark : List Char) : List Char → List Char
  | [] => []
  | c :: s => if mark.isPrefixOf (c :: s) then [] else c :: before mark s

/-- What a message says before it comes to what was expected. -/
def withoutExpected (s : String) : String :=
  String.ofList (before [',', ' ', 'e', 'x', 'p', 'e', 'c', 't', 'e', 'd'] s.toList)

/-- What is wrong with a value. -/
def ShapeFault.complaint : ShapeFault → String
  | unknownField name => "unknown field `" ++ name ++ "`"
  | duplicateField name => "duplicate field `" ++ name ++ "`"
  | invalidLength found => "invalid length " ++ toString found
  | invalidType found => "invalid type: " ++ found.describe

/-- The complaint, up to where it first speaks of what was expected. -/
def ShapeFault.message (f : ShapeFault) : String := withoutExpected f.complaint

/-- Why a language cannot be taken up. -/
inductive LanguageFault
  | blankId
  /-- No file could ever belong to the language. -/
  | unnamed
  | badExtension (text : String)
  | emptyLineComment
  | emptyBlockStart
  | shape (fault : ShapeFault)
  /-- A fault in the words of whoever found it. -/
  | other (message : String)
deriving DecidableEq, Repr

def LanguageFault.message : LanguageFault → String
  | blankId => "language id must not be empty"
  | unnamed => "declares neither \"extensions\" nor \"filenames\""
  | badExtension text => "extension \"" ++ text ++ "\" must start with '.' and name a suffix"
  | emptyLineComment => "empty line comment prefix"
  | emptyBlockStart => "block delimiter with an empty start token"
  | shape fault => fault.message
  | other message => message

/-- A fault of the entry with this id. -/
structure LanguageRefusal where
  id : String
  fault : LanguageFault
deriving DecidableEq, Repr

end LineCensus
