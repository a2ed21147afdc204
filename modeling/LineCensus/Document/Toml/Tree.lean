import LineCensus.Document.Value

/-!
# TOML tables under construction

A table may be spelled out over several places of a document. Each table remembers how
it came about, since that decides who may still add to it: a table under its own header
is declared once, a dotted key adds only to tables that dotted keys have made, and what
is written as a value is complete.
-/
namespace LineCensus.Document.Toml

/-- How a table came about. -/
inductive Origin
  /-- By the header of a table inside it. -/
  | implied
  /-- By a dotted key. -/
  | dotted
  /-- By its own header. -/
  | declared
deriving DecidableEq, Repr

inductive Item
  | value (value : Value)
  | table (origin : Origin) (fields : List (String × Item))
  /-- Tables that share a header; the last one is being written. -/
  | tables (elements : List (List (String × Item)))
deriving Repr, Inhabited

abbrev Fields := List (String × Item)

namespace Fields

/-- Puts an item under a name, in place of the one that is there. -/
def set (fs : Fields) (key : String) (item : Item) : Fields :=
  if fs.any (·.1 == key) then fs.map fun f => if f.1 == key then (key, item) else f
  else fs ++ [(key, item)]

/-- Changes the last of several tables. -/
def updateLast (f : Fields → Option Fields) : List Fields → Option (List Fields)
  | [] => none
  | [fs] => (f fs).map ([·])
  | fs :: rest => (updateLast f rest).map (fs :: ·)

/-- Puts a value under a dotted key. -/
def putDotted (value : Value) : List String → Fields → Option Fields
  | [], _ => none
  | [key], fs => if (fs.lookup key).isSome then none else some (fs.set key (.value value))
  | key :: next :: path, fs =>
    match fs.lookup key with
    | none =>
      (putDotted value (next :: path) []).map fun sub => fs.set key (.table .dotted sub)
    | some (.table origin sub) =>
      if origin = .declared ∨ (path = [] ∧ origin ≠ .dotted) then none
      else (putDotted value (next :: path) sub).map fun sub => fs.set key (.table origin sub)
    | some (.tables elements) =>
      if path = [] then none
      else (updateLast (putDotted value (next :: path)) elements).map fun elements =>
        fs.set key (.tables elements)
    | some (.value _) => none

/-- Applies a change to the table at the end of a path of headers. -/
def change (last : String → Fields → Option Fields) : List String → Fields → Option Fields
  | [], _ => none
  | [key], fs => last key fs
  | key :: path, fs =>
    match fs.lookup key with
    | none => (change last path []).map fun sub => fs.set key (.table .implied sub)
    | some (.table origin sub) =>
      (change last path sub).map fun sub => fs.set key (.table origin sub)
    | some (.tables elements) =>
      (updateLast (change last path) elements).map fun elements =>
        fs.set key (.tables elements)
    | some (.value _) => none

/-- Declares a table, which only a table inside it may have brought about before. -/
def declareTable (path : List String) (fs : Fields) : Option Fields :=
  change (fun key fs =>
    match fs.lookup key with
    | none => some (fs.set key (.table .declared []))
    | some (.table .implied sub) => some (fs.set key (.table .declared sub))
    | some _ => none) path fs

/-- Adds a table to those that share a header. -/
def declareElement (path : List String) (fs : Fields) : Option Fields :=
  change (fun key fs =>
    match fs.lookup key with
    | none => some (fs.set key (.tables [[]]))
    | some (.tables elements) => some (fs.set key (.tables (elements ++ [[]])))
    | some _ => none) path fs

/-- Puts a value under a dotted key of the table that a header has declared. -/
def putUnder (header : List String) (path : List String) (value : Value) (fs : Fields) :
    Option Fields :=
  if header.isEmpty then putDotted value path fs
  else change (fun key fs =>
    match fs.lookup key with
    | some (.table origin sub) =>
      (putDotted value path sub).map fun sub => fs.set key (.table origin sub)
    | some (.tables elements) =>
      (updateLast (putDotted value path) elements).map fun elements =>
        fs.set key (.tables elements)
    | _ => none) header fs

end Fields

/-- The fields of a table in the order of their names. -/
def sortFields (fs : List (String × Value)) : List (String × Value) :=
  fs.mergeSort fun a b => decide (a.1 ≤ b.1)

mutual

def Item.toValue : Item → Value
  | .value v => v
  | .table _ fs => .table (sortFields (fieldValues fs))
  | .tables elements => .list (elementValues elements)

def fieldValues : List (String × Item) → List (String × Value)
  | [] => []
  | f :: fs => fieldValue f :: fieldValues fs

def fieldValue : String × Item → String × Value
  | (k, item) => (k, item.toValue)

def elementValues : List (List (String × Item)) → List Value
  | [] => []
  | fs :: rest => .table (sortFields (fieldValues fs)) :: elementValues rest

end

end LineCensus.Document.Toml
