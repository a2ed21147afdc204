import LineCensus.Document.Toml.Scalar
import LineCensus.Document.Toml.Tree

/-!
# Reading TOML

A document is a run of statements, one to a line: a header that names the table to
write into, or a key with its value. Values may span lines inside brackets.
-/
namespace LineCensus.Document.Toml

/-- How deep lists and tables may be nested inside a value. -/
def maxDepth : Nat := 80

/-- The text after a comment, which ends before the line does. -/
def afterComment (s : List Char) : List Char := s.dropWhile isText

/-- The text at the end of a line, after blanks and a comment. -/
def lineEnd? (s : List Char) : Option (List Char) :=
  let s := s.dropWhile isSpace
  let s := match s with
    | '#' :: t => afterComment t
    | t => t
  match s with
  | [] => some []
  | s => newline? s

/-- Skips blanks, lines and comments, as often as the first argument says. -/
def skipVoidUpTo? : Nat → List Char → Option (List Char)
  | 0, _ => none
  | fuel + 1, s =>
    match s.dropWhile isSpace with
    | [] => some []
    | '#' :: t =>
      match afterComment t with
      | [] => some []
      | u => (newline? u).bind (skipVoidUpTo? fuel)
    | t =>
      match newline? t with
      | some u => skipVoidUpTo? fuel u
      | none => if t.head? == some '\r' then none else some t

/-- Skips blanks, lines and comments inside brackets. -/
def skipVoid? (s : List Char) : Option (List Char) := skipVoidUpTo? (s.length + 1) s

/-- Skips blanks on a line. -/
def skipBlanks? (s : List Char) : Option (List Char) := some (s.dropWhile isSpace)

def isKeyChar (c : Char) : Bool :=
  ('a' ≤ c && c ≤ 'z') || ('A' ≤ c && c ≤ 'Z') || Json.isDigit c || c == '-' || c == '_'

/-- One part of a key: bare, or a string on one line. -/
def keyPart? (s : List Char) : Option (String × List Char) :=
  match s with
  | '"' :: t => (lineString? '"' true [] (t.length + 1) t).map fun r => (String.ofList r.1, r.2)
  | '\'' :: t =>
    (lineString? '\'' false [] (t.length + 1) t).map fun r => (String.ofList r.1, r.2)
  | s =>
    let word := s.takeWhile isKeyChar
    if word.isEmpty then none else some (String.ofList word, s.dropWhile isKeyChar)

/-- How many parts a key may have. -/
def maxParts : Nat := 80

/-- A key with its dots; the blanks after it are skipped. -/
def key? (done : List String) : Nat → List Char → Option (List String × List Char)
  | 0, _ => none
  | fuel + 1, s =>
    (keyPart? s).bind fun (part, t) =>
      match t.dropWhile isSpace with
      | '.' :: t =>
        if done.length + 1 < maxParts then key? (part :: done) fuel (t.dropWhile isSpace)
        else none
      | t => some ((part :: done).reverse, t)

def keyPath? (s : List Char) : Option (List String × List Char) := key? [] (s.length + 1) s

/-- A key and its equals sign, with what may be skipped before and after the sign. -/
def keyEquals? (skip? : List Char → Option (List Char)) (s : List Char) :
    Option (List String × List Char) := do
  let (path, t) ← keyPath? s
  let '=' :: t ← skip? t | none
  return (path, ← skip? t)

mutual

/-- A value at a depth. -/
def value? (depth : Nat) : Nat → List Char → Option (Value × List Char)
  | 0, _ => none
  | _ + 1, [] => none
  | fuel + 1, c :: s =>
    if c = '"' ∨ c = '\'' then
      (string? (c :: s)).map fun r => (.string (String.ofList r.1), r.2)
    else if c = '[' then
      if depth = 0 then none
      else (skipVoid? s).bind (items? (depth - 1) [] fuel)
    else if c = '\x7b' then
      if depth = 0 then none
      else (skipVoid? s).bind (inline? (depth - 1) [] fuel)
    else
      let (word, rest) := atom (c :: s)
      (atomValue? word).map (·, rest)

/-- The rest of a list; the items already read come last one first. -/
def items? (depth : Nat) (done : List Value) : Nat → List Char → Option (Value × List Char)
  | 0, _ => none
  | fuel + 1, s =>
    match s with
    | ']' :: t => some (.list done.reverse, t)
    | s => do
      let (v, t) ← value? depth fuel s
      match ← skipVoid? t with
      | ',' :: t => do
        let t ← skipVoid? t
        items? depth (v :: done) fuel t
      | ']' :: t => some (.list (v :: done).reverse, t)
      | _ => none

/-- The rest of a table written as a value. -/
def inline? (depth : Nat) (fields : Fields) : Nat → List Char → Option (Value × List Char)
  | 0, _ => none
  | fuel + 1, s =>
    match s with
    | '\x7d' :: t => some ((Item.table .declared fields).toValue, t)
    | s => do
      let (path, t) ← keyEquals? skipVoid? s
      let (v, t) ← value? depth fuel t
      let fields ← Fields.putDotted v path fields
      match ← skipVoid? t with
      | ',' :: t => do
        let t ← skipVoid? t
        inline? depth fields fuel t
      | '\x7d' :: t => some ((Item.table .declared fields).toValue, t)
      | _ => none

end

/-- What has been read of a document: the header in force and all fields. -/
structure Draft where
  header : List String := []
  fields : Fields := []

/-- Reads one statement. -/
def Draft.statement? (d : Draft) (s : List Char) : Option (Draft × List Char) :=
  match s with
  | '[' :: '[' :: t => do
    let (path, t) ← keyPath? (t.dropWhile isSpace)
    let ']' :: ']' :: t := t | none
    let fields ← d.fields.declareElement path
    some (⟨path, fields⟩, t)
  | '[' :: t => do
    let (path, t) ← keyPath? (t.dropWhile isSpace)
    let ']' :: t := t | none
    let fields ← d.fields.declareTable path
    some (⟨path, fields⟩, t)
  | s => do
    let (path, t) ← keyEquals? skipBlanks? s
    let (v, t) ← value? maxDepth (t.length + 1) t
    let fields ← d.fields.putUnder d.header path v
    some (⟨d.header, fields⟩, t)

/-- Reads statements to the end of the text. -/
def Draft.run (d : Draft) : Nat → List Char → Option Fields
  | 0, _ => none
  | fuel + 1, s =>
    match s.dropWhile isSpace with
    | [] => some d.fields
    | c :: t =>
      if c = '#' ∨ c = '\n' ∨ c = '\r' then (lineEnd? (c :: t)).bind (d.run fuel)
      else do
        let (d, t) ← d.statement? (c :: t)
        let t ← lineEnd? t
        d.run fuel t

def withoutMark : List Char → List Char
  | '\uFEFF' :: s => s
  | s => s

/-- The table that a text stands for, its fields in the order of their names. -/
def parse? (s : String) : Option Value :=
  let s := withoutMark s.toList
  (Draft.run {} (s.length + 1) s).map fun fields => (Item.table .declared fields).toValue

end LineCensus.Document.Toml
