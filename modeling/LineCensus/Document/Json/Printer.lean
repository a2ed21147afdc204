import LineCensus.Document.Value

/-!
# Writing JSON

Values are written over several lines, each level two blanks further in. A string shows
all its characters but quotes, backslashes and controls, which are escaped.
-/
namespace LineCensus.Document.Json

def hexDigit (n : Nat) : Char :=
  if n < 10 then Char.ofNat ('0'.toNat + n) else Char.ofNat ('a'.toNat + n - 10)

/-- A character between quotes. -/
def escapeChar (c : Char) : List Char :=
  if c = '"' then ['\\', '"']
  else if c = '\\' then ['\\', '\\']
  else if c = '\x08' then ['\\', 'b']
  else if c = '\x0c' then ['\\', 'f']
  else if c = '\n' then ['\\', 'n']
  else if c = '\r' then ['\\', 'r']
  else if c = '\t' then ['\\', 't']
  else if c < ' ' then ['\\', 'u', '0', '0', hexDigit (c.toNat / 16), hexDigit (c.toNat % 16)]
  else [c]

def quote (s : String) : List Char := '"' :: s.toList.flatMap escapeChar ++ ['"']

/-- A new line at a level. -/
def newline (level : Nat) : List Char := '\n' :: List.replicate (2 * level) ' '

mutual

/-- A value at a level. A number that cannot be held is written as no value. -/
def render (level : Nat) : Value → List Char
  | .null => ['n', 'u', 'l', 'l']
  | .boolean true => ['t', 'r', 'u', 'e']
  | .boolean false => ['f', 'a', 'l', 's', 'e']
  | .integer n => (toString n).toList
  | .real text => text.toList
  | .beyond => ['n', 'u', 'l', 'l']
  | .string text => quote text
  | .date text => quote text
  | .list [] => ['[', ']']
  | .list (v :: vs) =>
    '[' :: newline (level + 1) ++ render (level + 1) v ++ renderItems (level + 1) vs ++
      newline level ++ [']']
  | .table [] => ['\x7b', '\x7d']
  | .table (f :: fs) =>
    '\x7b' :: newline (level + 1) ++ renderField (level + 1) f ++
      renderFields (level + 1) fs ++ newline level ++ ['\x7d']

/-- The items after the first. -/
def renderItems (level : Nat) : List Value → List Char
  | [] => []
  | v :: vs => ',' :: newline level ++ render level v ++ renderItems level vs

def renderField (level : Nat) : String × Value → List Char
  | (k, v) => quote k ++ ':' :: ' ' :: render level v

/-- The fields after the first. -/
def renderFields (level : Nat) : List (String × Value) → List Char
  | [] => []
  | f :: fs => ',' :: newline level ++ renderField level f ++ renderFields level fs

end

/-- The text of a value, over several lines. -/
def pretty (v : Value) : String := String.ofList (render 0 v)

end LineCensus.Document.Json
