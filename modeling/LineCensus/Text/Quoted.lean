import LineCensus.Text.Printing

/-!
# Quoted text

A text as it is shown inside a message: between double quotes, with a backslash before
quotes and backslashes, short names for the common controls, and the code point of
every other character that cannot be shown.
-/
namespace LineCensus.Text

def hexDigits (n : Nat) : List Char := Nat.toDigits 16 n

/-- A character between double quotes. -/
def quotedChar (c : Char) : List Char :=
  if c == '\t' then ['\\', 't']
  else if c == '\r' then ['\\', 'r']
  else if c == '\n' then ['\\', 'n']
  else if c == '\x00' then ['\\', '0']
  else if c == '"' || c == '\\' then ['\\', c]
  else if isPrintable c then [c]
  else '\\' :: 'u' :: '\x7b' :: hexDigits c.toNat ++ ['\x7d']

def quoted (s : String) : String :=
  String.ofList ('"' :: s.toList.flatMap quotedChar ++ ['"'])

end LineCensus.Text
