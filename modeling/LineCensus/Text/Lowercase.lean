import LineCensus.Text.Casing

/-!
# Lower case

Names of files are compared in lower case. A capital sigma at the end of a word has a
lower case of its own; every other character is mapped by itself.
-/
namespace LineCensus.Text

/-- The lower case of a character by itself. -/
def lowerChar (c : Char) : List Char :=
  if c.toNat < 0x80 then [c.toLower]
  else if c == '\u0130' then ['i', '\u0307']
  else match caseRuns.find? (·.contains c.toNat) with
    | some r => [Char.ofNat ((c.toNat : Int) + r.shift).toNat]
    | none => [c]

/-- The first character that is not passed over has a case. -/
def facesCased (s : List Char) : Bool :=
  match s.dropWhile caseIgnorableRanges.contains with
  | c :: _ => casedRanges.contains c
  | [] => false

/-- The lower case of a text, given the characters before it from right to left. -/
def lowerAfter (before : List Char) : List Char → List Char
  | [] => []
  | c :: rest =>
    let lowered :=
      if c == 'Σ' then [if facesCased before && !facesCased rest then 'ς' else 'σ']
      else lowerChar c
    lowered ++ lowerAfter (c :: before) rest

def lowercase (s : String) : String := String.ofList (lowerAfter [] s.toList)

/-- The lower case of ASCII letters, all else unchanged. -/
def asciiLowercase (s : String) : String := String.ofList (s.toList.map Char.toLower)

end LineCensus.Text
