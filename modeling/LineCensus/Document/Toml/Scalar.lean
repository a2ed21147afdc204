import LineCensus.Document.Json.Token

/-!
# TOML scalars

Strings in their four forms, whole numbers in four bases, numbers with a fraction,
dates and times. A reader takes a value off the front of a text and leaves the rest; its
first argument bounds how many characters it may look at.
-/
namespace LineCensus.Document.Toml

open Json (hexValue? isDigit digitsValue isWhole)

def isSpace (c : Char) : Bool := c == ' ' || c == '\t'

/-- The text after a line's end, if one is here. -/
def newline? : List Char → Option (List Char)
  | '\n' :: s => some s
  | '\r' :: '\n' :: s => some s
  | _ => none

/-- Characters that may stand in a comment or a string: no control but the tab. -/
def isText (c : Char) : Bool := c == '\t' || (' ' ≤ c && c != '\x7f')

/-- Exactly `n` hexadecimal digits, after the number read so far. -/
def hexRun? (value : Nat) : Nat → List Char → Option (Nat × List Char)
  | 0, s => some (value, s)
  | _ + 1, [] => none
  | n + 1, c :: s => (hexValue? c).bind fun d => hexRun? (value * 16 + d) n s

/-- The character of a code point, unless it is one half of two. -/
def charOf? (n : Nat) : Option Char :=
  if n < 0xD800 ∨ (0xE000 ≤ n ∧ n < 0x110000) then some (Char.ofNat n) else none

def codePoint? (digits : Nat) (s : List Char) : Option (Char × List Char) :=
  (hexRun? 0 digits s).bind fun (n, t) => (charOf? n).map (·, t)

/-- The character after a backslash. -/
def escape? : List Char → Option (Char × List Char)
  | 'x' :: s => codePoint? 2 s
  | 'u' :: s => codePoint? 4 s
  | 'U' :: s => codePoint? 8 s
  | 'b' :: s => some ('\x08', s)
  | 't' :: s => some ('\t', s)
  | 'n' :: s => some ('\n', s)
  | 'f' :: s => some ('\x0c', s)
  | 'r' :: s => some ('\r', s)
  | 'e' :: s => some ('\x1b', s)
  | '"' :: s => some ('"', s)
  | '\\' :: s => some ('\\', s)
  | _ => none

/-- The rest of a string on one line. Without escapes a backslash is text. -/
def lineString? (quote : Char) (escapes : Bool) (done : List Char) :
    Nat → List Char → Option (List Char × List Char)
  | 0, _ => none
  | _ + 1, [] => none
  | fuel + 1, c :: s =>
    if c = quote then some (done.reverse, s)
    else if c = '\\' && escapes then
      (escape? s).bind fun (d, t) => lineString? quote escapes (d :: done) fuel t
    else if isText c then lineString? quote escapes (c :: done) fuel s
    else none

/-- The text after all blanks and line ends. -/
def afterLines : List Char → List Char
  | '\r' :: '\n' :: s => afterLines s
  | c :: s => if isSpace c || c == '\n' then afterLines s else c :: s
  | [] => []

/-- What follows a backslash at the end of a line, with all blanks and lines skipped. -/
def continuation? (s : List Char) : Option (List Char) :=
  (newline? (s.dropWhile isSpace)).map afterLines

/-- The rest of a string over several lines. Up to two quotes may stand before the three
that close it. -/
def blockString? (quote : Char) (escapes : Bool) (done : List Char) :
    Nat → List Char → Option (List Char × List Char)
  | 0, _ => none
  | _ + 1, [] => none
  | fuel + 1, c :: s =>
    if c = quote then
      let run := ((c :: s).takeWhile (· == quote)).length
      if 3 ≤ run then
        let taken := min run 5
        some ((List.replicate (taken - 3) quote ++ done).reverse, (c :: s).drop taken)
      else blockString? quote escapes (c :: done) fuel s
    else if c = '\\' && escapes then
      match continuation? s with
      | some t => blockString? quote escapes done fuel t
      | none => (escape? s).bind fun (d, t) => blockString? quote escapes (d :: done) fuel t
    else if c = '\r' then
      match s with
      | '\n' :: t => blockString? quote escapes ('\n' :: '\r' :: done) fuel t
      | _ => none
    else if c = '\n' || isText c then blockString? quote escapes (c :: done) fuel s
    else none

/-- A string of any form. -/
def string? : List Char → Option (List Char × List Char)
  | '"' :: '"' :: '"' :: s =>
    let s := (newline? s).getD s
    blockString? '"' true [] (s.length + 1) s
  | '\'' :: '\'' :: '\'' :: s =>
    let s := (newline? s).getD s
    blockString? '\'' false [] (s.length + 1) s
  | '"' :: s => lineString? '"' true [] (s.length + 1) s
  | '\'' :: s => lineString? '\'' false [] (s.length + 1) s
  | _ => none

/-! ## Numbers -/

/-- Digits without the underscores that stand between two of them. -/
def ungrouped? (isDigitHere : Char → Bool) : List Char → Option (List Char)
  | [] => none
  | [c] => if isDigitHere c then some [c] else none
  | c :: '_' :: s => if isDigitHere c then (ungrouped? isDigitHere s).map (c :: ·) else none
  | c :: s => if isDigitHere c then (ungrouped? isDigitHere s).map (c :: ·) else none

/-- The sign of a number, and the text after it. -/
def signed : List Char → Bool × List Char
  | '-' :: s => (true, s)
  | '+' :: s => (false, s)
  | s => (false, s)

def isBinary (c : Char) : Bool := c == '0' || c == '1'

def isOctal (c : Char) : Bool := '0' ≤ c && c ≤ '7'

def isHex (c : Char) : Bool := (hexValue? c).isSome

def inBase (base : Nat) (ds : List Char) : Nat :=
  ds.foldl (fun n c => n * base + (hexValue? c).getD 0) 0

/-- A whole number as a value, if 64 bits can hold it. -/
def wholeNumber (n : Int) : Value :=
  if Int64.minValue.toInt ≤ n ∧ n ≤ Int64.maxValue.toInt then .integer n else .beyond

def natural? (base : Nat) (isDigitHere : Char → Bool) (s : List Char) : Option Value :=
  (ungrouped? isDigitHere s).bind fun ds =>
    some (wholeNumber (inBase base ds))

/-- A whole number, in one of four bases. -/
def integer? : List Char → Option Value
  | '0' :: 'x' :: s => natural? 16 isHex s
  | '0' :: 'o' :: s => natural? 8 isOctal s
  | '0' :: 'b' :: s => natural? 2 isBinary s
  | s =>
    let (negative, s) := signed s
    (ungrouped? isDigit s).bind fun ds =>
      let n : Int := digitsValue ds
      if isWhole ds then some (wholeNumber (if negative then -n else n)) else none

/-- An exponent after its letter. -/
def exponent? (s : List Char) : Option Int :=
  let (negative, s) := signed s
  (ungrouped? isDigit s).map fun ds =>
    if negative then -(digitsValue ds : Int) else digitsValue ds

def isExponentLetter (c : Char) : Bool := c == 'e' || c == 'E'

/-- A number with a fraction, an exponent or both. -/
def real? (s : List Char) : Option Value :=
  let (negative, s) := signed s
  if s = ['i', 'n', 'f'] then some (.real (if negative then "-inf" else "inf"))
  else if s = ['n', 'a', 'n'] then some (.real "NaN")
  else
    let mantissa := s.takeWhile fun c => !isExponentLetter c
    let exponent := (s.dropWhile fun c => !isExponentLetter c).tail
    let whole := mantissa.takeWhile (· != '.')
    let fraction := (mantissa.dropWhile (· != '.')).tail
    let hasPoint := mantissa.contains '.'
    let hasExponent := s.any isExponentLetter
    if !hasPoint && !hasExponent then none
    else do
      let whole ← ungrouped? isDigit whole
      let fraction ← if hasPoint then ungrouped? isDigit fraction else some []
      let exponent ← if hasExponent then exponent? exponent else some 0
      let x? := Double.ofDecimal? (digitsValue (whole ++ fraction)) (exponent - fraction.length)
      if isWhole whole then some (x?.elim .beyond fun x => .real (x.text negative)) else none

/-! ## Dates and times -/

/-- Exactly `n` decimal digits. -/
def digits? (n : Nat) (s : List Char) : Option (Nat × List Char) :=
  let ds := s.take n
  if ds.length = n ∧ ds.all isDigit then some (digitsValue ds, s.drop n) else none

def isLeapYear (y : Nat) : Bool := y % 4 == 0 && (y % 100 != 0 || y % 400 == 0)

def daysIn (year month : Nat) : Nat :=
  if month == 2 then (if isLeapYear year then 29 else 28)
  else if month == 4 || month == 6 || month == 9 || month == 11 then 30
  else 31

def padded (n width : Nat) : List Char :=
  let ds := Nat.toDigits 10 n
  List.replicate (width - ds.length) '0' ++ ds

/-- A day of the calendar. -/
def day? (s : List Char) : Option (List Char × List Char) := do
  let (year, s) ← digits? 4 s
  let '-' :: s := s | none
  let (month, s) ← digits? 2 s
  let '-' :: s := s | none
  let (day, s) ← digits? 2 s
  if 1 ≤ month ∧ month ≤ 12 ∧ 1 ≤ day ∧ day ≤ daysIn year month then
    some (padded year 4 ++ '-' :: padded month 2 ++ '-' :: padded day 2, s)
  else none

/-- The places after a second, nine of which count. Zeros at their end are not written,
nor is the point if none is left. -/
def places (ds : List Char) : List Char :=
  match Decimal.trimZeros (ds.take 9) with
  | [] => []
  | kept => '.' :: kept

/-- The second of a time with its places. A missing one is zero. -/
def second? (s : List Char) : Option (List Char × List Char) :=
  match s with
  | ':' :: s => do
    let (second, s) ← digits? 2 s
    if 60 < second then none
    else match s with
      | '.' :: t =>
        let ds := t.takeWhile isDigit
        if ds.isEmpty then none
        else some (':' :: padded second 2 ++ places ds, t.dropWhile isDigit)
      | s => some (':' :: padded second 2, s)
  | s => some ([':', '0', '0'], s)

/-- A time of the day. -/
def time? (s : List Char) : Option (List Char × List Char) := do
  let (hour, s) ← digits? 2 s
  let ':' :: s := s | none
  let (minute, s) ← digits? 2 s
  let (second, s) ← second? s
  if hour ≤ 23 ∧ minute ≤ 59 then
    some (padded hour 2 ++ ':' :: padded minute 2 ++ second, s)
  else none

/-- How far a time is from the universal one; nothing is said of that at the text's end. -/
def offset? : List Char → Option (List Char)
  | [] => some []
  | ['Z'] => some ['Z']
  | ['z'] => some ['Z']
  | sign :: s => do
    let (hour, s) ← digits? 2 s
    let ':' :: s := s | none
    let (minute, s) ← digits? 2 s
    if (sign == '+' || sign == '-') ∧ hour ≤ 23 ∧ minute ≤ 59 ∧ s = [] then
      let sign := if hour == 0 && minute == 0 then '+' else sign
      some (sign :: padded hour 2 ++ ':' :: padded minute 2)
    else none

def isDaySeparator (c : Char) : Bool := c == 'T' || c == 't' || c == ' '

/-- A day, a time or both. -/
def date? (s : List Char) : Option Value :=
  match day? s with
  | some (day, []) => some (.date (String.ofList day))
  | some (day, c :: s) =>
    if isDaySeparator c then do
      let (time, s) ← time? s
      let offset ← offset? s
      some (.date (String.ofList (day ++ 'T' :: time ++ offset)))
    else none
  | none =>
    match time? s with
    | some (time, []) => some (.date (String.ofList time))
    | _ => none

/-- Characters of a scalar without quotes. -/
def isAtomChar (c : Char) : Bool :=
  !(isSpace c || c == '\n' || c == '\r' || c == '#' || c == '=' || c == ',' || c == '[' ||
    c == ']' || c == '\x7b' || c == '\x7d' || c == '"' || c == '\'')

/-- A scalar without quotes. A blank may stand between a day and a time. -/
def atom (s : List Char) : List Char × List Char :=
  let word := s.takeWhile isAtomChar
  let rest := s.dropWhile isAtomChar
  match day? word, rest with
  | some (_, []), ' ' :: c :: t =>
    if isDigit c then
      (word ++ ' ' :: (c :: t).takeWhile isAtomChar, (c :: t).dropWhile isAtomChar)
    else (word, rest)
  | _, _ => (word, rest)

def atomValue? (word : List Char) : Option Value :=
  if word = ['t', 'r', 'u', 'e'] then some (.boolean true)
  else if word = ['f', 'a', 'l', 's', 'e'] then some (.boolean false)
  else (integer? word).or ((real? word).or (date? word))

end LineCensus.Document.Toml
