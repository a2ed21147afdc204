import LineCensus.Document.Value

/-!
# JSON tokens

A text is cut into punctuation and scalars. Blanks between tokens are dropped; a text
with anything else in it has no tokens.
-/
namespace LineCensus.Document.Json

inductive Token
  | listOpen
  | listClose
  | tableOpen
  | tableClose
  | comma
  | colon
  | scalar (value : Value)
deriving Repr

def isSpace (c : Char) : Bool := c == ' ' || c == '\t' || c == '\n' || c == '\r'

def hexValue? (c : Char) : Option Nat :=
  if '0' ≤ c ∧ c ≤ '9' then some (c.toNat - '0'.toNat)
  else if 'a' ≤ c ∧ c ≤ 'f' then some (c.toNat - 'a'.toNat + 10)
  else if 'A' ≤ c ∧ c ≤ 'F' then some (c.toNat - 'A'.toNat + 10)
  else none

/-- The number that four hexadecimal digits stand for. -/
def hexNumber? (a b c d : Char) : Option Nat := do
  let a ← hexValue? a
  let b ← hexValue? b
  let c ← hexValue? c
  let d ← hexValue? d
  return ((a * 16 + b) * 16 + c) * 16 + d

/-- The code unit that four digits name, and the text after them. -/
def codeUnit? : List Char → Option (Nat × List Char)
  | a :: b :: c :: d :: s => (hexNumber? a b c d).map (·, s)
  | _ => none

theorem length_of_codeUnit? {s t : List Char} {n : Nat} (h : codeUnit? s = some (n, t)) :
    t.length < s.length := by
  unfold codeUnit? at h
  split at h
  · simp only [Option.map_eq_some_iff, Prod.mk.injEq] at h
    obtain ⟨_, _, _, rfl⟩ := h
    simp only [List.length_cons]
    omega
  · cases h

/-- The character of a code unit, read on as far as its other half if it is one of two. -/
def unicode? (s : List Char) : Option (Char × List Char) :=
  match codeUnit? s with
  | none => none
  | some (high, t) =>
    if 0xD800 ≤ high ∧ high < 0xDC00 then
      match t with
      | '\\' :: 'u' :: t =>
        match codeUnit? t with
        | some (low, t) =>
          if 0xDC00 ≤ low ∧ low < 0xE000 then
            some (Char.ofNat (0x10000 + (high - 0xD800) * 0x400 + (low - 0xDC00)), t)
          else none
        | none => none
      | _ => none
    else if 0xDC00 ≤ high ∧ high < 0xE000 then none
    else some (Char.ofNat high, t)

theorem length_of_unicode? {s t : List Char} {c : Char} (h : unicode? s = some (c, t)) :
    t.length < s.length := by
  unfold unicode? at h
  split at h
  · cases h
  · rename_i high u hu
    have hu := length_of_codeUnit? hu
    split at h
    · split at h
      · rename_i v
        split at h
        · rename_i low w hw
          have hw := length_of_codeUnit? hw
          split at h
          · simp only [Option.some.injEq, Prod.mk.injEq] at h
            obtain ⟨-, rfl⟩ := h
            simp only [List.length_cons] at hu
            omega
          · cases h
        · cases h
      · cases h
    · split at h
      · cases h
      · simp only [Option.some.injEq, Prod.mk.injEq] at h
        obtain ⟨-, rfl⟩ := h
        exact hu

/-- The character that stands for itself after a backslash, or for a control. -/
def shortEscape? (c : Char) : Option Char :=
  if c == '"' || c == '\\' || c == '/' then some c
  else if c == 'b' then some '\x08'
  else if c == 'f' then some '\x0c'
  else if c == 'n' then some '\n'
  else if c == 'r' then some '\r'
  else if c == 't' then some '\t'
  else none

/-- The character after a backslash, and the text after it. -/
def escape? : List Char → Option (Char × List Char)
  | [] => none
  | c :: s => if c = 'u' then unicode? s else (shortEscape? c).map (·, s)

theorem length_of_escape? {s t : List Char} {c : Char} (h : escape? s = some (c, t)) :
    t.length < s.length := by
  cases s with
  | nil => cases h
  | cons d s =>
    simp only [escape?] at h
    split at h
    · have := length_of_unicode? h
      simp only [List.length_cons]; omega
    · simp only [Option.map_eq_some_iff, Prod.mk.injEq] at h
      obtain ⟨_, _, _, rfl⟩ := h
      simp

/-- The rest of a string up to its closing quote, and the text after that. Characters
already read come last one first. -/
def stringBody? (done : List Char) : List Char → Option (List Char × List Char)
  | [] => none
  | c :: s =>
    if c = '"' then some (done.reverse, s)
    else if c = '\\' then
      match h : escape? s with
      | some (d, t) =>
        have := length_of_escape? h
        stringBody? (d :: done) t
      | none => none
    else if c < ' ' then none
    else stringBody? (c :: done) s
termination_by s => s.length

theorem length_of_stringBody? {done s body t : List Char}
    (h : stringBody? done s = some (body, t)) : t.length < s.length := by
  fun_induction stringBody? done s with
  | case1 => cases h
  | case2 done s => cases h; simp
  | case3 done s c t' he _ _ ih => have := ih h; simp only [List.length_cons]; omega
  | case4 => cases h
  | case5 => cases h
  | case6 done c s _ _ _ ih => have := ih h; simp only [List.length_cons]; omega

def isDigit (c : Char) : Bool := '0' ≤ c && c ≤ '9'

def isNumberChar (c : Char) : Bool :=
  isDigit c || c == '-' || c == '+' || c == '.' || c == 'e' || c == 'E'

def digitsValue (ds : List Char) : Nat := ds.foldl (fun n c => n * 10 + (c.toNat - '0'.toNat)) 0

/-- Digits of a whole number: at least one, and no zero before others. -/
def isWhole : List Char → Bool
  | [] => false
  | ['0'] => true
  | '0' :: _ => false
  | ds => ds.all isDigit

/-- An exponent after its letter, if there are digits in it. -/
def exponent? (s : List Char) : Option Int :=
  let (negative, ds) := match s with
    | '-' :: ds => (true, ds)
    | '+' :: ds => (false, ds)
    | ds => (false, ds)
  if ds.isEmpty || !ds.all isDigit then none
  else some (if negative then -(digitsValue ds : Int) else digitsValue ds)

/-- Takes digits into a number for as long as 64 bits can hold it, and tells how many are
left. -/
def absorb (n : Nat) : List Char → Nat × Nat
  | [] => (n, 0)
  | c :: ds =>
    let m := n * 10 + (c.toNat - '0'.toNat)
    if m < UInt64.size then absorb m ds else (n, ds.length + 1)

/-- The double for the digits before and after a point and a power of ten. Digits that 64
bits have no room for count by their place alone. -/
def double? (whole places : List Char) (exponent : Int) : Option Double :=
  let (n, leftOfWhole) := absorb 0 whole
  let (n, leftOfPlaces) := absorb n places
  Double.ofScaled? n (exponent + leftOfWhole - (places.length - leftOfPlaces : Nat))

/-- A fraction and an exponent: the digits after the point, and the power of ten. -/
def fraction? (s : List Char) : Option (List Char × Int) :=
  let (places, rest) := match s with
    | '.' :: t => (t.takeWhile isDigit, t.dropWhile isDigit)
    | t => ([], t)
  if s.head? == some '.' && places.isEmpty then none
  else match rest with
    | [] => some (places, 0)
    | c :: t => if c == 'e' || c == 'E' then (exponent? t).map (places, ·) else none

/-- The value of a number. A whole number beyond 64 bits, and zero with a sign, are not
kept as integers. -/
def number? (s : List Char) : Option Value :=
  let negative := s.head? == some '-'
  let s := if negative then s.tail else s
  let whole := s.takeWhile isDigit
  let rest := s.dropWhile isDigit
  if !isWhole whole then none
  else
    let n := digitsValue whole
    let fits := if negative then 0 < n && Int64.minValue.toInt ≤ -(n : Int) else n < UInt64.size
    if rest.isEmpty && fits then
      some (.integer (if negative then -(n : Int) else n))
    else
      (fraction? rest).bind fun (places, exponent) =>
        (double? whole places exponent).map fun x => .real (x.text negative)

/-- A word that stands for a value. -/
def word? (s : List Char) : Option Value :=
  if s = ['n', 'u', 'l', 'l'] then some .null
  else if s = ['t', 'r', 'u', 'e'] then some (.boolean true)
  else if s = ['f', 'a', 'l', 's', 'e'] then some (.boolean false)
  else none

def isLetter (c : Char) : Bool := 'a' ≤ c && c ≤ 'z'

/-- Punctuation that is a token by itself. -/
def mark? (c : Char) : Option Token :=
  if c = '[' then some .listOpen
  else if c = ']' then some .listClose
  else if c = '\x7b' then some .tableOpen
  else if c = '\x7d' then some .tableClose
  else if c = ',' then some .comma
  else if c = ':' then some .colon
  else none

theorem length_dropWhile_lt {p : Char → Bool} {c : Char} {s : List Char} (h : p c = true) :
    ((c :: s).dropWhile p).length < (c :: s).length := by
  rw [List.dropWhile_cons_of_pos h]
  have := (List.dropWhile_suffix (l := s) p).length_le
  simp only [List.length_cons]; omega

/-- The tokens of a text; those already read come last one first. -/
def tokensFrom (done : List Token) : List Char → Option (List Token)
  | [] => some done.reverse
  | c :: s =>
    if isSpace c then tokensFrom done s
    else match mark? c with
      | some mark => tokensFrom (mark :: done) s
      | none =>
        if c = '"' then
          match h : stringBody? [] s with
          | some (body, t) =>
            have := length_of_stringBody? h
            tokensFrom (.scalar (.string (String.ofList body)) :: done) t
          | none => none
        else if h : isNumberChar c then
          match number? ((c :: s).takeWhile isNumberChar) with
          | some value =>
            have : ((c :: s).dropWhile isNumberChar).length < s.length + 1 :=
              length_dropWhile_lt h
            tokensFrom (.scalar value :: done) ((c :: s).dropWhile isNumberChar)
          | none => none
        else if h : isLetter c then
          match word? ((c :: s).takeWhile isLetter) with
          | some value =>
            have : ((c :: s).dropWhile isLetter).length < s.length + 1 := length_dropWhile_lt h
            tokensFrom (.scalar value :: done) ((c :: s).dropWhile isLetter)
          | none => none
        else none
termination_by s => s.length

def tokens? (s : List Char) : Option (List Token) := tokensFrom [] s

end LineCensus.Document.Json
