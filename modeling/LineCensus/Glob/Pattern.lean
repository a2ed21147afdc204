/-!
# Glob patterns

A pattern is read from left to right into tokens. Braces hold alternatives, which may be
nested; outside of braces a comma is a character like any other. Two stars next to
slashes stand for whole directories, and for two single stars elsewhere.
-/
namespace LineCensus.Glob

/-- A set of characters, as ranges with both ends, or what lies outside of it. -/
structure CharClass where
  negated : Bool
  ranges : List (Char × Char)
deriving DecidableEq, Repr

inductive Token
  | literal (c : Char)
  | any
  | star
  | oneOf (set : CharClass)
  /-- Two stars and a slash at the head of a branch: any directory, or none. -/
  | anyDirsThen
  /-- A slash and two stars at the end of a branch: everything below. -/
  | everythingBelow
  /-- Two stars between slashes: a slash, with any directories and one more behind it. -/
  | anyDirsBetween
  | alternatives (branches : List (List Token))
deriving Repr, Inhabited

/-- Why a text is no pattern. -/
inductive Fault
  | unclosedClass
  | invalidRange (low high : Char)
  | unclosedAlternatives
  | unopenedAlternatives
  | danglingEscape
deriving DecidableEq, Repr

def Fault.message : Fault → String
  | unclosedClass => "unclosed character class; missing ']'"
  | invalidRange low high =>
    "invalid range; '" ++ String.singleton low ++ "' > '" ++ String.singleton high ++ "'"
  | unclosedAlternatives =>
    "unclosed alternate group; missing '\x7d' (maybe escape '\x7b' with '[\x7b]'?)"
  | unopenedAlternatives =>
    "unopened alternate group; missing '\x7b' (maybe escape '\x7d' with '[\x7d]'?)"
  | danglingEscape => "dangling '\\'"

/-! ## Character classes -/

/-- The ranges read so far, the last one first, and whether a hyphen waits for the upper
end of the last range. -/
structure ClassDraft where
  ranges : List (Char × Char) := []
  inRange : Bool := false
  atStart : Bool := true
deriving DecidableEq, Repr

namespace ClassDraft

/-- Makes `c` the upper end of the last range. -/
def close (d : ClassDraft) (c : Char) : Except Fault ClassDraft :=
  match d.ranges with
  | [] => .ok ⟨[(c, c)], false, false⟩
  | (low, _) :: rest =>
    if c < low then .error (.invalidRange low c) else .ok ⟨(low, c) :: rest, false, false⟩

def add (d : ClassDraft) (c : Char) : ClassDraft := ⟨(c, c) :: d.ranges, false, false⟩

/-- Reads a character that does not end the class. -/
def read (d : ClassDraft) (c : Char) : Except Fault ClassDraft :=
  if c = '-' ∧ !d.atStart ∧ !d.inRange then .ok { d with inRange := true }
  else if d.inRange then d.close c
  else .ok (d.add c)

/-- A hyphen before the end stands for itself. -/
def finish (d : ClassDraft) : List (Char × Char) :=
  (if d.inRange then ('-', '-') :: d.ranges else d.ranges).reverse

end ClassDraft

/-- The ranges up to the closing bracket, and the text after it; nothing if no bracket
closes the class. -/
def classRanges? (d : ClassDraft) :
    List Char → Except Fault (Option (List (Char × Char) × List Char))
  | [] => .ok none
  | c :: s =>
    if c = ']' ∧ !d.atStart then .ok (some (d.finish, s))
    else match d.read c with
      | .error fault => .error fault
      | .ok d => classRanges? d s

theorem length_of_classRanges? {d : ClassDraft} {s t : List Char} {rs : List (Char × Char)}
    (h : classRanges? d s = .ok (some (rs, t))) : t.length < s.length := by
  induction s generalizing d with
  | nil => cases h
  | cons c s ih =>
    simp only [classRanges?] at h
    split at h
    · cases h; simp
    · split at h
      · cases h
      · have := ih h; simp only [List.length_cons]; omega

/-- A class after its opening bracket. -/
def charClass? (s : List Char) : Except Fault (Option (CharClass × List Char)) :=
  let negated := s.head? == some '!' || s.head? == some '^'
  match classRanges? {} (if negated then s.tail else s) with
  | .error fault => .error fault
  | .ok none => .ok none
  | .ok (some (ranges, t)) => .ok (some (⟨negated, ranges⟩, t))

theorem length_of_charClass? {s t : List Char} {k : CharClass}
    (h : charClass? s = .ok (some (k, t))) : t.length < s.length := by
  unfold charClass? at h
  dsimp only at h
  split at h
  · cases h
  · cases h
  · rename_i ranges u hu
    cases h
    have := length_of_classRanges? hu
    split at this
    · simp only [List.length_tail] at this; omega
    · exact this

/-! ## Patterns -/

/-- An open pair of braces: its finished branches, last one first, and the tokens before
it, last one first. -/
structure Group where
  finished : List (List Token)
  before : List Token
deriving Repr

/-- A pattern being read. -/
structure Draft where
  groups : List Group := []
  /-- The tokens of the branch in hand, last one first. -/
  tokens : List Token := []
  /-- Whether a bracket still opens a class. -/
  classes : Bool := true
deriving Repr

namespace Draft

def push (d : Draft) (t : Token) : Draft := { d with tokens := t :: d.tokens }

def openGroup (d : Draft) : Draft :=
  { d with groups := ⟨[], d.tokens⟩ :: d.groups, tokens := [] }

def closeGroup? (d : Draft) : Option Draft :=
  match d.groups with
  | [] => none
  | g :: gs =>
    some { d with
      groups := gs
      tokens := .alternatives (d.tokens :: g.finished |>.map List.reverse).reverse :: g.before }

def comma (d : Draft) : Draft :=
  match d.groups with
  | [] => d.push (.literal ',')
  | g :: gs => { d with groups := ⟨d.tokens :: g.finished, g.before⟩ :: gs, tokens := [] }

def twoStars (d : Draft) : Draft := (d.push .star).push .star

/-- Puts a token for directories in place of the slash before it. Where that slash
belongs to such a token already, nothing changes. -/
def directories (d : Draft) (t : Token) : Draft :=
  match d.tokens with
  | .anyDirsThen :: _ => d
  | .everythingBelow :: _ => d
  | _ :: rest => { d with tokens := t :: rest }
  | [] => d.push t

/-- Reads two stars, of which `prev` is the character before and `s` the text after.
Answers what comes next and the text still to be read. -/
def doubleStar (d : Draft) (prev : Option Char) (s : List Char) : Draft × List Char :=
  if d.tokens.isEmpty then
    match s with
    | [] => (d.push .anyDirsThen, [])
    | '/' :: t => (d.push .anyDirsThen, t)
    | s => (d.twoStars, s)
  else if prev != some '/' &&
      (d.groups.isEmpty || (prev != some ',' && prev != some '\x7b')) then
    (d.twoStars, s)
  else match s with
    | [] => (d.directories .everythingBelow, [])
    | '/' :: t => (d.directories .anyDirsBetween, t)
    | c :: t =>
      if (c = ',' ∨ c = '\x7d') ∧ !d.groups.isEmpty then
        (d.directories .everythingBelow, c :: t)
      else (d.twoStars, c :: t)

theorem length_doubleStar (d : Draft) (prev : Option Char) (s : List Char) :
    (d.doubleStar prev s).2.length ≤ s.length := by
  unfold doubleStar
  split
  · split <;> simp
  · split
    · simp
    · split
      · simp
      · simp
      · split <;> simp

/-- The last character that reading two stars has taken. -/
def lastTaken (s t : List Char) : Char := if t.length < s.length then '/' else '*'

/-- Reads a pattern to its end. An unclosed class is a fault, or else a bracket that
stands for itself, like every bracket after it. -/
def run (lenient : Bool) (d : Draft) (prev : Option Char) : List Char → Except Fault Draft
  | [] => .ok d
  | c :: s =>
    if c = '?' then (d.push .any).run lenient (some c) s
    else if c = '*' then
      match s with
      | '*' :: t =>
        let next := d.doubleStar prev t
        have := d.length_doubleStar prev t
        next.1.run lenient (some (lastTaken t next.2)) next.2
      | s => (d.push .star).run lenient (some c) s
    else if c = '[' ∧ d.classes then
      match h : charClass? s with
      | .error fault => .error fault
      | .ok (some (k, t)) =>
        have := length_of_charClass? h
        (d.push (.oneOf k)).run lenient (some ']') t
      | .ok none =>
        if lenient then ({ d with classes := false }.push (.literal c)).run lenient (some c) s
        else .error .unclosedClass
    else if c = '\x7b' then d.openGroup.run lenient (some c) s
    else if c = '\x7d' then
      match d.closeGroup? with
      | none => .error .unopenedAlternatives
      | some d => d.run lenient (some c) s
    else if c = ',' then d.comma.run lenient (some c) s
    else if c = '\\' then
      match s with
      | [] => .error .danglingEscape
      | e :: t => (d.push (.literal e)).run lenient (some e) t
    else (d.push (.literal c)).run lenient (some c) s
termination_by s => s.length

end Draft

/-- A compiled pattern. -/
structure Pattern where
  text : String
  tokens : List Token
  /-- Whether a slash is out of reach for stars and question marks. -/
  slashSeparates : Bool := false
deriving Repr

/-- Compiles a pattern whose unclosed classes stand for themselves if `lenient`. -/
def Pattern.compile (text : String) (slashSeparates lenient : Bool) : Except Fault Pattern :=
  match Draft.run lenient {} none text.toList with
  | .error fault => .error fault
  | .ok d =>
    if d.groups.isEmpty then .ok { text, tokens := d.tokens.reverse, slashSeparates }
    else .error .unclosedAlternatives

end LineCensus.Glob
