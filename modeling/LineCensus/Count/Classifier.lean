import LineCensus.Count.Stripper
import LineCensus.Tally
import LineCensus.Text.Blank
import LineCensus.Text.Lines

/-!
# Classifying lines

A line is scanned with the block that the lines before it left open, and leaves one
open for the lines after it. Inside a block only its closing token is sought. Outside,
a line comment at the head of the line ends the scan; otherwise the literals of the
line are removed and the earliest opening token decides what is open next.
-/
namespace LineCensus.Count

open LineCensus.Text

/-- A block's tokens. Without a closing token the block is over as soon as it opens. -/
structure Block where
  opening : Marker
  closing : Option Marker
deriving DecidableEq

namespace Block

/-- No scan can find an opening token without characters. -/
def ofDelimiters? (d : Delimiters) : Option Block :=
  (Marker.ofString? d.start).map (⟨·, Marker.ofString? d.stop⟩)

/-- The first opening at or after `column`, with the block it opens. Of the blocks that
open at one place the one declared first is taken. -/
def first? (column : Nat) (line : List Char) : List Block → Option (Nat × Block)
  | [] => none
  | b :: bs =>
    match occurrenceFrom b.opening.chars column line, first? column line bs with
    | none, later => later
    | some place, none => some (place, b)
    | some place, some (other, c) => if place ≤ other then some (place, b) else some (other, c)

theorem le_of_first? {column place : Nat} {line : List Char} {bs : List Block} {b : Block}
    (h : first? column line bs = some (place, b)) : column ≤ place := by
  induction bs generalizing place b with
  | nil => cases h
  | cons d ds ih =>
    unfold first? at h
    split at h
    · exact ih h
    · rename_i hd _; cases h; exact le_of_occurrenceFrom d.opening.chars_ne_nil hd
    · rename_i hd hs
      split at h
      · cases h; exact le_of_occurrenceFrom d.opening.chars_ne_nil hd
      · cases h; exact ih hs

end Block

/-- The block that is open between two characters or two lines, with the token that
closes it. -/
inductive Carry
  | nothing
  | comment (closing : Marker)
  | string (closing : Marker)
deriving DecidableEq

namespace Carry

def ofComment (b : Block) : Carry := b.closing.elim .nothing .comment

def ofString (b : Block) : Carry := b.closing.elim .nothing .string

/-- What a line counts as before any of it has been read. -/
def kind : Carry → LineKind
  | nothing => .blank
  | comment _ => .comment
  | string _ => .code

end Carry

/-- A line being scanned: what is left of its text, the byte column reached, the kind
found so far and the block that is open there. -/
structure Scan where
  buffer : List Char
  /-- There are no literals left in the buffer. -/
  settled : Bool := false
  column : Nat := 0
  kind : LineKind
  carry : Carry
deriving DecidableEq

/-- The outcome of one step of a scan. -/
inductive Step
  | done (kind : LineKind) (carry : Carry)
  | next (scan : Scan)
deriving DecidableEq

/-- The tokens of one language, compiled for scanning. -/
structure Classifier where
  /-- The name that reports show. -/
  name : String
  lineComments : List (List Char) := []
  blockComments : List Block := []
  blockStrings : List Block := []
  stripper : Stripper := .identity
  /-- Why literals are left in place, if they had to be. -/
  literalFault : Option Stripper.Fault := none

namespace Classifier

/-- A literal's opening token must not be the beginning of a block's opening token, nor
the other way round; an empty one is kept, for the stripper to refuse. -/
def keepsLiteral (blocks : List Block) (d : Delimiters) : Bool :=
  d.start.isEmpty || !blocks.any fun b => overlap d.start.toList b.opening.chars

def ofDefinition (d : LanguageDefinition) : Classifier :=
  let blockComments := d.blockComments.filterMap Block.ofDelimiters?
  let blockStrings := d.blockStrings.filterMap Block.ofDelimiters?
  let literals := d.lineStrings.filter (keepsLiteral (blockComments ++ blockStrings))
  let compiled := Stripper.compile literals
  { name := d.displayName
    lineComments := d.lineComments.map String.toList
    blockComments
    blockStrings
    stripper := match compiled with
      | .ok stripper => stripper
      | .error _ => .identity
    literalFault := match compiled with
      | .ok _ => none
      | .error fault => some fault }

def startsComment (k : Classifier) (line : List Char) : Bool :=
  k.lineComments.any (·.isPrefixOf line)

/-- A step inside a block: on behind its closing token, or to the end of the line. -/
def stepInside (s : Scan) (closing : Marker) : Step :=
  match occurrenceFrom closing.chars s.column s.buffer with
  | some place => .next { s with column := place + closing.width, carry := .nothing }
  | none => .done s.kind s.carry

/-- The scan with the literals of its buffer removed. A text that this leaves as it was
has none. -/
def strip (k : Classifier) (s : Scan) : Scan :=
  if s.settled then s
  else
    let buffer := k.stripper.strip s.buffer
    { s with buffer, settled := buffer.length == s.buffer.length }

theorem byteLength_strip_le (k : Classifier) (s : Scan) :
    byteLength (k.strip s).buffer ≤ byteLength s.buffer := by
  unfold strip
  split
  · exact Nat.le_refl _
  · exact k.stripper.byteLength_strip_le _

@[simp] theorem column_strip (k : Classifier) (s : Scan) : (k.strip s).column = s.column := by
  unfold strip; split <;> rfl

/-- A step outside all blocks, behind the next opening token. -/
def stepOutside (k : Classifier) (s : Scan) : Step :=
  if k.startsComment s.buffer then .done .comment .nothing
  else
    let s := k.strip s
    match Block.first? s.column s.buffer k.blockComments with
    | some (place, b) =>
      .next
        { s with
          column := place + b.opening.width
          kind := if place = 0 then .comment else .code
          carry := .ofComment b }
    | none =>
      match Block.first? s.column s.buffer k.blockStrings with
      | some (place, b) =>
        .next
          { s with column := place + b.opening.width, kind := .code, carry := .ofString b }
      | none => .done .code .nothing

def step (k : Classifier) (s : Scan) : Step :=
  match s.carry with
  | .comment closing | .string closing => stepInside s closing
  | .nothing => k.stepOutside s

/-- Every step that does not end the scan moves on, over a text that has not grown. -/
theorem step_next {k : Classifier} {s t : Scan} (h : k.step s = .next t) :
    s.column < t.column ∧ byteLength t.buffer ≤ byteLength s.buffer := by
  have inside : ∀ m, stepInside s m = .next t →
      s.column < t.column ∧ byteLength t.buffer ≤ byteLength s.buffer := by
    intro m hm
    unfold stepInside at hm
    split at hm
    · rename_i place hp
      cases hm
      have := le_of_occurrenceFrom m.chars_ne_nil hp
      have := m.width_pos
      exact ⟨by simp; omega, Nat.le_refl _⟩
    · cases hm
  unfold step at h
  split at h
  · exact inside _ h
  · exact inside _ h
  · unfold stepOutside at h
    split at h
    · cases h
    · dsimp only at h
      split at h
      · rename_i place b hb
        cases h
        have := Block.le_of_first? hb
        have := b.opening.width_pos
        exact ⟨by simp at *; omega, k.byteLength_strip_le s⟩
      · split at h
        · rename_i place b hb
          cases h
          have := Block.le_of_first? hb
          have := b.opening.width_pos
          exact ⟨by simp at *; omega, k.byteLength_strip_le s⟩
        · cases h

/-- Scans to the end of the line. -/
def scan (k : Classifier) (s : Scan) : LineKind × Carry :=
  if hs : reaches s.column s.buffer then
    match h : k.step s with
    | .done kind carry => (kind, carry)
    | .next t =>
      have := step_next h
      have := reaches_iff.1 hs
      k.scan t
  else (s.kind, s.carry)
termination_by byteLength s.buffer - s.column

/-- The kind of a line without margins, and the block it leaves open. -/
def classifyLine (k : Classifier) (carry : Carry) (line : List Char) : LineKind × Carry :=
  k.scan { buffer := line, kind := carry.kind, carry }

@[simp] theorem classifyLine_nil (k : Classifier) (carry : Carry) :
    k.classifyLine carry [] = (carry.kind, carry) := by
  rw [classifyLine, scan, dif_neg (by simp [reaches, reachesFrom])]

/-- What some lines have come to, and the block they leave open. -/
structure Reading where
  tally : Tally := 0
  carry : Carry := .nothing
deriving DecidableEq

/-- Reads a line, whose margins do not matter. -/
def readLine (k : Classifier) (r : Reading) (line : List Char) : Reading :=
  let (kind, carry) := k.classifyLine r.carry (trimMargin line)
  ⟨r.tally.record kind, carry⟩

def readLines (k : Classifier) (r : Reading) (lines : List (List Char)) : Reading :=
  lines.foldl k.readLine r

@[simp] theorem readLines_nil (k : Classifier) (r : Reading) : k.readLines r [] = r := rfl

@[simp] theorem readLines_cons (k : Classifier) (r : Reading) (line : List Char)
    (lines : List (List Char)) :
    k.readLines r (line :: lines) = k.readLines (k.readLine r line) lines := rfl

theorem readLines_append (k : Classifier) (r : Reading) (l₁ l₂ : List (List Char)) :
    k.readLines r (l₁ ++ l₂) = k.readLines (k.readLines r l₁) l₂ := by
  simp [readLines]

end Classifier

/-- The lines of a text that count. An empty text has none, and what stands after the
last terminator counts only if incomplete lines do. -/
def countedLines (text : List Char) (incomplete : Bool) : List (List Char) :=
  if text = [] then []
  else if incomplete then splitLines text
  else (splitLines text).dropLast

namespace Classifier

/-- Reads the counted lines of a text. -/
def read (k : Classifier) (text : List Char) (incomplete : Bool) : Reading :=
  k.readLines {} (countedLines text incomplete)

/-- The tally of a text. -/
def count (k : Classifier) (text : List Char) (incomplete : Bool) : Tally :=
  (k.read text incomplete).tally

@[simp] theorem count_nil (k : Classifier) (incomplete : Bool) : k.count [] incomplete = 0 :=
  rfl

theorem total_readLines (k : Classifier) (r : Reading) (lines : List (List Char)) :
    (k.readLines r lines).tally.total = r.tally.total + lines.length := by
  induction lines generalizing r with
  | nil => rfl
  | cons line lines ih => rw [readLines_cons, ih]; simp [readLine]; omega

/-- Every counted line is in the tally. -/
theorem total_count (k : Classifier) (text : List Char) (incomplete : Bool) :
    (k.count text incomplete).total = (countedLines text incomplete).length := by
  simp [count, read, total_readLines]

end Classifier

end LineCensus.Count
