/-!
# Lines of a text

A line ends at a line feed, at a carriage return, or at the two of them together.
A text is cut from its end to its start, so that a carriage return sees whether a
line feed follows it. What stands after the last terminator is a line too, even
when it is empty: a text with `n` terminators has `n + 1` lines.
-/
namespace LineCensus.Text

/-- The lines of the part of a text that has been read so far, from the back. -/
structure LineSplit where
  /-- The line that the next character to the left belongs to. -/
  line : List Char
  /-- The lines after it. -/
  rest : List (List Char)
  /-- Whether the part read starts with a line feed. -/
  startsFeed : Bool
deriving DecidableEq, Repr

namespace LineSplit

def start : LineSplit := ⟨[], [], false⟩

/-- Puts a character in front. A carriage return before a line feed adds no line,
since the two are one terminator. -/
def cons (c : Char) (s : LineSplit) : LineSplit :=
  if c = '\n' then ⟨[], s.line :: s.rest, true⟩
  else if c = '\r' then
    if s.startsFeed then ⟨[], s.rest, false⟩ else ⟨[], s.line :: s.rest, false⟩
  else ⟨c :: s.line, s.rest, false⟩

def lines (s : LineSplit) : List (List Char) := s.line :: s.rest

def ofText (text : List Char) : LineSplit := text.foldr cons start

@[simp] theorem ofText_nil : ofText [] = start := rfl

@[simp] theorem ofText_cons (c : Char) (text : List Char) :
    ofText (c :: text) = cons c (ofText text) := rfl

/-- A part starts with a line feed exactly when its first character is one. -/
theorem startsFeed_ofText (text : List Char) :
    (ofText text).startsFeed = (text.head? == some '\n') := by
  cases text with
  | nil => rfl
  | cons c rest =>
    simp only [ofText_cons, cons, List.head?_cons]
    by_cases hn : c = '\n'
    · simp [hn]
    · by_cases hr : c = '\r'
      · subst hr; simp; split <;> rfl
      · simp [hn, hr]

end LineSplit

/-- The lines of a text, the one after the last terminator included. -/
def splitLines (text : List Char) : List (List Char) := (LineSplit.ofText text).lines

@[simp] theorem splitLines_nil : splitLines [] = [[]] := rfl

theorem splitLines_ne_nil (text : List Char) : splitLines text ≠ [] := by
  simp [splitLines, LineSplit.lines]

end LineCensus.Text
