import LineCensus.Report.Number

/-!
# Tables

A boxed table has columns of fixed width, each at least as wide as its title: texts
stand at the left of their column and numbers at the right. A Markdown table leaves the
widths to its reader and guards the bars inside its cells.
-/
namespace LineCensus.Report

/-- Lines of text, each ended. -/
def document (lines : List String) : String := "\n".intercalate lines ++ "\n"

theorem toList_document {lines : List String} (h : lines ≠ []) :
    (document lines).toList = lines.flatMap fun line => line.toList ++ ['\n'] := by
  induction lines with
  | nil => exact absurd rfl h
  | cons line lines ih =>
    by_cases hlines : lines = []
    · simp [hlines, document]
    · rw [List.flatMap_cons, ← ih hlines]
      obtain ⟨line', lines', rfl⟩ := List.exists_cons_of_ne_nil hlines
      simp [document]

def blanks (n : Nat) : String := String.ofList (List.replicate n ' ')

/-- Fills up on the right; a longer text stays whole. -/
def padRight (width : Nat) (s : String) : String := s ++ blanks (width - s.length)

/-- Fills up on the left; a longer text stays whole. -/
def padLeft (width : Nat) (s : String) : String := blanks (width - s.length) ++ s

theorem length_padRight (width : Nat) (s : String) :
    (padRight width s).length = max width s.length := by
  simp [padRight, blanks]; omega

theorem length_padLeft (width : Nat) (s : String) :
    (padLeft width s).length = max width s.length := by
  simp [padLeft, blanks]; omega

/-- Shortens a text to at most `max` characters by setting dots for its middle. -/
def truncateMiddle (s : String) (max : Nat) : String :=
  let cs := s.toList
  if cs.length ≤ max then s
  else String.ofList
    (cs.take (max / 2 - 3) ++ ['.', '.', '.'] ++ cs.drop (cs.length - max / 2))

inductive Cell
  | text (s : String)
  | number (n : Nat)
deriving DecidableEq, Repr

/-- A column's title and the width asked for it. -/
structure Column where
  title : String
  width : Nat
deriving DecidableEq, Repr

def Column.actualWidth (c : Column) : Nat := max c.width c.title.length

structure TextTable where
  numbers : NumberFormat
  columns : List Column
deriving DecidableEq, Repr

namespace TextTable

def separator (t : TextTable) : String :=
  let dashes := t.columns.map fun c => String.ofList (List.replicate c.actualWidth '-')
  "+-" ++ "-+-".intercalate dashes ++ "-+"

def bar (cells : List String) : String := "| " ++ " | ".intercalate cells ++ " |"

def headerLines (t : TextTable) : List String :=
  [t.separator, bar (t.columns.map fun c => padRight c.actualWidth c.title), t.separator]

def renderCell (t : TextTable) (c : Column) : Cell → String
  | .text s => padRight c.actualWidth s
  | .number n => padLeft c.actualWidth (t.numbers.render n)

def line (t : TextTable) (cells : List Cell) : String :=
  bar (List.zipWith t.renderCell t.columns cells)

end TextTable

/-- A column's title, and whether it holds numbers. -/
structure MarkdownColumn where
  title : String
  numeric : Bool
deriving DecidableEq, Repr

structure MarkdownTable where
  numbers : NumberFormat
  columns : List MarkdownColumn
deriving DecidableEq, Repr

namespace MarkdownTable

/-- A backslash before every bar. -/
def guardBars (s : String) : String :=
  String.ofList (s.toList.flatMap fun c => if c = '|' then ['\\', '|'] else [c])

def headerLines (t : MarkdownTable) : List String :=
  [TextTable.bar (t.columns.map (·.title)),
    TextTable.bar (t.columns.map fun c => if c.numeric then "---:" else ":---")]

def renderCell (t : MarkdownTable) : Cell → String
  | .text s => guardBars s
  | .number n => t.numbers.render n

def line (t : MarkdownTable) (cells : List Cell) : String :=
  TextTable.bar (cells.map t.renderCell)

end MarkdownTable

end LineCensus.Report
