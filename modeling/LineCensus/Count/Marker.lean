import LineCensus.Text.Columns

/-!
# Markers

A marker is a token that a scan can look for: a text with at least one character.
A search that finds a marker always moves on, which is why every scan ends.
-/
namespace LineCensus.Count

open LineCensus.Text

/-- A token with at least one character. -/
structure Marker where
  chars : List Char
  chars_ne_nil : chars ≠ []
deriving DecidableEq

namespace Marker

def ofChars? (s : List Char) : Option Marker :=
  if h : s = [] then none else some ⟨s, h⟩

@[simp] theorem ofChars?_nil : ofChars? [] = none := rfl

@[simp] theorem ofChars?_chars (m : Marker) : ofChars? m.chars = some m := by
  simp [ofChars?, m.chars_ne_nil]

theorem ofChars?_eq_none_iff {s : List Char} : ofChars? s = none ↔ s = [] := by
  simp [ofChars?]

def ofString? (s : String) : Option Marker := ofChars? s.toList

def width (m : Marker) : Nat := byteLength m.chars

theorem width_pos (m : Marker) : 0 < m.width := byteLength_pos m.chars_ne_nil

def begins (m : Marker) (s : List Char) : Bool := m.chars.isPrefixOf s

end Marker

/-- One of two texts is the beginning of the other. -/
def overlap (s t : List Char) : Bool := s.isPrefixOf t || t.isPrefixOf s

end LineCensus.Count
