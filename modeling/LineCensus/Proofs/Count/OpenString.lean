import LineCensus.Language.Catalog
import LineCensus.Proofs.Count.Verdict

/-!
# Lines that begin in an open string

What a block string holds is code, but the test for a line comment looks at the head of
the line wherever the scan stands. A line counts as comment although it begins in a
string when the string ends before the line does and the line starts like a line comment.
-/
namespace LineCensus.Count

open LineCensus.Text

/-- The closing token stands in the line, with some text behind it. -/
def Marker.EndsWithin (m : Marker) (line : List Char) : Prop :=
  ∃ before rest, rest ≠ [] ∧ line = before ++ m.chars ++ rest

theorem Marker.endsWithin_iff {m : Marker} {line : List Char} :
    m.EndsWithin line ↔ ∃ before rest, rest ≠ [] ∧ cut m.chars line = some (before, rest) := by
  constructor
  · rintro ⟨before, rest, hrest, rfl⟩
    obtain ⟨b, r, hcut, hle⟩ := exists_cut m.chars before rest
    refine ⟨b, r, ?_, hcut⟩
    -- the first occurrence leaves at least as much text behind it as this one
    have hlen := length_of_cut hcut
    have hpos := List.length_pos_iff.2 hrest
    simp only [List.length_append] at hlen
    exact List.length_pos_iff.1 (by omega)
  · rintro ⟨before, rest, hrest, hcut⟩
    exact ⟨before, rest, hrest, eq_append_of_cut hcut⟩

namespace Classifier

variable {k : Classifier} {m : Marker} {line : List Char}

/-- Every place outside of a scan that begins in a block stands behind the head. -/
theorem column_pos_of_mem_outsides {s u : Scan} (hs : s.carry ≠ .nothing)
    (hu : u ∈ k.outsides s) : 0 < u.column := by
  have hstep : ∀ v w, 0 < v.column ∨ v.carry ≠ .nothing → k.Moves v w →
      0 < w.column ∨ w.carry ≠ .nothing := by
    intro v w _ hmoves
    have hlt := column_lt_of_moves hmoves
    exact Or.inl (by omega)
  have h := mem_outsides hstep (Or.inr hs) hu
  exact h.1.resolve_right (fun hne => hne h.2)

/-- A scan that begins in a string comes outside only when the string ends within. -/
theorem endsWithin_of_mem_outsides {u : Scan}
    (hu : u ∈ k.outsides (.start (.string m) line)) : m.EndsWithin line := by
  have hline : line ≠ [] := by
    rintro rfl
    rw [outsides_of_end (by simp [Bool.eq_false_iff, reaches_iff])] at hu
    cases hu
  have hreach : reaches (Scan.start (.string m) line).column
      (Scan.start (.string m) line).buffer = true := Scan.reaches_start.2 hline
  cases hcut : cut m.chars line with
  | none =>
    have hstops : k.Stops (.start (.string m) line) .code (.string m) :=
      .unclosed m (Or.inr rfl) (by rw [Scan.ahead_start, hcut])
    rw [outsides_of_stops hreach hstops] at hu
    simp at hu
  | some p =>
    refine Marker.endsWithin_iff.2 ⟨p.1, p.2, ?_, hcut⟩
    intro hnil
    have hahead : (Scan.start (.string m) line).ahead = (p.1 ++ m.chars) ++ p.2 := by
      rw [Scan.ahead_start, eq_append_of_cut hcut]
    rw [outsides_of_moves hreach (moves_start (Or.inr rfl) hcut),
      outsides_of_end (Bool.eq_false_iff.2 (mt (Scan.reaches_past_iff hahead _ _).1
        (not_not.2 hnil)))] at hu
    simp at hu

/-- A line that begins in an open string is comment when the string ends within it and
the line starts with a line comment. It is code unless the string ends within it and the
line, or what some passes of stripping leave of it, starts with a line comment. -/
theorem kind_of_open_string (k : Classifier) (m : Marker) (line : List Char) :
    (m.EndsWithin line → k.startsComment line = true →
      (k.classifyLine (.string m) line).1 = .comment) ∧
    (¬ (m.EndsWithin line ∧ ∃ n : ℕ, k.startsComment (k.stripper.strip^[n] line) = true) →
      (k.classifyLine (.string m) line).1 = .code) := by
  constructor
  · intro hends hline
    obtain ⟨before, rest, hrest, hcut⟩ := Marker.endsWithin_iff.1 hends
    have hahead : (Scan.start (.string m) line).ahead = (before ++ m.chars) ++ rest := by
      rw [Scan.ahead_start, eq_append_of_cut hcut]
    have hreach := (Scan.reaches_past_iff hahead (Carry.string m).kind .nothing).2 hrest
    rw [classifyLine_of_cut (Or.inr rfl) hcut,
      scan_of_stops hreach (.lineComment rfl (by simpa using hline))]
  · intro hno
    rw [classifyLine_eq, kind_scan]
    cases hlast : (k.outsides (.start (.string m) line)).getLast? with
    | none => rfl
    | some u =>
      have hu := List.mem_of_getLast? hlast
      have hcol := column_pos_of_mem_outsides (by simp) hu
      have hline : k.startsComment u.buffer = false := by
        rw [buffer_last_outside hlast]
        by_contra h
        exact hno ⟨endsWithin_of_mem_outsides hu, _, by simpa using h⟩
      simp [verdict, hline, Nat.ne_of_gt hcol]

/-- A template string that ends behind the mark of a line comment does not make its line
code. -/
theorem not_all_open_string_lines_code :
    ¬ ∀ d ∈ Catalog.definitions, ∀ (m : Marker) (line : List Char),
      ((ofDefinition d).classifyLine (.string m) line).1 = .code := by
  intro h
  have hscript : Catalog.definitions[1] ∈ Catalog.definitions := List.getElem_mem _
  have hline := h _ hscript ⟨"`".toList, by decide⟩ "// a` + b".toList
  revert hline
  decide +kernel

end Classifier

end LineCensus.Count
