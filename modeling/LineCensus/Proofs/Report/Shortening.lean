import LineCensus.Report.Table
import Mathlib.Data.Nat.Notation

/-!
# Texts cut short

A text that is too long keeps its end and, if there is room for it beside the dots, its
beginning. The end may take half of the bound, and the beginning gives up the three characters
of the dots. A bound that is smaller than five leaves no room for dots and end together, and
there what is made of the text is longer than the bound.
-/
namespace LineCensus.Report

theorem truncateMiddle_of_le {s : String} {max : ℕ} (h : s.length ≤ max) :
    truncateMiddle s max = s := by
  rw [truncateMiddle, String.length_toList, if_pos h]

/-- What is left out lies between a beginning and an end. -/
theorem exists_truncateMiddle {s : String} {max : ℕ} (h : max < s.length) :
    ∃ start middle stop, s = start ++ middle ++ stop ∧
      truncateMiddle s max = start ++ "..." ++ stop ∧
      start.length = max / 2 - 3 ∧ stop.length = max / 2 := by
  have hlength : s.toList.length = s.length := String.length_toList
  let head := max / 2 - 3
  let behind := s.length - max / 2
  refine ⟨String.ofList (s.toList.take head),
    String.ofList ((s.toList.drop head).take (behind - head)),
    String.ofList (s.toList.drop behind), ?_, ?_, ?_, ?_⟩
  · -- the beginning is over before the end begins
    have hbehind : (s.toList.drop head).drop (behind - head) = s.toList.drop behind := by
      rw [List.drop_drop]
      congr 1
      omega
    rw [← String.toList_inj]
    simp only [String.toList_append, String.toList_ofList]
    rw [← hbehind, List.append_assoc, List.take_append_drop, List.take_append_drop]
  · rw [← String.toList_inj, truncateMiddle, hlength, if_neg (Nat.not_le.2 h)]
    simp [head, behind]
  · rw [String.length_ofList, List.length_take]
    omega
  · rw [String.length_ofList, List.length_drop]
    omega

theorem length_truncateMiddle {s : String} {max : ℕ} (h : max < s.length) :
    (truncateMiddle s max).length = max / 2 - 3 + 3 + max / 2 := by
  obtain ⟨start, middle, stop, -, htext, hstart, hstop⟩ := exists_truncateMiddle h
  rw [htext, String.length_append, String.length_append, hstart, hstop]
  rfl

theorem length_truncateMiddle_le_iff {s : String} {max : ℕ} :
    (truncateMiddle s max).length ≤ max ↔ s.length ≤ max ∨ 5 ≤ max := by
  by_cases hfits : s.length ≤ max
  · rw [truncateMiddle_of_le hfits]
    exact ⟨Or.inl, fun _ => hfits⟩
  · rw [length_truncateMiddle (Nat.not_le.1 hfits)]
    omega

/-- A text that fits is left as it is. One that is too long keeps a beginning and an end of it,
which do not meet, with dots between them; and that is within the bound if the bound is five or
more. -/
theorem truncateMiddle_spec (s : String) (max : ℕ) :
    (s.length ≤ max → truncateMiddle s max = s) ∧
      (max < s.length → ∃ start middle stop, s = start ++ middle ++ stop ∧
        truncateMiddle s max = start ++ "..." ++ stop ∧
        start.length = max / 2 - 3 ∧ stop.length = max / 2) ∧
      ((truncateMiddle s max).length ≤ max ↔ s.length ≤ max ∨ 5 ≤ max) :=
  ⟨truncateMiddle_of_le, exists_truncateMiddle, length_truncateMiddle_le_iff⟩

/-- With a bound of three there is room for the dots alone, but a character stands behind
them. -/
theorem not_all_shortened_texts_fit :
    ¬ ∀ (s : String) (max : ℕ), (truncateMiddle s max).length ≤ max := by
  intro h
  have hfits := h "abcd" 3
  revert hfits
  decide

end LineCensus.Report
