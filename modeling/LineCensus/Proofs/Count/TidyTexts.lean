import LineCensus.Proofs.Count.JoinedTexts
import LineCensus.Proofs.Text.TidyText

/-!
# Counting tidy texts

A line is read without its margins and whatever ends it, so a text and the tidy text made of it
are read alike. Only a text of one line that is all margin is lost on the way: nothing is left
of it, and an empty text has no lines at all.
-/
namespace LineCensus.Count

open LineCensus.Text

theorem countedLines_tidy_false (text : List Char) :
    countedLines (tidy text) false = (countedLines text false).map trimMargin := by
  rw [countedLines_false, countedLines_false, splitLines_tidy, List.map_dropLast]

/-- With incomplete lines a tidy text has the lines of the text too, unless it is empty and the
text is not. -/
theorem countedLines_tidy_true {text : List Char} (h : text = [] ∨ tidy text ≠ []) :
    countedLines (tidy text) true = (countedLines text true).map trimMargin := by
  by_cases htext : text = []
  · rw [htext]
    rfl
  · have htidy : tidy text ≠ [] := h.resolve_left htext
    rw [countedLines_of_ne_nil htidy, countedLines_of_ne_nil htext, if_pos rfl, if_pos rfl,
      splitLines_tidy]

namespace Classifier

/-- Lines are read the same with and without their margins. -/
theorem readLines_map_trimMargin (k : Classifier) (r : Reading) (lines : List (List Char)) :
    k.readLines r (lines.map trimMargin) = k.readLines r lines := by
  have hline : ∀ (r : Reading) (line : List Char),
      k.readLine r (trimMargin line) = k.readLine r line := fun r line => by
    rw [readLine, trimMargin_trimMargin, readLine]
  rw [readLines, List.foldl_map, readLines]
  simp only [hline]

/-- A text that is one line, all margin, counts as one blank line if incomplete lines count. -/
theorem count_of_tidy_eq_nil (k : Classifier) {text : List Char} (hne : text ≠ [])
    (htidy : tidy text = []) : k.count text true = ⟨0, 0, 1⟩ := by
  obtain ⟨line, hline, htrim⟩ := tidy_eq_nil_iff.1 htidy
  rw [count, read, countedLines_of_ne_nil hne, if_pos rfl, hline, readLines_cons, readLines_nil,
    readLine, htrim, classifyLine_nil]
  rfl

/-- Making a text tidy does not change its count. With incomplete lines it does so only where
nothing is left of a text that was not empty: that text counts as one blank line, and the empty
one as none. -/
theorem count_tidy (k : Classifier) (text : List Char) :
    k.count (tidy text) false = k.count text false ∧
      (text = [] ∨ tidy text ≠ [] → k.count (tidy text) true = k.count text true) ∧
      (text ≠ [] → tidy text = [] →
        k.count text true = ⟨0, 0, 1⟩ ∧ k.count (tidy text) true = 0) := by
  refine ⟨?_, fun h => ?_, fun hne htidy => ⟨count_of_tidy_eq_nil k hne htidy, ?_⟩⟩
  · rw [count, read, countedLines_tidy_false, readLines_map_trimMargin]
    rfl
  · rw [count, read, countedLines_tidy_true h, readLines_map_trimMargin]
    rfl
  · rw [htidy, count_nil]

/-- A comment over three lines with a byte order mark and three sorts of terminator is counted
as its tidy text is, and a text that is all margin counts as one blank line. -/
theorem count_tidy_comment_and_margin :
    tidy "\uFEFF x /* y\r\n\t*/ z\r\u3000\n w".toList ≠ [] ∧
      (ofDefinition Catalog.definitions[0]).count
          (tidy "\uFEFF x /* y\r\n\t*/ z\r\u3000\n w".toList) true =
        (ofDefinition Catalog.definitions[0]).count
          "\uFEFF x /* y\r\n\t*/ z\r\u3000\n w".toList true ∧
      " \t\uFEFF".toList ≠ [] ∧ tidy " \t\uFEFF".toList = [] ∧
      (ofDefinition Catalog.definitions[0]).count " \t\uFEFF".toList true = ⟨0, 0, 1⟩ := by
  have htidy : tidy "\uFEFF x /* y\r\n\t*/ z\r\u3000\n w".toList ≠ [] := by decide +kernel
  have hne : " \t\uFEFF".toList ≠ [] := by decide
  have hmargin : tidy " \t\uFEFF".toList = [] := by decide +kernel
  exact ⟨htidy, (count_tidy _ _).2.1 (Or.inr htidy), hne, hmargin,
    ((count_tidy _ _).2.2 hne hmargin).1⟩

end Classifier

end LineCensus.Count
