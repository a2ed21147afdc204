import LineCensus.Proofs.Count.JoinedTexts
import LineCensus.Proofs.Text.Terminators

/-!
# No line is lost

Every line that a terminator ends counts once, as one of the three kinds. What stands behind
the last terminator is one line more, of the kind that it has after the lines before it; the
tally of these does not depend on whether it counts.
-/
namespace LineCensus.Count

open LineCensus.Text

theorem length_countedLines (text : List Char) :
    (countedLines text false).length = terminators text := by
  rw [countedLines_false, List.length_dropLast, length_splitLines, Nat.add_sub_cancel]

/-- With incomplete lines one more line counts, the last one. -/
theorem countedLines_true {text : List Char} (h : text ≠ []) :
    countedLines text true = countedLines text false ++ [lastLine text] := by
  rw [countedLines_of_ne_nil h, if_pos rfl, countedLines_false]
  exact splitLines_eq_concat text

namespace Classifier

theorem read_true (k : Classifier) {text : List Char} (h : text ≠ []) :
    k.read text true = k.readLine (k.read text false) (lastLine text) := by
  rw [read, countedLines_true h, readLines_append, readLines_cons, readLines_nil, read]

/-- Without incomplete lines the tally of a text has as many lines as the text has
terminators. With them it has one line more, which counts as the kind of the text behind the
last terminator after all lines before it. An empty text has none either way. -/
theorem total_count_eq_terminators (k : Classifier) (text : List Char) :
    (k.count text false).total = terminators text ∧
      (text ≠ [] →
        k.count text true = k.count text false +
          Tally.ofKind
            (k.classifyLine (k.read text false).carry (trimMargin (lastLine text))).1) ∧
      ∀ incomplete, k.count [] incomplete = 0 := by
  refine ⟨?_, fun h => ?_, k.count_nil⟩
  · rw [total_count, length_countedLines]
  · rw [count, read_true k h]
    rfl

/-- A comment that is open behind the last terminator makes a line of code one of comment. -/
theorem count_of_unended_comment :
    "x /* y\r\n\rz".toList ≠ [] ∧
      (ofDefinition Catalog.definitions[0]).count "x /* y\r\n\rz".toList true =
        (ofDefinition Catalog.definitions[0]).count "x /* y\r\n\rz".toList false +
          Tally.ofKind .comment := by
  have hne : "x /* y\r\n\rz".toList ≠ [] := by decide
  refine ⟨hne, ((total_count_eq_terminators _ _).2.1 hne).trans ?_⟩
  have hkind : ((ofDefinition Catalog.definitions[0]).classifyLine
      ((ofDefinition Catalog.definitions[0]).read "x /* y\r\n\rz".toList false).carry
      (trimMargin (lastLine "x /* y\r\n\rz".toList))).1 = .comment := by
    decide +kernel
  rw [hkind]

end Classifier

end LineCensus.Count
