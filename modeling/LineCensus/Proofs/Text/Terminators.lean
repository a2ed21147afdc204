import LineCensus.Proofs.Text.Lines
import Mathlib.Data.List.DropRight

/-!
# Terminators of a text

A text has one line more than it has terminators, of which a carriage return and the line
feed behind it are one. Its last line is what stands behind the last terminator, the
longest end of the text without any.
-/
namespace LineCensus.Text

/-- How many terminators a text has: line feeds, carriage returns, and the two of them
together. -/
def terminators : List Char → ℕ
  | [] => 0
  | '\r' :: '\n' :: s => terminators s + 1
  | c :: s => (if c = '\n' ∨ c = '\r' then 1 else 0) + terminators s

/-- What stands behind the last terminator of a text. -/
def lastLine (text : List Char) : List Char := text.rtakeWhile fun c => c ≠ '\n' ∧ c ≠ '\r'

theorem length_rest_ofText (text : List Char) :
    (LineSplit.ofText text).rest.length = terminators text := by
  fun_induction terminators text with
  | case1 => rfl
  | case2 s ih => simpa [LineSplit.cons] using ih
  | case3 c s hpair ih =>
    by_cases hr : c = '\r'
    · subst hr
      rw [LineSplit.ofText_return fun t ht => hpair t rfl ht]
      simp [LineSplit.lines, ih, Nat.add_comm]
    · rw [LineSplit.ofText_cons, LineSplit.cons]
      by_cases hn : c = '\n'
      · simp [hn, ih, Nat.add_comm]
      · simp [hn, hr, ih]

theorem length_splitLines (text : List Char) :
    (splitLines text).length = terminators text + 1 := by
  rw [splitLines, LineSplit.lines, List.length_cons, length_rest_ofText]

theorem oneLine_lastLine (text : List Char) : OneLine (lastLine text) := by
  have hall : ∀ c ∈ lastLine text, c ≠ '\n' ∧ c ≠ '\r' := by
    intro c hc
    rw [lastLine] at hc
    simpa using List.mem_rtakeWhile_imp hc
  exact ⟨fun h => (hall _ h).1 rfl, fun h => (hall _ h).2 rfl⟩

/-- The last line of a text is what stands behind its last terminator. -/
theorem splitLines_eq_concat (text : List Char) :
    splitLines text = (splitLines text).dropLast ++ [lastLine text] := by
  set front := text.rdropWhile fun c => c ≠ '\n' ∧ c ≠ '\r' with hfront
  have hsplit : front ++ lastLine text = text := List.rdropWhile_append_rtakeWhile
  by_cases hnil : front = []
  · have hone : OneLine text := by
      rw [hnil, List.nil_append] at hsplit
      exact hsplit ▸ oneLine_lastLine text
    rw [hnil, List.nil_append] at hsplit
    rw [splitLines_of_oneLine hone, hsplit]
    rfl
  · have hlast : front.getLast hnil = '\n' ∨ front.getLast hnil = '\r' :=
      or_iff_not_and_not.2 fun h => List.rdropWhile_last_not _ text hnil (decide_eq_true h)
    have hends : EndsLine front (lastLine text) := by
      have hhead : (lastLine text).head? ≠ some '\n' := fun h =>
        (oneLine_lastLine text).1 (List.mem_of_head? h)
      rw [EndsLine, List.getLast?_eq_some_getLast hnil]
      exact hlast.imp (congrArg some) fun h => ⟨congrArg some h, hhead⟩
    have hlines : splitLines text = (splitLines front).dropLast ++ [lastLine text] := by
      rw [← splitLines_of_oneLine (oneLine_lastLine text), ← splitLines_append hends, hsplit]
    rw [hlines, List.dropLast_concat]

end LineCensus.Text
