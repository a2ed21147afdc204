import LineCensus.Proofs.Text.Lines
import LineCensus.Text.Blank
import Mathlib.Data.List.DropRight

/-!
# Tidy texts

A text is tidy when line feeds are its only terminators and no line has margins. Every text
can be made tidy, and its lines are then what they were, less their margins: what is left of a
line holds no terminator, so that the line feeds between the lines are found again.
-/
namespace LineCensus.Text

/-! ## Margins -/

theorem trimBy_eq_rdropWhile (p : Char → Bool) (s : List Char) :
    trimBy p s = (s.dropWhile p).rdropWhile p := rfl

/-- What has no characters of `p` at its ends keeps all it has. -/
theorem trimBy_trimBy (p : Char → Bool) (s : List Char) : trimBy p (trimBy p s) = trimBy p s := by
  have hfront : (trimBy p s).dropWhile p = trimBy p s := by
    rw [List.dropWhile_eq_self_iff]
    intro hpos
    -- the first character left was the first one behind the front margin
    have hbegins : trimBy p s <+: s.dropWhile p := List.rdropWhile_prefix p _
    rw [hbegins.getElem hpos]
    exact List.dropWhile_get_zero_not p s (hpos.trans_le hbegins.length_le)
  rw [trimBy_eq_rdropWhile p (trimBy p s), hfront, trimBy_eq_rdropWhile,
    List.rdropWhile_idempotent]

theorem trimBy_eq_nil_iff {p : Char → Bool} {s : List Char} :
    trimBy p s = [] ↔ ∀ c ∈ s, p c = true := by
  rw [trimBy_eq_rdropWhile, List.rdropWhile_eq_nil_iff]
  constructor
  · intro h
    have hfront : s.dropWhile p = [] := by
      by_contra hne
      have hpos := List.length_pos_iff.2 hne
      exact List.dropWhile_get_zero_not p s hpos (h _ (List.getElem_mem hpos))
    exact List.dropWhile_eq_nil_iff.1 hfront
  · intro h c hc
    exact h c ((List.dropWhile_suffix p).mem hc)

@[simp] theorem trimMargin_trimMargin (line : List Char) :
    trimMargin (trimMargin line) = trimMargin line := trimBy_trimBy isMargin line

/-- A line is empty without its margins exactly when it is all margin. -/
theorem trimMargin_eq_nil_iff {line : List Char} :
    trimMargin line = [] ↔ ∀ c ∈ line, isMargin c = true := trimBy_eq_nil_iff

/-! ## Terminators -/

/-- The text with a line feed for each of its terminators. -/
def withFeeds : List Char → List Char
  | [] => []
  | '\r' :: '\n' :: s => '\n' :: withFeeds s
  | c :: s => (if c = '\r' then '\n' else c) :: withFeeds s

/-- The lines of a text stand between the line feeds, once these are its only terminators. -/
theorem splitOn_withFeeds (text : List Char) :
    (withFeeds text).splitOn '\n' = splitLines text := by
  fun_induction withFeeds text with
  | case1 => rfl
  | case2 s ih =>
    rw [List.splitOn_cons_eq_if_modifyHead, ih]
    rfl
  | case3 c s hpair ih =>
    rw [List.splitOn_cons_eq_if_modifyHead, ih]
    by_cases hr : c = '\r'
    · subst hr
      rw [splitLines, splitLines, LineSplit.ofText_return fun t ht => hpair t rfl ht]
      rfl
    · by_cases hn : c = '\n'
      · subst hn
        rfl
      · rw [splitLines_cons hn hr]
        simp [hn, hr]

/-! ## Tidy texts -/

/-- The text with a line feed for each of its terminators, and no margins on the lines between
these. -/
def tidy (text : List Char) : List Char :=
  ['\n'].intercalate (((withFeeds text).splitOn '\n').map trimMargin)

/-- A tidy text has the lines of the text without their margins. -/
theorem splitLines_tidy (text : List Char) :
    splitLines (tidy text) = (splitLines text).map trimMargin := by
  rw [tidy, splitOn_withFeeds]
  refine splitLines_intercalate (by simp [splitLines_ne_nil]) ?_
  rw [List.forall_mem_map]
  intro line hline
  exact oneLine_infix (trimMargin_isInfix line) (oneLine_of_mem_splitLines hline)

/-- Nothing is left of a text exactly when it is one line that is all margin. -/
theorem tidy_eq_nil_iff {text : List Char} :
    tidy text = [] ↔ ∃ line, splitLines text = [line] ∧ trimMargin line = [] := by
  have hsplit := splitLines_tidy text
  constructor
  · intro h
    rw [h, splitLines_nil, eq_comm, List.map_eq_singleton_iff] at hsplit
    exact hsplit
  · rintro ⟨line, hline, htrim⟩
    rw [tidy, splitOn_withFeeds, hline, List.map_singleton, htrim]
    rfl

end LineCensus.Text
