import LineCensus.Proofs.Count.Lookout
import LineCensus.Proofs.Text.TidyText

/-!
# Blank lines

A line is blank when nothing of it is left without its margins and no block is open at its head.
A line that is read at all has a kind: in a block the one it begins with, which no turn takes
back, and outside all blocks the one that its turn gives it, even where stripping leaves nothing
or the block that opens has no closing token. So the blank lines of a text are those of its
lines that are all margin and begin outside all blocks.
-/
namespace LineCensus.Count

open LineCensus.Text

namespace Lookout

variable {k : Classifier} {s t : Lookout}

/-- A line that has a kind is not made blank. -/
theorem Goes.kind_ne_blank (h : s.Goes k t) (hs : s.kind ≠ .blank ∨ s.awaited = {}) :
    t.kind ≠ .blank := by
  cases h with
  | endComment place hopen hplace =>
    exact hs.resolve_right fun hnone => hopen (by rw [hnone])
  | endString place hcomment hopen hplace =>
    exact hs.resolve_right fun hnone => hopen (by rw [hnone])
  | opens o place kind hnone hopening hplace hkind => exact hkind

/-- A scan that has a byte ahead does not end blank, unless it begins so inside a block. -/
theorem kind_scan_ne_blank (hs : s.kind ≠ .blank ∨ s.awaited = {})
    (hreach : s.kind = .blank → s.column < byteLength s.buffer) : (s.scan k).1 ≠ .blank := by
  refine scan_induction (k := k) (P := fun s r => (s.kind ≠ .blank ∨ s.awaited = {}) →
    (s.kind = .blank → s.column < byteLength s.buffer) → r.1 ≠ .blank) ?_ ?_ ?_ s hs hreach
  · intro s hend _ hreach hkind
    exact hend (hreach hkind)
  · intro s r _ hturn hs _
    cases halts_of_turn hturn with
    | unclosed hopen => exact hs.resolve_right hopen
    | outside kind hnone hopening hkind => exact hkind
  · intro s t _ hturn ih hs _
    have hkind := (goes_of_turn hturn).kind_ne_blank hs
    exact ih (Or.inl hkind) fun hblank => absurd hblank hkind

theorem scan_start_nil (k : Classifier) (a : Awaited) : (start a []).scan k = (a.kind, a) :=
  scan_of_end (by simp [start])

/-- Whatever the two cells hold, a line is blank exactly when it is empty and they are too. -/
theorem kind_scan_start_eq_blank_iff (k : Classifier) (a : Awaited) (line : List Char) :
    ((start a line).scan k).1 = .blank ↔ line = [] ∧ a = {} := by
  by_cases hline : line = []
  · rw [hline, scan_start_nil, Awaited.kind_eq_blank_iff]
    simp
  · refine iff_of_false ?_ fun h => hline h.1
    refine kind_scan_ne_blank ?_ fun _ => byteLength_pos hline
    by_cases hnone : a = {}
    · exact Or.inr hnone
    · exact Or.inl (mt Awaited.kind_eq_blank_iff.1 hnone)

end Lookout

theorem Awaited.ofCarry_eq_empty_iff {carry : Carry} : ofCarry carry = {} ↔ carry = .nothing := by
  cases carry with
  | nothing => simp [ofCarry]
  | comment m => simp [ofCarry, m.chars_ne_nil]
  | string m => simp [ofCarry, m.chars_ne_nil]

namespace Classifier

theorem classifyLine_eq_blank_iff (k : Classifier) (carry : Carry) (line : List Char) :
    (k.classifyLine carry line).1 = .blank ↔ line = [] ∧ carry = .nothing := by
  have hscan := Lookout.kind_scan_start_eq_blank_iff k (.ofCarry carry) line
  rwa [Lookout.scan_start_ofCarry, Awaited.ofCarry_eq_empty_iff] at hscan

/-- Every line with the block that is open at its head. -/
def heads (k : Classifier) (carry : Carry) : List (List Char) → List (Carry × List Char)
  | [] => []
  | line :: lines =>
    (carry, line) :: k.heads (k.classifyLine carry (trimMargin line)).2 lines

/-- The line is all margin and begins outside all blocks. -/
def IsBlankHead (head : Carry × List Char) : Prop :=
  head.1 = .nothing ∧ ∀ c ∈ head.2, isMargin c = true

instance (head : Carry × List Char) : Decidable (IsBlankHead head) :=
  inferInstanceAs (Decidable (_ ∧ _))

/-- A line is recorded as blank exactly when it is all margin and begins outside all blocks. -/
theorem classifyLine_trimMargin_eq_blank_iff (k : Classifier) (carry : Carry)
    (line : List Char) :
    (k.classifyLine carry (trimMargin line)).1 = .blank ↔ IsBlankHead (carry, line) := by
  rw [classifyLine_eq_blank_iff, trimMargin_eq_nil_iff, and_comm]
  rfl

theorem blank_record (t : Tally) (kind : LineKind) :
    (t.record kind).blank = t.blank + if kind = .blank then 1 else 0 := by
  cases kind <;> rfl

/-- Some lines add to the blank lines as many as are blank where they stand. -/
theorem blank_readLines (k : Classifier) (r : Reading) (lines : List (List Char)) :
    (k.readLines r lines).tally.blank =
      r.tally.blank + (k.heads r.carry lines).countP fun head => IsBlankHead head := by
  induction lines generalizing r with
  | nil => rfl
  | cons line lines ih =>
    rw [readLines_cons, ih, readLine, heads, List.countP_cons, blank_record]
    simp only [classifyLine_trimMargin_eq_blank_iff, decide_eq_true_eq]
    omega

/-- A line is blank exactly when it is empty and no block is open at its head. An empty line in
an open comment is comment and one in an open string is code, and both leave the block open. The
same holds of a scan with two cells, whatever these hold. So the blank lines of a text are those
that are all margin and begin outside all blocks. -/
theorem blank_count_eq_countP_heads (k : Classifier) :
    (∀ carry line, (k.classifyLine carry line).1 = .blank ↔ line = [] ∧ carry = .nothing) ∧
      (∀ m, k.classifyLine (.comment m) [] = (.comment, .comment m)) ∧
      (∀ m, k.classifyLine (.string m) [] = (.code, .string m)) ∧
      (∀ a line, ((Lookout.start a line).scan k).1 = .blank ↔ line = [] ∧ a = {}) ∧
      (∀ a, (Lookout.start a []).scan k = (a.kind, a)) ∧
      ∀ text incomplete, (k.count text incomplete).blank =
        (k.heads .nothing (countedLines text incomplete)).countP fun head => IsBlankHead head := by
  refine ⟨k.classifyLine_eq_blank_iff, fun m => k.classifyLine_nil _,
    fun m => k.classifyLine_nil _, Lookout.kind_scan_start_eq_blank_iff k,
    Lookout.scan_start_nil k, ?_⟩
  intro text incomplete
  rw [count, read, blank_readLines]
  exact Nat.zero_add _

end Classifier

end LineCensus.Count
