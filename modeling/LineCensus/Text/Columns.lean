/-!
# Byte columns

A column counts the bytes of a line in UTF-8. A column that falls inside a character
stands for the next boundary between characters: searching from a column skips every
boundary before it.
-/
namespace LineCensus.Text

def byteLength (s : List Char) : Nat := s.foldr (fun c n => c.utf8Size + n) 0

@[simp] theorem byteLength_nil : byteLength [] = 0 := rfl

@[simp] theorem byteLength_cons (c : Char) (s : List Char) :
    byteLength (c :: s) = c.utf8Size + byteLength s := by simp [byteLength]

@[simp] theorem byteLength_append (s t : List Char) :
    byteLength (s ++ t) = byteLength s + byteLength t := by
  induction s with
  | nil => simp
  | cons c s ih => simp [ih, Nat.add_assoc]

theorem byteLength_pos {s : List Char} (h : s ≠ []) : 0 < byteLength s := by
  cases s with
  | nil => exact absurd rfl h
  | cons c s => have := c.utf8Size_pos; simp; omega

/-- The first boundary at or after `column`, and the text from there. The second number
is the column of the text's own first character. -/
def seek (column : Nat) : Nat → List Char → Nat × List Char
  | here, [] => (here, [])
  | here, c :: rest =>
    if column ≤ here then (here, c :: rest) else seek column (here + c.utf8Size) rest

theorem le_seek {column here : Nat} {s : List Char} (h : (seek column here s).2 ≠ []) :
    column ≤ (seek column here s).1 := by
  induction s generalizing here with
  | nil => exact absurd rfl h
  | cons c rest ih =>
    rw [seek] at h ⊢
    split
    · assumption
    · rw [if_neg (by assumption)] at h; exact ih h

/-- Whether a text that starts at column `here` has a byte behind `column`. -/
def reachesFrom (column : Nat) : Nat → List Char → Bool
  | _, [] => false
  | here, c :: rest =>
    column < here + c.utf8Size || reachesFrom column (here + c.utf8Size) rest

/-- Whether a text has a byte at a column. -/
def reaches (column : Nat) (s : List Char) : Bool := reachesFrom column 0 s

theorem reachesFrom_iff {column here : Nat} {s : List Char} :
    reachesFrom column here s = true ↔ s ≠ [] ∧ column < here + byteLength s := by
  induction s generalizing here with
  | nil => simp [reachesFrom]
  | cons c rest ih =>
    simp only [reachesFrom, Bool.or_eq_true, decide_eq_true_eq, ih, byteLength_cons, ne_eq,
      reduceCtorEq, not_false_eq_true, true_and]
    constructor
    · rintro (h | ⟨-, h⟩) <;> omega
    · intro h
      by_cases hr : rest = []
      · subst hr; simp only [byteLength_nil] at h; omega
      · exact Or.inr ⟨hr, by omega⟩

theorem reaches_iff {column : Nat} {s : List Char} :
    reaches column s = true ↔ column < byteLength s := by
  rw [reaches, reachesFrom_iff, Nat.zero_add, and_iff_right_iff_imp]
  rintro h rfl
  simp at h

/-- The column where `needle` first begins; the text itself starts at column `here`. -/
def occurrenceAt (needle : List Char) (here : Nat) : List Char → Option Nat
  | [] => if needle.isEmpty then some here else none
  | c :: rest =>
    if needle.isPrefixOf (c :: rest) then some here
    else occurrenceAt needle (here + c.utf8Size) rest

theorem le_of_occurrenceAt {needle : List Char} {here found : Nat} {s : List Char}
    (h : occurrenceAt needle here s = some found) : here ≤ found := by
  induction s generalizing here with
  | nil => simp only [occurrenceAt] at h; split at h <;> simp_all
  | cons c rest ih =>
    simp only [occurrenceAt] at h
    split at h
    · simp_all
    · have := ih h; omega

/-- The first boundary at or after `column` where `needle` begins. -/
def occurrenceFrom (needle : List Char) (column : Nat) (s : List Char) : Option Nat :=
  let (here, ahead) := seek column 0 s
  occurrenceAt needle here ahead

theorem le_of_occurrenceFrom {needle : List Char} {column found : Nat} {s : List Char}
    (hn : needle ≠ []) (h : occurrenceFrom needle column s = some found) :
    column ≤ found := by
  unfold occurrenceFrom at h
  dsimp only at h
  by_cases hs : (seek column 0 s).2 = []
  · rw [hs, occurrenceAt, if_neg (by simpa using hn)] at h; cases h
  · exact Nat.le_trans (le_seek hs) (le_of_occurrenceAt h)

end LineCensus.Text
