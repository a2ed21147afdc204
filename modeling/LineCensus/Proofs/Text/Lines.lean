import LineCensus.Text.Lines
import Mathlib.Data.List.Infix

/-!
# Lines of joined texts

A text that ends a line can be cut apart from whatever stands behind it: the empty line
after its last terminator is where the lines of the text behind begin. A carriage return
ends a line only where no line feed follows, since the two are one terminator.
-/
namespace LineCensus.Text

/-- The text `a`, in front of `b`, ends a line: its last character is a line feed, or a
carriage return that no line feed follows. -/
def EndsLine (a b : List Char) : Prop :=
  a.getLast? = some '\n' ∨ a.getLast? = some '\r' ∧ b.head? ≠ some '\n'

instance (a b : List Char) : Decidable (EndsLine a b) :=
  inferInstanceAs (Decidable (_ ∨ _))

namespace LineSplit

/-- The split of a part that ends a line, put in front of the split of another part. -/
def before (r s : LineSplit) : LineSplit :=
  ⟨r.line, r.rest.dropLast ++ s.lines, r.startsFeed⟩

theorem startsFeed_ofText_of_ne {text : List Char} (h : ∀ rest, text ≠ '\n' :: rest) :
    (ofText text).startsFeed = false := by
  rw [startsFeed_ofText, beq_eq_false_iff_ne]
  intro hhead
  obtain ⟨rest, hrest⟩ := List.head?_eq_some_iff.1 hhead
  exact h rest hrest

/-- A carriage return that no line feed follows is a terminator alone. -/
theorem ofText_return {text : List Char} (h : ∀ rest, text ≠ '\n' :: rest) :
    ofText ('\r' :: text) = ⟨[], (ofText text).lines, false⟩ := by
  simp [cons, startsFeed_ofText_of_ne h, lines]

theorem lines_before {r : LineSplit} (s : LineSplit) (h : r.rest ≠ []) :
    (r.before s).lines = r.lines.dropLast ++ s.lines := by
  rw [lines, lines, List.dropLast_cons_of_ne_nil h]
  rfl

theorem rest_cons_ne_nil (c : Char) {r : LineSplit} (h : r.rest ≠ []) :
    (cons c r).rest ≠ [] := by
  unfold cons
  split
  · simp
  · split
    · split <;> simp [h]
    · exact h

/-- What stands in front of a terminator does not touch what stands behind it. -/
theorem cons_before (c : Char) {r : LineSplit} (s : LineSplit) (h : r.rest ≠ []) :
    cons c (r.before s) = (cons c r).before s := by
  unfold cons before
  split
  · simp [List.dropLast_cons_of_ne_nil h]
  · split
    · split <;> simp [List.dropLast_cons_of_ne_nil h]
    · rfl

/-- The split of a joined text, when the first part ends a line. -/
theorem ofText_append {a b : List Char} (h : EndsLine a b) :
    (ofText a).rest ≠ [] ∧ ofText (a ++ b) = (ofText a).before (ofText b) := by
  induction a with
  | nil => simp [EndsLine] at h
  | cons c a ih =>
    by_cases ha : a = []
    · subst ha
      -- the terminator itself: a carriage return looks at the first character of `b`
      rcases h with h | ⟨h, hb⟩
      · obtain rfl : c = '\n' := by simpa using h
        exact ⟨by simp [cons], rfl⟩
      · obtain rfl : c = '\r' := by simpa using h
        have hfeed : (ofText b).startsFeed = false := by
          rw [startsFeed_ofText]
          simpa using hb
        simp [cons, before, start, lines, hfeed]
    · have hlast : (c :: a).getLast? = a.getLast? := by
        obtain ⟨d, l, rfl⟩ := List.exists_cons_of_ne_nil ha
        exact List.getLast?_cons_cons
      rw [EndsLine, hlast] at h
      obtain ⟨hrest, hsplit⟩ := ih h
      refine ⟨rest_cons_ne_nil c hrest, ?_⟩
      rw [List.cons_append, ofText_cons, hsplit, cons_before c _ hrest, ofText_cons]

end LineSplit

/-- The lines of a joined text are those of its two parts, when the first part ends a
line. -/
theorem splitLines_append {a b : List Char} (h : EndsLine a b) :
    splitLines (a ++ b) = (splitLines a).dropLast ++ splitLines b := by
  obtain ⟨hrest, hsplit⟩ := LineSplit.ofText_append h
  rw [splitLines, hsplit, LineSplit.lines_before _ hrest]
  rfl

/-! ## Texts made of lines -/

/-- A text without terminators. -/
def OneLine (line : List Char) : Prop := '\n' ∉ line ∧ '\r' ∉ line

instance (line : List Char) : Decidable (OneLine line) :=
  inferInstanceAs (Decidable (_ ∧ _))

theorem oneLine_append {s t : List Char} (hs : OneLine s) (ht : OneLine t) : OneLine (s ++ t) := by
  simp only [OneLine, List.mem_append, not_or]
  exact ⟨⟨hs.1, ht.1⟩, hs.2, ht.2⟩

theorem oneLine_flatMap {α : Type} {xs : List α} {f : α → List Char}
    (h : ∀ x ∈ xs, OneLine (f x)) : OneLine (xs.flatMap f) := by
  simp only [OneLine, List.mem_flatMap, not_exists, not_and]
  exact ⟨fun x hx => (h x hx).1, fun x hx => (h x hx).2⟩

theorem oneLine_singleton {s : List Char} (h : OneLine s) {c : Char} (hc : c ∈ s) :
    OneLine [c] := by
  have hn : '\n' ≠ c := fun heq => h.1 (heq ▸ hc)
  have hr : '\r' ≠ c := fun heq => h.2 (heq ▸ hc)
  simp [OneLine, hn, hr]

theorem oneLine_infix {s t : List Char} (h : s <:+: t) (ht : OneLine t) : OneLine s :=
  ⟨fun hs => ht.1 (h.mem hs), fun hs => ht.2 (h.mem hs)⟩

/-- The lines of a text hold none of its terminators. -/
theorem oneLine_of_mem_splitLines {text line : List Char} (h : line ∈ splitLines text) :
    OneLine line := by
  have hall : OneLine (LineSplit.ofText text).line ∧
      ∀ l ∈ (LineSplit.ofText text).rest, OneLine l := by
    clear h
    induction text with
    | nil => simp [LineSplit.start, OneLine]
    | cons c text ih =>
      obtain ⟨hline, hrest⟩ := ih
      have hnil : OneLine [] := by simp [OneLine]
      rw [LineSplit.ofText_cons, LineSplit.cons]
      split
      · exact ⟨hnil, List.forall_mem_cons.2 ⟨hline, hrest⟩⟩
      · split
        · split
          · exact ⟨hnil, hrest⟩
          · exact ⟨hnil, List.forall_mem_cons.2 ⟨hline, hrest⟩⟩
        · rename_i hn hr
          refine ⟨?_, hrest⟩
          simpa [OneLine, Ne.symm hn, Ne.symm hr] using hline
  exact List.forall_mem_cons.2 hall line h

/-- The text of some lines, each of which a line feed ends. -/
def joinLines (lines : List (List Char)) : List Char := lines.flatMap (· ++ ['\n'])

@[simp] theorem joinLines_nil : joinLines [] = [] := rfl

@[simp] theorem joinLines_cons (line : List Char) (lines : List (List Char)) :
    joinLines (line :: lines) = (line ++ ['\n']) ++ joinLines lines := rfl

theorem splitLines_cons {c : Char} (hn : c ≠ '\n') (hr : c ≠ '\r') (text : List Char) :
    splitLines (c :: text) = (splitLines text).modifyHead (c :: ·) := by
  simp [splitLines, LineSplit.cons, LineSplit.lines, hn, hr]

/-- A text without terminators lengthens the first line of what stands behind it. -/
theorem splitLines_oneLine_append {line : List Char} (h : OneLine line) (text : List Char) :
    splitLines (line ++ text) = (splitLines text).modifyHead (line ++ ·) := by
  induction line with
  | nil => exact (congrFun List.modifyHead_id _).symm
  | cons c line ih =>
    simp only [OneLine, List.mem_cons, not_or] at h ih
    rw [List.cons_append, splitLines_cons (Ne.symm h.1.1) (Ne.symm h.2.1), ih ⟨h.1.2, h.2.2⟩,
      List.modifyHead_modifyHead]
    rfl

theorem splitLines_of_oneLine {line : List Char} (h : OneLine line) : splitLines line = [line] := by
  have hsplit := splitLines_oneLine_append h []
  rwa [splitLines_nil, List.append_nil, List.modifyHead_cons, List.append_nil] at hsplit

theorem splitLines_oneLine {line : List Char} (h : OneLine line) :
    splitLines (line ++ ['\n']) = [line, []] := by
  rw [splitLines_oneLine_append h]
  simp [splitLines, LineSplit.cons, LineSplit.lines, LineSplit.start]

/-- The lines of a text made of lines are these, with an empty one after the last
terminator. -/
theorem splitLines_joinLines {lines : List (List Char)} (h : ∀ line ∈ lines, OneLine line) :
    splitLines (joinLines lines) = lines ++ [[]] := by
  induction lines with
  | nil => rfl
  | cons line lines ih =>
    have hends : EndsLine (line ++ ['\n']) (joinLines lines) := Or.inl (by simp)
    rw [joinLines_cons, splitLines_append hends, splitLines_oneLine (h line (by simp)),
      ih fun l hl => h l (by simp [hl])]
    rfl

/-- Lines with a line feed between one and the next are the lines of their text. -/
theorem splitLines_intercalate {lines : List (List Char)} (hne : lines ≠ [])
    (h : ∀ line ∈ lines, OneLine line) : splitLines (['\n'].intercalate lines) = lines := by
  induction lines with
  | nil => exact absurd rfl hne
  | cons line lines ih =>
    cases lines with
    | nil => simpa using splitLines_of_oneLine (h line (by simp))
    | cons next lines =>
      have hends : EndsLine (line ++ ['\n']) (['\n'].intercalate (next :: lines)) :=
        Or.inl (by simp)
      rw [List.intercalate_cons_cons, splitLines_append hends,
        splitLines_oneLine (h line (by simp)), ih (by simp) fun l hl => h l (by simp [hl])]
      rfl

end LineCensus.Text
