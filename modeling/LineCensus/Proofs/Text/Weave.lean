import LineCensus.Proofs.Text.Slices

/-!
# Lines and what ends them

The lines of a text, with a terminator between each and the next, are the text again. One
choice of terminators does this, since a carriage return is never taken apart from the line
feed behind it, and no other lines do.
-/
namespace LineCensus.Text

/-- What ends a line. -/
inductive Terminator
  | feed
  | carriageReturn
  | pair
deriving DecidableEq, Repr

def Terminator.text : Terminator → List Char
  | feed => ['\n']
  | carriageReturn => ['\r']
  | pair => ['\r', '\n']

/-- Lines with a terminator between each and the next. -/
def weave : List (List Char) → List Terminator → List Char
  | [], _ => []
  | line :: _, [] => line
  | line :: lines, e :: ends => line ++ (e.text ++ weave lines ends)

/-- Somewhere a carriage return ends a line and a line feed the empty line behind it: the two
of them, which are one terminator, have been taken apart. -/
def SplitsPair (lines : List (List Char)) (ends : List Terminator) : Prop :=
  ∃ i : ℕ, ends[i]? = some .carriageReturn ∧ lines[i + 1]? = some [] ∧ ends[i + 1]? = some .feed

/-- Terminators that, one between each line and the next, make up the text with the lines, and
of which no two are a pair taken apart. -/
structure Weaves (lines : List (List Char)) (ends : List Terminator) (text : List Char) :
    Prop where
  length_eq : lines.length = ends.length + 1
  weave_eq : weave lines ends = text
  keeps_pairs : ¬ SplitsPair lines ends

variable {line text : List Char} {lines : List (List Char)} {e : Terminator}
  {ends : List Terminator}

theorem splitsPair_cons :
    SplitsPair (line :: lines) (e :: ends) ↔
      e = .carriageReturn ∧ lines.head? = some [] ∧ ends.head? = some .feed ∨
        SplitsPair lines ends := by
  rw [SplitsPair, ← Nat.or_exists_add_one]
  simp [SplitsPair, List.head?_eq_getElem?]

/-- Only the line feed behind an empty first line stands first. -/
theorem head?_weave_eq_feed_iff (h : ∀ line ∈ lines, OneLine line) :
    (weave lines ends).head? = some '\n' ↔
      lines.head? = some [] ∧ ends.head? = some .feed := by
  cases lines with
  | nil => simp [weave]
  | cons line lines =>
    have hline : line.head? ≠ some '\n' := fun hhead =>
      (h line List.mem_cons_self).1 (List.mem_of_head? hhead)
    cases ends with
    | nil => simpa [weave] using hline
    | cons e ends =>
      cases line with
      | nil => cases e <;> simp [weave, Terminator.text]
      | cons c line => simpa [weave] using hline

theorem weaves_singleton : Weaves [line] [] line :=
  ⟨rfl, rfl, by simp [SplitsPair]⟩

/-- A first line and its terminator can be put in front of a text and taken off again. -/
theorem weaves_cons_iff (h : ∀ line ∈ lines, OneLine line) :
    Weaves (line :: lines) (e :: ends) text ↔
      ∃ s, text = line ++ (e.text ++ s) ∧ (e = .carriageReturn → s.head? ≠ some '\n') ∧
        Weaves lines ends s := by
  constructor
  · rintro ⟨hlength, rfl, hpairs⟩
    rw [splitsPair_cons, not_or] at hpairs
    refine ⟨weave lines ends, rfl, fun he hhead => ?_, by simpa using hlength, rfl, hpairs.2⟩
    exact hpairs.1 ⟨he, (head?_weave_eq_feed_iff h).1 hhead⟩
  · rintro ⟨s, rfl, hreturn, hlength, rfl, hpairs⟩
    refine ⟨by simpa using hlength, rfl, ?_⟩
    rw [splitsPair_cons, not_or]
    exact ⟨fun hsplit => hreturn hsplit.1 ((head?_weave_eq_feed_iff h).2 hsplit.2), hpairs⟩

/-- A character more in the first line is one more in front of the text. -/
theorem Weaves.modifyHead (h : Weaves lines ends text) (c : Char) :
    Weaves (lines.modifyHead (c :: ·)) ends (c :: text) := by
  obtain ⟨hlength, rfl, hpairs⟩ := h
  cases lines with
  | nil => simp at hlength
  | cons line lines => cases ends <;> exact ⟨hlength, rfl, hpairs⟩

/-! ## The terminators of a text -/

/-- The terminators of a text, in their order. -/
def lineEnds : List Char → List Terminator
  | [] => []
  | '\r' :: '\n' :: s => .pair :: lineEnds s
  | c :: s =>
    if c = '\n' then .feed :: lineEnds s
    else if c = '\r' then .carriageReturn :: lineEnds s
    else lineEnds s

theorem lineEnds_cons {c : Char} (hn : c ≠ '\n') (hr : c ≠ '\r') (text : List Char) :
    lineEnds (c :: text) = lineEnds text := by
  rw [lineEnds]
  · rw [if_neg hn, if_neg hr]
  · exact fun _ hc => absurd hc hr

theorem lineEnds_oneLine_append (h : OneLine line) (text : List Char) :
    lineEnds (line ++ text) = lineEnds text := by
  induction line with
  | nil => rfl
  | cons c line ih =>
    simp only [OneLine, List.mem_cons, not_or] at h ih
    rw [List.cons_append, lineEnds_cons (Ne.symm h.1.1) (Ne.symm h.2.1), ih ⟨h.1.2, h.2.2⟩]

/-- A terminator in front of a text is one more, unless it is a carriage return that a line
feed follows. -/
theorem lineEnds_text_append (h : e = .carriageReturn → text.head? ≠ some '\n') :
    lineEnds (e.text ++ text) = e :: lineEnds text := by
  cases e with
  | feed => rfl
  | pair => rfl
  | carriageReturn =>
    have hfeed := h rfl
    rw [Terminator.text, List.singleton_append, lineEnds]
    · rfl
    · -- not the first part of a pair
      rintro s - rfl
      exact hfeed rfl

theorem splitLines_text_append (h : e = .carriageReturn → text.head? ≠ some '\n') :
    splitLines (e.text ++ text) = [] :: splitLines text := by
  cases e with
  | feed => rfl
  | pair => rfl
  | carriageReturn =>
    have hfeed : ∀ rest, text ≠ '\n' :: rest := by
      rintro rest rfl
      exact h rfl rfl
    rw [Terminator.text, List.singleton_append, splitLines, LineSplit.ofText_return hfeed]
    rfl

/-! ## The text of its lines -/

/-- What makes up a text still does with a terminator in front. -/
theorem Weaves.text_append (hweaves : Weaves (splitLines text) (lineEnds text) text)
    (h : e = .carriageReturn → text.head? ≠ some '\n') :
    Weaves (splitLines (e.text ++ text)) (lineEnds (e.text ++ text)) (e.text ++ text) := by
  rw [splitLines_text_append h, lineEnds_text_append h]
  exact (weaves_cons_iff fun _ => oneLine_of_mem_splitLines).2 ⟨text, rfl, h, hweaves⟩

/-- The lines of a text and its terminators make it up. -/
theorem weaves_splitLines (text : List Char) : Weaves (splitLines text) (lineEnds text) text := by
  induction text using lineEnds.induct with
  | case1 => exact weaves_singleton
  | case2 s ih => exact ih.text_append (e := .pair) nofun
  | case3 s hpair ih => exact ih.text_append (e := .feed) nofun
  | case4 s hpair hn ih =>
    refine ih.text_append (e := .carriageReturn) fun _ hhead => ?_
    obtain ⟨rest, hrest⟩ := List.head?_eq_some_iff.1 hhead
    exact hpair rest rfl hrest
  | case5 c s hpair hn hr ih =>
    rw [splitLines_cons hn hr, lineEnds_cons hn hr]
    exact ih.modifyHead c

/-- Only the lines of a text and its terminators make it up, where no line holds a
terminator. -/
theorem Weaves.eq (h : Weaves lines ends text) (hlines : ∀ line ∈ lines, OneLine line) :
    lines = splitLines text ∧ ends = lineEnds text := by
  induction ends generalizing lines text with
  | nil =>
    -- no terminator: the text is its only line
    obtain ⟨line, rfl⟩ := List.length_eq_one_iff.1 h.length_eq
    obtain rfl : line = text := h.weave_eq
    have hline := hlines line (List.mem_singleton_self line)
    refine ⟨(splitLines_of_oneLine hline).symm, ?_⟩
    have hnone := lineEnds_oneLine_append hline []
    rw [List.append_nil] at hnone
    exact hnone.symm
  | cons e ends ih =>
    cases lines with
    | nil => exact absurd h.length_eq (by simp)
    | cons line lines =>
      obtain ⟨hline, hrest⟩ := List.forall_mem_cons.1 hlines
      obtain ⟨s, rfl, hreturn, hweaves⟩ := (weaves_cons_iff hrest).1 h
      obtain ⟨rfl, rfl⟩ := ih hweaves hrest
      rw [splitLines_oneLine_append hline, splitLines_text_append hreturn,
        lineEnds_oneLine_append hline, lineEnds_text_append hreturn]
      exact ⟨by simp, rfl⟩

/-- The search through the bytes of a text comes to an end with the lines of the text. There
is at least one, and none holds a terminator. One choice of terminators makes up the text with
the lines, and no other lines without terminators make it up with any. -/
theorem existsUnique_weaves_splitLines (text : List Char) :
    linesByBytes? text = some (splitLines text) ∧ splitLines text ≠ [] ∧
      (∀ line ∈ splitLines text, OneLine line) ∧
      (∃! ends, Weaves (splitLines text) ends text) ∧
      ∀ lines, lines = splitLines text ↔
        (∀ line ∈ lines, OneLine line) ∧ ∃ ends, Weaves lines ends text := by
  have hlines : ∀ line ∈ splitLines text, OneLine line := fun _ => oneLine_of_mem_splitLines
  refine ⟨linesByBytes?_eq text, splitLines_ne_nil text, hlines,
    ⟨lineEnds text, weaves_splitLines text, fun ends hends => (hends.eq hlines).2⟩,
    fun lines => ⟨?_, ?_⟩⟩
  · rintro rfl
    exact ⟨hlines, lineEnds text, weaves_splitLines text⟩
  · rintro ⟨hlines, ends, hends⟩
    exact (hends.eq hlines).1

/-- Of two carriage returns in front of a line feed the first is a terminator alone, and the
second one ends no line without the line feed. -/
theorem existsUnique_weaves_two_returns :
    ['a'] ∈ splitLines ['a', '\r', '\r', '\n'] ∧ OneLine ['a'] ∧
      Weaves [['a'], [], []] [.carriageReturn, .pair] ['a', '\r', '\r', '\n'] ∧
      (∃! ends, Weaves [['a'], [], []] ends ['a', '\r', '\r', '\n']) ∧
      ¬ ∃ ends, Weaves [['a'], [], [], []] ends ['a', '\r', '\r', '\n'] := by
  have hsplit : splitLines ['a', '\r', '\r', '\n'] = [['a'], [], []] := by decide
  obtain ⟨-, -, hlines, hunique, honly⟩ :=
    existsUnique_weaves_splitLines ['a', '\r', '\r', '\n']
  have hmem : ['a'] ∈ splitLines ['a', '\r', '\r', '\n'] := by decide
  have hweaves := weaves_splitLines ['a', '\r', '\r', '\n']
  rw [hsplit] at hunique hweaves
  refine ⟨hmem, hlines _ hmem, hweaves, hunique, fun hends => ?_⟩
  have heq := (honly [['a'], [], [], []]).2 ⟨by decide, hends⟩
  exact absurd heq (by decide)

end LineCensus.Text
