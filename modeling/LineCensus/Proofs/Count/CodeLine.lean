import LineCensus.Language.Catalog
import LineCensus.Proofs.Count.Compiled

/-!
# Lines that begin outside all blocks

Such a line is scanned in turns outside, each of which strips the literals of what is
left of it. A line that starts with no comment token is still counted as comment when
the literals in front of one are gone: when its last turn finds a line comment at the
head of what is left, or its only turn a block comment.
-/
namespace LineCensus.Count.Classifier

open LineCensus.Text

variable {k : Classifier} {line : List Char}

/-- The first place outside is the head of the line, and the others lie behind it. -/
theorem outsides_start_nothing (k : Classifier) (hline : line ≠ []) :
    ∃ later, k.outsides (.start .nothing line) = .start .nothing line :: later ∧
      ∀ u ∈ later, 0 < u.column := by
  have hreach : reaches (Scan.start .nothing line).column
      (Scan.start .nothing line).buffer = true := Scan.reaches_start.2 hline
  cases hstep : k.step (.start .nothing line) with
  | done kind carry =>
    refine ⟨[], ?_, by simp⟩
    rw [outsides_of_stops hreach (step_eq_done_iff.1 hstep), Scan.carry_start, if_pos rfl]
  | next t =>
    have hmoves := step_eq_next_iff.1 hstep
    refine ⟨k.outsides t, ?_, ?_⟩
    · rw [outsides_of_moves hreach hmoves, Scan.carry_start, if_pos rfl]
      rfl
    · intro u hu
      have hpos : 0 < t.column := column_lt_of_moves hmoves
      have hgrow : ∀ v w : Scan, 0 < v.column → k.Moves v w → 0 < w.column := by
        intro v w hv hvw
        have hlt := column_lt_of_moves hvw
        omega
      exact (mem_outsides hgrow hpos hu).1

/-- A line that begins outside all blocks is comment when what is left of it at its last
turn starts with a line comment, or its only turn finds a block comment at the head. -/
theorem kind_eq_comment_iff (k : Classifier) (line : List Char) :
    (k.classifyLine .nothing line).1 = .comment ↔
      line ≠ [] ∧
        (k.startsComment (k.stripper.strip^[k.turns .nothing line - 1] line) = true ∨
          k.turns .nothing line = 1 ∧ k.opensComment (k.stripper.strip line) = true) := by
  by_cases hline : line = []
  · subst hline
    simp [Carry.kind]
  obtain ⟨later, hout, hpos⟩ := outsides_start_nothing k hline
  have hlast : (k.outsides (.start .nothing line)).getLast? =
      some ((Scan.start .nothing line :: later).getLast (by simp)) := by
    rw [hout, List.getLast?_eq_getLast_of_ne_nil]
  have hturns : k.turns .nothing line = later.length + 1 := by
    rw [turns, hout, List.length_cons]
  rw [classifyLine_eq, kind_scan, hlast, Option.map_some, Option.getD_some,
    verdict_eq_comment_iff, buffer_last_outside hlast, hturns]
  cases later with
  | nil => simp [hline, buffer_strip (k.sound_start .nothing line)]
  | cons v vs =>
    have hu := hpos _ (List.getLast_mem (l := v :: vs) (by simp))
    simp [hline, Nat.ne_of_gt hu]

/-- A line that begins outside all blocks and starts with no comment token is not comment
exactly when it has no literal to strip, or what is left of it at its last turn starts with
no line comment and, if that is its only turn, the stripped line with no block comment. -/
theorem kind_ne_comment_iff (d : LanguageDefinition) (line : List Char)
    (hline : ∀ c ∈ d.lineComments, ¬ c.toList <+: line)
    (hblock : ∀ b ∈ d.blockComments, b.start ≠ "" → ¬ b.start.toList <+: line) :
    ((ofDefinition d).classifyLine .nothing line).1 ≠ .comment ↔
      (ofDefinition d).stripper.strip line = line ∨
        (∀ c ∈ d.lineComments, ¬ c.toList <+:
          (ofDefinition d).stripper.strip^[(ofDefinition d).turns .nothing line - 1] line) ∧
        ((ofDefinition d).turns .nothing line = 1 → ∀ b ∈ d.blockComments, b.start ≠ "" →
          ¬ b.start.toList <+: (ofDefinition d).stripper.strip line) := by
  rw [Ne, kind_eq_comment_iff, startsComment_ofDefinition, opensComment_ofDefinition]
  constructor
  · intro hkind
    by_cases hstrip : (ofDefinition d).stripper.strip line = line
    · exact Or.inl hstrip
    · have hne : line ≠ [] := by
        rintro rfl
        exact hstrip (Stripper.strip_nil _)
      refine Or.inr ⟨?_, ?_⟩
      · intro c hc hprefix
        exact hkind ⟨hne, Or.inl ⟨c, hc, hprefix⟩⟩
      · intro hturns b hb hstart hprefix
        exact hkind ⟨hne, Or.inr ⟨hturns, b, hb, hstart, hprefix⟩⟩
  · rintro (hstrip | ⟨hcomments, hblocks⟩) ⟨-, ⟨c, hc, hprefix⟩ | ⟨hturns, b, hb, hstart, hprefix⟩⟩
    · rw [Stripper.iterate_strip_eq_self hstrip] at hprefix
      exact hline c hc hprefix
    · rw [hstrip] at hprefix
      exact hblock b hb hstart hprefix
    · exact hcomments c hc hprefix
    · exact hblocks hturns b hb hstart hprefix

/-- A call with a literal and an inline comment is no comment. -/
theorem kind_of_call_with_comment :
    (∀ c ∈ Catalog.definitions[0].lineComments, ¬ c.toList <+: "f(\"a\") /* b */ g".toList) ∧
    (∀ b ∈ Catalog.definitions[0].blockComments, b.start ≠ "" →
      ¬ b.start.toList <+: "f(\"a\") /* b */ g".toList) ∧
    ((ofDefinition Catalog.definitions[0]).classifyLine .nothing
      "f(\"a\") /* b */ g".toList).1 ≠ .comment := by
  have hline : ∀ c ∈ Catalog.definitions[0].lineComments,
      ¬ c.toList <+: "f(\"a\") /* b */ g".toList := by decide +kernel
  have hblock : ∀ b ∈ Catalog.definitions[0].blockComments, b.start ≠ "" →
      ¬ b.start.toList <+: "f(\"a\") /* b */ g".toList := by decide +kernel
  exact ⟨hline, hblock, (kind_ne_comment_iff _ _ hline hblock).2 (by decide +kernel)⟩

/-- A literal in front of a block comment is code, but its line counts as comment. -/
theorem not_all_code_lines_code :
    ¬ ∀ d ∈ Catalog.definitions, ∀ line : List Char,
      (∀ c ∈ d.lineComments, ¬ c.toList <+: line) →
      (∀ b ∈ d.blockComments, b.start ≠ "" → ¬ b.start.toList <+: line) →
      ((ofDefinition d).classifyLine .nothing line).1 ≠ .comment := by
  intro h
  have hcpp : Catalog.definitions[0] ∈ Catalog.definitions := List.getElem_mem _
  have hline := h _ hcpp "\"a\"/* b */".toList (by decide +kernel) (by decide +kernel)
  revert hline
  decide +kernel

end LineCensus.Count.Classifier
