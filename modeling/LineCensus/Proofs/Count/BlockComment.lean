import LineCensus.Language.Catalog
import LineCensus.Proofs.Count.PlainScanner
import LineCensus.Proofs.Text.Lines

/-!
# Block comments over several lines

Inside an open comment a line is comment whatever it holds, and the comment stays open
until its closing token comes. So a block comment of any length is comment from its first
line to its last, once its opening token, on a line of its own, opens it. That fails only
where the token starts with the mark of a line comment, which is looked for first.
-/
namespace LineCensus.Count

open LineCensus.Text

/-- The lines of a block comment whose tokens stand on lines of their own. -/
def blockCommentLines (p : Delimiters) (body : List (List Char)) : List (List Char) :=
  p.start.toList :: body ++ [p.stop.toList]

namespace Classifier

variable {k : Classifier} {m : Marker}

/-- A line of an open block without its closing token keeps the kind it began with and
leaves the block open. -/
theorem classifyLine_of_not_isInfix {carry : Carry} {line : List Char}
    (hcarry : carry = .comment m ∨ carry = .string m) (h : ¬ m.chars <:+: line) :
    k.classifyLine carry line = (carry.kind, carry) := by
  by_cases hline : line = []
  · rw [hline, classifyLine_nil]
  · have hcut : cut m.chars (Scan.start carry line).ahead = none := by
      rw [Scan.ahead_start, cut_eq_none_iff]
      exact h
    rw [classifyLine_eq]
    exact scan_of_stops (Scan.reaches_start.2 hline) (.unclosed m hcarry hcut)

/-- The closing token alone ends its block with the line. -/
theorem classifyLine_closing {carry : Carry}
    (hcarry : carry = .comment m ∨ carry = .string m) :
    k.classifyLine carry m.chars = (carry.kind, .nothing) := by
  have hcut : cut m.chars m.chars = some ([], []) :=
    cut_eq_some_iff.2 ⟨by simp, fun q _ => Nat.zero_le q.length⟩
  have hahead : (Scan.start carry m.chars).ahead = ([] ++ m.chars) ++ [] := by simp
  have hend : reaches ((Scan.start carry m.chars).past ([] ++ m.chars) carry.kind .nothing).column
      ((Scan.start carry m.chars).past ([] ++ m.chars) carry.kind .nothing).buffer = false :=
    Bool.eq_false_iff.2 (mt (Scan.reaches_past_iff hahead _ _).1 (by simp))
  rw [classifyLine_of_cut hcarry hcut, scan_of_end hend]
  rfl

/-- Every line of a comment's body is comment and leaves the comment open. -/
theorem readLines_of_open_comment (k : Classifier) (t : Tally) {body : List (List Char)}
    (h : ∀ line ∈ body, ¬ m.chars <:+: line) :
    k.readLines ⟨t, .comment m⟩ body = ⟨t + ⟨0, body.length, 0⟩, .comment m⟩ := by
  induction body generalizing t with
  | nil => exact congrArg (Reading.mk · _) (Tally.add_zero t).symm
  | cons line body ih =>
    have htrim : ¬ m.chars <:+: trimMargin line := fun hin =>
      h line (by simp) (hin.trans (trimMargin_isInfix line))
    have hline : k.readLine ⟨t, .comment m⟩ line = ⟨t.record .comment, .comment m⟩ := by
      rw [readLine, classifyLine_of_not_isInfix (Or.inl rfl) htrim]
      rfl
    rw [readLines_cons, hline, ih _ fun l hl => h l (by simp [hl]), Tally.record,
      Tally.add_assoc]
    congr 2
    ext <;> simp [Tally.ofKind, Nat.add_comm]

/-- A comment that is open behind the line of its opening token is comment down to the
line of its closing token, and ends there. -/
theorem readLines_blockComment {p : Delimiters} {body : List (List Char)}
    (hopen : k.readLine {} p.start.toList = ⟨⟨0, 1, 0⟩, .comment m⟩)
    (hstop : trimMargin p.stop.toList = m.chars) (h : ∀ line ∈ body, ¬ m.chars <:+: line) :
    k.readLines {} (blockCommentLines p body) = ⟨⟨0, body.length + 2, 0⟩, .nothing⟩ := by
  have hclose : ∀ t : Tally,
      k.readLine ⟨t, .comment m⟩ p.stop.toList = ⟨t.record .comment, .nothing⟩ := by
    intro t
    rw [readLine, hstop, classifyLine_closing (Or.inl rfl)]
    rfl
  rw [blockCommentLines, List.cons_append, readLines_cons, hopen, readLines_append,
    readLines_of_open_comment k _ h, readLines_cons, hclose, readLines_nil]
  congr 1
  ext <;> simp [Tally.record, Tally.ofKind]
  omega

/-- Where the opening token of a built-in block comment does not start with the mark of a
line comment, it opens the comment, and its closing token has no margins. -/
theorem readLine_opening_builtin :
    ∀ d ∈ Catalog.definitions, ∀ p ∈ d.blockComments,
      (∀ c ∈ d.lineComments, ¬ c.toList <+: p.start.toList) →
        p.stop ≠ "" ∧ OneLine p.start.toList ∧ OneLine p.stop.toList ∧
          trimMargin p.stop.toList = p.stop.toList ∧
          (ofDefinition d).readLine {} p.start.toList = ⟨⟨0, 1, 0⟩, openedBy .comment p⟩ := by
  decide +kernel

/-- A block comment of a built-in language, with its tokens on lines of their own, is
comment from the first line to the last and leaves nothing open, whatever its body holds,
exactly when its opening token does not start with the mark of a line comment. -/
theorem read_blockComment_iff {d : LanguageDefinition} (hd : d ∈ Catalog.definitions)
    {p : Delimiters} (hp : p ∈ d.blockComments) :
    (∀ body : List (List Char), (∀ line ∈ body, OneLine line ∧ ¬ p.stop.toList <:+: line) →
        (ofDefinition d).read (joinLines (blockCommentLines p body)) false =
          ⟨⟨0, body.length + 2, 0⟩, .nothing⟩) ↔
      ∀ c ∈ d.lineComments, ¬ c.toList <+: p.start.toList := by
  constructor
  · intro h
    -- a line comment at the opening token leaves the line of the closing token uncounted
    have hfails : ∀ d ∈ Catalog.definitions, ∀ p ∈ d.blockComments,
        (ofDefinition d).read (joinLines (blockCommentLines p [])) false =
          ⟨⟨0, 2, 0⟩, .nothing⟩ → ∀ c ∈ d.lineComments, ¬ c.toList <+: p.start.toList := by
      decide +kernel
    exact hfails d hd p hp (h [] (by simp))
  · intro hline body hbody
    obtain ⟨hne, hstart, hstop, htrim, hopen⟩ := readLine_opening_builtin d hd p hp hline
    have hstop_ne : p.stop.toList ≠ [] := mt String.toList_eq_nil_iff.1 hne
    have hmarker : Marker.ofString? p.stop = some ⟨p.stop.toList, hstop_ne⟩ := by
      rw [Marker.ofString?, Marker.ofChars?, dif_neg hstop_ne]
    rw [openedBy, hmarker] at hopen
    have hlines : ∀ line ∈ blockCommentLines p body, OneLine line := by
      simp only [blockCommentLines, List.mem_append, List.mem_cons, List.not_mem_nil, or_false]
      rintro line ((rfl | hl) | rfl)
      · exact hstart
      · exact (hbody line hl).1
      · exact hstop
    have hcounted : countedLines (joinLines (blockCommentLines p body)) false =
        blockCommentLines p body := by
      rw [countedLines, if_neg (by simp [blockCommentLines]), splitLines_joinLines hlines]
      simp
    rw [read, hcounted]
    exact readLines_blockComment hopen htrim fun line hl => (hbody line hl).2

/-- A comment of three quotes goes on over a blank line and a line that starts with the
other three and with the mark of a line comment. -/
theorem read_quoted_blockComment :
    Catalog.definitions[3] ∈ Catalog.definitions ∧
      (⟨"'''", "'''"⟩ : Delimiters) ∈ Catalog.definitions[3].blockComments ∧
      (ofDefinition Catalog.definitions[3]).read
          (joinLines (blockCommentLines ⟨"'''", "'''"⟩ ["".toList, "# \"\"\" 'a'".toList])) false =
        ⟨⟨0, 4, 0⟩, .nothing⟩ := by
  have hd : Catalog.definitions[3] ∈ Catalog.definitions := List.getElem_mem _
  have hp : (⟨"'''", "'''"⟩ : Delimiters) ∈ Catalog.definitions[3].blockComments := by
    decide +kernel
  exact ⟨hd, hp, (read_blockComment_iff hd hp).2 (by decide +kernel) _ (by decide +kernel)⟩

/-- The opening token of a style sheet's comments also marks a line comment, and so the
line of the closing token is code. -/
theorem not_all_blockComments_comment :
    ¬ ∀ d ∈ Catalog.definitions, ∀ p ∈ d.blockComments, ∀ body : List (List Char),
      (∀ line ∈ body, OneLine line ∧ ¬ p.stop.toList <:+: line) →
      (ofDefinition d).read (joinLines (blockCommentLines p body)) false =
        ⟨⟨0, body.length + 2, 0⟩, .nothing⟩ := by
  intro h
  have hstyle : Catalog.definitions[10] ∈ Catalog.definitions := List.getElem_mem _
  have hread := h _ hstyle Catalog.cBlock (by decide +kernel) [] (by simp)
  revert hread
  decide +kernel

end Classifier

end LineCensus.Count
