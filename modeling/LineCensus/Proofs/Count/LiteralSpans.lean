import LineCensus.Language.Catalog
import LineCensus.Proofs.Count.Compiled

/-!
# Where literals are removed

The literals of a line are stretches of it that do not touch one another. A place that
none of them crosses is a place where the line is cut in two, and what is removed behind
it does not depend on what stands before. A block's opening token at such a place stays
whole unless a literal begins behind its first character. None begins at that character,
since literals whose tokens overlap there have been dropped.
-/
namespace LineCensus.Count

open LineCensus.Text

/-- A stretch of a line, its ends in characters from the head. -/
structure Span where
  start : ℕ
  stop : ℕ
deriving DecidableEq, Repr

namespace Span

/-- The character at the place belongs to the stretch. -/
def Holds (s : Span) (place : ℕ) : Prop := s.start ≤ place ∧ place < s.stop

/-- The stretch begins before the place and ends behind it. -/
def Crosses (s : Span) (place : ℕ) : Prop := s.start < place ∧ place < s.stop

/-- The stretch has a character in common with the `length` characters at the place. -/
def Meets (s : Span) (place length : ℕ) : Prop := s.start < place + length ∧ place < s.stop

instance (s : Span) (place : ℕ) : Decidable (s.Holds place) :=
  inferInstanceAs (Decidable (_ ∧ _))

instance (s : Span) (place : ℕ) : Decidable (s.Crosses place) :=
  inferInstanceAs (Decidable (_ ∧ _))

instance (s : Span) (place length : ℕ) : Decidable (s.Meets place length) :=
  inferInstanceAs (Decidable (_ ∧ _))

end Span

/-- The characters that some pieces stand for. -/
def textLength (ps : List Piece) : ℕ := (ps.flatMap Piece.text).length

@[simp] theorem textLength_nil : textLength [] = 0 := rfl

@[simp] theorem textLength_cons (q : Piece) (ps : List Piece) :
    textLength (q :: ps) = q.text.length + textLength ps := by
  simp [textLength]

/-- The stretches of the literals among some pieces, the first of which stands at `here`. -/
def spansFrom (here : ℕ) : List Piece → List Span
  | [] => []
  | .literal text :: ps => ⟨here, here + text.length⟩ :: spansFrom (here + text.length) ps
  | .plain _ :: ps => spansFrom (here + 1) ps

theorem spansFrom_append (here : ℕ) (us vs : List Piece) :
    spansFrom here (us ++ vs) = spansFrom here us ++ spansFrom (here + textLength us) vs := by
  induction us generalizing here with
  | nil => rfl
  | cons q us ih =>
    cases q with
    | literal text => simp [spansFrom, ih, Piece.text, Nat.add_assoc]
    | plain c => simp [spansFrom, ih, Piece.text, Nat.add_assoc]

theorem spansFrom_plain (here : ℕ) (x : List Char) : spansFrom here (x.map .plain) = [] := by
  induction x generalizing here with
  | nil => rfl
  | cons c x ih => exact ih (here + 1)

theorem bounds_of_mem_spansFrom {here : ℕ} {ps : List Piece} {s : Span}
    (h : s ∈ spansFrom here ps) : here ≤ s.start ∧ s.stop ≤ here + textLength ps := by
  induction ps generalizing here with
  | nil => cases h
  | cons q ps ih =>
    cases q with
    | literal text =>
      rcases List.mem_cons.1 h with rfl | h
      · simp [Piece.text]
      · have hs := ih h
        simp only [textLength_cons, Piece.text]
        omega
    | plain c =>
      have hs := ih h
      simp only [textLength_cons, Piece.text, List.length_singleton]
      omega

namespace Stripper

variable {p : Stripper}

/-- The stretches of the line that are removed. -/
def spans (p : Stripper) (line : List Char) : List Span := spansFrom 0 (p.pieces line)

/-- Behind its first piece a line is cut as if it began there. -/
theorem exists_pieces_eq_tail {line : List Char} {q : Piece} {ps : List Piece}
    (h : p.pieces line = q :: ps) : ∃ t, ps = p.pieces t := by
  cases line with
  | nil => rw [pieces_nil] at h; cases h
  | cons c s =>
    cases hrest : p.rest? (c :: s) with
    | some t =>
      rw [pieces_of_rest? hrest] at h
      exact ⟨t, (List.cons.inj h).2.symm⟩
    | none =>
      rw [pieces_of_no_rest hrest] at h
      exact ⟨s, (List.cons.inj h).2.symm⟩

/-- The last pieces of a line are the pieces of their own text. -/
theorem eq_pieces_of_append {line : List Char} {us vs : List Piece}
    (h : p.pieces line = us ++ vs) : vs = p.pieces (vs.flatMap Piece.text) := by
  induction us generalizing line with
  | nil =>
    have hvs : p.pieces line = vs := h
    rw [← hvs, flatMap_text_pieces]
  | cons q us ih =>
    obtain ⟨t, ht⟩ := exists_pieces_eq_tail h
    exact ih ht.symm

/-- A place that no literal crosses lies between two pieces. -/
theorem exists_append_of_not_crosses {here : ℕ} {ps : List Piece} {q r : List Char}
    (htext : ps.flatMap Piece.text = q ++ r)
    (h : ∀ s ∈ spansFrom here ps, ¬ s.Crosses (here + q.length)) :
    ∃ us vs, ps = us ++ vs ∧ us.flatMap Piece.text = q ∧ vs.flatMap Piece.text = r := by
  induction ps generalizing here q with
  | nil =>
    obtain ⟨rfl, rfl⟩ : q = [] ∧ r = [] := List.append_eq_nil_iff.1 htext.symm
    exact ⟨[], [], rfl, rfl, rfl⟩
  | cons piece ps ih =>
    by_cases hq : q = []
    · subst hq
      exact ⟨[], piece :: ps, rfl, rfl, htext⟩
    · have hpos := List.length_pos_iff.2 hq
      rw [List.flatMap_cons] at htext
      -- the first piece begins before the place, so it ends there at the latest
      have hend : piece.text.length ≤ q.length := by
        cases piece with
        | literal w =>
          have hcross := h ⟨here, here + w.length⟩ (by simp [spansFrom])
          simp only [Span.Crosses] at hcross
          simp only [Piece.text]
          omega
        | plain c => exact hpos
      obtain ⟨q', rfl⟩ : piece.text <+: q :=
        List.prefix_of_prefix_length_le ⟨_, htext⟩ ⟨r, rfl⟩ hend
      rw [List.append_assoc] at htext
      have hrest : ∀ s ∈ spansFrom (here + piece.text.length) ps,
          ¬ s.Crosses (here + piece.text.length + q'.length) := by
        intro s hs
        rw [Nat.add_assoc, ← List.length_append]
        refine h s ?_
        cases piece with
        | literal w => exact List.mem_cons_of_mem _ hs
        | plain c => exact hs
      obtain ⟨us, vs, rfl, hus, hvs⟩ := ih (List.append_cancel_left htext) hrest
      exact ⟨piece :: us, vs, rfl, by rw [List.flatMap_cons, hus], hvs⟩

/-- Behind a place that no literal crosses, a line is cut as if it began there. -/
theorem exists_pieces_append {q r : List Char}
    (h : ∀ s ∈ p.spans (q ++ r), ¬ s.Crosses q.length) :
    ∃ us, p.pieces (q ++ r) = us ++ p.pieces r ∧ us.flatMap Piece.text = q := by
  have hcross : ∀ s ∈ spansFrom 0 (p.pieces (q ++ r)), ¬ s.Crosses (0 + q.length) := by
    simpa [spans] using h
  obtain ⟨us, vs, hsplit, hus, hvs⟩ :=
    exists_append_of_not_crosses (flatMap_text_pieces p (q ++ r)) hcross
  refine ⟨us, ?_, hus⟩
  rw [hsplit, eq_pieces_of_append hsplit, hvs]

/-- A text at none of whose characters a literal begins is left as it is. -/
theorem pieces_append_of_no_literal {x r : List Char}
    (h : ∀ i < x.length, p.rest? (x.drop i ++ r) = none) :
    p.pieces (x ++ r) = x.map .plain ++ p.pieces r := by
  induction x with
  | nil => rfl
  | cons c x ih =>
    have hhead : p.rest? (c :: (x ++ r)) = none := by simpa using h 0 (by simp)
    rw [List.cons_append, pieces_of_no_rest hhead, ih fun i hi => by
      simpa using h (i + 1) (by simpa using hi)]
    rfl

/-- No literal meets a text at the head of a line exactly when none begins at any of its
characters. -/
theorem not_meets_iff {here : ℕ} {x r : List Char} :
    (∀ s ∈ spansFrom here (p.pieces (x ++ r)), ¬ s.Meets here x.length) ↔
      ∀ i < x.length, p.rest? (x.drop i ++ r) = none := by
  constructor
  · intro h
    induction x generalizing here with
    | nil => simp
    | cons c x ih =>
      have hhead : p.rest? (c :: (x ++ r)) = none := by
        cases hrest : p.rest? (c :: (x ++ r)) with
        | none => rfl
        | some t =>
          -- a literal at the first character would meet the text
          have hlen := length_of_rest? hrest
          rw [List.cons_append, pieces_of_rest? hrest] at h
          have hmeets := h _ (by rw [spansFrom]; exact List.mem_cons_self)
          simp only [Span.Meets, List.length_take, List.length_cons] at hmeets hlen
          omega
      rw [List.cons_append, pieces_of_no_rest hhead] at h
      intro i hi
      cases i with
      | zero => simpa using hhead
      | succ i =>
        have hbehind : ∀ s ∈ spansFrom (here + 1) (p.pieces (x ++ r)),
            ¬ s.Meets (here + 1) x.length := by
          intro s hs
          have hmeets := h s hs
          simp only [Span.Meets, List.length_cons] at hmeets ⊢
          omega
        exact ih hbehind i (by simpa using hi)
  · intro h s hs
    rw [pieces_append_of_no_literal h, spansFrom_append, spansFrom_plain, List.nil_append] at hs
    have hstart := (bounds_of_mem_spansFrom hs).1
    have hlen : textLength (x.map .plain) = x.length := by
      rw [textLength, List.flatMap_map]
      simp [Piece.text]
    simp only [Span.Meets]
    omega

/-- A literal begins only where its opening token and the text there overlap. -/
theorem rest?_eq_none_of_not_overlap {t r : List Char}
    (h : ∀ e ∈ p.enclosures, overlap e.opening.chars t = false) : p.rest? (t ++ r) = none := by
  rw [rest?, List.findSome?_eq_none_iff]
  intro e he
  rw [Enclosure.rest?, if_neg]
  intro hbegins
  have hopening : e.opening.chars <+: t ++ r := List.isPrefixOf_iff_prefix.1 hbegins
  have hnot := h e he
  rcases List.prefix_or_prefix_of_prefix hopening (List.prefix_append t r) with hp | hp
  · simp [overlap, List.isPrefixOf_iff_prefix.2 hp] at hnot
  · simp [overlap, List.isPrefixOf_iff_prefix.2 hp] at hnot

/-- No removed stretch has a character of the token that stands between two texts. -/
def Spares (p : Stripper) (before token rest : List Char) : Prop :=
  ∀ s ∈ p.spans (before ++ token ++ rest), ¬ s.Meets before.length token.length

/-- No literal begins in the token, behind its first character, when `rest` follows it. -/
def ClearWithin (p : Stripper) (token rest : List Char) : Prop :=
  ∀ i < token.length, 0 < i → p.rest? (token.drop i ++ rest) = none

/-- The opening token of a literal and what is left of the token behind some of its first
characters overlap. -/
def OverlapsWithin (p : Stripper) (token : List Char) : Prop :=
  ∃ e ∈ p.enclosures, ∃ i < token.length, 0 < i ∧ overlap e.opening.chars (token.drop i) = true

instance (p : Stripper) (before token rest : List Char) :
    Decidable (p.Spares before token rest) :=
  inferInstanceAs (Decidable (∀ s ∈ p.spans (before ++ token ++ rest), _))

instance (p : Stripper) (token : List Char) : Decidable (p.OverlapsWithin token) :=
  inferInstanceAs (Decidable (∃ e ∈ p.enclosures, ∃ i < token.length, _))

theorem clearWithin_of_not_overlapsWithin {token : List Char} (h : ¬ p.OverlapsWithin token)
    (rest : List Char) : p.ClearWithin token rest := by
  intro i hi hpos
  refine rest?_eq_none_of_not_overlap fun e he => ?_
  by_contra hoverlap
  exact h ⟨e, he, i, hi, hpos, by simpa using hoverlap⟩

/-- At a place that no literal crosses, the characters of a token are spared exactly when
no literal begins at any of them. -/
theorem spares_iff {before token rest : List Char}
    (hcross : ∀ s ∈ p.spans (before ++ token ++ rest), ¬ s.Crosses before.length) :
    p.Spares before token rest ↔
      ∀ i < token.length, p.rest? (token.drop i ++ rest) = none := by
  rw [List.append_assoc] at hcross
  obtain ⟨us, hsplit, htext⟩ := exists_pieces_append hcross
  have hlen : textLength us = before.length := by rw [textLength, htext]
  have hspans : p.spans (before ++ token ++ rest) =
      spansFrom 0 us ++ spansFrom before.length (p.pieces (token ++ rest)) := by
    rw [spans, List.append_assoc, hsplit, spansFrom_append, hlen, Nat.zero_add]
  have hclear : (∀ s ∈ spansFrom before.length (p.pieces (token ++ rest)),
      ¬ s.Meets before.length token.length) ↔
        ∀ i < token.length, p.rest? (token.drop i ++ rest) = none := not_meets_iff
  rw [← hclear, Spares, hspans]
  constructor
  · intro h s hs
    exact h s (List.mem_append_right _ hs)
  · intro h s hs
    rcases List.mem_append.1 hs with hs | hs
    · have hstop := (bounds_of_mem_spansFrom hs).2
      simp only [Span.Meets]
      omega
    · exact h s hs

/-- A token that is spared stands in the stripped line. -/
theorem strip_of_spares {before token rest : List Char}
    (hcross : ∀ s ∈ p.spans (before ++ token ++ rest), ¬ s.Crosses before.length)
    (h : p.Spares before token rest) :
    ∃ head, head.Sublist before ∧
      p.strip (before ++ token ++ rest) = head ++ token ++ p.strip rest := by
  have hclear := (spares_iff hcross).1 h
  rw [List.append_assoc] at hcross
  obtain ⟨us, hsplit, htext⟩ := exists_pieces_append hcross
  refine ⟨us.flatMap Piece.kept, ?_, ?_⟩
  · rw [← htext]
    exact flatMap_kept_sublist us
  · have htoken : (token.map Piece.plain).flatMap Piece.kept = token := by
      rw [List.flatMap_map]
      simp [Piece.kept]
    rw [strip_eq_flatMap_kept, strip_eq_flatMap_kept, List.append_assoc, hsplit,
      pieces_append_of_no_literal hclear, List.flatMap_append, List.flatMap_append, htoken,
      List.append_assoc]

end Stripper

namespace Classifier

/-- No literal begins where a block opens. -/
theorem rest?_opening_eq_none {d : LanguageDefinition} {b : Block}
    (hb : b ∈ (ofDefinition d).blockComments ++ (ofDefinition d).blockStrings)
    (rest : List Char) : (ofDefinition d).stripper.rest? (b.openingChars ++ rest) = none :=
  Stripper.rest?_eq_none_of_not_overlap fun _ he => overlap_opening_eq_false he hb

/-- Where no literal that begins before a block's opening token reaches into it, the token
is spared exactly when no literal begins behind its first character. A definition in which
no literal's opening token overlaps there spares it on every line. A token that is spared
stands in the stripped line. -/
theorem spares_opening_iff (d : LanguageDefinition) (b : Block)
    (hb : b ∈ (ofDefinition d).blockComments ++ (ofDefinition d).blockStrings)
    (before rest : List Char)
    (hcross : ∀ s ∈ (ofDefinition d).stripper.spans (before ++ b.openingChars ++ rest),
      ¬ s.Crosses before.length) :
    ((ofDefinition d).stripper.Spares before b.openingChars rest ↔
        (ofDefinition d).stripper.ClearWithin b.openingChars rest) ∧
      (¬ (ofDefinition d).stripper.OverlapsWithin b.openingChars →
        (ofDefinition d).stripper.Spares before b.openingChars rest) ∧
      ((ofDefinition d).stripper.Spares before b.openingChars rest →
        ∃ head, head.Sublist before ∧
          (ofDefinition d).stripper.strip (before ++ b.openingChars ++ rest) =
            head ++ b.openingChars ++ (ofDefinition d).stripper.strip rest) := by
  have hiff : (ofDefinition d).stripper.Spares before b.openingChars rest ↔
      (ofDefinition d).stripper.ClearWithin b.openingChars rest := by
    rw [Stripper.spares_iff hcross]
    constructor
    · intro h i hi _
      exact h i hi
    · intro h i hi
      cases i with
      | zero => exact rest?_opening_eq_none hb rest
      | succ i => exact h (i + 1) hi (Nat.succ_pos i)
  refine ⟨hiff, fun hoverlap => ?_, Stripper.strip_of_spares hcross⟩
  exact hiff.2 (Stripper.clearWithin_of_not_overlapsWithin hoverlap rest)

/-- Behind two literals a block comment opens in front of a third. -/
theorem spares_opening_between_literals :
    (⟨⟨"/*".toList, by decide⟩, some ⟨"*/".toList, by decide⟩⟩ : Block) ∈
        (ofDefinition Catalog.definitions[1]).blockComments ++
          (ofDefinition Catalog.definitions[1]).blockStrings ∧
      (∀ s ∈ (ofDefinition Catalog.definitions[1]).stripper.spans
          ("f('a', \"/*\") ".toList ++ "/*".toList ++ "\"b\"".toList),
        ¬ s.Crosses "f('a', \"/*\") ".toList.length) ∧
      (ofDefinition Catalog.definitions[1]).stripper.Spares
        "f('a', \"/*\") ".toList "/*".toList "\"b\"".toList := by
  have hb : (⟨⟨"/*".toList, by decide⟩, some ⟨"*/".toList, by decide⟩⟩ : Block) ∈
      (ofDefinition Catalog.definitions[1]).blockComments ++
        (ofDefinition Catalog.definitions[1]).blockStrings := by decide +kernel
  have hcross : ∀ s ∈ (ofDefinition Catalog.definitions[1]).stripper.spans
      ("f('a', \"/*\") ".toList ++ "/*".toList ++ "\"b\"".toList),
      ¬ s.Crosses "f('a', \"/*\") ".toList.length := by decide +kernel
  exact ⟨hb, hcross, (spares_opening_iff _ _ hb _ _ hcross).2.1 (by decide +kernel)⟩

/-- The quote that ends a raw string's opening token begins a literal, which takes that
quote out of the token. -/
theorem not_all_openings_spared :
    ¬ ∀ d ∈ Catalog.definitions, (ofDefinition d).literalFault = none →
      ∀ b ∈ (ofDefinition d).blockComments ++ (ofDefinition d).blockStrings,
      ∀ before rest : List Char,
        (∀ s ∈ (ofDefinition d).stripper.spans (before ++ b.openingChars ++ rest),
          ¬ s.Holds before.length) →
        (ofDefinition d).stripper.Spares before b.openingChars rest := by
  intro h
  have hraw : Catalog.definitions[6] ∈ Catalog.definitions := List.getElem_mem _
  have hspared := h _ hraw (by decide +kernel)
    ⟨⟨"r#\"".toList, by decide⟩, some ⟨"\"#".toList, by decide⟩⟩ (by decide +kernel)
    [] "a\" b".toList (by decide +kernel)
  revert hspared
  decide +kernel

/-- Of the built-in languages two have such an opening token, that of a raw string. -/
example : (Catalog.definitions.filter fun d =>
    ((ofDefinition d).blockComments ++ (ofDefinition d).blockStrings).any fun b =>
      decide ((ofDefinition d).stripper.OverlapsWithin b.openingChars)).map (·.id) =
    ["cpp", "rust"] := by decide +kernel

end Classifier

end LineCensus.Count
