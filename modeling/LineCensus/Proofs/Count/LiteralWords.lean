import LineCensus.Proofs.Count.Compiled
import Mathlib.Computability.Language

/-!
# The words of a literal

The literals of a pair of tokens are the words of a regular language. A line is cut from
left to right: where no word of any pair begins a character is kept, and where one begins
the first such pair takes its longest word. Stripping removes exactly the words so taken.
-/
namespace LineCensus

namespace Count

open scoped Computability

/-! ## Languages at the head of a text -/

/-- Some word of the language begins the text. -/
def Begins (l : Language Char) (s : List Char) : Prop := ∃ w ∈ l, w <+: s

/-- The longest word of the language that begins the text. -/
def Longest (l : Language Char) (s w : List Char) : Prop :=
  (w ∈ l ∧ w <+: s) ∧ ∀ v ∈ l, v <+: s → v.length ≤ w.length

/-- The longest word of the first language that has a word at the head of the text. -/
def Chosen (ls : List (Language Char)) (s w : List Char) : Prop :=
  ∃ before l after, ls = before ++ l :: after ∧ (∀ m ∈ before, ¬ Begins m s) ∧ Longest l s w

/-- A text cut from left to right into the words chosen where a language has a word, and
the single characters where none has. -/
inductive LeftmostCut (ls : List (Language Char)) : List Char → List Piece → Prop
  | nil : LeftmostCut ls [] []
  | literal {w s : List Char} {ps : List Piece} (hw : Chosen ls (w ++ s) w)
      (hs : LeftmostCut ls s ps) : LeftmostCut ls (w ++ s) (.literal w :: ps)
  | plain {c : Char} {s : List Char} {ps : List Piece} (hc : ∀ l ∈ ls, ¬ Begins l (c :: s))
      (hs : LeftmostCut ls s ps) : LeftmostCut ls (c :: s) (.plain c :: ps)

theorem Longest.begins {l : Language Char} {s w : List Char} (h : Longest l s w) : Begins l s :=
  ⟨w, h.1⟩

theorem Longest.eq {l : Language Char} {s v w : List Char} (hv : Longest l s v)
    (hw : Longest l s w) : v = w := by
  have hlen : v.length = w.length :=
    Nat.le_antisymm (hw.2 v hv.1.1 hv.1.2) (hv.2 w hw.1.1 hw.1.2)
  exact (List.prefix_of_prefix_length_le hv.1.2 hw.1.2 hlen.le).eq_of_length hlen

theorem Chosen.exists_begins {ls : List (Language Char)} {s w : List Char} (h : Chosen ls s w) :
    ∃ l ∈ ls, Begins l s := by
  obtain ⟨before, l, after, rfl, -, hl⟩ := h
  exact ⟨l, by simp, hl.begins⟩

theorem chosen_cons_of_longest {l : Language Char} (ls : List (Language Char)) {s w : List Char}
    (h : Longest l s w) : Chosen (l :: ls) s w :=
  ⟨[], l, ls, rfl, by simp, h⟩

theorem chosen_cons_iff {l : Language Char} {ls : List (Language Char)} {s w : List Char} :
    Chosen (l :: ls) s w ↔ Longest l s w ∨ ¬ Begins l s ∧ Chosen ls s w := by
  constructor
  · rintro ⟨before, m, after, hls, hbefore, hm⟩
    cases before with
    | nil =>
      obtain ⟨rfl, -⟩ := List.cons.inj hls
      exact Or.inl hm
    | cons k before =>
      obtain ⟨rfl, htail⟩ := List.cons.inj hls
      obtain ⟨hk, hbefore⟩ := List.forall_mem_cons.1 hbefore
      exact Or.inr ⟨hk, before, m, after, htail, hbefore, hm⟩
  · rintro (h | ⟨hl, before, m, after, rfl, hbefore, hm⟩)
    · exact chosen_cons_of_longest ls h
    · exact ⟨l :: before, m, after, rfl, List.forall_mem_cons.2 ⟨hl, hbefore⟩, hm⟩

theorem Chosen.eq {ls : List (Language Char)} {s v w : List Char} (hv : Chosen ls s v)
    (hw : Chosen ls s w) : v = w := by
  induction ls with
  | nil =>
    obtain ⟨l, hl, -⟩ := hv.exists_begins
    cases hl
  | cons l ls ih =>
    rcases chosen_cons_iff.1 hv with hv | ⟨hnot, hv⟩
    · rcases chosen_cons_iff.1 hw with hw | ⟨hnot, -⟩
      · exact hv.eq hw
      · exact absurd hv.begins hnot
    · rcases chosen_cons_iff.1 hw with hw | ⟨-, hw⟩
      · exact absurd hw.begins hnot
      · exact ih hv hw

/-- Where no language has the empty word, a text is cut in one way. -/
theorem LeftmostCut.eq {ls : List (Language Char)} (hls : ∀ l ∈ ls, [] ∉ l) {s : List Char}
    {ps qs : List Piece} (hp : LeftmostCut ls s ps) (hq : LeftmostCut ls s qs) : ps = qs := by
  induction hp generalizing qs with
  | nil =>
    generalize hs : ([] : List Char) = s at hq
    cases hq with
    | nil => rfl
    | literal hw _ =>
      obtain ⟨rfl, rfl⟩ := List.append_eq_nil_iff.1 hs.symm
      obtain ⟨before, l, after, rfl, -, hl⟩ := hw
      exact absurd hl.1.1 (hls l (by simp))
    | plain _ _ => cases hs
  | @literal w s ps hw _ ih =>
    generalize ht : w ++ s = t at hq hw
    cases hq with
    | nil =>
      obtain ⟨rfl, rfl⟩ := List.append_eq_nil_iff.1 ht
      obtain ⟨before, l, after, rfl, -, hl⟩ := hw
      exact absurd hl.1.1 (hls l (by simp))
    | @literal v u _ hv hs =>
      obtain rfl := hw.eq hv
      obtain rfl := List.append_cancel_left ht
      rw [ih hs]
    | plain hc _ =>
      obtain ⟨l, hl, hbegins⟩ := hw.exists_begins
      exact absurd hbegins (hc l hl)
  | @plain c s ps hc _ ih =>
    generalize ht : c :: s = t at hq hc
    cases hq with
    | nil => cases ht
    | literal hv _ =>
      obtain ⟨l, hl, hbegins⟩ := hv.exists_begins
      exact absurd hbegins (hc l hl)
    | plain _ hs =>
      obtain ⟨rfl, rfl⟩ := List.cons.inj ht
      rw [ih hs]

/-! ## Bodies -/

/-- What the body of a literal is made of: a backslash with any character behind it, and a
character that is neither a backslash nor in the closing token. -/
def bodyItems (closing : List Char) : Language Char :=
  {w | (∃ c, w = ['\\', c]) ∨ ∃ c, c ≠ '\\' ∧ c ∉ closing ∧ w = [c]}

/-- The texts left behind the bodies at the head of a text, the empty body first. -/
def bodyEnds (closing : List Char) : List Char → List (List Char)
  | [] => [[]]
  | [c] => [c] :: if c = '\\' ∨ c ∈ closing then [] else bodyEnds closing []
  | c :: d :: rest =>
    (c :: d :: rest) ::
      if c = '\\' then bodyEnds closing rest
      else if c ∈ closing then []
      else bodyEnds closing (d :: rest)

/-- A body is empty, or an item with a body behind it. -/
theorem exists_body_iff {closing s t : List Char} :
    (∃ b ∈ (bodyItems closing)∗, s = b ++ t) ↔
      s = t ∨
        ∃ i ∈ bodyItems closing, ∃ u, s = i ++ u ∧ ∃ b ∈ (bodyItems closing)∗, u = b ++ t := by
  constructor
  · rintro ⟨b, hb, rfl⟩
    rw [← Language.one_add_self_mul_kstar_eq_kstar, Language.mem_add] at hb
    rcases hb with hb | hb
    · rw [Language.mem_one] at hb
      exact Or.inl (by rw [hb, List.nil_append])
    · obtain ⟨i, hi, b', hb', rfl⟩ := Language.mem_mul.1 hb
      exact Or.inr ⟨i, hi, b' ++ t, by simp, b', hb', rfl⟩
  · rintro (rfl | ⟨i, hi, u, rfl, b, hb, rfl⟩)
    · exact ⟨[], Language.nil_mem_kstar _, rfl⟩
    · refine ⟨i ++ b, ?_, by simp⟩
      rw [← Language.one_add_self_mul_kstar_eq_kstar]
      exact Or.inr (Language.append_mem_mul hi hb)

theorem exists_item_cons_iff {closing s u : List Char} {c : Char} :
    (∃ i ∈ bodyItems closing, c :: s = i ++ u) ↔
      (c = '\\' ∧ ∃ d, s = d :: u) ∨ c ≠ '\\' ∧ c ∉ closing ∧ s = u := by
  constructor
  · rintro ⟨i, ⟨d, rfl⟩ | ⟨d, hd, hclosing, rfl⟩, hs⟩
    · obtain ⟨rfl, htail⟩ := List.cons.inj hs
      exact Or.inl ⟨rfl, d, htail⟩
    · obtain ⟨rfl, htail⟩ := List.cons.inj hs
      exact Or.inr ⟨hd, hclosing, htail⟩
  · rintro (⟨rfl, d, rfl⟩ | ⟨hc, hclosing, rfl⟩)
    · exact ⟨['\\', d], Or.inl ⟨d, rfl⟩, rfl⟩
    · exact ⟨[c], Or.inr ⟨c, hc, hclosing, rfl⟩, rfl⟩

/-- Behind one character a body goes on as its items do. -/
theorem exists_body_cons_iff {closing s t : List Char} {c : Char} :
    (∃ b ∈ (bodyItems closing)∗, c :: s = b ++ t) ↔
      c :: s = t ∨
        (c = '\\' ∧ ∃ d u, s = d :: u ∧ ∃ b ∈ (bodyItems closing)∗, u = b ++ t) ∨
        c ≠ '\\' ∧ c ∉ closing ∧ ∃ b ∈ (bodyItems closing)∗, s = b ++ t := by
  rw [exists_body_iff]
  refine or_congr_right ?_
  constructor
  · rintro ⟨i, hi, u, hs, hu⟩
    rcases exists_item_cons_iff.1 ⟨i, hi, hs⟩ with ⟨hc, d, rfl⟩ | ⟨hc, hclosing, rfl⟩
    · exact Or.inl ⟨hc, d, u, rfl, hu⟩
    · exact Or.inr ⟨hc, hclosing, hu⟩
  · rintro (⟨hc, d, u, rfl, hu⟩ | ⟨hc, hclosing, hu⟩)
    · obtain ⟨i, hi, hs⟩ := exists_item_cons_iff.2 (Or.inl ⟨hc, d, rfl⟩)
      exact ⟨i, hi, u, hs, hu⟩
    · obtain ⟨i, hi, hs⟩ := exists_item_cons_iff.2 (Or.inr ⟨hc, hclosing, rfl⟩)
      exact ⟨i, hi, s, hs, hu⟩

theorem exists_body_nil_iff {closing t : List Char} :
    (∃ b ∈ (bodyItems closing)∗, [] = b ++ t) ↔ t = [] := by
  constructor
  · rintro ⟨b, -, h⟩
    exact (List.append_eq_nil_iff.1 h.symm).2
  · rintro rfl
    exact ⟨[], Language.nil_mem_kstar _, rfl⟩

theorem mem_bodyEnds {closing s t : List Char} :
    t ∈ bodyEnds closing s ↔ ∃ b ∈ (bodyItems closing)∗, s = b ++ t := by
  fun_induction bodyEnds closing s with
  | case1 => rw [exists_body_nil_iff, List.mem_singleton]
  | case2 c ih =>
    rw [exists_body_cons_iff, List.mem_cons, exists_body_nil_iff, eq_comm]
    refine or_congr_right ?_
    by_cases hc : c = '\\' ∨ c ∈ closing
    · rw [if_pos hc]
      rcases hc with rfl | hc
      · simp
      · simp [hc]
    · rw [if_neg hc, ih, exists_body_nil_iff]
      simp [not_or.1 hc]
  | case3 c d rest ihEscaped ihPlain =>
    rw [exists_body_cons_iff, List.mem_cons, eq_comm]
    refine or_congr_right ?_
    by_cases hc : c = '\\'
    · rw [if_pos hc, ihEscaped]
      simp [hc, and_comm]
    · rw [if_neg hc]
      by_cases hclosing : c ∈ closing
      · simp [hc, hclosing]
      · rw [if_neg hclosing, ihPlain]
        simp [hc, hclosing]

/-- A later end leaves less of the text. -/
theorem pairwise_length_bodyEnds (closing s : List Char) :
    (bodyEnds closing s).Pairwise fun t u => u.length < t.length := by
  have hlater : ∀ c s, ∀ t ∈ bodyEnds closing s, t.length < (c :: s : List Char).length := by
    intro c s t ht
    obtain ⟨b, -, rfl⟩ := mem_bodyEnds.1 ht
    simp only [List.length_cons, List.length_append]
    omega
  fun_induction bodyEnds closing s with
  | case1 => exact List.pairwise_singleton _ _
  | case2 c ih =>
    split
    · exact List.pairwise_singleton _ _
    · exact List.Pairwise.cons (hlater c []) ih
  | case3 c d rest ihEscaped ihPlain =>
    split
    · exact List.Pairwise.cons
        (fun t ht => (hlater d rest t ht).trans (Nat.lt_succ_self _)) ihEscaped
    · split
      · exact List.pairwise_singleton _ _
      · exact List.Pairwise.cons (hlater c (d :: rest)) ihPlain

/-- The last end that passes a test leaves the least of all that pass it. -/
theorem length_le_of_find?_bodyEnds {closing s t : List Char} {p : List Char → Bool}
    (h : (bodyEnds closing s).reverse.find? p = some t) :
    t ∈ bodyEnds closing s ∧ p t = true ∧
      ∀ u ∈ bodyEnds closing s, p u = true → t.length ≤ u.length := by
  obtain ⟨hp, later, earlier, hsplit, hlater⟩ := List.find?_eq_some_iff_append.1 h
  have hpairwise := List.pairwise_reverse.2 (pairwise_length_bodyEnds closing s)
  rw [hsplit] at hpairwise
  have hearlier := (List.pairwise_cons.1 (List.pairwise_append.1 hpairwise).2.1).1
  refine ⟨?_, hp, fun u hu hpu => ?_⟩
  · rw [← List.mem_reverse, hsplit]
    simp
  · rw [← List.mem_reverse, hsplit, List.mem_append, List.mem_cons] at hu
    rcases hu with hu | rfl | hu
    · exact absurd hpu (by simpa using hlater u hu)
    · exact Nat.le_refl _
    · exact (hearlier u hu).le

/-- An opening token, a body and a closing token. -/
def literalWords (opening closing : List Char) : Language Char :=
  {opening} * (bodyItems closing)∗ * {closing}

theorem mem_literalWords {opening closing w : List Char} :
    w ∈ literalWords opening closing ↔
      ∃ b ∈ (bodyItems closing)∗, w = opening ++ b ++ closing := by
  simp only [literalWords, Language.mem_mul]
  constructor
  · rintro ⟨_, ⟨_, rfl, b, hb, rfl⟩, _, rfl, rfl⟩
    exact ⟨b, hb, rfl⟩
  · rintro ⟨b, hb, rfl⟩
    exact ⟨_, ⟨_, rfl, b, hb, rfl⟩, _, rfl, rfl⟩

namespace Enclosure

/-- The search keeps the last end of a body at which the closing token stands. -/
theorem afterClosing_eq (closing : List Char) (found : Option (List Char)) (s : List Char) :
    afterClosing closing found s =
      (((bodyEnds closing s).reverse.find? closing.isPrefixOf).map
        (·.drop closing.length)).or found := by
  have hcons : ∀ t ts found, ((List.find? closing.isPrefixOf ts.reverse).map
      (·.drop closing.length)).or (closedHere closing t found) =
        ((List.find? closing.isPrefixOf (t :: ts).reverse).map
          (·.drop closing.length)).or found := by
    intro t ts found
    rw [List.reverse_cons, List.find?_append, closedHere]
    cases List.find? closing.isPrefixOf ts.reverse with
    | some u => rfl
    | none => by_cases ht : closing.isPrefixOf t = true <;> simp [ht]
  fun_induction afterClosing closing found s with
  | case1 found => exact hcons [] [] found
  | case2 found c found' hc =>
    rw [bodyEnds, if_pos hc]
    exact hcons [c] [] found
  | case3 found c found' hc ih =>
    rw [ih, bodyEnds.eq_2, if_neg hc]
    exact hcons [c] _ found
  | case4 found d rest found' ih =>
    rw [ih, bodyEnds, if_pos rfl]
    exact hcons ('\\' :: d :: rest) _ found
  | case5 found c d rest found' hc hclosing =>
    rw [bodyEnds, if_neg hc, if_pos hclosing]
    exact hcons (c :: d :: rest) [] found
  | case6 found c d rest found' hc hclosing ih =>
    rw [ih, bodyEnds, if_neg hc, if_neg hclosing]
    exact hcons (c :: d :: rest) _ found

def words (e : Enclosure) : Language Char := literalWords e.opening.chars e.closing

theorem nil_notMem_words (e : Enclosure) : [] ∉ e.words := by
  intro h
  obtain ⟨b, -, hb⟩ := mem_literalWords.1 h
  exact e.opening.chars_ne_nil (by simp_all)

/-- A word begins a text exactly when behind the opening token some body ends where the
closing token stands. -/
theorem begins_words_iff {e : Enclosure} {s : List Char} :
    Begins e.words s ↔
      e.opening.begins s = true ∧
        ∃ t ∈ bodyEnds e.closing (s.drop e.opening.chars.length), e.closing <+: t := by
  constructor
  · rintro ⟨w, hw, u, rfl⟩
    obtain ⟨b, hb, rfl⟩ := mem_literalWords.1 hw
    refine ⟨List.isPrefixOf_iff_prefix.2 ⟨b ++ e.closing ++ u, by simp⟩, e.closing ++ u, ?_,
      by simp⟩
    exact mem_bodyEnds.2 ⟨b, hb, by simp⟩
  · rintro ⟨hopening, t, ht, u, rfl⟩
    obtain ⟨s, rfl⟩ := List.isPrefixOf_iff_prefix.1 hopening
    obtain ⟨b, hb, hs⟩ := mem_bodyEnds.1 ht
    rw [List.drop_left] at hs
    exact ⟨e.opening.chars ++ b ++ e.closing, mem_literalWords.2 ⟨b, hb, rfl⟩, u, by simp [hs]⟩

theorem rest?_eq_none_iff {e : Enclosure} {s : List Char} :
    e.rest? s = none ↔ ¬ Begins e.words s := by
  rw [begins_words_iff, rest?]
  by_cases hopening : e.opening.begins s = true
  · simp [hopening, afterClosing_eq]
  · simp [hopening]

/-- A literal is the longest word that begins the text. -/
theorem longest_of_rest? {e : Enclosure} {s t : List Char} (h : e.rest? s = some t) :
    ∃ w, s = w ++ t ∧ Longest e.words s w := by
  have hopening : e.opening.begins s = true := by
    by_contra hnot
    rw [rest?, if_neg hnot] at h
    cases h
  rw [rest?, if_pos hopening, afterClosing_eq, Option.or_none, Option.map_eq_some_iff] at h
  obtain ⟨s, rfl⟩ := List.isPrefixOf_iff_prefix.1 hopening
  rw [List.drop_left] at h
  obtain ⟨u, hfind, rfl⟩ := h
  obtain ⟨hend, hclosing, hleast⟩ := length_le_of_find?_bodyEnds hfind
  obtain ⟨t, rfl⟩ := List.isPrefixOf_iff_prefix.1 hclosing
  obtain ⟨b, hb, rfl⟩ := mem_bodyEnds.1 hend
  rw [List.drop_left]
  refine ⟨e.opening.chars ++ b ++ e.closing, by simp,
    ⟨mem_literalWords.2 ⟨b, hb, rfl⟩, t, by simp⟩, ?_⟩
  rintro v hv ⟨u, hu⟩
  obtain ⟨b', hb', rfl⟩ := mem_literalWords.1 hv
  have hrest : b ++ (e.closing ++ t) = b' ++ (e.closing ++ u) := by simpa using hu.symm
  have hle := hleast (e.closing ++ u) (mem_bodyEnds.2 ⟨b', hb', hrest⟩)
    (List.isPrefixOf_iff_prefix.2 (List.prefix_append _ _))
  have htotal := congrArg List.length hrest
  simp only [List.length_append] at hle htotal ⊢
  omega

end Enclosure

namespace Stripper

/-- The words of each enclosure, in the order in which they are tried. -/
def languages (p : Stripper) : List (Language Char) := p.enclosures.map Enclosure.words

theorem nil_notMem_languages (p : Stripper) : ∀ l ∈ p.languages, [] ∉ l := by
  intro l hl
  obtain ⟨e, -, rfl⟩ := List.mem_map.1 hl
  exact e.nil_notMem_words

theorem rest?_eq_none_iff {p : Stripper} {s : List Char} :
    p.rest? s = none ↔ ∀ l ∈ p.languages, ¬ Begins l s := by
  simp [rest?, languages, Enclosure.rest?_eq_none_iff]

theorem chosen_of_rest? {p : Stripper} {s t : List Char} (h : p.rest? s = some t) :
    ∃ w, s = w ++ t ∧ Chosen p.languages s w := by
  obtain ⟨before, e, after, hsplit, he, hbefore⟩ := List.findSome?_eq_some_iff.1 h
  obtain ⟨w, hs, hw⟩ := Enclosure.longest_of_rest? he
  refine ⟨w, hs, before.map Enclosure.words, e.words, after.map Enclosure.words, ?_, ?_, hw⟩
  · rw [languages, hsplit, List.map_append, List.map_cons]
  · intro l hl
    obtain ⟨e', he', rfl⟩ := List.mem_map.1 hl
    exact Enclosure.rest?_eq_none_iff.1 (hbefore e' he')

theorem leftmostCut_pieces (p : Stripper) (s : List Char) :
    LeftmostCut p.languages s (p.pieces s) := by
  induction hn : s.length using Nat.strong_induction_on generalizing s with
  | _ n ih =>
    subst hn
    cases s with
    | nil => rw [pieces_nil]; exact .nil
    | cons c s =>
      cases hrest : p.rest? (c :: s) with
      | some t =>
        have hcut := ih t.length (length_of_rest? hrest) t rfl
        obtain ⟨w, hs, hw⟩ := chosen_of_rest? hrest
        have htake : (c :: s).take ((c :: s).length - t.length) = w := by
          rw [hs]
          simp
        rw [pieces_of_rest? hrest, htake, hs]
        exact .literal (hs ▸ hw) hcut
      | none =>
        rw [pieces_of_no_rest hrest]
        exact .plain (rest?_eq_none_iff.1 hrest) (ih s.length (Nat.lt_succ_self _) s rfl)

theorem leftmostCut_iff {p : Stripper} {s : List Char} {ps : List Piece} :
    LeftmostCut p.languages s ps ↔ ps = p.pieces s := by
  constructor
  · exact fun h => h.eq p.nil_notMem_languages (p.leftmostCut_pieces s)
  · rintro rfl
    exact p.leftmostCut_pieces s

end Stripper

end Count

/-- The literals of a pair of tokens. -/
def Delimiters.words (d : Delimiters) : Language Char :=
  Count.literalWords d.start.toList d.stop.toList

namespace Count.Stripper

/-- The enclosures of pairs that all have an opening token have the words of the pairs. -/
theorem exists_compileFrom {pairs : List Delimiters} (h : ∀ d ∈ pairs, d.start ≠ "") (index : ℕ) :
    ∃ es, compileFrom index pairs = .ok es ∧
      es.map Enclosure.words = pairs.map Delimiters.words := by
  induction pairs generalizing index with
  | nil => exact ⟨[], rfl, rfl⟩
  | cons d pairs ih =>
    obtain ⟨hd, hpairs⟩ := List.forall_mem_cons.1 h
    obtain ⟨es, hes, hwords⟩ := ih hpairs (index + 1)
    cases hopening : Marker.ofString? d.start with
    | none =>
      exact absurd (String.toList_eq_nil_iff.1 (Marker.ofChars?_eq_none_iff.1 hopening)) hd
    | some opening =>
      refine ⟨⟨opening, d.stop.toList⟩ :: es, ?_, ?_⟩
      · rw [compileFrom, hopening, hes]
        rfl
      · rw [List.map_cons, List.map_cons, hwords, Enclosure.words, Delimiters.words,
          Marker.chars_of_ofString? hopening]

/-- The first pair without an opening token is named by its index. -/
theorem compileFrom_eq_error {pairs : List Delimiters} {i : ℕ}
    (h : pairs.findIdx? (·.start = "") = some i) (index : ℕ) :
    compileFrom index pairs = .error (.emptyStart (index + i)) := by
  induction pairs generalizing index i with
  | nil => cases h
  | cons d pairs ih =>
    rw [List.findIdx?_cons] at h
    split at h
    · rename_i hd
      cases h
      rw [compileFrom, of_decide_eq_true hd]
      rfl
    · rename_i hd
      obtain ⟨j, hj, rfl⟩ := Option.map_eq_some_iff.1 h
      cases hopening : Marker.ofString? d.start with
      | none =>
        have hempty := String.toList_eq_nil_iff.1 (Marker.ofChars?_eq_none_iff.1 hopening)
        exact absurd (decide_eq_true hempty) hd
      | some opening =>
        rw [compileFrom, hopening]
        dsimp only
        rw [ih hj, Nat.add_assoc, Nat.add_comm 1 j]
        rfl

theorem compile_eq_error_iff {pairs : List Delimiters} {fault : Fault} :
    compile pairs = .error fault ↔
      ∃ i, pairs.findIdx? (·.start = "") = some i ∧ fault = .emptyStart i := by
  cases hi : pairs.findIdx? (·.start = "") with
  | some i =>
    rw [compile, compileFrom_eq_error hi, Nat.zero_add]
    constructor
    · rintro h
      cases h
      exact ⟨i, rfl, rfl⟩
    · rintro ⟨j, hj, rfl⟩
      cases hj
      rfl
  | none =>
    have hne : ∀ d ∈ pairs, d.start ≠ "" := by simpa using hi
    obtain ⟨es, hes, -⟩ := exists_compileFrom hne 0
    rw [compile, hes]
    constructor
    · rintro h
      cases h
    · rintro ⟨i, h, -⟩
      cases h

theorem exists_compile {pairs : List Delimiters} (h : ∀ d ∈ pairs, d.start ≠ "") :
    ∃ p, compile pairs = .ok p ∧ p.languages = pairs.map Delimiters.words := by
  obtain ⟨es, hes, hwords⟩ := exists_compileFrom h 0
  exact ⟨⟨es⟩, by rw [compile, hes]; rfl, hwords⟩

/-- Pairs can be compiled unless one of them has no opening token, and the fault names the
first such pair. Compiled, they cut every line in one way, from left to right and at each
place by the longest word of the first pair that has one there; stripping takes these words
out and keeps all else. -/
theorem strip_eq_leftmost_removal (pairs : List Delimiters) :
    (∀ fault, compile pairs = .error fault ↔
        ∃ i, pairs.findIdx? (·.start = "") = some i ∧ fault = .emptyStart i) ∧
      ((∀ d ∈ pairs, d.start ≠ "") → ∃ p, compile pairs = .ok p ∧ ∀ line, ∃ ps,
        (∀ qs, LeftmostCut (pairs.map Delimiters.words) line qs ↔ qs = ps) ∧
          ps.flatMap Piece.text = line ∧ p.strip line = ps.flatMap Piece.kept) := by
  refine ⟨fun fault => compile_eq_error_iff, fun h => ?_⟩
  obtain ⟨p, hp, hwords⟩ := exists_compile h
  refine ⟨p, hp, fun line => ⟨p.pieces line, fun qs => ?_, ?_, ?_⟩⟩
  · rw [← hwords]
    exact leftmostCut_iff
  · exact p.flatMap_text_pieces line
  · exact p.strip_eq_flatMap_kept line

/-- Two kinds of quotes, the second of which begins within the first. -/
theorem strip_of_two_kinds_of_quotes :
    (∀ d ∈ [(⟨"@\"", "\"@"⟩ : Delimiters), ⟨"\"", "\""⟩], d.start ≠ "") ∧
      ∃ p, compile [⟨"@\"", "\"@"⟩, ⟨"\"", "\""⟩] = .ok p ∧
        p.strip "a @\"x\"@ + \"\\\"\" \"b".toList = "a  +  \"b".toList ∧
        ∀ line, ∃ ps,
          (∀ qs, LeftmostCut
            [Delimiters.words ⟨"@\"", "\"@"⟩, Delimiters.words ⟨"\"", "\""⟩] line qs ↔ qs = ps) ∧
          ps.flatMap Piece.text = line ∧ p.strip line = ps.flatMap Piece.kept := by
  have hne : ∀ d ∈ [(⟨"@\"", "\"@"⟩ : Delimiters), ⟨"\"", "\""⟩], d.start ≠ "" := by decide
  obtain ⟨p, hp, hcut⟩ := (strip_eq_leftmost_removal _).2 hne
  refine ⟨hne, p, hp, ?_, hcut⟩
  cases hp
  decide +kernel

end Count.Stripper

end LineCensus
