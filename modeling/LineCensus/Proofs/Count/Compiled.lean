import LineCensus.Proofs.Count.Verdict

/-!
# What a classifier takes from its definition

The compiled tokens are those of the definition, in the same order; a pair without an
opening token is left out, and one without a closing token opens nothing.
-/
namespace LineCensus.Count

open LineCensus.Text

theorem Marker.chars_of_ofString? {s : String} {m : Marker} (h : ofString? s = some m) :
    m.chars = s.toList := by
  unfold ofString? ofChars? at h
  split at h
  · cases h
  · cases h
    rfl

namespace Block

theorem ofDelimiters?_eq_none {d : Delimiters} (h : ofDelimiters? d = none) :
    d.start.toList = [] :=
  Marker.ofChars?_eq_none_iff.1 (Option.map_eq_none_iff.1 h)

theorem openingChars_of_ofDelimiters? {d : Delimiters} {b : Block}
    (h : ofDelimiters? d = some b) : b.openingChars = d.start.toList := by
  obtain ⟨m, hm, rfl⟩ := Option.map_eq_some_iff.1 h
  exact Marker.chars_of_ofString? hm

/-- The earliest opening token of the blocks is the earliest one of the pairs. -/
theorem earliest?_filterMap_ofDelimiters? (ds : List Delimiters) (s : List Char) :
    earliest? openingChars (ds.filterMap ofDelimiters?) s =
      (earliest? (fun d : Delimiters => d.start.toList) ds s).bind fun p =>
        (ofDelimiters? p.2.1).map fun b => (p.1, b, p.2.2) :=
  earliest?_filterMap (fun _ => ofDelimiters?_eq_none) (fun _ _ => openingChars_of_ofDelimiters?)
    ds s

end Block

namespace Stripper

/-- Every enclosure has been compiled from a pair, with that pair's opening token. -/
theorem exists_pair_of_compile {pairs : List Delimiters} {p : Stripper} {e : Enclosure}
    (h : compile pairs = .ok p) (he : e ∈ p.enclosures) :
    ∃ d ∈ pairs, d.start.toList = e.opening.chars := by
  have run : ∀ ds index es, compileFrom index ds = .ok es → e ∈ es →
      ∃ d ∈ ds, d.start.toList = e.opening.chars := by
    intro ds
    induction ds with
    | nil =>
      intro index es hes he
      cases hes
      cases he
    | cons d ds ih =>
      intro index es hes he
      rw [compileFrom] at hes
      split at hes
      · cases hes
      · rename_i opening hopening
        cases hrest : compileFrom (index + 1) ds with
        | error fault => rw [hrest] at hes; cases hes
        | ok es' =>
          rw [hrest] at hes
          cases hes
          rcases List.mem_cons.1 he with rfl | he
          · exact ⟨d, by simp, (Marker.chars_of_ofString? hopening).symm⟩
          · obtain ⟨d', hd', hstart⟩ := ih (index + 1) es' hrest he
            exact ⟨d', by simp [hd'], hstart⟩
  unfold compile at h
  cases hes : compileFrom 0 pairs with
  | error fault => rw [hes] at h; cases h
  | ok es =>
    rw [hes] at h
    cases h
    exact run pairs 0 es hes he

end Stripper

namespace Classifier

/-- No opening token of a literal is the beginning of a block's opening token, nor the
other way round: such literals have been dropped. -/
theorem overlap_opening_eq_false {d : LanguageDefinition} {e : Enclosure} {b : Block}
    (he : e ∈ (ofDefinition d).stripper.enclosures)
    (hb : b ∈ (ofDefinition d).blockComments ++ (ofDefinition d).blockStrings) :
    overlap e.opening.chars b.openingChars = false := by
  have hkept : ∀ pair ∈ d.lineStrings.filter (keepsLiteral
      ((ofDefinition d).blockComments ++ (ofDefinition d).blockStrings)),
      pair.start.toList = e.opening.chars → overlap e.opening.chars b.openingChars = false := by
    intro pair hpair hstart
    have hkeeps := (List.mem_filter.1 hpair).2
    have hne : pair.start.isEmpty = false := by
      rw [← Bool.not_eq_true, String.isEmpty_iff]
      intro hempty
      exact e.opening.chars_ne_nil (by rw [← hstart, hempty, String.toList_empty])
    rw [keepsLiteral, hne, Bool.false_or, Bool.not_eq_true', List.any_eq_false] at hkeeps
    rw [← hstart]
    exact Bool.eq_false_iff.2 (hkeeps b hb)
  rw [ofDefinition] at he
  dsimp only at he
  split at he
  · rename_i p hp
    obtain ⟨pair, hpair, hstart⟩ := Stripper.exists_pair_of_compile hp he
    exact hkept pair hpair hstart
  · cases he

theorem startsComment_ofDefinition_eq (d : LanguageDefinition) (line : List Char) :
    (ofDefinition d).startsComment line = d.lineComments.any (·.toList.isPrefixOf line) := by
  rw [startsComment, ofDefinition, List.any_map]
  rfl

theorem startsComment_ofDefinition {d : LanguageDefinition} {line : List Char} :
    (ofDefinition d).startsComment line = true ↔ ∃ c ∈ d.lineComments, c.toList <+: line := by
  simp [startsComment_ofDefinition_eq]

theorem opensComment_ofDefinition {d : LanguageDefinition} {line : List Char} :
    (ofDefinition d).opensComment line = true ↔
      ∃ b ∈ d.blockComments, b.start ≠ "" ∧ b.start.toList <+: line := by
  simp only [opensComment, List.any_eq_true, ofDefinition, List.mem_filterMap]
  constructor
  · rintro ⟨b, ⟨p, hp, hb⟩, hbegins⟩
    have hchars := Block.openingChars_of_ofDelimiters? hb
    refine ⟨p, hp, ?_, ?_⟩
    · intro hempty
      exact b.openingChars_ne_nil (by rw [hchars, hempty, String.toList_empty])
    · rw [← hchars]
      exact List.isPrefixOf_iff_prefix.1 hbegins
  · rintro ⟨p, hp, hne, hprefix⟩
    cases hb : Block.ofDelimiters? p with
    | none => exact absurd (String.toList_eq_nil_iff.1 (Block.ofDelimiters?_eq_none hb)) hne
    | some b =>
      rw [← Block.openingChars_of_ofDelimiters? hb] at hprefix
      exact ⟨b, ⟨p, hp, hb⟩, List.isPrefixOf_iff_prefix.2 hprefix⟩

end Classifier

end LineCensus.Count
