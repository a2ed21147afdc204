import LineCensus.Language.Catalog
import LineCensus.Proofs.Count.LiteralWords

/-!
# Stripping a line twice

Between tokens of one character a literal reaches to the next closing token, so it begins
wherever its opening token stands with the closing token somewhere behind. Taking characters
out of a line makes no new place of this kind, and a second pass finds nothing to take.
-/
namespace LineCensus

open LineCensus.Count
open scoped Computability

/-- A pair with an opening token of one character and a closing token of at most one. -/
def Delimiters.IsShort (d : Delimiters) : Prop := d.start.length = 1 ∧ d.stop.length ≤ 1

instance (d : Delimiters) : Decidable d.IsShort := inferInstanceAs (Decidable (_ ∧ _))

namespace Count

/-- Characters that are neither backslashes nor in the closing token make up a body. -/
theorem mem_kstar_bodyItems {closing s : List Char} (hs : ∀ c ∈ s, c ≠ '\\' ∧ c ∉ closing) :
    s ∈ (bodyItems closing)∗ := by
  rw [Language.mem_kstar]
  refine ⟨s.map ([·]), by rw [← List.flatMap_def, List.flatMap_singleton'], ?_⟩
  intro w hw
  obtain ⟨c, hc, rfl⟩ := List.mem_map.1 hw
  exact Or.inr ⟨c, (hs c hc).1, (hs c hc).2, rfl⟩

/-- A literal between short tokens begins where its opening token stands and its closing
token is somewhere behind. -/
theorem begins_words_cons_iff {d : Delimiters} (hd : d.IsShort) {c : Char} {s : List Char}
    (hs : '\\' ∉ s) :
    Begins d.words (c :: s) ↔ d.start.toList = [c] ∧ ∀ b ∈ d.stop.toList, b ∈ s := by
  obtain ⟨a, ha⟩ : ∃ a, d.start.toList = [a] := List.length_eq_one_iff.1 hd.1
  have hwords : d.words = literalWords [a] d.stop.toList := by rw [Delimiters.words, ha]
  rw [hwords, ha]
  constructor
  · rintro ⟨w, hw, u, hsplit⟩
    obtain ⟨t, -, rfl⟩ := mem_literalWords.1 hw
    obtain ⟨rfl, rfl⟩ := List.cons.inj hsplit
    exact ⟨rfl, fun b hb => by simp [hb]⟩
  · rintro ⟨hac, hstop⟩
    obtain ⟨rfl, -⟩ := List.cons.inj hac
    cases hclosing : d.stop.toList with
    | nil => exact ⟨[a], mem_literalWords.2 ⟨[], Language.nil_mem_kstar _, rfl⟩, s, rfl⟩
    | cons b tail =>
      have htail : tail = [] := by
        have hlen : d.stop.toList.length ≤ 1 := hd.2
        rw [hclosing, List.length_cons] at hlen
        exact List.length_eq_zero_iff.1 (by omega)
      rw [hclosing, htail] at hstop
      -- the body reaches to the first closing token
      obtain ⟨t, u, rfl, ht⟩ := List.eq_append_cons_of_mem (hstop b (by simp))
      refine ⟨a :: t ++ [b], mem_literalWords.2 ⟨t, mem_kstar_bodyItems ?_, by simp [htail]⟩, u,
        by simp⟩
      intro x hx
      rw [htail, List.mem_singleton]
      refine ⟨?_, ?_⟩
      · rintro rfl
        exact hs (by simp [hx])
      · rintro rfl
        exact ht hx

/-- Where no literal begins, none begins after characters further on have been taken out. -/
theorem not_begins_of_sublist {d : Delimiters} (hd : d.IsShort) {c : Char} {s t : List Char}
    (hs : '\\' ∉ s) (hsub : t.Sublist s) (h : ¬ Begins d.words (c :: s)) :
    ¬ Begins d.words (c :: t) := by
  have ht : '\\' ∉ t := fun hmem => hs (hsub.subset hmem)
  rw [begins_words_cons_iff hd hs] at h
  rw [begins_words_cons_iff hd ht]
  rintro ⟨hstart, hstop⟩
  exact h ⟨hstart, fun b hb => hsub.subset (hstop b hb)⟩

namespace Stripper

theorem strip_strip {p : Stripper} {pairs : List Delimiters}
    (hp : p.languages = pairs.map Delimiters.words) (hshort : ∀ d ∈ pairs, d.IsShort)
    {s : List Char} (hs : '\\' ∉ s) : p.strip (p.strip s) = p.strip s := by
  induction hn : s.length using Nat.strong_induction_on generalizing s with
  | _ n ih =>
    subst hn
    cases s with
    | nil => rw [strip_nil, strip_nil]
    | cons c s =>
      cases hrest : p.rest? (c :: s) with
      | some t =>
        have ht : '\\' ∉ t := fun hmem => hs ((suffix_of_rest? hrest).subset hmem)
        rw [strip_of_rest? hrest]
        exact ih t.length (length_of_rest? hrest) ht rfl
      | none =>
        have htail : '\\' ∉ s := fun hmem => hs (List.mem_cons_of_mem _ hmem)
        have hnone : p.rest? (c :: p.strip s) = none := by
          rw [rest?_eq_none_iff, hp, List.forall_mem_map] at hrest ⊢
          intro d hd
          exact not_begins_of_sublist (hshort d hd) htail (p.strip_sublist s) (hrest d hd)
        rw [strip_of_no_rest hrest, strip_of_no_rest hnone,
          ih s.length (Nat.lt_succ_self _) htail rfl]

end Stripper

namespace Classifier

/-- A stripper of short pairs takes nothing out of a stripped line, if the line has no
backslash. So in a scan of such a line every place outside all blocks but the first finds the
stripped line, and stripping leaves that as it is. The literals of all built-in languages
stand between short pairs. -/
theorem strip_strip_of_short (pairs : List Delimiters) (p : Stripper)
    (hp : Stripper.compile pairs = .ok p) (hshort : ∀ d ∈ pairs, d.IsShort) (line : List Char)
    (hline : '\\' ∉ line) :
    p.strip (p.strip line) = p.strip line ∧
      (∀ k : Classifier, k.stripper = p → ∀ carry i u,
        (k.outsides (.start carry line))[i + 1]? = some u →
          u.buffer = p.strip line ∧ (k.strip u).buffer = u.buffer) ∧
      ∀ d ∈ Catalog.definitions, ∀ q ∈ d.lineStrings, q.IsShort := by
  have hne : ∀ d ∈ pairs, d.start ≠ "" := by
    intro d hd hempty
    have hlen := (hshort d hd).1
    rw [hempty] at hlen
    cases hlen
  obtain ⟨p', hp', hwords⟩ := Stripper.exists_compile hne
  obtain rfl : p' = p := Except.ok.inj (hp'.symm.trans hp)
  have htwice : p'.strip (p'.strip line) = p'.strip line :=
    Stripper.strip_strip hwords hshort hline
  refine ⟨htwice, ?_, by decide⟩
  rintro k rfl carry i u hu
  have hbuffer : u.buffer = k.stripper.strip line := by
    rw [buffer_outsides (k.sound_start carry line) hu, Scan.buffer_start]
    exact Stripper.iterate_strip_eq_strip htwice (by omega)
  have hsound : k.Sound u :=
    (mem_outsides (fun _ _ => sound_of_moves) (k.sound_start carry line)
      (List.mem_of_getElem? hu)).1
  refine ⟨hbuffer, ?_⟩
  rw [buffer_strip hsound, hbuffer, htwice]

/-- Two literals, a template between them and a quote that nothing closes. -/
theorem strip_strip_of_two_literals :
    Stripper.compile [Catalog.doubleQuotes, Catalog.singleQuotes] =
        .ok (ofDefinition Catalog.definitions[1]).stripper ∧
      (∀ d ∈ [Catalog.doubleQuotes, Catalog.singleQuotes], d.IsShort) ∧
      '\\' ∉ "f('a\"', `b`, \"'c\") 'd".toList ∧
      (ofDefinition Catalog.definitions[1]).stripper.strip "f(, `b`, ) 'd".toList =
        "f(, `b`, ) 'd".toList := by
  have hcompile : Stripper.compile [Catalog.doubleQuotes, Catalog.singleQuotes] =
      .ok (ofDefinition Catalog.definitions[1]).stripper := by rfl
  have hshort : ∀ d ∈ [Catalog.doubleQuotes, Catalog.singleQuotes], d.IsShort := by decide
  have hline : '\\' ∉ "f('a\"', `b`, \"'c\") 'd".toList := by decide
  have hstrip : (ofDefinition Catalog.definitions[1]).stripper.strip
      "f('a\"', `b`, \"'c\") 'd".toList = "f(, `b`, ) 'd".toList := by decide +kernel
  have htwice := (strip_strip_of_short _ _ hcompile hshort _ hline).1
  rw [hstrip] at htwice
  exact ⟨hcompile, hshort, hline, htwice⟩

end Classifier

end Count

end LineCensus
