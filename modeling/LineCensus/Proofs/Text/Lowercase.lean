import LineCensus.Text.Lowercase
import Mathlib.Data.String.Basic

/-!
# What lower case leaves alone

The characters of ASCII before its letters, such as the dot and the slash, have no case, and
no other character turns into one of them. A dot in front of a text is passed over where the
end of a word is looked for, so it changes nothing in the lower case of the text.
-/
namespace LineCensus.Text

theorem toNat_ofNat_eq_or (n : ℕ) : (Char.ofNat n).toNat = n ∨ (Char.ofNat n).toNat = 0 := by
  by_cases h : n.isValidChar
  · left
    rw [Char.ofNat, dif_pos h]
    rfl
  · right
    rw [Char.ofNat, dif_neg h]
    rfl

/-- Characters beyond ASCII have no lower case in front of the letters of ASCII. -/
theorem le_toNat_add_shift : ∀ r ∈ caseRuns, 0x40 ≤ (r.first : ℤ) + r.shift := by
  decide +kernel

/-- What can be decided for all code points below a bound holds for all such characters. -/
theorem forall_char_lt {bound : ℕ} {P : Char → Prop} (h : ∀ n < bound, P (Char.ofNat n))
    {c : Char} (hc : c.toNat < bound) : P c := by
  have hself := h c.toNat hc
  rwa [Char.ofNat_toNat] at hself

theorem toLower_eq_self_of_lt {x : Char} (hx : x.toNat < 0x80) (h : x.toLower.toNat < 0x40) :
    x.toLower = x :=
  forall_char_lt (P := fun x => x.toLower.toNat < 0x40 → x.toLower = x) (by decide) hx h

theorem lowerChar_eq_self_of_lt {x : Char} (hx : x.toNat < 0x40) : lowerChar x = [x] :=
  forall_char_lt (P := fun x => lowerChar x = [x]) (by decide) hx

section Mark

variable {c : Char} (hpos : 0 < c.toNat) (hlt : c.toNat < 0x40)
include hpos hlt

theorem mem_lowerChar_iff {x : Char} : c ∈ lowerChar x ↔ x = c := by
  refine ⟨fun h => ?_, fun h => by simp [h, lowerChar_eq_self_of_lt hlt]⟩
  unfold lowerChar at h
  split at h
  · rename_i hascii
    obtain rfl := List.mem_singleton.1 h
    exact (toLower_eq_self_of_lt hascii hlt).symm
  · split at h
    · have hbeyond : ∀ d ∈ ['i', '\u0307'], decide (0x40 ≤ d.toNat) = true :=
        List.all_eq_true.1 (by decide)
      have hle := of_decide_eq_true (hbeyond c h)
      omega
    · split at h
      · rename_i r hr
        have hle := le_toNat_add_shift r (List.mem_of_find?_eq_some hr)
        have hcontains := List.find?_some hr
        simp only [CaseRun.contains, Bool.and_eq_true, decide_eq_true_eq] at hcontains
        rw [List.mem_singleton] at h
        have hshifted := toNat_ofNat_eq_or ((x.toNat : ℤ) + r.shift).toNat
        rw [← h] at hshifted
        omega
      · exact (List.mem_singleton.1 h).symm

theorem mem_lowerAfter_iff {before s : List Char} : c ∈ lowerAfter before s ↔ c ∈ s := by
  induction s generalizing before with
  | nil => simp [lowerAfter]
  | cons x s ih =>
    rw [lowerAfter, List.mem_append, ih, List.mem_cons]
    refine or_congr_left ?_
    split
    · rename_i hx
      obtain rfl := beq_iff_eq.1 hx
      have hsigmas : ∀ d ∈ ['Σ', 'ς', 'σ'], decide (0x40 ≤ d.toNat) = true :=
        List.all_eq_true.1 (by decide)
      constructor
      · intro h
        have hle := of_decide_eq_true (hsigmas c (by split at h <;> simp_all))
        omega
      · intro h
        have hle := of_decide_eq_true (hsigmas c (by simp [h]))
        omega
    · rw [mem_lowerChar_iff hpos hlt, eq_comm]

/-- A mark stands in the lower case of a text if and only if it stands in the text. -/
theorem mem_lowercase_iff {s : String} : c ∈ (lowercase s).toList ↔ c ∈ s.toList := by
  rw [lowercase, String.toList_ofList, mem_lowerAfter_iff hpos hlt]

end Mark

theorem facesCased_concat_dot (s : List Char) : facesCased (s ++ ['.']) = facesCased s := by
  have hdot : ['.'].dropWhile caseIgnorableRanges.contains = [] := by decide +kernel
  unfold facesCased
  rw [List.dropWhile_append, hdot]
  cases s.dropWhile caseIgnorableRanges.contains <;> rfl

theorem lowerAfter_concat_dot (before s : List Char) :
    lowerAfter (before ++ ['.']) s = lowerAfter before s := by
  induction s generalizing before with
  | nil => rfl
  | cons c s ih =>
    rw [lowerAfter, lowerAfter, facesCased_concat_dot, ← List.cons_append, ih]

theorem toList_lowercase_dot_append (s : List Char) :
    (lowercase (String.ofList ('.' :: s))).toList =
      '.' :: (lowercase (String.ofList s)).toList := by
  have hdot : lowerChar '.' = ['.'] := by decide
  simp only [lowercase, String.toList_ofList]
  rw [lowerAfter, if_neg (by decide), hdot, ← List.nil_append ['.'], lowerAfter_concat_dot]
  rfl

end LineCensus.Text
