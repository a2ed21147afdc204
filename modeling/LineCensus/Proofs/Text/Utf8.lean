import LineCensus.Text.Utf8
import Mathlib.Data.Nat.Notation

/-!
# Texts and their bytes

What is written as UTF-8 is read back. The bytes of a character begin one of its length, with
the bounds for the second byte that only characters of that length keep, and every further byte
adds six bits. A byte below 128 is a character by itself, wherever it stands.
-/
namespace LineCensus.Text.Utf8

theorem begins?_two : ∀ b ≤ 0xDF, 0xC2 ≤ b → begins? b = some ⟨b - 0xC0, 0, 0x80, 0xBF⟩ := by
  decide +kernel

/-- Of three bytes, the second has to be so large that two would not do, and must not lead to a
surrogate. -/
theorem begins?_three : ∀ b ≤ 0xEF, 0xE0 ≤ b →
    begins? b = some ⟨b - 0xE0, 1, if b = 0xE0 then 0xA0 else 0x80,
      if b = 0xED then 0x9F else 0xBF⟩ := by
  decide +kernel

/-- Of four bytes, the second has to be so large that three would not do, and must not lead
beyond the last character. -/
theorem begins?_four : ∀ b ≤ 0xF4, 0xF0 ≤ b →
    begins? b = some ⟨b - 0xF0, 2, if b = 0xF0 then 0x90 else 0x80,
      if b = 0xF4 then 0x8F else 0xBF⟩ := by
  decide +kernel

namespace Reader

variable {us : List (Option Char)} {b b₁ b₂ b₃ b₄ : UInt8}

theorem read_ascii (h : b.toNat < 0x80) :
    read ⟨none, us⟩ b = ⟨none, some (Char.ofNat b.toNat) :: us⟩ := if_pos h

theorem read_lead {p : Pending} (h : 0x80 ≤ b.toNat) (hp : begins? b.toNat = some p) :
    read ⟨none, us⟩ b = ⟨some p, us⟩ := by
  simp [read, first, hp, Nat.not_lt.2 h]

/-- A byte that others follow. -/
theorem read_next {bits missing low high : ℕ} (hlow : low ≤ b.toNat) (hhigh : b.toNat ≤ high) :
    read ⟨some ⟨bits, missing + 1, low, high⟩, us⟩ b =
      ⟨some ⟨bits * 64 + (b.toNat - 0x80), missing, 0x80, 0xBF⟩, us⟩ := by
  simp [read, hlow, hhigh]

/-- The last byte of a character. -/
theorem read_last {bits low high : ℕ} (hlow : low ≤ b.toNat) (hhigh : b.toNat ≤ high) :
    read ⟨some ⟨bits, 0, low, high⟩, us⟩ b =
      ⟨none, some (Char.ofNat (bits * 64 + (b.toNat - 0x80))) :: us⟩ := by
  simp [read, hlow, hhigh]

theorem foldl_read_two (h₁ : 0xC2 ≤ b₁.toNat ∧ b₁.toNat ≤ 0xDF)
    (h₂ : 0x80 ≤ b₂.toNat ∧ b₂.toNat ≤ 0xBF) :
    [b₁, b₂].foldl read ⟨none, us⟩ =
      ⟨none, some (Char.ofNat ((b₁.toNat - 0xC0) * 64 + (b₂.toNat - 0x80))) :: us⟩ := by
  rw [List.foldl_cons, List.foldl_cons, List.foldl_nil,
    read_lead (by omega) (begins?_two _ h₁.2 h₁.1), read_last h₂.1 h₂.2]

theorem foldl_read_three (h₁ : 0xE0 ≤ b₁.toNat ∧ b₁.toNat ≤ 0xEF)
    (h₂ : 0x80 ≤ b₂.toNat ∧ b₂.toNat ≤ 0xBF) (hlow : b₁.toNat = 0xE0 → 0xA0 ≤ b₂.toNat)
    (hhigh : b₁.toNat = 0xED → b₂.toNat ≤ 0x9F) (h₃ : 0x80 ≤ b₃.toNat ∧ b₃.toNat ≤ 0xBF) :
    [b₁, b₂, b₃].foldl read ⟨none, us⟩ =
      ⟨none, some (Char.ofNat (((b₁.toNat - 0xE0) * 64 + (b₂.toNat - 0x80)) * 64 +
        (b₃.toNat - 0x80))) :: us⟩ := by
  rw [List.foldl_cons, List.foldl_cons, List.foldl_cons, List.foldl_nil,
    read_lead (by omega) (begins?_three _ h₁.2 h₁.1), read_next, read_last h₃.1 h₃.2]
  · split <;> omega
  · split <;> omega

theorem foldl_read_four (h₁ : 0xF0 ≤ b₁.toNat ∧ b₁.toNat ≤ 0xF4)
    (h₂ : 0x80 ≤ b₂.toNat ∧ b₂.toNat ≤ 0xBF) (hlow : b₁.toNat = 0xF0 → 0x90 ≤ b₂.toNat)
    (hhigh : b₁.toNat = 0xF4 → b₂.toNat ≤ 0x8F) (h₃ : 0x80 ≤ b₃.toNat ∧ b₃.toNat ≤ 0xBF)
    (h₄ : 0x80 ≤ b₄.toNat ∧ b₄.toNat ≤ 0xBF) :
    [b₁, b₂, b₃, b₄].foldl read ⟨none, us⟩ =
      ⟨none, some (Char.ofNat ((((b₁.toNat - 0xF0) * 64 + (b₂.toNat - 0x80)) * 64 +
        (b₃.toNat - 0x80)) * 64 + (b₄.toNat - 0x80))) :: us⟩ := by
  rw [List.foldl_cons, List.foldl_cons, List.foldl_cons, List.foldl_cons, List.foldl_nil,
    read_lead (by omega) (begins?_four _ h₁.2 h₁.1), read_next, read_next h₃.1 h₃.2,
    read_last h₄.1 h₄.2]
  · split <;> omega
  · split <;> omega

/-- The bytes of a character are read as the character. -/
theorem foldl_read_utf8EncodeChar (us : List (Option Char)) (c : Char) :
    (String.utf8EncodeChar c).foldl read ⟨none, us⟩ = ⟨none, some c :: us⟩ := by
  have hvalid : c.toNat < 0xD800 ∨ 0xDFFF < c.toNat ∧ c.toNat < 0x110000 := c.valid
  have hread : ∀ {n : ℕ}, n = c.toNat → (⟨none, some (Char.ofNat n) :: us⟩ : Reader) =
      ⟨none, some c :: us⟩ := by
    rintro n rfl
    rw [Char.ofNat_toNat]
  have hbyte : ∀ {n : ℕ}, n < 256 → (UInt8.ofNat n).toNat = n := fun h => by
    rw [UInt8.toNat_ofNat', Nat.mod_eq_of_lt h]
  have hval : c.val.toNat = c.toNat := rfl
  rw [String.utf8EncodeChar, hval]
  generalize c.toNat = v at *
  split
  · have h₁ : (UInt8.ofNat v).toNat = v := hbyte (by omega)
    exact (read_ascii (by omega)).trans (hread h₁)
  · split
    · have h₁ : (UInt8.ofNat (v / 64 % 32 + 192)).toNat = v / 64 + 0xC0 := by
        rw [hbyte] <;> omega
      have h₂ : (UInt8.ofNat (v % 64 + 128)).toNat = v % 64 + 0x80 := hbyte (by omega)
      exact (foldl_read_two (by omega) (by omega)).trans (hread (by omega))
    · split
      · have h₁ : (UInt8.ofNat (v / 4096 % 16 + 224)).toNat = v / 4096 + 0xE0 := by
          rw [hbyte] <;> omega
        have h₂ : (UInt8.ofNat (v / 64 % 64 + 128)).toNat = v / 64 % 64 + 0x80 :=
          hbyte (by omega)
        have h₃ : (UInt8.ofNat (v % 64 + 128)).toNat = v % 64 + 0x80 := hbyte (by omega)
        exact (foldl_read_three (by omega) (by omega) (by omega) (by omega) (by omega)).trans
          (hread (by omega))
      · have h₁ : (UInt8.ofNat (v / 262144 % 8 + 240)).toNat = v / 262144 + 0xF0 := by
          rw [hbyte] <;> omega
        have h₂ : (UInt8.ofNat (v / 4096 % 64 + 128)).toNat = v / 4096 % 64 + 0x80 :=
          hbyte (by omega)
        have h₃ : (UInt8.ofNat (v / 64 % 64 + 128)).toNat = v / 64 % 64 + 0x80 :=
          hbyte (by omega)
        have h₄ : (UInt8.ofNat (v % 64 + 128)).toNat = v % 64 + 0x80 := hbyte (by omega)
        exact (foldl_read_four (by omega) (by omega) (by omega) (by omega) (by omega)
          (by omega)).trans (hread (by omega))

theorem foldl_read_encode (us : List (Option Char)) (s : List Char) :
    (encode s).foldl read ⟨none, us⟩ = ⟨none, (s.map some).reverse ++ us⟩ := by
  induction s generalizing us with
  | nil => rfl
  | cons c s ih =>
    have hcons : encode (c :: s) = String.utf8EncodeChar c ++ encode s := rfl
    rw [hcons, List.foldl_append, foldl_read_utf8EncodeChar, ih]
    simp

/-- A byte leaves the units that have been read as they are. -/
theorem units_suffix_read (r : Reader) (b : UInt8) : r.units <:+ (r.read b).units := by
  have hfirst : ∀ (us : List (Option Char)) (n : ℕ), us <:+ (first us n).units := by
    intro us n
    unfold first
    split
    · exact List.suffix_cons _ _
    · split
      · exact List.suffix_refl _
      · exact List.suffix_cons _ _
  unfold read
  split
  · exact hfirst _ _
  · dsimp only
    split
    · split
      · exact List.suffix_cons _ _
      · exact List.suffix_refl _
    · exact (List.suffix_cons none r.units).trans (hfirst _ _)

theorem units_suffix_foldl_read (r : Reader) (bytes : List UInt8) :
    r.units <:+ (bytes.foldl read r).units := by
  induction bytes generalizing r with
  | nil => exact List.suffix_refl _
  | cons b bytes ih => exact (units_suffix_read r b).trans (ih (r.read b))

/-- The units come out in the order in which they have been read. -/
theorem reverse_units_prefix_finish (r : Reader) : r.units.reverse <+: r.finish := by
  unfold finish
  split
  · exact List.prefix_refl _
  · rw [List.reverse_cons]
    exact List.prefix_append _ _

end Reader

/-- What has been written is read back. -/
theorem decode?_encode (s : List Char) : decode? (encode s) = some s := by
  have hunits : units (encode s) = s.map some := by
    have hread : (encode s).foldl Reader.read {} = ⟨none, (s.map some).reverse ++ []⟩ :=
      Reader.foldl_read_encode [] s
    rw [units, hread, Reader.finish, List.append_nil, List.reverse_reverse]
  simp [decode?, hunits, Function.comp_def]

/-- A text begins with the character that its first byte is, if it is one by itself. -/
theorem head?_of_decode? {b : UInt8} {bytes : List UInt8} {s : List Char} (hb : b.toNat < 0x80)
    (h : decode? (b :: bytes) = some s) : s.head? = some (Char.ofNat b.toNat) := by
  have hread : (b :: bytes).foldl Reader.read {} =
      bytes.foldl Reader.read ⟨none, [some (Char.ofNat b.toNat)]⟩ :=
    congrArg (bytes.foldl Reader.read) (Reader.read_ascii hb)
  have hsuffix := Reader.units_suffix_foldl_read ⟨none, [some (Char.ofNat b.toNat)]⟩ bytes
  have hprefix : [some (Char.ofNat b.toNat)] <+: units (b :: bytes) := by
    rw [units, hread]
    exact (List.reverse_prefix.2 hsuffix).trans (Reader.reverse_units_prefix_finish _)
  obtain ⟨us, hus⟩ := hprefix
  rw [decode?, ← hus] at h
  split at h
  · cases h
    rfl
  · cases h

end LineCensus.Text.Utf8
