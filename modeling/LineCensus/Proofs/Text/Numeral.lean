import Mathlib.Data.Nat.Notation

/-!
# Decimal numerals

A number is written in digits, the first of which is no zero unless it is the only one.
-/
namespace LineCensus.Text

theorem toList_toString (n : ℕ) : (toString n).toList = Nat.toDigits 10 n := Nat.toList_repr

theorem isDigit_of_mem_toString {n : ℕ} {c : Char} (h : c ∈ (toString n).toList) :
    c.isDigit = true := by
  rw [toList_toString] at h
  exact Nat.isDigit_of_mem_toDigits (by decide) (by decide) h

theorem exists_toString_eq_cons (n : ℕ) : ∃ c ds, (toString n).toList = c :: ds := by
  rw [toList_toString]
  exact List.exists_cons_of_ne_nil Nat.toDigits_ne_nil

/-- A numeral of more than one digit does not start with a zero. -/
theorem head?_toDigits_ne_zero {n : ℕ} (h : 0 < n) : (Nat.toDigits 10 n).head? ≠ some '0' := by
  induction n using Nat.strongRecOn with
  | ind n ih =>
    rw [Nat.toDigits_eq_if (by decide)]
    split
    · rename_i hlt
      have hdigits : ∀ m < 10, 0 < m → [m.digitChar].head? ≠ some '0' := by decide
      exact hdigits n hlt h
    · have hfront := ih (n / 10) (by omega) (by omega)
      obtain ⟨c, ds, hcons⟩ :=
        List.exists_cons_of_ne_nil (Nat.toDigits_ne_nil (b := 10) (n := n / 10))
      rw [hcons] at hfront ⊢
      exact hfront

end LineCensus.Text
