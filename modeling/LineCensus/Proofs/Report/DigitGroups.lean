import LineCensus.Proofs.Text.Numeral
import LineCensus.Report.Number

/-!
# Digits in groups

Whether a comma follows a digit is decided by how many digits stand behind it. So behind every
comma there is a multiple of three digits, and between two commas there are just three. The
commas taken out, the digits are those of the numeral, which tells the number.
-/
namespace LineCensus.Report

/-- Parts of which the first has one to three characters and each other one has three. -/
def InThrees : List (List Char) → Prop
  | [] => False
  | first :: rest => 1 ≤ first.length ∧ first.length ≤ 3 ∧ ∀ part ∈ rest, part.length = 3

theorem filter_groupDigits {ds : List Char} (h : ',' ∉ ds) :
    (groupDigits ds).filter (· ≠ ',') = ds := by
  induction ds with
  | nil => rfl
  | cons d ds ih =>
    rw [List.mem_cons, not_or] at h
    have hrest := ih h.2
    rw [groupDigits]
    split <;> simpa [Ne.symm h.1] using hrest

/-- The first part has at most two digits behind its first one, and what it leaves of all the
digits is in parts of three. -/
theorem exists_splitOn_groupDigits {d : Char} {ds : List Char} (h : ',' ∉ d :: ds) :
    ∃ first rest, (groupDigits (d :: ds)).splitOn ',' = (d :: first) :: rest ∧
      first.length ≤ 2 ∧ ds.length = first.length + 3 * rest.length ∧
      ∀ part ∈ rest, part.length = 3 := by
  induction ds generalizing d with
  | nil => exact ⟨[], [], List.splitOn_eq_singleton h, by simp⟩
  | cons e es ih =>
    rw [List.mem_cons, not_or] at h
    have hd : ¬ (d == ',') = true := by simpa using Ne.symm h.1
    obtain ⟨first, rest, hsplit, hfirst, hlength, hrest⟩ := ih h.2
    by_cases hcomma : (e :: es).length % 3 = 0
    · -- all the digits behind a comma are in parts of three, so the first part is one too
      have hthree : (e :: first).length = 3 := by
        simp only [List.length_cons] at hcomma ⊢
        omega
      refine ⟨[], (e :: first) :: rest, ?_, by simp, ?_, List.forall_mem_cons.2 ⟨hthree, hrest⟩⟩
      · rw [groupDigits, if_pos ⟨List.cons_ne_nil e es, hcomma⟩,
          List.splitOn_cons_eq_if_modifyHead, if_neg hd, List.splitOn_cons_eq_if_modifyHead,
          if_pos (by decide), hsplit]
        rfl
      · simp only [List.length_cons, List.length_nil] at hthree ⊢
        omega
    · have htwo : (e :: first).length ≤ 2 := by
        simp only [List.length_cons] at hcomma ⊢
        omega
      refine ⟨e :: first, rest, ?_, htwo, ?_, hrest⟩
      · rw [groupDigits, if_neg fun hboth => hcomma hboth.2, List.splitOn_cons_eq_if_modifyHead,
          if_neg hd, hsplit]
        rfl
      · simp only [List.length_cons]
        omega

theorem inThrees_splitOn_groupDigits {ds : List Char} (hne : ds ≠ []) (h : ',' ∉ ds) :
    InThrees ((groupDigits ds).splitOn ',') := by
  obtain ⟨d, ds, rfl⟩ := List.exists_cons_of_ne_nil hne
  obtain ⟨first, rest, hsplit, hfirst, -, hrest⟩ := exists_splitOn_groupDigits h
  rw [hsplit]
  exact ⟨by simp, by simp only [List.length_cons]; omega, hrest⟩

theorem comma_notMem_toString (n : ℕ) : ',' ∉ (toString n).toList := by
  intro hmem
  cases Text.isDigit_of_mem_toString hmem

theorem toList_render_commas (n : ℕ) :
    ((NumberFormat.mk true).render n).toList = groupDigits (toString n).toList := by
  rw [NumberFormat.render, String.toList_ofList, Text.toList_toString]
  rfl

theorem render_plain (n : ℕ) : (NumberFormat.mk false).render n = toString n := by
  rw [← String.toList_inj, NumberFormat.render, String.toList_ofList, Text.toList_toString]
  rfl

/-- With commas, a number is written in the digits of its numeral, in groups of three but for
the first, which has one to three; so it can be told from what is written. Without commas, its
numeral is written. -/
theorem render_in_threes :
    (∀ n, ((NumberFormat.mk true).render n).toList.filter (· ≠ ',') = (toString n).toList ∧
      InThrees (((NumberFormat.mk true).render n).toList.splitOn ',')) ∧
    Function.Injective (NumberFormat.mk true).render ∧
    ∀ n, (NumberFormat.mk false).render n = toString n := by
  have hdigits : ∀ n, ((NumberFormat.mk true).render n).toList.filter (· ≠ ',') =
      (toString n).toList := fun n => by
    rw [toList_render_commas, filter_groupDigits (comma_notMem_toString n)]
  refine ⟨fun n => ⟨hdigits n, ?_⟩, fun m n h => ?_, render_plain⟩
  · obtain ⟨c, ds, hcons⟩ := Text.exists_toString_eq_cons n
    rw [toList_render_commas]
    exact inThrees_splitOn_groupDigits (hcons ▸ List.cons_ne_nil c ds) (comma_notMem_toString n)
  · have hnumeral : Nat.toDigits 10 m = Nat.toDigits 10 n := by
      rw [← Text.toList_toString, ← hdigits m, h, hdigits n, Text.toList_toString]
    calc
      m = Nat.ofDigitChars 10 (Nat.toDigits 10 m) 0 := Nat.ofDigitChars_ten_toDigits.symm
      _ = Nat.ofDigitChars 10 (Nat.toDigits 10 n) 0 := by rw [hnumeral]
      _ = n := Nat.ofDigitChars_ten_toDigits

end LineCensus.Report
