import LineCensus.Count.Stripper
import Mathlib.Logic.Function.Iterate

/-!
# What stripping leaves

Stripping only takes characters out of a line, so a pass that leaves the length as it
was has left the line as it was. Passes follow one another until that happens.
-/
namespace LineCensus.Count.Stripper

open LineCensus.Text

theorem flatMap_kept_sublist (ps : List Piece) :
    (ps.flatMap Piece.kept).Sublist (ps.flatMap Piece.text) := by
  induction ps with
  | nil => exact List.Sublist.refl _
  | cons q ps ih =>
    rw [List.flatMap_cons, List.flatMap_cons]
    refine List.Sublist.append ?_ ih
    cases q with
    | literal text => exact List.nil_sublist _
    | plain c => exact List.Sublist.refl _

/-- Behind a literal stripping goes on as if the line began there. -/
theorem strip_of_rest? {p : Stripper} {s t : List Char} (h : p.rest? s = some t) :
    p.strip s = p.strip t := by
  rw [strip_eq_flatMap_kept, strip_eq_flatMap_kept, pieces_of_rest? h]
  rfl

theorem strip_of_no_rest {p : Stripper} {c : Char} {s : List Char}
    (h : p.rest? (c :: s) = none) : p.strip (c :: s) = c :: p.strip s := by
  rw [strip_eq_flatMap_kept, strip_eq_flatMap_kept, pieces_of_no_rest h]
  rfl

theorem strip_sublist (p : Stripper) (line : List Char) : (p.strip line).Sublist line := by
  have h := flatMap_kept_sublist (p.pieces line)
  rwa [flatMap_text_pieces, ← strip_eq_flatMap_kept] at h

theorem strip_eq_self_of_length {p : Stripper} {line : List Char}
    (h : (p.strip line).length = line.length) : p.strip line = line :=
  (p.strip_sublist line).eq_of_length h

/-- After a pass that took nothing out, no pass does. -/
theorem iterate_strip_eq_self {p : Stripper} {line : List Char} (h : p.strip line = line)
    (n : ℕ) : p.strip^[n] line = line :=
  Function.iterate_fixed h n

/-- After a pass that left no literals, all passes make what that one made. -/
theorem iterate_strip_eq_strip {p : Stripper} {line : List Char}
    (h : p.strip (p.strip line) = p.strip line) {n : ℕ} (hn : 1 ≤ n) :
    p.strip^[n] line = p.strip line := by
  obtain ⟨m, rfl⟩ := Nat.exists_eq_add_of_le' hn
  rw [Function.iterate_succ_apply, iterate_strip_eq_self h]

end LineCensus.Count.Stripper
