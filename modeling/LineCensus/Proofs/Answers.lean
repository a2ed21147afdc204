import Mathlib.Data.List.Basic

/-!
# Answers in steps

What is put together from several answers is there exactly if each of them is, so an answer
that is there tells what each step has answered.
-/
namespace LineCensus

variable {ε α β : Type}

theorem bind_eq_ok_iff {x : Except ε α} {f : α → Except ε β} {b : β} :
    x >>= f = .ok b ↔ ∃ a, x = .ok a ∧ f a = .ok b := by
  cases x <;> simp [bind, Except.bind]

theorem map_eq_ok_iff {x : Except ε α} {f : α → β} {b : β} :
    x.map f = .ok b ↔ ∃ a, x = .ok a ∧ f a = b := by
  cases x <;> simp [Except.map]

theorem mapM_map_eq_ok {f : β → Except ε α} {g : α → β} (h : ∀ a, f (g a) = .ok a)
    (as : List α) : (as.map g).mapM f = .ok as := by
  induction as with
  | nil => rfl
  | cons a as ih =>
    rw [List.map_cons, List.mapM_cons, h a, ih]
    rfl

/-- A list is read item by item exactly if each item is the one that is written for what is
read. -/
theorem mapM_eq_ok_iff {f : β → Except ε α} {g : α → β} {bs : List β} {as : List α}
    (h : ∀ b ∈ bs, ∀ a, f b = .ok a ↔ b = g a) : bs.mapM f = .ok as ↔ bs = as.map g := by
  induction bs generalizing as with
  | nil => cases as <;> simp [pure, Except.pure]
  | cons b bs ih =>
    obtain ⟨hb, hbs⟩ := List.forall_mem_cons.1 h
    rw [List.mapM_cons]
    constructor
    · intro hread
      obtain ⟨a, ha, hrest⟩ := bind_eq_ok_iff.1 hread
      obtain ⟨as', has', hsame⟩ := bind_eq_ok_iff.1 hrest
      cases hsame
      rw [List.map_cons, (hb a).1 ha, (ih hbs).1 has']
    · intro hwritten
      cases as with
      | nil => cases hwritten
      | cons a as =>
        obtain ⟨ha, has⟩ := List.cons.inj hwritten
        exact bind_eq_ok_iff.2 ⟨a, (hb a).2 ha, bind_eq_ok_iff.2 ⟨as, (ih hbs).2 has, rfl⟩⟩

end LineCensus
