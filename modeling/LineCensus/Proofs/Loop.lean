import Mathlib.Logic.Basic

/-!
# Loops that may fail or never end

A loop takes turns until one is the last. It has a result only where no turn fails and some
turn is the last: a loop that fails has none, and neither has one that goes on for ever.
-/
namespace LineCensus

/-- What a turn of a loop comes to: the state of the next turn, or the loop's result. -/
inductive Turn (σ α : Type)
  | next (state : σ)
  | last (result : α)
deriving DecidableEq, Repr

variable {σ α : Type}

/-- From a state on a loop takes finitely many turns, none of which fails, to a result. -/
inductive Ends (turn? : σ → Option (Turn σ α)) : σ → α → Prop
  | last {s : σ} {a : α} (h : turn? s = some (.last a)) : Ends turn? s a
  | next {s t : σ} {a : α} (h : turn? s = some (.next t)) (ht : Ends turn? t a) : Ends turn? s a

open Classical in
/-- The result of a loop from a state on, if it has one. -/
noncomputable def loop (turn? : σ → Option (Turn σ α)) (s : σ) : Option α :=
  if h : ∃ a, Ends turn? s a then some h.choose else none

variable {turn? : σ → Option (Turn σ α)} {s t : σ} {a b : α}

theorem ends_iff_of_last (h : turn? s = some (.last a)) : Ends turn? s b ↔ b = a := by
  constructor
  · intro hb
    cases hb with
    | last hlast => cases hlast.symm.trans h; rfl
    | next hnext _ => cases hnext.symm.trans h
  · rintro rfl
    exact .last h

theorem ends_iff_of_next (h : turn? s = some (.next t)) : Ends turn? s b ↔ Ends turn? t b := by
  constructor
  · intro hb
    cases hb with
    | last hlast => cases hlast.symm.trans h
    | next hnext ht => cases hnext.symm.trans h; exact ht
  · exact .next h

/-- A loop has at most one result. -/
theorem Ends.eq (ha : Ends turn? s a) (hb : Ends turn? s b) : b = a := by
  induction ha with
  | last h => exact (ends_iff_of_last h).1 hb
  | next h _ ih => exact ih ((ends_iff_of_next h).1 hb)

theorem loop_eq_some_iff : loop turn? s = some a ↔ Ends turn? s a := by
  rw [loop]
  split
  · rename_i h
    rw [Option.some_inj]
    exact ⟨fun heq => heq ▸ h.choose_spec, fun ha => ha.eq h.choose_spec⟩
  · rename_i h
    exact iff_of_false (by simp) fun ha => h ⟨a, ha⟩

theorem loop_of_last (h : turn? s = some (.last a)) : loop turn? s = some a :=
  loop_eq_some_iff.2 (.last h)

theorem loop_of_next (h : turn? s = some (.next t)) : loop turn? s = loop turn? t := by
  ext b
  rw [loop_eq_some_iff, loop_eq_some_iff, ends_iff_of_next h]

end LineCensus
