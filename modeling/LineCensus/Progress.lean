/-!
# Progress

How many of a known number of files have been counted. Nothing is shown of it unless
somebody watches.
-/
namespace LineCensus

structure Progress where
  total : Nat
  counted : Nat := 0
deriving DecidableEq, Repr

namespace Progress

/-- One more file is counted. -/
def step (p : Progress) : Progress := { p with counted := p.counted + 1 }

/-- The progress after each of a number of files. -/
def steps (p : Progress) : Nat → List Progress
  | 0 => []
  | n + 1 => p.step :: p.step.steps n

@[simp] theorem length_steps (p : Progress) (n : Nat) : (p.steps n).length = n := by
  induction n generalizing p with
  | zero => rfl
  | succ n ih => simp [steps, ih]

end Progress

end LineCensus
