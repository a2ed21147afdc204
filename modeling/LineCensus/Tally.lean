/-!
# Line tallies

How many lines of each kind something has: a line, a file or many files. Tallies add
field by field; subtraction stops at zero in each field.

The numbers are natural numbers. A program counts in machine words, which hold the same
numbers as long as every sum fits into a word.
-/
namespace LineCensus

/-- What a line counts as. -/
inductive LineKind
  | code
  | comment
  | blank
deriving DecidableEq, Repr

/-- The number of lines of each kind. -/
@[ext] structure Tally where
  code : Nat := 0
  comment : Nat := 0
  blank : Nat := 0
deriving DecidableEq, Repr, Inhabited

namespace Tally

instance : Zero Tally := ⟨{}⟩

instance : Add Tally :=
  ⟨fun s t => ⟨s.code + t.code, s.comment + t.comment, s.blank + t.blank⟩⟩

/-- Stops at zero in each field. -/
instance : Sub Tally :=
  ⟨fun s t => ⟨s.code - t.code, s.comment - t.comment, s.blank - t.blank⟩⟩

@[simp] theorem code_zero : (0 : Tally).code = 0 := rfl
@[simp] theorem comment_zero : (0 : Tally).comment = 0 := rfl
@[simp] theorem blank_zero : (0 : Tally).blank = 0 := rfl
@[simp] theorem code_add (s t : Tally) : (s + t).code = s.code + t.code := rfl
@[simp] theorem comment_add (s t : Tally) : (s + t).comment = s.comment + t.comment := rfl
@[simp] theorem blank_add (s t : Tally) : (s + t).blank = s.blank + t.blank := rfl

protected theorem add_assoc (s t u : Tally) : s + t + u = s + (t + u) := by
  ext <;> simp [Nat.add_assoc]

protected theorem add_comm (s t : Tally) : s + t = t + s := by
  ext <;> simp [Nat.add_comm]

@[simp] protected theorem zero_add (t : Tally) : 0 + t = t := by ext <;> simp
@[simp] protected theorem add_zero (t : Tally) : t + 0 = t := by ext <;> simp

def total (t : Tally) : Nat := t.code + t.comment + t.blank

@[simp] theorem total_zero : (0 : Tally).total = 0 := rfl

@[simp] theorem total_add (s t : Tally) : (s + t).total = s.total + t.total := by
  simp [total]; omega

def isEmpty (t : Tally) : Bool := t.total == 0

/-- The tally of one line. -/
def ofKind : LineKind → Tally
  | .code => ⟨1, 0, 0⟩
  | .comment => ⟨0, 1, 0⟩
  | .blank => ⟨0, 0, 1⟩

@[simp] theorem total_ofKind (k : LineKind) : (ofKind k).total = 1 := by cases k <;> rfl

def record (t : Tally) (k : LineKind) : Tally := t + ofKind k

@[simp] theorem total_record (t : Tally) (k : LineKind) :
    (t.record k).total = t.total + 1 := by simp [record]

def sum (ts : List Tally) : Tally := ts.foldl (· + ·) 0

end Tally

end LineCensus
