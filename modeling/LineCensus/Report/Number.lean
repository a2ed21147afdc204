/-!
# Numbers in reports

A number is written in decimal digits, on demand with a comma before every third digit
from the right.
-/
namespace LineCensus.Report

structure NumberFormat where
  commas : Bool := true
deriving DecidableEq, Repr, Inhabited

/-- A comma follows every digit that has a positive multiple of three digits after it. -/
def groupDigits : List Char → List Char
  | [] => []
  | d :: ds =>
    if ds ≠ [] ∧ ds.length % 3 = 0 then d :: ',' :: groupDigits ds else d :: groupDigits ds

def NumberFormat.render (f : NumberFormat) (n : Nat) : String :=
  let digits := Nat.toDigits 10 n
  String.ofList (if f.commas then groupDigits digits else digits)

end LineCensus.Report
