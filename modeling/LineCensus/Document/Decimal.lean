/-!
# Decimal numbers

A decimal number is a coefficient and a power of ten. It is shown in positional digits,
with at least one on each side of the point.
-/
namespace LineCensus.Document

/-- The number `coefficient * 10 ^ exponent`, with its sign. -/
structure Decimal where
  negative : Bool := false
  coefficient : Nat
  exponent : Int := 0
deriving DecidableEq, Repr, Inhabited

/-- The number of digits of a natural number, at least one. -/
def width (n : Nat) : Nat := (Nat.toDigits 10 n).length

theorem width_pos (n : Nat) : 0 < width n := Nat.length_toDigits_pos

namespace Decimal

def trimZeros (digits : List Char) : List Char := (digits.reverse.dropWhile (· == '0')).reverse

def text (d : Decimal) : String :=
  let digits := Nat.toDigits 10 d.coefficient
  let (whole, fraction) :=
    match d.exponent with
    | .ofNat e => (digits ++ List.replicate e '0', [])
    | .negSucc e =>
      let places := e + 1
      let digits := List.replicate (places + 1 - digits.length) '0' ++ digits
      (digits.take (digits.length - places), digits.drop (digits.length - places))
  let fraction := trimZeros fraction
  (if d.negative then "-" else "") ++ String.ofList whole ++ "." ++
    (if fraction.isEmpty then "0" else String.ofList fraction)

end Decimal

end LineCensus.Document
