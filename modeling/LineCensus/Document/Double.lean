import LineCensus.Document.Decimal

/-!
# Doubles

A number with a fraction or an exponent is held in a double: a mantissa of at most 53
bits and a power of two. What lies between two doubles is rounded to the nearer one, or
to the one with the even mantissa if it lies in the middle; what lies beyond the greatest
is out of range. A double is shown with the fewest digits that are read as it again.
-/
namespace LineCensus.Document

/-- The number `mantissa * 2 ^ scale`. Unless the mantissa takes all its bits, the scale
is the least there is. -/
structure Double where
  mantissa : Nat
  scale : Int
deriving DecidableEq, Repr, Inhabited

/-- The whole number nearest to a quotient, the even one of two. -/
def roundedQuotient (n d : Nat) : Nat :=
  let q := n / d
  let twice := 2 * (n % d)
  if d < twice ∨ (d = twice ∧ q % 2 = 1) then q + 1 else q

/-- A quotient times a power, as a quotient. -/
def timesPower (base n d : Nat) : Int → Nat × Nat
  | .ofNat e => (n * base.pow e, d)
  | .negSucc e => (n, d * base.pow (e + 1))

/-- The greatest power of two that is at most a positive quotient. -/
def quotientLog (n d : Nat) : Int :=
  let e : Int := (Nat.log2 n : Int) - Nat.log2 d
  let (n, d) := timesPower 2 n d (-e)
  if d ≤ n then e else e - 1

namespace Double

/-- The number of bits of a mantissa. -/
def bits : Nat := 53

/-- The scales of the doubles next to zero and of the greatest doubles. -/
def minScale : Int := -1074

def maxScale : Int := 971

def zero : Double := ⟨0, minScale⟩

def isZero (x : Double) : Bool := x.mantissa == 0

/-- The double nearest to a quotient, if it is in range. -/
def ofQuotient? (n d : Nat) : Option Double :=
  if n = 0 then some zero
  else
    let scale := max (quotientLog n d - (bits - 1)) minScale
    let (n, d) := timesPower 2 n d (-scale)
    let m := roundedQuotient n d
    let x : Double := if m = Nat.pow 2 bits then ⟨Nat.pow 2 (bits - 1), scale + 1⟩ else ⟨m, scale⟩
    if x.scale ≤ maxScale then some x else none

/-- The double nearest to a decimal number, if it is in range. Where the first digit lies
far outside of the range, the power of ten is never taken. -/
def ofDecimal? (coefficient : Nat) (exponent : Int) : Option Double :=
  let place := exponent + width coefficient
  if coefficient = 0 ∨ place < -330 then some zero
  else if 310 < place then none
  else
    let (n, d) := timesPower 10 coefficient 1 exponent
    ofQuotient? n d

/-- The number as a quotient. -/
def quotient (x : Double) : Nat × Nat := timesPower 2 x.mantissa 1 x.scale

/-! ## Arithmetic -/

def mul? (x y : Double) : Option Double :=
  let (n, d) := timesPower 2 (x.mantissa * y.mantissa) 1 (x.scale + y.scale)
  ofQuotient? n d

def div? (x y : Double) : Option Double :=
  let (n, d) := timesPower 2 x.mantissa y.mantissa (x.scale - y.scale)
  ofQuotient? n d

/-- The greatest power of ten in range. -/
def maxPower : Nat := 308

def powerOfTen (k : Nat) : Double := (ofQuotient? (Nat.pow 10 k) 1).getD zero

/-- A double times a power of ten. -/
def raise? (x : Double) (k : Nat) : Option Double :=
  if k ≤ maxPower then x.mul? (powerOfTen k) else if x.isZero then some x else none

/-- A double divided by a power of ten, in as few steps as the powers in range allow. -/
def lower? (x : Double) (k : Nat) : Option Double :=
  if k ≤ maxPower then x.div? (powerOfTen k)
  else if x.isZero then some x
  else (x.div? (powerOfTen maxPower)).bind fun y => y.lower? (k - maxPower)
termination_by k
decreasing_by
  have : maxPower = 308 := rfl
  omega

/-- What becomes of a significand when it is rounded first and scaled by a power of ten
thereafter. -/
def ofScaled? (significand : Nat) (exponent : Int) : Option Double :=
  (ofQuotient? significand 1).bind fun x =>
    match exponent with
    | .ofNat k => x.raise? k
    | .negSucc k => x.lower? (k + 1)

/-! ## Shortest digits -/

/-- The greatest power of ten that is at most a positive quotient. -/
def decimalLog (n d : Nat) : Int :=
  if d ≤ n then (width (n / d) : Int) - 1 else -(width ((d - 1) / n) : Int)

/-- The decimal of `k` digits nearest to the double that is read as it, if there is one.
In the middle of two the greater one is taken. -/
def decimalOf? (x : Double) (k : Nat) : Option Decimal :=
  let (n, d) := x.quotient
  let exponent := decimalLog n d + 1 - k
  let (n, d) := timesPower 10 n d (-exponent)
  let below := n / d
  let reads (c : Nat) := ofDecimal? c exponent == some x
  let upFirst := d ≤ 2 * (n % d)
  let first := if upFirst then below + 1 else below
  let second := if upFirst then below else below + 1
  if reads first then some { coefficient := first, exponent }
  else if reads second then some { coefficient := second, exponent }
  else none

/-- No double needs more digits than these. -/
def maxDigits : Nat := 17

/-- The decimal with the fewest digits that is read as the double. -/
def shortest (x : Double) : Decimal :=
  if x.isZero then { coefficient := 0 }
  else ((List.range maxDigits).findSome? fun k => x.decimalOf? (k + 1)).getD { coefficient := 0 }

/-- The text of a number with this sign. -/
def text (negative : Bool) (x : Double) : String := { x.shortest with negative }.text

end Double

end LineCensus.Document
