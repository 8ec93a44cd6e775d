/-
# The shortest decimal of a value

The reals that are nearest to one binary64 value form an interval around it,
from halfway to its lower neighbour to halfway to its upper one; the ends
belong to it exactly when the mantissa is even.  The shortest decimal is the
one with the fewest significant digits inside the interval, and of two such
decimals the one nearer to the value.

Candidates with `n` digits lie on the grid of the powers `10 ^ (k - n)`, `k`
being the number of digits before the point.  If any point of a grid lies in
the interval, so does one of the two neighbours of the value on it, so only
these two are tried, on the grids for 1, 2, … 17 digits.
-/

import Gamebook.Decimal.Magnitude

namespace Gamebook
namespace Decimal

/-- The number `digits * 10 ^ exponent`. -/
structure Scaled where
  digits : Nat
  exponent : Int
  deriving Repr, DecidableEq

/-- How many decimal digits a number has, zero having none. -/
def digitCount (n : Nat) : Nat := if n = 0 then 0 else (Nat.toDigits 10 n).length

/-- Compare `a * 10 ^ i` with `b * 2 ^ j`. -/
def compareScaled (a : Nat) (i : Int) (b : Nat) (j : Int) : Ordering :=
  compare (a * Nat.pow 10 i.toNat * Nat.pow 2 (-j).toNat)
    (b * Nat.pow 2 j.toNat * Nat.pow 10 (-i).toNat)

namespace Magnitude

/-- Whether a decimal lies among the reals that are nearest to the magnitude.
Below a power of two the lower neighbour is half as far away as the upper one. -/
def isNearest (a : Magnitude) (d : Scaled) : Bool :=
  let low :=
    if a.mantissa = hiddenBit ∧ a.exponent ≠ -1074 then 4 * a.mantissa - 1
    else 4 * a.mantissa - 2
  let high := 4 * a.mantissa + 2
  let even := a.mantissa % 2 == 0
  let atLow := compareScaled d.digits d.exponent low (a.exponent - 2)
  let atHigh := compareScaled d.digits d.exponent high (a.exponent - 2)
  (atLow == .gt || even && atLow == .eq) && (atHigh == .lt || even && atHigh == .eq)

/-- The least `k` with `a < 10 ^ k`, for a magnitude other than zero. -/
def pointPosition (a : Magnitude) : Int :=
  let n := a.numerator
  let d := a.denominator
  if d ≤ n then digitCount (n / d) else 1 - (digitCount ((d + n - 1) / n - 1) : Int)

/-- The neighbour of the magnitude from below on the grid of the multiples of
`10 ^ exponent`. -/
def floorAt (a : Magnitude) (exponent : Int) : Scaled :=
  ⟨a.numerator * Nat.pow 10 (-exponent).toNat / (a.denominator * Nat.pow 10 exponent.toNat),
    exponent⟩

/-- The nearer of the neighbours on a grid that lie in the interval; of two
equally near ones the one with even digits. -/
def nearestAt (a : Magnitude) (exponent : Int) : Option Scaled :=
  let below := a.floorAt exponent
  let above : Scaled := ⟨below.digits + 1, exponent⟩
  match a.isNearest below, a.isNearest above with
  | true, false => some below
  | false, true => some above
  | false, false => none
  | true, true =>
    match compareScaled (2 * below.digits + 1) exponent (2 * a.mantissa) a.exponent with
    | .gt => some below
    | .lt => some above
    | .eq => some (if below.digits % 2 = 0 then below else above)

/-- The decimal of all digits of the magnitude. -/
def exactDecimal (a : Magnitude) : Scaled :=
  ⟨a.numerator * Nat.pow 5 (-a.exponent).toNat, min a.exponent 0⟩

/-- The shortest decimal of a magnitude other than zero. -/
def shortest (a : Magnitude) : Scaled :=
  let k := a.pointPosition
  ((List.range 17).findSome? fun n => a.nearestAt (k - (n + 1 : Nat))).getD a.exactDecimal

end Magnitude
end Decimal
end Gamebook
