/-
# Magnitudes of binary64 values

A finite value is a sign and a magnitude `mantissa * 2 ^ exponent` with a
mantissa below `2 ^ 53` and an exponent from -1074 on.  The bits hold it in 11
bits of exponent and 52 bits of fraction: a zero exponent field means the
fraction itself on the least exponent, any other one the fraction with the
hidden bit `2 ^ 52` added.  Exact arithmetic on values is done on magnitudes.
-/

namespace Gamebook
namespace Decimal

/-- The non-negative number `mantissa * 2 ^ exponent`. -/
structure Magnitude where
  mantissa : Nat
  exponent : Int
  deriving Repr, DecidableEq

/-- Whether the sign bit is set, which it also is for minus zero. -/
def signBit (x : Float) : Bool := x.toBits >>> 63 == 1

/-- Whether the value is neither infinite nor undefined. -/
def isFinite (x : Float) : Bool := x.toBits >>> 52 &&& 0x7FF != 0x7FF

/-- The value with its sign set or cleared. -/
def withSign (negative : Bool) (x : Float) : Float := if negative then -x else x

/-- Plus infinity. -/
def infinity : Float := Float.ofBits 0x7FF0000000000000

/-- The undefined value. -/
def undefined : Float := Float.ofBits 0x7FF8000000000000

namespace Magnitude

/-- The bit above the 52 bits of fraction. -/
def hiddenBit : Nat := Nat.pow 2 52

/-- The magnitude of a finite value. -/
def ofFloat (x : Float) : Magnitude :=
  let field := (x.toBits >>> 52 &&& 0x7FF).toNat
  let fraction := (x.toBits &&& 0xFFFFFFFFFFFFF).toNat
  if field = 0 then ⟨fraction, -1074⟩ else ⟨hiddenBit + fraction, (field : Int) - 1075⟩

/-- The value with a magnitude that binary64 holds exactly: the mantissa is
moved up until the hidden bit is set or the exponent is the least one. -/
def toFloat (a : Magnitude) : Float :=
  let shift := min (52 - a.mantissa.log2) (a.exponent + 1074).toNat
  let mantissa := a.mantissa <<< shift
  if mantissa < hiddenBit then Float.ofBits (UInt64.ofNat mantissa)
  else
    let field := (a.exponent - shift + 1075).toNat
    Float.ofBits (UInt64.ofNat (field <<< 52 + (mantissa - hiddenBit)))

/-- The magnitude as a fraction of natural numbers, the denominator a power of two. -/
def numerator (a : Magnitude) : Nat := a.mantissa * Nat.pow 2 a.exponent.toNat

/-- The power of two that divides `numerator`. -/
def denominator (a : Magnitude) : Nat := Nat.pow 2 (-a.exponent).toNat

/-- The magnitude as a natural number, if it is one. -/
def toNat? (a : Magnitude) : Option Nat :=
  if a.denominator ∣ a.numerator then some (a.numerator / a.denominator) else none

/-- What is left of `a` when `b` is taken from it as often as it fits, both on
the smaller of the two exponents. -/
def remainder (a b : Magnitude) : Magnitude :=
  let e := min a.exponent b.exponent
  ⟨(a.mantissa <<< (a.exponent - e).toNat) % (b.mantissa <<< (b.exponent - e).toNat), e⟩

end Magnitude

/-- The finite value as a whole number, if it is one. -/
def whole? (x : Float) : Option Int :=
  if isFinite x then
    (Magnitude.ofFloat x).toNat?.map fun n => if signBit x then -(n : Int) else n
  else none

/-- The value nearest to a whole number, infinite from `2 ^ 1024 - 2 ^ 970` on. -/
def ofWhole (n : Int) : Float := withSign (n < 0) (Float.ofScientific n.natAbs false 0)

/-- The value nearest to a whole number, if that is finite. -/
def ofWhole? (n : Int) : Option Float :=
  let x := ofWhole n
  if isFinite x then some x else none

/-- The remainder of a division that takes the sign of the divisor, as the
remainder of whole numbers does when the quotient is rounded down.  The
magnitudes are divided exactly; a remainder of the other sign has the divisor
added once, and a remainder of zero has the divisor's sign. -/
def modulo (x y : Float) : Float :=
  if !isFinite x || y.isNaN || y == 0 then undefined
  else
    let r :=
      if isFinite y then
        withSign (signBit x) ((Magnitude.ofFloat x).remainder (Magnitude.ofFloat y)).toFloat
      else x
    if r == 0 then withSign (signBit y) 0
    else if signBit r != signBit y then r + y
    else r

end Decimal
end Gamebook
