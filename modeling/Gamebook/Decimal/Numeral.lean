/-
# Numerals

How numbers are written and read.

A value is written with the digits of its shortest decimal.  With the decimal
exponent `e` of its leading digit from -4 to 15 the point stands in its place,
and a whole number has `.0` behind it; other values are written with one digit
before the point and an exponent of at least two digits with its sign.

A whole number is read from decimal digits of any script, with a sign before
them, a single underscore between two of them, and blanks around them; at most
4300 digits are accepted.
-/

import Gamebook.Decimal.Shortest
import Gamebook.Text.Digit
import Gamebook.Text.Split

namespace Gamebook
namespace Decimal

/-- The digits of a number without the zeros at its end. -/
def significantDigits (n : Nat) : List Char :=
  ((Nat.toDigits 10 n).reverse.dropWhile (· == '0')).reverse

/-- Digits with the point behind the first `position` of them. -/
def positional (digits : List Char) (position : Int) : List Char :=
  if position ≤ 0 then '0' :: '.' :: (List.replicate (-position).toNat '0' ++ digits)
  else
    let width := position.toNat
    let before := digits.take width
    let after := digits.drop width
    before ++ List.replicate (width - digits.length) '0' ++
      '.' :: (if after = [] then ['0'] else after)

/-- Digits with the point behind the first one and an exponent. -/
def scientific (digits : List Char) (exponent : Int) : List Char :=
  let sign := if exponent < 0 then '-' else '+'
  let power := Text.pad 2 '0' (Nat.toDigits 10 exponent.natAbs)
  let mantissa :=
    match digits with
    | d :: e :: rest => d :: '.' :: e :: rest
    | short => short
  mantissa ++ 'e' :: sign :: power

/-- A magnitude other than zero. -/
def writeMagnitude (a : Magnitude) : List Char :=
  let d := a.shortest
  let position := d.exponent + (digitCount d.digits : Int)
  let digits := significantDigits d.digits
  if -4 < position ∧ position ≤ 16 then positional digits position
  else scientific digits (position - 1)

/-- A value as text. -/
def text (x : Float) : String :=
  if x.isNaN then "nan"
  else
    let body :=
      if !isFinite x then ['i', 'n', 'f']
      else if x == 0 then ['0', '.', '0']
      else writeMagnitude (Magnitude.ofFloat x)
    String.ofList (if signBit x then '-' :: body else body)

/-- A whole number as text. -/
def wholeText (n : Int) : String :=
  let digits := Nat.toDigits 10 n.natAbs
  String.ofList (if n < 0 then '-' :: digits else digits)

/-- The value nearest to `digits * 10 ^ exponent`, settled at once where it is
zero or infinite whatever the digits are. -/
def ofScaled (d : Scaled) : Float :=
  let size := d.exponent + (digitCount d.digits : Int)
  if d.digits = 0 ∨ size < -400 then 0
  else if size > 400 then infinity
  else Float.ofScientific d.digits (d.exponent < 0) d.exponent.natAbs

/-- How many digits a whole number may have to be read. -/
def digitLimit : Nat := 4300

/-- The digits of a whole number, a single underscore allowed between two. -/
def ungroup : List Char → Option (List Char)
  | [] => none
  | [c] => if Text.isDigit c then some [c] else none
  | c :: '_' :: rest => if Text.isDigit c then (ungroup rest).map (c :: ·) else none
  | c :: rest => if Text.isDigit c then (ungroup rest).map (c :: ·) else none

/-- A whole number without a sign. -/
def readNatural (cs : List Char) : Option Nat := do
  let digits ← ungroup cs
  if digits.length ≤ digitLimit then some (Text.digitsValue digits) else none

/-- A blank that may stand around a numeral: the information separators may not. -/
def isMargin (c : Char) : Bool := Text.isBlank c && !(0x1C ≤ c.toNat && c.toNat ≤ 0x1F)

/-- A whole number read from a text. -/
def readWhole (s : String) : Option Int :=
  match ((s.toList.dropWhile isMargin).reverse.dropWhile isMargin).reverse with
  | '-' :: cs => (readNatural cs).map fun n => -(n : Int)
  | '+' :: cs => (readNatural cs).map Int.ofNat
  | cs => (readNatural cs).map Int.ofNat

end Decimal
end Gamebook
