/-!
# Doubles as exact numbers

A finite double is `± m · 2 ^ e` with a natural `m` and an integer `e`.  This
module takes doubles apart and puts them together by exact integer arithmetic,
so every conversion below is correctly rounded.  Binary numbers are scaled by powers
of two and written numbers by powers of ten.  The functions that formulas offer
beside the four operators are fixed total functions on all doubles, NaN and the
infinities included.

Main definitions:

- {lit}`twoTo`, {lit}`tenTo`: powers of two and ten.
- {lit}`Double.parts`: sign, mantissa and exponent of a double.
- {lit}`Double.ofRatio`: the double nearest to a quotient of naturals, an exact
  tie going to the even mantissa.
- {lit}`Double.ofInt?`: the double nearest to an integer, if it is in range.
- {lit}`Double.ofDecimal`: the double nearest to `digits · 10 ^ exponent`.
- {lit}`Double.larger`, {lit}`Double.smaller`, {lit}`Double.roundHalfUp`: selection and
  rounding.
-/

namespace StockFlow

/-! ## Powers -/

/-- A power of two. -/
def twoTo (k : Nat) : Nat := Nat.pow 2 k

/-- A power of ten. -/
def tenTo (k : Nat) : Nat := Nat.pow 10 k

namespace Double

/-! ## Parts -/

/-- What the bits of a double stand for. -/
inductive Parts where
  | nan
  | infinite (negative : Bool)
  | finite (negative : Bool) (mantissa : Nat) (exponent : Int)
  deriving Repr, DecidableEq

/-- Sign, mantissa and exponent of a double; a normal number has its leading bit in the mantissa. -/
def parts (x : Float) : Parts :=
  let bits : Nat := x.toBits.toNat
  let negative := bits / twoTo 63 == 1
  let biased : Nat := bits / twoTo 52 % 2048
  let fraction := bits % twoTo 52
  if biased = 2047 then
    if fraction = 0 then .infinite negative else .nan
  else if biased = 0 then
    .finite negative fraction (-1074)
  else
    .finite negative (twoTo 52 + fraction) ((biased : Int) - 1075)

/-- The natural nearest to `num / den`, a tie going to the even neighbour. -/
def roundDiv (num den : Nat) : Nat :=
  let quotient := num / den
  let remainder := num % den
  if 2 * remainder < den then quotient
  else if den < 2 * remainder then quotient + 1
  else quotient + quotient % 2

/-- `num / (den · 2 ^ exponent)` rounded to the nearest natural. -/
def scaledDiv (num den : Nat) (exponent : Int) : Nat :=
  if exponent < 0 then roundDiv (num * twoTo exponent.natAbs) den
  else roundDiv num (den * twoTo exponent.natAbs)

/-- The bits of an infinite double without its sign. -/
def infinityBits : Nat := 2047 * twoTo 52

/-- The double with the given sign and the given lower 63 bits. -/
def ofMagnitudeBits (negative : Bool) (magnitude : Nat) : Float :=
  let signBit := if negative then twoTo 63 else 0
  Float.ofBits (UInt64.ofNat (signBit + min magnitude infinityBits))

/--
The lower 63 bits of the double nearest to `num / den`; at least
`infinityBits` if the quotient is out of range.

The quotient lies between `2 ^ 52` and `2 ^ 54` units of the first exponent
tried, so that one or the next gives a mantissa of 53 bits.
-/
def magnitudeOfRatio (num den : Nat) : Nat :=
  if num = 0 then 0
  else
    let first : Int := max ((Nat.log2 num : Int) - (Nat.log2 den : Int) - 53) (-1074)
    let fits := scaledDiv num den first < twoTo 53
    let exponent := if fits then first else first + 1
    (exponent + 1074).toNat * twoTo 52 + scaledDiv num den exponent

/-- The double nearest to `± num / den`. -/
def ofRatio (negative : Bool) (num den : Nat) : Float :=
  ofMagnitudeBits negative (magnitudeOfRatio num den)

/-- The double nearest to an integer; none if it rounds beyond the largest finite double. -/
def ofInt? (n : Int) : Option Float :=
  if magnitudeOfRatio n.natAbs 1 < infinityBits then
    some (ofRatio (n < 0) n.natAbs 1)
  else
    none

/--
The double nearest to `± digits · 10 ^ exponent`.  Beyond the powers of ten that
a double can hold the answer is infinity or zero without any arithmetic.
-/
def ofDecimal (negative : Bool) (digits : Nat) (exponent : Int) : Float :=
  if digits = 0 then ofMagnitudeBits negative 0
  else if 400 < exponent then ofMagnitudeBits negative infinityBits
  else if exponent + (Nat.log2 digits + 1 : Nat) < -400 then ofMagnitudeBits negative 0
  else if exponent < 0 then ofRatio negative digits (tenTo exponent.natAbs)
  else ofRatio negative (digits * tenTo exponent.natAbs) 1

/-- Rounding a whole quotient changes nothing. -/
@[simp] theorem roundDiv_one (n : Nat) : roundDiv n 1 = n := by
  simp [roundDiv, Nat.mod_one]

/-! ## Selection and rounding -/

/-- Neither infinite nor NaN. -/
def isFinite (x : Float) : Bool := x.isFinite

/-- The larger operand; NaN if an operand is NaN, the right one of two equal operands. -/
def larger (a b : Float) : Float :=
  if a.isNaN then a else if b.isNaN then b else if a > b then a else b

/-- The smaller operand; NaN if an operand is NaN, the right one of two equal operands. -/
def smaller (a b : Float) : Float :=
  if a.isNaN then a else if b.isNaN then b else if a < b then a else b

/-- The whole part, towards zero. -/
def truncate (x : Float) : Float :=
  if x < 0 then x.ceil else x.floor

/--
The value rounded to a number of decimal places, a half going up.

The number of places is cut to a whole number and may be negative.  A scale that
underflows gives zero; where the scale or the scaled value leaves the range of a
double the value has no digits to round and is returned as it is.
-/
def roundHalfUp (x places : Float) : Float :=
  if !places.isFinite then 0.0 / 0.0
  else
    let scale := Float.pow 10.0 (truncate places)
    if scale == 0.0 then 0.0
    else
      let scaled := x * scale
      if !scale.isFinite || !scaled.isFinite then x
      else (scaled + 0.5).floor / scale

end Double
end StockFlow
