import StockFlow.Number.Double
import StockFlow.Text.Basic

/-!
# Text of doubles

Two written forms.  The shortest form has the fewest digits that read back as
the same double; where it ends positional notation and how it writes an exponent
is a {lit}`Double.Style`.  The fixed form has a given number of places and is the
exact value rounded half to even.

Main definitions:

- {lit}`Double.shortest`: the fewest digits that read back, and their power of ten.
- {lit}`Double.text`: the shortest form in a style.
- {lit}`Double.fixedText`: a given number of places.
-/

namespace StockFlow
namespace Double

/-! ## Shortest digits -/

/-- A positive number `num / den`. -/
structure Ratio where
  num : Nat
  den : Nat

/-- `± r · 10 ^ (-k)` as a ratio. -/
def Ratio.shift (r : Ratio) (k : Int) : Ratio :=
  if k < 0 then ⟨r.num * tenTo k.natAbs, r.den⟩ else ⟨r.num, r.den * tenTo k.natAbs⟩

/-- `m · 2 ^ e` as a ratio. -/
def Ratio.ofBinary (m : Nat) (e : Int) : Ratio :=
  if e < 0 then ⟨m, twoTo e.natAbs⟩ else ⟨m * twoTo e.natAbs, 1⟩

/-- At least `10 ^ k`. -/
def Ratio.reaches (r : Ratio) (k : Int) : Bool :=
  let s := r.shift k
  s.den ≤ s.num

/-- The exponent of the leading decimal digit of a positive `m · 2 ^ e`. -/
def leadingPower (m : Nat) (e : Int) : Int :=
  let r := Ratio.ofBinary m e
  let guess := (((Nat.log2 m : Int) + e) * 30103) / 100000
  if r.reaches (guess + 1) then guess + 1
  else if r.reaches guess then guess
  else guess - 1

/-- The numbers that round to a double, in quarters of its last place. -/
structure Interval where
  low : Nat
  high : Nat
  closed : Bool

/--
The interval that rounds to `m · 2 ^ e`, in quarters of `2 ^ e`; below a power of two it is
half as wide.
-/
def Interval.around (m : Nat) (e : Int) : Interval :=
  { low := 4 * m - (if m = twoTo 52 ∧ -1074 < e then 1 else 2)
    high := 4 * m + 2
    closed := m % 2 == 0 }

/-- Whether `d · 10 ^ k` rounds to `m · 2 ^ e`. -/
def readsBack (m : Nat) (e : Int) (d : Nat) (k : Int) : Bool :=
  let i := Interval.around m e
  let tens := if k < 0 then 1 else tenTo k.natAbs
  let tenths := if k < 0 then tenTo k.natAbs else 1
  let quarter := Ratio.ofBinary 1 (e - 2)
  let value := d * tens * quarter.den
  let low := i.low * quarter.num * tenths
  let high := i.high * quarter.num * tenths
  if i.closed then low ≤ value && value ≤ high else low < value && value < high

/-- The best decimal with the grid `10 ^ k` that reads back as `m · 2 ^ e`, if there is one. -/
def onGrid? (m : Nat) (e : Int) (k : Int) : Option Nat :=
  let r := (Ratio.ofBinary m e).shift k
  let below := r.num / r.den
  let nearest := roundDiv r.num r.den
  let other := if nearest = below then below + 1 else below
  if readsBack m e nearest k then some nearest
  else if readsBack m e other k then some other
  else none

/-- Tries one more digit at a time, from the leading one on. -/
def shortestFrom (m : Nat) (e : Int) : Nat → Int → Nat × Int
  | 0, k => (((Ratio.ofBinary m e).shift k).num / ((Ratio.ofBinary m e).shift k).den, k)
  | tries + 1, k =>
      match onGrid? m e k with
      | some d => (d, k)
      | none => shortestFrom m e tries (k - 1)

/-- The fewest digits `d` with a power `k` such that `d · 10 ^ k` reads back as `m · 2 ^ e`. -/
def shortest (m : Nat) (e : Int) : Nat × Int :=
  shortestFrom m e 17 (leadingPower m e)

/-- The digits without zeros at their end, and the exponent of the leading one. -/
def leadingForm (d : Nat) (k : Int) : List Char × Int :=
  let ds := Text.decimalDigits d
  let trimmed := (ds.reverse.dropWhile (· == '0')).reverse
  (trimmed, k + ds.length - 1)

/-! ## Styles -/

/-- How a shortest form is written. -/
structure Style where
  /-- The smallest exponent of a leading digit that is written positionally. -/
  lowest : Int := -4
  /-- The first exponent of a leading digit that is no longer written positionally. -/
  beyond : Int := 16
  /-- What follows a whole number. -/
  wholeEnd : String := ".0"
  /-- How an infinite value is written. -/
  infinity : String := "inf"
  /-- How NaN is written. -/
  notANumber : String := "nan"

/-- Plain positional digits for a leading digit at the exponent `p`. -/
def positional (style : Style) (digits : List Char) (p : Int) : List Char :=
  if p < 0 then
    '0' :: '.' :: List.replicate (p.natAbs - 1) '0' ++ digits
  else
    let whole := p.natAbs + 1
    if digits.length ≤ whole then
      digits ++ List.replicate (whole - digits.length) '0' ++ style.wholeEnd.toList
    else
      digits.take whole ++ '.' :: digits.drop whole

/-- One digit, the rest as a fraction, and an exponent of at least two digits. -/
def scientific (digits : List Char) (p : Int) : List Char :=
  let mantissa := match digits with
    | d :: rest => if rest.isEmpty then [d] else d :: '.' :: rest
    | [] => []
  let power := Text.decimalDigits p.natAbs
  let padded := if power.length < 2 then '0' :: power else power
  mantissa ++ 'e' :: (if p < 0 then '-' else '+') :: padded

/-- The shortest form of a double in a style. -/
def text (style : Style) (x : Float) : String :=
  match parts x with
  | .nan => style.notANumber
  | .infinite negative => (if negative then "-" else "") ++ style.infinity
  | .finite negative m e =>
      let sign := if negative then "-" else ""
      if m = 0 then sign ++ "0" ++ style.wholeEnd
      else
        let (digits, p) :=
          let (d, k) := shortest m e
          leadingForm d k
        let body :=
          if style.lowest ≤ p ∧ p < style.beyond then positional style digits p
          else scientific digits p
        sign ++ String.ofList body

/-! ## Fixed places -/

/-- A number of units of `10 ^ (-places)`, written with a point. -/
def placed (places units : Nat) : List Char :=
  let ds := Text.decimalDigits units
  let padded := List.replicate (places + 1 - ds.length) '0' ++ ds
  let whole := padded.length - places
  padded.take whole ++ (if places = 0 then [] else '.' :: padded.drop whole)

/-- The exact value rounded half to even to a number of places; infinities and NaN by name. -/
def fixedText (places : Nat) (x : Float) : String :=
  match parts x with
  | .nan => "nan"
  | .infinite negative => if negative then "-inf" else "inf"
  | .finite negative m e =>
      let r := Ratio.ofBinary m e
      let units := roundDiv (r.num * tenTo places) r.den
      (if negative then "-" else "") ++ String.ofList (placed places units)

end Double
end StockFlow
