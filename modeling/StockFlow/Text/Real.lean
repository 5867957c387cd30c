import StockFlow.Number.Double
import StockFlow.Text.Basic

/-!
# Numbers in running text

A number is written with digits, a point, an exponent and a sign, or as a word
for infinity or for no number at all.  There are two ways with underscores: in
the loose one single underscores may stand anywhere but at the ends, in the
strict one only between two digits.

Main definitions:

- {lit}`Text.Scientific`: digits and a power of ten.
- {lit}`Text.real?`: the double nearest to the number that characters write, loosely.
- {lit}`Text.strictReal?`: the same for a text with blanks around it and digits of any script.
-/

namespace StockFlow
namespace Text

/-- A number as its digits and a power of ten. -/
structure Scientific where
  digits : List Char
  exponent : Int

/-- Digits, at least one. -/
def wholeDigits? (cs : List Char) : Option Nat :=
  if cs.isEmpty || !cs.all isAsciiDigit then none else some (decimalValue cs)

/-- A power of ten behind the letter for it; nothing stands for the power zero. -/
def exponent? : List Char → Option Int
  | [] => some 0
  | c :: rest =>
      if c == 'e' || c == 'E' then
        match rest with
        | '-' :: digits => (wholeDigits? digits).map fun n => -(n : Int)
        | '+' :: digits => (wholeDigits? digits).map fun n => (n : Int)
        | digits => (wholeDigits? digits).map fun n => (n : Int)
      else none

/-- Digits with at most one point, and a power of ten. -/
def scientific? (cs : List Char) : Option Scientific := do
  let whole := cs.takeWhile isAsciiDigit
  let rest := cs.dropWhile isAsciiDigit
  let afterPoint := match rest with
    | '.' :: more => more
    | _ => []
  let fraction := afterPoint.takeWhile isAsciiDigit
  let tail := match rest with
    | '.' :: more => more.dropWhile isAsciiDigit
    | _ => rest
  let e ← exponent? tail
  if whole.isEmpty && fraction.isEmpty then none
  else some { digits := whole ++ fraction, exponent := e - fraction.length }

/-- A number without its sign. -/
def magnitude? (negative : Bool) (cs : List Char) : Option Float :=
  let word := String.ofList (cs.map Char.toLower)
  if word == "inf" || word == "infinity" then
    some (Double.ofMagnitudeBits negative Double.infinityBits)
  else if word == "nan" then some (0.0 / 0.0)
  else
    (scientific? cs).map fun s => Double.ofDecimal negative (decimalValue s.digits) s.exponent

/-- A text without its underscores; none if they stand at an end or side by side. -/
def withoutUnderscores? (cs : List Char) : Option (List Char) :=
  let sideBySide := (cs.zip cs.tail).any fun pair => pair.1 == '_' && pair.2 == '_'
  if cs.head? == some '_' || cs.getLast? == some '_' || sideBySide then none
  else some (cs.filter (· != '_'))

/-- A number with or without a sign. -/
def signed? : List Char → Option Float
  | '-' :: rest => magnitude? true rest
  | '+' :: rest => magnitude? false rest
  | rest => magnitude? false rest

/-- The double nearest to the number that characters write. -/
def real? (cs : List Char) : Option Float := (withoutUnderscores? cs).bind signed?

/-! ## Strict reading -/

/-- A digit of any script as an ASCII digit; other characters stay. -/
def asciiDigit (c : Char) : Char :=
  match digitValue? c with
  | some d => Char.ofNat ('0'.toNat + d)
  | none => c

/-- Characters without underscores, of which each must stand between two digits. -/
def withoutInnerUnderscores? (afterDigit : Bool) : List Char → Option (List Char)
  | [] => some []
  | c :: rest =>
      if c == '_' then
        if afterDigit && (rest.head?.map isAsciiDigit).getD false then
          withoutInnerUnderscores? false rest
        else none
      else (withoutInnerUnderscores? (isAsciiDigit c) rest).map (c :: ·)

/-- The double nearest to the number that a text writes. -/
def strictReal? (s : String) : Option Float :=
  (withoutInnerUnderscores? false ((trim s.toList).map asciiDigit)).bind signed?

end Text
end StockFlow
