import StockFlow.Text.Integer
import StockFlow.Text.Real

/-!
# Numbers in the text of fields

A field that stands for a number may hold the text of one, with blanks around it.

A whole number is read strictly first: digits without a leading zero, and a minus
sign in front of them.  A text that is not of this form is tidied and read
strictly again.  Tidying drops a fraction of zeros, a plus sign, leading zeros and
single underscores between digits; behind leading zeros a minus sign may stand.
No more digits than the limit are read, and a text says that it is too long only in
its first reading.

Main definitions:

- {lit}`FieldText.strict`, {lit}`FieldText.whole`: what a text says about a whole number.
- {lit}`FieldText.real?`: the double that a text writes.
-/

namespace StockFlow

namespace FieldText

/-! ## Whole numbers -/

/-- Whether characters start with a minus sign. -/
def isNegative : List Char → Bool
  | '-' :: _ => true
  | _ => false

/-- The digits of a number in strict form; a leading zero stands alone. -/
def strictDigits (cs : List Char) : List Char :=
  match cs with
  | '0' :: _ => ['0']
  | _ => cs.takeWhile Text.isAsciiDigit

/-- A whole number in strict form; too many digits are noticed before what follows them. -/
def strict (cs : List Char) : WholeReading :=
  let sign := if isNegative cs then 1 else 0
  let digits := strictDigits (cs.drop sign)
  if digits.isEmpty then .malformed
  else if Text.digitLimit < digits.length then .tooLong digits.length
  else if cs.length = sign + digits.length then
    .value (if isNegative cs then -(Text.decimalValue digits : Int) else Text.decimalValue digits)
  else .malformed

/-- A text without a fraction; none if the fraction consists of anything but zeros. -/
def withoutZeroFraction? (cs : List Char) : Option (List Char) :=
  match cs.dropWhile (· != '.') with
  | [] => some cs
  | _ :: zeros =>
      if zeros.isEmpty || !zeros.all (· == '0') then none else some (cs.takeWhile (· != '.'))

/-- The minus sign of a text, and what follows its sign; a digit must follow a sign. -/
def splitSign? (cs : List Char) : Option (List Char × List Char) :=
  match cs with
  | [] => some ([], [])
  | c :: rest =>
      if c == '+' || c == '-' then
        if (rest.head?.map Text.isAsciiDigit).getD false then
          some (if c == '-' then ['-'] else [], rest)
        else none
      else some ([], cs)

/--
A text without leading zeros and the underscores among them; of zeros alone the last
character stays.
-/
def withoutLeadingZeros? (cs : List Char) : Option (List Char) :=
  match cs with
  | '0' :: rest =>
      match rest.dropWhile fun c => c == '0' || c == '_' with
      | [] => some [cs.getLast?.getD '0']
      | c :: more => if c == '-' || ('1' ≤ c && c ≤ '9') then some (c :: more) else none
  | _ => some cs

/-- A text in tidy form. -/
def tidy? (cs : List Char) : Option (List Char) := do
  let (sign, rest) ← splitSign? (← withoutZeroFraction? cs)
  let digits ← Text.withoutUnderscores? (← withoutLeadingZeros? rest)
  return sign ++ digits

/-- What a text says about a whole number. -/
def whole (s : String) : WholeReading :=
  let cs := Text.trim s.toList
  match strict cs with
  | .malformed =>
      match (tidy? cs).map strict with
      | some (.value n) => .value n
      | _ => .malformed
  | reading => reading

/-! ## Doubles -/

/-- The double that a text writes; a number with underscores must have no blanks around it. -/
def real? (s : String) : Option Float :=
  let cs := Text.trim s.toList
  if cs.contains '_' && cs.length != s.length then none else Text.real? cs

/-! ## Examples -/

example : strict ['-', '1', '2'] = .value (-12) := by decide

example : strict ['0', '1'] = .malformed := by decide

example : (tidy? ['+', '0', '-', '1']).map strict = some (.value (-1)) := by decide

example : tidy? ['1', '.'] = none := by decide

end FieldText
end StockFlow
