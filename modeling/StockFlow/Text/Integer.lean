import StockFlow.Text.Basic

/-!
# Whole numbers in running text

People write whole numbers with blanks around them, with a sign, with single
underscores between the digits, and with the digits of any script.

Main definitions:

- {lit}`WholeReading`: what a text says about a whole number.
- {lit}`Text.digitRow?`: the values of a row of digits.
- {lit}`Text.integer`, {lit}`Text.integer?`: the whole number that a text writes.
-/

namespace StockFlow

/-- What a text says about a whole number. -/
inductive WholeReading where
  | value (n : Int)
  /-- The text starts with more digits than the limit allows. -/
  | tooLong (digits : Nat)
  | malformed
  deriving DecidableEq, Repr

namespace WholeReading

/-- The number, if there is one. -/
def value? : WholeReading → Option Int
  | .value n => some n
  | _ => none

/-- The same reading of the opposite number. -/
def negated : WholeReading → WholeReading
  | .value n => .value (-n)
  | reading => reading

/-- A minus sign negates the value of what was read. -/
@[simp] theorem value?_negated (r : WholeReading) : r.negated.value? = r.value?.map (- ·) := by
  cases r <;> rfl

end WholeReading

namespace Text

/-- Digits that may each follow a single underscore. -/
def moreDigits? : List Char → Option (List Nat)
  | [] => some []
  | '_' :: c :: rest => do
      let d ← digitValue? c
      let ds ← moreDigits? rest
      return d :: ds
  | c :: rest => do
      let d ← digitValue? c
      let ds ← moreDigits? rest
      return d :: ds

/-- The values of a row of digits; it starts with a digit. -/
def digitRow? (cs : List Char) : Option (List Nat) :=
  match cs with
  | [] => none
  | c :: _ => if (digitValue? c).isSome then moreDigits? cs else none

/-- Whether a character may stand in a row of digits. -/
def isInDigitRow (c : Char) : Bool := c == '_' || (digitValue? c).isSome

/-- A number without a sign; too many digits are noticed before what follows them. -/
def natural (cs : List Char) : WholeReading :=
  let row := cs.takeWhile isInDigitRow
  match digitRow? row with
  | none => .malformed
  | some digits =>
      if digitLimit < digits.length then .tooLong digits.length
      else if row.length = cs.length then .value (digits.foldl (fun n d => 10 * n + d) 0 : Nat)
      else .malformed

/-- What a text says about a whole number. -/
def integer (s : String) : WholeReading :=
  match trim s.toList with
  | '-' :: rest => (natural rest).negated
  | '+' :: rest => natural rest
  | rest => natural rest

/-- The whole number that a text writes. -/
def integer? (s : String) : Option Int := (integer s).value?

end Text
end StockFlow
