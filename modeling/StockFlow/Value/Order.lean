import StockFlow.Number.Double
import StockFlow.Value

/-!
# Equality and order of plain values

Truth values count as the numbers zero and one, and numbers are compared by what
they stand for, so that no integer is rounded to a double first.  Lists are equal
item by item, records field by field in any order.  Numbers, texts and lists have
an order among their like; other values have none.

Main definitions:

- {lit}`Quantity`, {lit}`Quantity.compare?`: numbers, and their exact comparison.
- {lit}`Quantity.divides`: whether a count is a multiple of a number.
- {lit}`Value.equals`: whether two values are equal.
- {lit}`Value.reaches`: whether a value is at least another one.
- {lit}`Value.isOneThing`: the values that exist only once.
-/

namespace StockFlow

/-! ## Numbers -/

/-- A number as it was given. -/
inductive Quantity where
  | truth (b : Bool)
  | whole (n : Int)
  | real (x : Float)
  deriving DecidableEq

namespace Quantity

/-- The plain value that a number is. -/
def value : Quantity → Value
  | .truth b => .truth b
  | .whole n => .integer n
  | .real x => .real x

/-- A number as a sign with a natural and a power of two, or as what lies beyond the finite ones. -/
def parts : Quantity → Double.Parts
  | .truth b => .finite false (if b then 1 else 0) 0
  | .whole n => .finite (n < 0) n.natAbs 0
  | .real x => Double.parts x

/-- A signed mantissa times a power of two, measured in units of another power below it. -/
def scaled (negative : Bool) (mantissa : Nat) (exponent unit : Int) : Int :=
  let m : Int := (mantissa * twoTo (exponent - unit).toNat : Nat)
  if negative then -m else m

/-- The order of two numbers by what they stand for; NaN stands in no order. -/
def compare? (a b : Quantity) : Option Ordering :=
  match a.parts, b.parts with
  | .nan, _ => none
  | _, .nan => none
  | .infinite x, .infinite y => some (if x == y then .eq else if x then .lt else .gt)
  | .infinite x, .finite _ _ _ => some (if x then .lt else .gt)
  | .finite _ _ _, .infinite y => some (if y then .gt else .lt)
  | .finite x m e, .finite y n f =>
      let unit := min e f
      some (compare (scaled x m e unit) (scaled y n f unit))

/-- A whole number equals itself. -/
@[simp] theorem compare?_whole_self (n : Int) : compare? (.whole n) (.whole n) = some .eq := by
  simp [compare?, parts]

/-- Whether a number lies below another one; nothing lies below or above NaN. -/
def isBelow (a b : Quantity) : Bool := a.compare? b == some .lt

/-- No whole number lies below itself. -/
@[simp] theorem isBelow_whole_self (n : Int) : isBelow (.whole n) (.whole n) = false := by
  simp [isBelow]

theorem scaled_zero (negative : Bool) (mantissa : Nat) :
    scaled negative mantissa 0 0 = if negative then -(mantissa : Int) else mantissa := by
  simp [scaled, twoTo]

/-- Whole numbers are compared as integers. -/
theorem compare?_whole (a b : Int) : compare? (.whole a) (.whole b) = some (compare a b) := by
  have hscaled : ∀ n : Int, scaled (n < 0) n.natAbs 0 0 = n := by
    intro n
    rw [scaled_zero]
    by_cases hn : n < 0
    · rw [decide_eq_true hn, if_pos rfl]
      omega
    · rw [decide_eq_false hn, if_neg Bool.false_ne_true]
      omega
  simp only [compare?, parts, Int.min_self, hscaled]

/-- Whole numbers are compared as integers. -/
theorem isBelow_whole (a b : Int) : isBelow (.whole a) (.whole b) = decide (a < b) := by
  rw [isBelow, compare?_whole, Bool.eq_iff_iff]
  simp [Int.compare_eq_lt]

/-- The whole part of a finite number, towards zero. -/
def wholePart? (q : Quantity) : Option Int :=
  match q.parts with
  | .finite negative m e =>
      let n : Int := (m * twoTo e.toNat / twoTo (-e).toNat : Nat)
      some (if negative then -n else n)
  | _ => none

/-- Whether a count is a multiple of a number; only finite numbers have multiples. -/
def divides (q : Quantity) (count : Nat) : Bool :=
  match q.parts with
  | .finite _ m e =>
      let unit := min e 0
      scaled false count 0 unit % scaled false m e unit == 0
  | _ => false

/-- A whole interval divides counts as an integer does. -/
theorem divides_whole (n : Int) (count : Nat) :
    divides (.whole n) count = decide (n ∣ count) := by
  simp only [divides, parts, Int.min_self, scaled_zero, Bool.false_eq_true, if_false]
  rw [Bool.eq_iff_iff, beq_iff_eq, decide_eq_true_iff, ← Int.dvd_iff_emod_eq_zero, Int.natAbs_dvd]

end Quantity

namespace Value

/-- The number that a value is. -/
def quantity? : Value → Option Quantity
  | .truth b => some (.truth b)
  | .integer n => some (.whole n)
  | .real x => some (.real x)
  | _ => none

@[simp] theorem quantity?_value (q : Quantity) : q.value.quantity? = some q := by
  cases q <;> rfl

/-- Whether two values are equal numbers. -/
def equalNumbers (a b : Value) : Bool :=
  match a.quantity?, b.quantity? with
  | some p, some q => p.compare? q == some .eq
  | _, _ => false

/-! ## Equality -/

mutual

/-- Whether two values are equal. -/
def equals : Value → Value → Bool
  | .absent, .absent => true
  | .text s, .text t => s == t
  | .list xs, .list ys => equalItems xs ys
  | .record fields, .record others =>
      fields.length == others.length && equalFields fields others
  | a, b => equalNumbers a b

/-- Whether two lists are equal item by item. -/
def equalItems : List Value → List Value → Bool
  | [], [] => true
  | x :: xs, y :: ys => equals x y && equalItems xs ys
  | _, _ => false

/-- Whether each of some fields is there in a record, with an equal content. -/
def equalFields : List (String × Value) → List (String × Value) → Bool
  | [], _ => true
  | (key, v) :: rest, others =>
      (match others.lookup key with
        | some w => equals v w
        | none => false) && equalFields rest others

end

/-! ## Order -/

mutual

/-- Whether a value is at least another one; otherwise the two parts that have no order. -/
def reaches : Value → Value → Except (Value × Value) Bool
  | .text s, .text t => .ok (decide (t ≤ s))
  | .list xs, .list ys => reachesItems xs ys
  | a, b =>
      match a.quantity?, b.quantity? with
      | some p, some q =>
          match p.compare? q with
          | some .lt => .ok false
          | some _ => .ok true
          | none => .ok false
      | _, _ => .error (a, b)

/-- The same for lists: the first items that differ decide, then the lengths. -/
def reachesItems : List Value → List Value → Except (Value × Value) Bool
  | [], [] => .ok true
  | [], _ :: _ => .ok false
  | _ :: _, [] => .ok true
  | x :: xs, y :: ys => if equals x y then reachesItems xs ys else reaches x y

end

/-! ## Single things -/

/--
Whether there is only one thing with this content: absent and truth values, small integers,
short texts.
-/
def isOneThing : Value → Bool
  | .absent => true
  | .truth _ => true
  | .integer n => -5 ≤ n && n ≤ 256
  | .text s =>
      match s.toList with
      | [] => true
      | [c] => c.toNat < 256
      | _ => false
  | _ => false

/-- Whether two values of single things are one thing. -/
def isSameThing : Value → Value → Bool
  | .absent, .absent => true
  | .truth a, .truth b => a == b
  | .integer m, .integer n => m == n && (Value.integer m).isOneThing
  | .text s, .text t => s == t && (Value.text s).isOneThing
  | _, _ => false

end Value
end StockFlow
