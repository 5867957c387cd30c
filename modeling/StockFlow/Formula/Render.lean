import StockFlow.Formula.Basic

/-!
# Written formulas

A formula whose leaves are texts is written with the fewest brackets that keep
its structure.  Infix operators associate to the left, so an operand is
bracketed on the left if it binds more loosely than the operator and on the
right also if it binds equally; functions bracket nothing but their two operands
as a whole.

Main definitions:

- {lit}`Formula.precedence`: how tightly the outermost element binds.
- {lit}`Formula.render`: the written form as characters.
- {lit}`Formula.text`: the written form of a formula under a naming of its leaves.
-/

namespace StockFlow

/-- Infix signs bind in two levels; functions are closed by their own brackets. -/
def Operator.precedence : Operator → Nat
  | .add | .subtract => 1
  | .multiply | .divide => 2
  | _ => 3

namespace Formula

variable {α : Type}

/-- How tightly the outermost element binds; leaves are never split. -/
def precedence : Formula α → Nat
  | .leaf _ => 3
  | .apply op _ _ => op.precedence

/-- Characters between brackets if a condition holds. -/
def bracketedIf (condition : Bool) (cs : List Char) : List Char :=
  if condition then '(' :: cs ++ [')'] else cs

/-- Whether the left operand of an infix operator needs brackets. -/
def bracketsLeft (op : Operator) (l : Formula α) : Bool := l.precedence < op.precedence

/-- Whether the right operand of an infix operator needs brackets. -/
def bracketsRight (op : Operator) (r : Formula α) : Bool := r.precedence ≤ op.precedence

/-- The written form of a formula over leaf texts. -/
def render : Formula (List Char) → List Char
  | .leaf cs => cs
  | .apply op l r =>
      if op.isFunction then
        op.symbol.toList ++ '(' :: l.render ++ ',' :: ' ' :: r.render ++ [')']
      else
        bracketedIf (bracketsLeft op l) l.render ++ ' ' :: op.symbol.toList ++
          ' ' :: bracketedIf (bracketsRight op r) r.render

/-- The written form under a naming of the leaves. -/
def text (name : α → String) (f : Formula α) : String :=
  String.ofList (f.map fun a => (name a).toList).render

/-- The written form under a naming that may fail; the first leaf without a name decides. -/
def textExcept {ε : Type} (name : α → Except ε String) (f : Formula α) : Except ε String :=
  (f.mapExcept name).map (text id)

end Formula
end StockFlow
