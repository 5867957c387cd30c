import StockFlow.Expression.Parser
import StockFlow.Formula.Reference
import StockFlow.Formula.Render

/-!
# The grammar of formulas

Formulas are written in two levels of infix signs, both joined from the left, over
numbered references, named functions and brackets.  A derivation says which tokens
write which formula; brackets leave no trace in it.

Main definitions:

- {lit}`NodeReference`: a kind of node with a number.
- {lit}`Rank`, {lit}`Derives`: which tokens write which formula.
- {lit}`Formula.expression`: a formula as an expression.
-/

namespace StockFlow

/-- A kind of node with a number. -/
structure NodeReference where
  kind : ReferenceKind
  id : Nat
  deriving DecidableEq, Repr

/-- The tokens of a reference. -/
def NodeReference.tokens (r : NodeReference) : List Token :=
  [.name (String.ofList r.kind.letters), .opening, .literal (.integer r.id), .closing]

/-- The sign or the name of an operator. -/
def Operator.token : Operator → Token
  | .add => .plus
  | .subtract => .minus
  | .multiply => .star
  | .divide => .slash
  | op => .name op.symbol

/-- A function is written with its name. -/
theorem Operator.token_of_isFunction {op : Operator} (h : op.isFunction = true) :
    op.token = .name op.symbol := by
  cases op <;> first | rfl | cases h

/-- An operator with a precedence of its own is written between its operands. -/
theorem Operator.isFunction_eq_false {op : Operator} (h : op.precedence ≤ 2) :
    op.isFunction = false := by
  cases op <;> first | rfl | (simp [precedence] at h)

/-- An operator between its operands has one of three precedences. -/
theorem Operator.precedence_le_two {op : Operator} (h : op.isFunction = false) :
    op.precedence ≤ 2 := by
  cases op <;> first | decide | cases h

/-- Sums, products, and what is never split. -/
inductive Rank where
  | sum
  | product
  | factor
  deriving DecidableEq, Repr

/-- Whether tokens write a formula of a rank. -/
inductive Derives : Rank → List Token → Formula NodeReference → Prop
  | sum {ts : List Token} {f : Formula NodeReference} (h : Derives .product ts f) :
      Derives .sum ts f
  | product {ts : List Token} {f : Formula NodeReference} (h : Derives .factor ts f) :
      Derives .product ts f
  | addition {ts us : List Token} {f g : Formula NodeReference} {op : Operator}
      (hop : op.precedence = 1) (hl : Derives .sum ts f) (hr : Derives .product us g) :
      Derives .sum (ts ++ op.token :: us) (.apply op f g)
  | multiplication {ts us : List Token} {f g : Formula NodeReference} {op : Operator}
      (hop : op.precedence = 2) (hl : Derives .product ts f) (hr : Derives .factor us g) :
      Derives .product (ts ++ op.token :: us) (.apply op f g)
  | brackets {ts : List Token} {f : Formula NodeReference} (h : Derives .sum ts f) :
      Derives .factor (.opening :: (ts ++ [.closing])) f
  | reference (r : NodeReference) : Derives .factor r.tokens (.leaf r)
  | function {ts us : List Token} {f g : Formula NodeReference} {op : Operator}
      (hop : op.isFunction = true) (hl : Derives .sum ts f) (hr : Derives .sum us g) :
      Derives .factor (op.token :: .opening :: (ts ++ .comma :: (us ++ [.closing])))
        (.apply op f g)

/-! ## How formulas start -/

/-- Whether a token can be the first one of an expression without signs and words. -/
def Token.starts : Token → Bool
  | .name _ | .literal _ | .opening => true
  | _ => false

/-- Whether the first of some tokens can start an expression. -/
def Starts (ts : List Token) : Prop := ∃ t us, ts = t :: us ∧ t.starts = true

/-- What follows the start of a formula does not change how it starts. -/
theorem Starts.append {ts : List Token} (h : Starts ts) (us : List Token) : Starts (ts ++ us) := by
  rcases h with ⟨t, rest, rfl, ht⟩
  exact ⟨t, rest ++ us, rfl, ht⟩

/-- No formula is written with no tokens. -/
theorem Starts.length_pos {ts : List Token} (h : Starts ts) : 0 < ts.length := by
  rcases h with ⟨t, rest, rfl, _⟩
  exact Nat.succ_pos rest.length

/-- What follows the start of a formula is one token more at least. -/
theorem Starts.one_lt_length {ts : List Token} (h : Starts ts) (t : Token) (us : List Token) :
    1 < (ts ++ t :: us).length := by
  have hlength := h.length_pos
  rw [List.length_append, List.length_cons]
  omega

/-- Every formula starts with a bracket or with the name of a function or a leaf. -/
theorem Derives.starts {rank : Rank} {ts : List Token} {f : Formula NodeReference}
    (h : Derives rank ts f) : Starts ts := by
  induction h with
  | sum _ ih => exact ih
  | product _ ih => exact ih
  | addition _ _ _ ihl _ => exact ihl.append _
  | multiplication _ _ _ ihl _ => exact ihl.append _
  | brackets _ _ => exact ⟨_, _, rfl, rfl⟩
  | reference r => exact ⟨_, _, rfl, rfl⟩
  | function hop _ _ _ _ =>
      refine ⟨_, _, rfl, ?_⟩
      rw [Operator.token_of_isFunction hop]
      rfl

/-! ## Formulas as expressions -/

/-- Two expressions under an operator. -/
def Operator.expression : Operator → Expression → Expression → Expression
  | .add, l, r => .binary .add l r
  | .subtract, l, r => .binary .subtract l r
  | .multiply, l, r => .binary .multiply l r
  | .divide, l, r => .binary .divide l r
  | op, l, r => .call (.name op.symbol) [l, r] []

/-- A function is read as a call of its name with two arguments. -/
theorem Operator.expression_of_isFunction {op : Operator} (h : op.isFunction = true)
    (l r : Expression) : op.expression l r = .call (.name op.symbol) [l, r] [] := by
  cases op <;> first | rfl | cases h

/-- A formula as an expression. -/
def Formula.expression : Formula NodeReference → Expression
  | .leaf r => .call (.name (String.ofList r.kind.letters)) [.literal (.integer r.id)] []
  | .apply op l r => op.expression l.expression r.expression

end StockFlow
