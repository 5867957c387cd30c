import StockFlow.Number.Double

/-!
# Formulas

A formula is a binary tree: inner elements are operators, leaves are whatever
the formula reads, in a model its nodes.  The leaf type is a parameter, so the
same trees carry nodes, numbered references and leaf texts.

Main definitions:

- {lit}`Operator`, {lit}`Formula`: the seven operators and the trees over them.
- {lit}`Formula.eval`: the value under a valuation of the leaves.
- {lit}`Formula.leaves`, {lit}`Formula.reads`: leaves in order, with and without repeats.
- {lit}`Formula.depth`, {lit}`Formula.elements`: nesting, and all subtrees in preorder.

Main results:

- Theorem {lit}`Formula.eval_congr`: the value depends on the leaves' values only.
- Theorem {lit}`Formula.mem_reads`: a formula reads exactly its leaves.
-/

namespace StockFlow

/-- The operators of formulas: four infix signs and three named functions. -/
inductive Operator where
  | add
  | subtract
  | multiply
  | divide
  | maximum
  | minimum
  | round
  deriving DecidableEq, Repr, Inhabited

namespace Operator

/-- How an operator is written. -/
def symbol : Operator → String
  | .add => "+"
  | .subtract => "-"
  | .multiply => "*"
  | .divide => "/"
  | .maximum => "MAX"
  | .minimum => "MIN"
  | .round => "ROUND"

/-- Every operator, the infix signs first. -/
def all : List Operator := [.add, .subtract, .multiply, .divide, .maximum, .minimum, .round]

/-- The operator written in a given way. -/
def ofSymbol? (s : String) : Option Operator := all.find? (·.symbol == s)

/-- Whether an operator is written as a named function of two operands. -/
def isFunction : Operator → Bool
  | .maximum | .minimum | .round => true
  | _ => false

/-- What an operator computes. -/
def apply : Operator → Float → Float → Float
  | .add, a, b => a + b
  | .subtract, a, b => a - b
  | .multiply, a, b => a * b
  | .divide, a, b => a / b
  | .maximum, a, b => Double.larger a b
  | .minimum, a, b => Double.smaller a b
  | .round, a, b => Double.roundHalfUp a b

/-- How messages name the operator's elements. -/
def elementWord : Operator → String
  | .add => "ASTPlus"
  | .subtract => "ASTMinus"
  | .multiply => "ASTMultiply"
  | .divide => "ASTDivide"
  | .maximum => "ASTMax"
  | .minimum => "ASTMin"
  | .round => "ASTRound"

/-- All operators are listed. -/
theorem mem_all (op : Operator) : op ∈ all := by
  cases op <;> simp [all]

end Operator

/-- A tree of operators over leaves. -/
inductive Formula (α : Type) where
  | leaf (a : α)
  | apply (op : Operator) (left right : Formula α)
  deriving DecidableEq, Repr, Inhabited

namespace Formula

variable {α β γ : Type}

/-! ## Structure -/

/-- The leaves from left to right, repeats included. -/
def leaves : Formula α → List α
  | .leaf a => [a]
  | .apply _ l r => l.leaves ++ r.leaves

/-- The leaves in the order of their first appearance, without repeats. -/
def reads [BEq α] (f : Formula α) : List α := f.leaves.eraseDups

/-- Nesting depth; a leaf alone has depth one. -/
def depth : Formula α → Nat
  | .leaf _ => 1
  | .apply _ l r => max l.depth r.depth + 1

/-- The operators in the order of their signs and names in the written formula. -/
def operators : Formula α → List Operator
  | .leaf _ => []
  | .apply op l r =>
      if op.isFunction then op :: (l.operators ++ r.operators)
      else l.operators ++ op :: r.operators

/-- All subtrees, each before its own subtrees, left before right. -/
def elements : Formula α → List (Formula α)
  | .leaf a => [.leaf a]
  | .apply op l r => .apply op l r :: (l.elements ++ r.elements)

/-- Replaces every leaf. -/
def map (g : α → β) : Formula α → Formula β
  | .leaf a => .leaf (g a)
  | .apply op l r => .apply op (l.map g) (r.map g)

/-- Replaces every leaf by a step that may fail, left to right; the first failure wins. -/
def mapExcept {ε : Type} (g : α → Except ε β) : Formula α → Except ε (Formula β)
  | .leaf a => (g a).map .leaf
  | .apply op l r => do
      let l' ← l.mapExcept g
      let r' ← r.mapExcept g
      return .apply op l' r'

@[simp] theorem leaves_leaf (a : α) : (Formula.leaf a).leaves = [a] := rfl

/-- The leaves of an operator are those of its operands, from the left. -/
@[simp] theorem leaves_apply (op : Operator) (l r : Formula α) :
    (Formula.apply op l r).leaves = l.leaves ++ r.leaves := rfl

/-- New leaves take the places of the old ones. -/
@[simp] theorem leaves_map (g : α → β) (f : Formula α) : (f.map g).leaves = f.leaves.map g := by
  induction f with
  | leaf a => rfl
  | apply op l r ihl ihr => simp [map, ihl, ihr]

/-- Every formula has a leaf. -/
theorem leaves_ne_nil (f : Formula α) : f.leaves ≠ [] := by
  induction f with
  | leaf a => simp
  | apply op l r ihl _ => simp [ihl]

/-- No formula is without depth. -/
theorem depth_pos (f : Formula α) : 0 < f.depth := by
  cases f <;> simp [depth]

/-- New leaves do not change the depth. -/
@[simp] theorem depth_map (g : α → β) (f : Formula α) : (f.map g).depth = f.depth := by
  induction f with
  | leaf a => rfl
  | apply op l r ihl ihr => simp [map, depth, ihl, ihr]

/-- A formula reads exactly its leaves. -/
@[simp] theorem mem_reads [BEq α] [LawfulBEq α] {f : Formula α} {a : α} :
    a ∈ f.reads ↔ a ∈ f.leaves := by
  simp [reads]

/-! ## Evaluation -/

/-- The value under a valuation of the leaves. -/
def eval (value : α → Float) : Formula α → Float
  | .leaf a => value a
  | .apply op l r => op.apply (l.eval value) (r.eval value)

@[simp] theorem eval_leaf (value : α → Float) (a : α) : (Formula.leaf a).eval value = value a := rfl

@[simp] theorem eval_apply (value : α → Float) (op : Operator) (l r : Formula α) :
    (Formula.apply op l r).eval value = op.apply (l.eval value) (r.eval value) := rfl

/-- Valuations that agree on the leaves give the same value. -/
theorem eval_congr {v w : α → Float} {f : Formula α} (h : ∀ a ∈ f.leaves, v a = w a) :
    f.eval v = f.eval w := by
  induction f with
  | leaf a => exact h a (by simp)
  | apply op l r ihl ihr =>
      simp only [eval_apply]
      rw [ihl fun a ha => h a (by simp [ha]), ihr fun a ha => h a (by simp [ha])]

/-- Evaluating renamed leaves is evaluating under the renamed valuation. -/
theorem eval_map (g : α → β) (value : β → Float) (f : Formula α) :
    (f.map g).eval value = f.eval (value ∘ g) := by
  induction f with
  | leaf a => rfl
  | apply op l r ihl ihr => simp [map, ihl, ihr]

end Formula
end StockFlow
