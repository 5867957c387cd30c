import StockFlow.Proofs.Formula.Breakdowns

/-!
# Renamed tables

Reading a text never looks at what references stand for, it only puts that in its
place.  So a text that is read with a renamed table gives what it gives with the
original one, renamed, and it is refused for the same reasons.

Main results:

- Theorem {lit}`Formula.ofExpression_map`: expressions under a renamed table.
- Theorem {lit}`Formula.ofText_map`: texts under a renamed table.
-/

namespace StockFlow
namespace Formula

variable {α β ε : Type} {lift : ReadError → ε} {table : Table α}

/-- A table in which what references stand for is renamed. -/
def Table.rename (g : α → β) (table : Table α) : Table β := fun kind id => (table kind id).map g

theorem refuse_map (g : α → β) (reason : String → ReadError) (levels : Nat) (e : Expression) :
    (refuse lift reason levels e : Except ε β) = (refuse lift reason levels e).map g := rfl

/-- A renamed table resolves references to renamed formulas. -/
theorem resolve_map (g : α → β) (kind : ReferenceKind) (levels : Nat) (e : Expression)
    (arguments : List Expression) :
    resolve lift (table.rename g) kind levels e arguments =
      (resolve lift table kind levels e arguments).map g := by
  unfold resolve
  split
  · rename_i id
    rw [Table.rename]
    cases table kind id with
    | some a => rfl
    | none =>
        simp only [Option.map_none]
        split <;> rfl
  · exact refuse_map g _ _ _
  · rfl

section

variable {join : Operator → α → α → Except ε α} {join' : Operator → β → β → Except ε β}
  {g : α → β} (hjoin : ∀ op a b, join' op (g a) (g b) = (join op a b).map g)

include hjoin

/-- Renamed operands are joined to the renamed whole. -/
theorem join_map (op : Operator) (x y : Except ε α) :
    (do
      let left ← x.map g
      let right ← y.map g
      join' op left right) = (do
      let left ← x
      let right ← y
      join op left right).map g := by
  cases x with
  | error e => rfl
  | ok a =>
      cases y with
      | error e => rfl
      | ok b => exact hjoin op a b

/-- An expression under a renamed table gives what it gives under the table, renamed. -/
theorem ofExpression_map (depth : Nat) (e : Expression) :
    ofExpression lift (table.rename g) join' depth e =
      (ofExpression lift table join depth e).map g := by
  fun_induction ofExpression lift table join depth e
  case case1 => rfl
  case case2 depth sign l r hsign =>
      simp only [ofExpression, hsign]
      exact refuse_map g _ _ _
  case case3 depth sign l r op hsign ihl ihr =>
      simp only [ofExpression, hsign, ihl, ihr]
      exact join_map hjoin op _ _
  case case4 depth name arguments keywords hkeywords kind hkind =>
      simp only [ofExpression, hkeywords, hkind, if_true]
      exact resolve_map g kind _ _ _
  case case5 depth name arguments keywords hkeywords hkind hfunction =>
      simp only [ofExpression, hkeywords, hkind, hfunction, if_true]
      rfl
  case case6 depth name keywords hkeywords hkind op hfunction l r ihl ihr =>
      simp only [ofExpression, hkeywords, hkind, hfunction, if_true, ihl, ihr]
      exact join_map hjoin op _ _
  case case7 depth name arguments keywords hkeywords hkind op hfunction hpair =>
      simp only [ofExpression, hkeywords, hkind, hfunction, if_true]
      rfl
  case case8 depth name arguments keywords hkeywords =>
      simp only [ofExpression, hkeywords]
      exact refuse_map g _ _ _
  case case9 depth e hbinary hcall =>
      simp only [ofExpression]
      exact refuse_map g _ _ _

end

/-- A text under a renamed table gives the renamed formula, or is refused for the same reason. -/
theorem ofText_map (φ : α → β) (table : Table α) (text : String) :
    ofText (table.rename φ) text = (ofText table text).map (Formula.map φ) := by
  have htable : (fun kind n => ((table.rename φ) kind n).map Formula.leaf) =
      Table.rename (Formula.map φ) fun kind n => (table kind n).map .leaf := by
    funext kind n
    rw [Table.rename, Table.rename]
    cases table kind n <;> rfl
  rw [ofText, ofText, readWith, readWith, htable]
  cases expressionOf text with
  | error e => rfl
  | ok e => exact ofExpression_map (fun op l r => rfl) allowedDepth e

end Formula
end StockFlow
