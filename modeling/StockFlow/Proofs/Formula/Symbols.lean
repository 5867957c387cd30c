import Mathlib.Data.List.Forall2
import StockFlow.Proofs.Formula.Accepted
import StockFlow.Proofs.Formula.MarkedTokens

/-!
# The symbols of a text and of its formula

A formula text is read as a formula over numbered references.  Whatever its spelling, the
operators and references that the formula holds, in the order in which a formula is
written, are those that the words and signs of the text stand for: reading loses none of
them, adds none and changes no order.

Main definitions:

- {lit}`Symbol`, {lit}`Formula.symbols`: the operators and leaves of a formula as written.
- {lit}`Text.symbols?`: the operators and references that a text writes, if all its marks
  belong to one.

Main results:

- Theorem {lit}`Formula.ofTokens_of_expressionOf`: a text is read from the tokens of its words.
- Theorem {lit}`Formula.symbols?_of_expressionOf`: a text that is read as a formula writes
  exactly its symbols.
-/

namespace StockFlow

/-- What a written formula is made of, brackets and commas apart. -/
inductive Symbol (α : Type) where
  | operator (op : Operator)
  | leaf (a : α)
  deriving DecidableEq, Repr

namespace Symbol

variable {α β : Type}

/-- The operator that a symbol is. -/
def operator? : Symbol α → Option Operator
  | .operator op => some op
  | .leaf _ => none

/-- What a symbol has of the leaves. -/
def leaf? : Symbol α → Option α
  | .operator _ => none
  | .leaf a => some a

/-- Replaces what stands at a leaf. -/
def map (g : α → β) : Symbol α → Symbol β
  | .operator op => .operator op
  | .leaf a => .leaf (g a)

/-- Whether two symbols are one operator, or stand for leaves in a relation. -/
def Related (R : α → β → Prop) : Symbol α → Symbol β → Prop
  | .operator op, .operator op' => op = op'
  | .leaf a, .leaf b => R a b
  | _, _ => False

/-- The marks of a symbol: a reference is written by its kind and its number. -/
def marks : Symbol NodeReference → List Mark
  | .operator op => [.operator op]
  | .leaf r => [.node r.kind, .number r.id]

/-- The symbols of formulas have no foreign marks. -/
theorem other_not_mem_marks (s : Symbol NodeReference) : Mark.other ∉ s.marks := by
  cases s <;> simp [marks]

end Symbol

/-! ## Symbols of formulas -/

namespace Formula

variable {α β : Type}

/-- The symbols of a formula in the order in which it is written. -/
def symbols : Formula α → List (Symbol α)
  | .leaf a => [.leaf a]
  | .apply op l r =>
      if op.isFunction then .operator op :: (l.symbols ++ r.symbols)
      else l.symbols ++ .operator op :: r.symbols

/-- New leaves take the places of the old ones among the symbols. -/
theorem symbols_map (g : α → β) (f : Formula α) :
    (f.map g).symbols = f.symbols.map (Symbol.map g) := by
  induction f with
  | leaf a => rfl
  | apply op l r ihl ihr =>
      rw [map, symbols, symbols, ihl, ihr]
      split <;> simp [Symbol.map]

/-- New leaves leave the operators as they were. -/
theorem operators_map (g : α → β) (f : Formula α) : (f.map g).operators = f.operators := by
  induction f with
  | leaf a => rfl
  | apply op l r ihl ihr => rw [map, operators, operators, ihl, ihr]

/-- The leaves of a formula are those among its symbols. -/
theorem filterMap_leaf?_symbols (f : Formula α) :
    f.symbols.filterMap Symbol.leaf? = f.leaves := by
  induction f with
  | leaf a => rfl
  | apply op l r ihl ihr =>
      rw [symbols, leaves_apply, ← ihl, ← ihr]
      split <;> simp [List.filterMap_cons, Symbol.leaf?]

/-- The operators of a formula are those among its symbols. -/
theorem filterMap_operator?_symbols (f : Formula α) :
    f.symbols.filterMap Symbol.operator? = f.operators := by
  induction f with
  | leaf a => rfl
  | apply op l r ihl ihr =>
      rw [symbols, operators, ← ihl, ← ihr]
      split <;> simp [Symbol.operator?]

/-- Replaced leaves are related to what they replace where each of them is. -/
theorem forall₂_symbols_map {R : β → α → Prop} {g : α → β} {f : Formula α}
    (h : ∀ a ∈ f.leaves, R (g a) a) :
    (f.map g).symbols.Forall₂ (Symbol.Related R) f.symbols := by
  rw [symbols_map, List.forall₂_map_left_iff, List.forall₂_same]
  intro s hs
  cases s with
  | operator op => rfl
  | leaf a =>
      have ha : a ∈ f.symbols.filterMap Symbol.leaf? := List.mem_filterMap.2 ⟨_, hs, rfl⟩
      rw [filterMap_leaf?_symbols] at ha
      exact h a ha

end Formula

/-! ## Symbols of texts -/

/-- The symbols that marks write; none if one of them belongs to no symbol. -/
def Mark.symbols? : List Mark → Option (List (Symbol NodeReference))
  | [] => some []
  | .operator op :: ms => (symbols? ms).map (.operator op :: ·)
  | .node kind :: .number n :: ms => (symbols? ms).map (.leaf ⟨kind, n⟩ :: ·)
  | _ => none

/-- The symbols that a text writes; none if one of its words or signs belongs to none. -/
def Text.symbols? (cs : List Char) : Option (List (Symbol NodeReference)) :=
  Mark.symbols? (marks cs)

/-- Symbols are told by their marks. -/
theorem Mark.symbols?_flatMap_marks (ss : List (Symbol NodeReference)) :
    symbols? (ss.flatMap Symbol.marks) = some ss := by
  induction ss with
  | nil => rfl
  | cons s ss ih =>
      rw [List.flatMap_cons]
      cases s <;> simp [Symbol.marks, symbols?, ih]

/-! ## From tokens to formulas -/

theorem Operator.marks_token (op : Operator) : op.token.marks = [.operator op] := by
  cases op <;> rfl

namespace Expression

/-- What the tokens of an expression stand for, if it is made up of what formulas use. -/
def marks : Expression → List Mark
  | .name id => (Token.name id).marks
  | .literal v => (Token.literal v).marks
  | .binary .add l r => l.marks ++ .operator .add :: r.marks
  | .binary .subtract l r => l.marks ++ .operator .subtract :: r.marks
  | .binary .multiply l r => l.marks ++ .operator .multiply :: r.marks
  | .binary .divide l r => l.marks ++ .operator .divide :: r.marks
  | .call f [a] [] => f.marks ++ a.marks
  | .call f [a, b] [] => f.marks ++ (a.marks ++ b.marks)
  | _ => []

/-- An infix operator stands between its operands. -/
theorem marks_sign {op : Operator} (hop : op.isFunction = false) (l r : Expression) :
    (op.expression l r).marks = l.marks ++ .operator op :: r.marks := by
  cases op <;> first | rfl | cases hop

/-- A function stands in front of its arguments. -/
theorem marks_function {op : Operator} (hop : op.isFunction = true) (l r : Expression) :
    (op.expression l r).marks = .operator op :: (l.marks ++ r.marks) := by
  rw [Operator.expression_of_isFunction hop, marks, marks, ← Operator.token_of_isFunction hop,
    Operator.marks_token]
  rfl

end Expression

theorem EndsArguments.marks {ending : List Token} (h : EndsArguments ending) :
    ending.flatMap Token.marks = [] := by
  rcases h with rfl | rfl <;> rfl

/-- Tokens stand for what the expression does that they spell, whatever its brackets. -/
theorem Spells.marks {rank : Rank} {ts : List Token} {e : Expression} (h : Spells rank ts e) :
    ts.flatMap Token.marks = e.marks := by
  have hsign : ∀ {ts us : List Token} {l r : Expression} {op : Operator},
      op.precedence ≤ 2 → ts.flatMap Token.marks = l.marks → us.flatMap Token.marks = r.marks →
        (ts ++ op.token :: us).flatMap Token.marks = (op.expression l r).marks := by
    intro ts us l r op hop hl hr
    rw [List.flatMap_append, List.flatMap_cons, hl, hr, Operator.marks_token,
      Expression.marks_sign (Operator.isFunction_eq_false hop)]
    rfl
  have hopening : Token.opening.marks = [] := rfl
  have hclosing : Token.closing.marks = [] := rfl
  have hcomma : Token.comma.marks = [] := rfl
  induction h with
  | name id => exact List.append_nil _
  | literal v => exact List.append_nil _
  | sum _ ih => exact ih
  | product _ ih => exact ih
  | addition hop _ _ ihl ihr => exact hsign (by omega) ihl ihr
  | multiplication hop _ _ ihl ihr => exact hsign (by omega) ihl ihr
  | brackets _ ih => simp [ih, hopening, hclosing]
  | callOne _ _ hending ihf iha =>
      simp [ihf, iha, hending.marks, hopening, hclosing, Expression.marks]
  | callTwo _ _ _ hending ihf iha ihb =>
      simp [ihf, iha, ihb, hending.marks, hopening, hclosing, hcomma, Expression.marks]

namespace Formula

/-- A formula as an expression stands for its symbols. -/
theorem marks_expression (f : Formula NodeReference) :
    f.expression.marks = f.symbols.flatMap Symbol.marks := by
  induction f with
  | leaf r =>
      have hname : Mark.ofName (String.ofList r.kind.letters) = .node r.kind := by
        cases r.kind <;> decide
      rw [expression, Expression.marks, Expression.marks, Expression.marks, Token.marks, hname]
      rfl
  | apply op l r ihl ihr =>
      rw [expression, symbols]
      cases hop : op.isFunction with
      | true =>
          rw [Expression.marks_function hop, ihl, ihr]
          simp [Symbol.marks]
      | false =>
          rw [Expression.marks_sign hop, ihl, ihr]
          simp [Symbol.marks]

/--
The tokens that spell a formula are those of the words of its text: the text is cut into
tokens once its references are canonical, which leaves the tokens of its words as they are.
-/
theorem ofTokens_of_expressionOf {text : String} {f : Formula NodeReference}
    (h : expressionOf text = .ok f.expression) :
    (Expression.ofTokens .first (Text.tokens text.toList ++ [.lineEnd])).outcome =
      .found f.expression := by
  rcases exists_tokens_of_expressionOf h with ⟨normalized, ts, hnormal, hts, he⟩
  have hother : Mark.other ∉ ts.flatMap Token.marks := by
    rw [(spells_of_ofTokens he).marks, marks_expression, List.mem_flatMap]
    rintro ⟨s, _, hs⟩
    exact s.other_not_mem_marks hs
  have htokens : Text.tokens text.toList = ts := by
    rw [← Reference.tokens_normalize hnormal, ← Lexer.tokens_of_scan hts hother,
      Text.tokens, Text.tokens, Text.words_strip]
  rwa [htokens]

/-- An accepted text spells the expression that it is read as. -/
theorem spells_of_expressionOf {text : String} {f : Formula NodeReference}
    (h : expressionOf text = .ok f.expression) :
    Spells .sum (Text.tokens text.toList) f.expression :=
  spells_of_ofTokens (ofTokens_of_expressionOf h)

/-- An accepted text has allowed characters only. -/
theorem isAllowed_of_expressionOf {text : String} {e : Expression}
    (h : expressionOf text = .ok e) : ∀ c ∈ text.toList, isAllowed c = true := by
  rw [expressionOf] at h
  split at h
  · cases h
  · rename_i hnone
    intro c hc
    simpa using List.find?_eq_none.1 hnone c hc

/-- The symbols of a formula are those that its text writes. -/
theorem symbols?_of_expressionOf {text : String} {f : Formula NodeReference}
    (h : expressionOf text = .ok f.expression) :
    Text.symbols? text.toList = some f.symbols := by
  rw [Text.symbols?, Text.marks_eq (isAllowed_of_expressionOf h), (spells_of_expressionOf h).marks,
    marks_expression, Mark.symbols?_flatMap_marks]

end Formula
end StockFlow
