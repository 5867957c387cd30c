import StockFlow.Proofs.Formula.Brackets
import StockFlow.Proofs.Formula.Breakdowns
import StockFlow.Proofs.Formula.Reading

/-!
# What is accepted is a formula

Whatever text stands for a formula is read as an expression of one, over references
that the table knows.  Its canonical text is then readable as well: it is no deeper,
and it opens no more brackets than the text did.

Main results:

- Theorem {lit}`Formula.exists_of_ofExpression`: an expression that is accepted is one of a
  formula.
- Theorem {lit}`Formula.mostOpen_le_of_expressionOf`: the text of an accepted expression
  opens at least the brackets that the formula needs.
- Theorem {lit}`Formula.mostOpen_pieces_le_of_expressionOf`: so its canonical text opens no
  more than the text did.
-/

namespace StockFlow
namespace Formula

/-! ## Expressions of formulas -/

/-- The expression of an operator tells the operator and both operands. -/
theorem operator_expression_inj {op op' : Operator} {l r l' r' : Expression}
    (h : op.expression l r = op'.expression l' r') : op = op' ∧ l = l' ∧ r = r' := by
  cases op <;> cases op' <;> simp_all [Operator.expression, Operator.symbol]

/-- No operator is written as a leaf is. -/
theorem operator_expression_ne_leaf (op : Operator) (l r : Expression) (a : NodeReference) :
    op.expression l r ≠ (Formula.leaf a).expression := by
  cases op <;> simp [Operator.expression, expression]

/-- Different formulas are different expressions. -/
theorem expression_injective {f g : Formula NodeReference} (h : f.expression = g.expression) :
    f = g := by
  induction f generalizing g with
  | leaf a =>
      cases g with
      | leaf b =>
          rcases a with ⟨kind, id⟩
          rcases b with ⟨kind', id'⟩
          cases kind <;> cases kind' <;> simp_all [expression, ReferenceKind.letters]
      | apply op l r => exact (operator_expression_ne_leaf op _ _ a h.symm).elim
  | apply op l r ihl ihr =>
      cases g with
      | leaf b => exact (operator_expression_ne_leaf op _ _ b h).elim
      | apply op' l' r' =>
          rcases operator_expression_inj h with ⟨rfl, hl, hr⟩
          rw [ihl hl, ihr hr]

/-- A sign between two expressions stands for the operator that it is looked up as. -/
theorem eq_operator_of_operatorOf? {sign : BinarySign} {op : Operator}
    (h : operatorOf? sign = some op) (l r : Expression) :
    Expression.binary sign l r = op.expression l r := by
  cases sign <;> cases h <;> rfl

/-- A call of two arguments stands for the function that its name is looked up as. -/
theorem eq_operator_of_functionOf? {name : String} {op : Operator}
    (h : functionOf? name = some op) (l r : Expression) :
    Expression.call (.name name) [l, r] [] = op.expression l r := by
  rw [functionOf?] at h
  have hname := List.find?_some h
  have hmem := List.mem_of_find?_eq_some h
  have hop : op.isFunction = true := by
    simp only [List.mem_cons, List.not_mem_nil, or_false] at hmem
    rcases hmem with rfl | rfl | rfl <;> rfl
  rw [Operator.expression_of_isFunction hop, eq_of_beq hname]

/-- The kind of a reference is looked up by its letters. -/
theorem eq_letters_of_ofName? {name : String} {kind : ReferenceKind}
    (h : ReferenceKind.ofName? name = some kind) : name = String.ofList kind.letters := by
  rw [ReferenceKind.ofName?] at h
  have hname := List.find?_some h
  exact (eq_of_beq hname).symm

section

variable {α ε : Type} {lift : ReadError → ε} {table : Table (Formula α)}
  {join : Operator → Formula α → Formula α → Except ε (Formula α)} {g : NodeReference → α}

/--
Whether an expression is one of a formula that is not too deep, over references for
which a table gives what a tree has at its leaves.
-/
def StandsFor (table : Table (Formula α)) (g : NodeReference → α) (depth : Nat) (e : Expression)
    (x : Formula α) : Prop :=
  ∃ f : Formula NodeReference, e = f.expression ∧ f.depth ≤ depth ∧ x = f.map g ∧
    ∀ r ∈ f.leaves, table r.kind r.id = some (.leaf (g r))

/-- Under an operator, both operands stand for formulas one level further down. -/
theorem StandsFor.operator {op : Operator} {depth : Nat} {l r : Expression} {x y : Formula α}
    (hl : StandsFor table g depth l x) (hr : StandsFor table g depth r y) :
    StandsFor table g (depth + 1) (op.expression l r) (.apply op x y) := by
  rcases hl with ⟨f, rfl, hf, rfl, hf'⟩
  rcases hr with ⟨h, rfl, hh, rfl, hh'⟩
  refine ⟨.apply op f h, rfl, ?_, rfl, fun r hr => ?_⟩
  · rw [Formula.depth]
    omega
  · exact (List.mem_append.1 hr).elim (hf' r) (hh' r)

/-- A reference that resolves stands for its leaf. -/
theorem standsFor_of_resolve {depth : Nat} {kind : ReferenceKind} {e : Expression}
    {arguments : List Expression} {x : Formula α}
    (htable : ∀ kind n y, table kind n = some y → y = .leaf (g ⟨kind, n⟩))
    (h : resolve lift table kind (depth + 1) e arguments = .ok x) :
    StandsFor table g (depth + 1) (.call (.name (String.ofList kind.letters)) arguments []) x := by
  unfold resolve at h
  split at h
  · rename_i id
    split at h
    · rename_i y hy
      cases h
      refine ⟨.leaf ⟨kind, id⟩, rfl, ?_, htable _ _ _ hy, ?_⟩
      · rw [Formula.depth]
        omega
      · intro r hr
        rw [List.mem_singleton.1 hr, hy, htable _ _ _ hy]
    · split at h <;> cases h
  · cases h
  · cases h

/-- An expression that is accepted is one of a formula. -/
theorem exists_of_ofExpression {depth : Nat} {e : Expression} {x : Formula α}
    (htable : ∀ kind n y, table kind n = some y → y = .leaf (g ⟨kind, n⟩))
    (hjoin : ∀ op l r y, join op l r = .ok y → y = .apply op l r)
    (h : ofExpression lift table join depth e = .ok x) : StandsFor table g depth e x := by
  have hboth : ∀ {depth : Nat} {op : Operator} {l r : Expression} {x : Formula α},
      (∀ {y}, ofExpression lift table join depth l = .ok y → StandsFor table g depth l y) →
      (∀ {y}, ofExpression lift table join depth r = .ok y → StandsFor table g depth r y) →
      (do
        let left ← ofExpression lift table join depth l
        let right ← ofExpression lift table join depth r
        join op left right) = .ok x → StandsFor table g (depth + 1) (op.expression l r) x := by
    intro depth op l r x hl hr h
    cases hleft : ofExpression lift table join depth l with
    | error e => rw [hleft] at h; cases h
    | ok y =>
        cases hright : ofExpression lift table join depth r with
        | error e => rw [hleft, hright] at h; cases h
        | ok z =>
            rw [hleft, hright] at h
            rw [hjoin op y z x h]
            exact (hl hleft).operator (hr hright)
  fun_induction ofExpression lift table join depth e generalizing x
  case case1 => cases h
  case case2 => cases h
  case case3 hop ihl ihr =>
      rw [eq_operator_of_operatorOf? hop]
      exact hboth ihl ihr h
  case case4 hkeywords kind hname =>
      rw [List.isEmpty_iff] at hkeywords
      rw [hkeywords, eq_letters_of_ofName? hname]
      exact standsFor_of_resolve htable h
  case case5 => cases h
  case case6 hkeywords _ op hop l r ihl ihr =>
      rw [List.isEmpty_iff] at hkeywords
      rw [hkeywords, eq_operator_of_functionOf? hop]
      exact hboth ihl ihr h
  case case7 => cases h
  case case8 => cases h
  case case9 => cases h

end

/-! ## Texts of formulas -/

/-- What is read of a text is cut into tokens first, once its references are canonical. -/
theorem exists_tokens_of_expressionOf {text : String} {e : Expression}
    (h : expressionOf text = .ok e) :
    ∃ normalized ts, Reference.normalize text.toList = .ok normalized ∧
      Lexer.scan 0 (Text.strip normalized) = (ts, true) ∧
      (Expression.ofTokens .first (ts ++ [.lineEnd])).outcome = .found e := by
  rw [expressionOf] at h
  split at h
  · cases h
  · cases hnormal : Reference.normalize text.toList with
    | error err =>
        rw [hnormal] at h
        cases h
    | ok normalized =>
        rw [hnormal] at h
        simp only [bind, Except.bind] at h
        split at h
        · cases h
        · split at h
          · rename_i e' hfound
            rcases Expression.exists_scan_of_ofText hfound with ⟨ts, hscan, -, he⟩
            split at h
            · cases h
              exact ⟨normalized, ts, rfl, hscan, he⟩
            · cases h
          · cases h

/-- The tokens of a text that is read as the expression of a formula spell it. -/
theorem spells_of_ofTokens {ts : List Token} {f : Formula NodeReference}
    (h : (Expression.ofTokens .first (ts ++ [.lineEnd])).outcome = .found f.expression) :
    Spells .sum ts f.expression := by
  rcases Expression.spells_of_ofTokens h f.isPlain_expression with ⟨us, heq, hspells⟩
  rwa [List.append_cancel_right heq]

/-- Every text that is read as the expression of a formula opens the brackets it needs. -/
theorem mostOpen_le_of_expressionOf {text : String} {f : Formula NodeReference}
    (h : expressionOf text = .ok f.expression) :
    f.expression.mostOpen ≤ Lexer.bracketLimit := by
  rcases exists_tokens_of_expressionOf h with ⟨normalized, ts, _, hscan, he⟩
  have hneeded := ((spells_of_ofTokens he).opens 0 []).1
  have hlimit := Lexer.mostOpenFrom_scan_le (Nat.zero_le _) (Text.strip normalized)
  rw [hscan] at hlimit
  dsimp only at hlimit
  rw [Rank.level, Expression.openAt_one, List.append_nil] at hneeded
  omega

/-- The canonical text of what was read, over any references, keeps to the limit. -/
theorem mostOpen_pieces_le_of_expressionOf {text : String} {f : Formula NodeReference}
    (h : expressionOf text = .ok f.expression) (g : NodeReference → NodeReference)
    (hids : ∀ r ∈ (f.map g).leaves, (Text.decimalDigits r.id).length ≤ Text.digitLimit) :
    Text.mostOpen (Piece.textOf (f.map g).pieces) ≤ Lexer.bracketLimit := by
  rw [mostOpen_pieces hids, mostOpen_expression_map]
  exact mostOpen_le_of_expressionOf h

end Formula
end StockFlow
