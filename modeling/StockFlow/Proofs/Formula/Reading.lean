import StockFlow.Proofs.Formula.Layout

/-!
# Written formulas are read back

A text that writes a formula, in any layout, is read as the formula again, with whatever
stands for its references, if it is not too deep and opens not too many brackets.

Main results:

- Theorem {lit}`Formula.nesting_expression_le`: the depth that reading needs.
- Theorem {lit}`Formula.expressionOf_laidOut`: the text is read as the formula's expression.
- Theorem {lit}`Formula.readWith_laidOut`: the text is read as the formula.
- Theorem {lit}`Formula.readWith_text`: so is the canonical text of a formula.
-/

namespace StockFlow
namespace Formula

/-! ## Depth -/

/-- An expression is nested one deeper than its formula, for the name in a reference. -/
theorem nesting_expression_le (f : Formula NodeReference) :
    f.expression.nesting ≤ f.depth + 1 := by
  have hdepth : ∀ f : Formula NodeReference, f.expression.depth
      { part := 1, connected := 1, single := 1, several := 1, holder := 1 } ≤ f.depth := by
    intro f
    induction f with
    | leaf r =>
        simp [expression, depth, Expression.depth, Expression.depthOfList, Expression.depthOfHeld]
    | apply op l r ihl ihr =>
        rw [expression, depth]
        cases op <;>
          simp only [Operator.expression, Expression.depth, Expression.depthOfList,
            Expression.depthOfHeld] <;> omega
  exact Nat.succ_le_succ (hdepth f)

/-! ## The expression of a text -/

variable {f : Formula NodeReference} {ts : List Token} {cs : List Char}

theorem find?_isAllowed_eq_none (h : ∀ c ∈ cs, isAllowed c = true) :
    cs.find? (!isAllowed ·) = none := by
  rw [List.find?_eq_none]
  intro c hc
  simp [h c hc]

/-- A text that lays out a derivation is read as the formula's expression. -/
theorem expressionOf_laidOut (h : Derives .sum ts f) (hlaid : LaidOut ts cs)
    (hdepth : f.depth ≤ allowedDepth) (hopen : Text.mostOpen cs ≤ Lexer.bracketLimit) :
    expressionOf (String.ofList cs) = .ok f.expression := by
  have hreads := h.readsText hlaid
  rcases hreads.reads with ⟨normalized, hnormal, hfinds, -⟩
  rcases hfinds hopen with ⟨hfound, hsteps⟩
  have hnesting : f.expression.nesting ≤ allowedNesting := by
    have hle := nesting_expression_le f
    have hallowed : allowedDepth + 1 ≤ allowedNesting := by decide
    omega
  rw [expressionOf, String.toList_ofList]
  simp only [find?_isAllowed_eq_none hreads.allowed, hnormal, bind, Except.bind, hfound,
    if_neg (Nat.not_lt_of_le hsteps), if_pos hnesting]

/-- Whatever is read of such a text is the formula's expression, with few enough brackets. -/
theorem eq_expression_of_expressionOf_laidOut (h : Derives .sum ts f) (hlaid : LaidOut ts cs)
    {e : Expression} (hread : expressionOf (String.ofList cs) = .ok e) :
    e = f.expression ∧ Text.mostOpen cs ≤ Lexer.bracketLimit := by
  have hreads := h.readsText hlaid
  rcases hreads.reads with ⟨normalized, hnormal, hfinds, hunread⟩
  rw [expressionOf, String.toList_ofList] at hread
  simp only [find?_isAllowed_eq_none hreads.allowed, hnormal, bind, Except.bind] at hread
  split at hread
  · cases hread
  · split at hread
    · rename_i e' hfound
      have hlimit : Text.mostOpen cs ≤ Lexer.bracketLimit :=
        Nat.le_of_not_lt fun hlimit => hunread hlimit e' hfound
      rw [(hfinds hlimit).1, Reading.Outcome.found.injEq] at hfound
      split at hread
      · cases hread
        exact ⟨hfound.symm, hlimit⟩
      · cases hread
    · cases hread

/-! ## The formula of an expression -/

variable {α ε : Type} {lift : ReadError → ε} {table : Table (Formula α)}
  {join : Operator → Formula α → Formula α → Except ε (Formula α)} {g : NodeReference → α}

/-- A reference stands for what the table gives. -/
theorem ofExpression_reference {r : NodeReference} (depth : Nat)
    (hr : table r.kind r.id = some (.leaf (g r))) :
    ofExpression lift table join (depth + 1) (expression (.leaf r)) = .ok (.leaf (g r)) := by
  have hname : ReferenceKind.ofName? (String.ofList r.kind.letters) = some r.kind := by
    cases r.kind <;> decide
  rw [expression, ofExpression]
  simp only [List.isEmpty_nil, if_true, hname, resolve, hr]

/-- Two operands under an operator stand for what they stand for, joined. -/
theorem ofExpression_operator {op : Operator} {l r : Expression} {x y : Formula α} {depth : Nat}
    (hl : ofExpression lift table join depth l = .ok x)
    (hr : ofExpression lift table join depth r = .ok y) :
    ofExpression lift table join (depth + 1) (op.expression l r) = join op x y := by
  cases hop : op.isFunction with
  | true =>
      have hname : ReferenceKind.ofName? op.symbol = none := by
        cases op <;> decide
      have hfunction : functionOf? op.symbol = some op := by
        cases op <;> first | decide | cases hop
      rw [Operator.expression_of_isFunction hop, ofExpression]
      simp only [List.isEmpty_nil, if_true, hname, hfunction, hl, hr]
      rfl
  | false =>
      cases op with
      | add => simp only [Operator.expression, ofExpression, operatorOf?, hl, hr]; rfl
      | subtract => simp only [Operator.expression, ofExpression, operatorOf?, hl, hr]; rfl
      | multiply => simp only [Operator.expression, ofExpression, operatorOf?, hl, hr]; rfl
      | divide => simp only [Operator.expression, ofExpression, operatorOf?, hl, hr]; rfl
      | _ => cases hop

/--
The expression of a formula that is not too deep stands for the formula, with what the
table gives for its references, if all of that can be joined.
-/
theorem ofExpression_expression (depth : Nat)
    (hdepth : f.depth ≤ depth) (htable : ∀ r ∈ f.leaves, table r.kind r.id = some (.leaf (g r)))
    (hjoin : ∀ op (x y : Formula NodeReference), (∀ r ∈ x.leaves ++ y.leaves, r ∈ f.leaves) →
      join op (x.map g) (y.map g) = .ok (.apply op (x.map g) (y.map g))) :
    ofExpression lift table join depth f.expression = .ok (f.map g) := by
  induction f generalizing depth with
  | leaf r =>
      obtain ⟨n, rfl⟩ : ∃ n, depth = n + 1 := ⟨depth - 1, by
        rw [Formula.depth] at hdepth
        omega⟩
      exact ofExpression_reference n (htable r (List.mem_singleton_self r))
  | apply op l r ihl ihr =>
      rw [Formula.depth] at hdepth
      obtain ⟨n, rfl⟩ : ∃ n, depth = n + 1 := ⟨depth - 1, by omega⟩
      have hl := ihl n (by omega) (fun a ha => htable a (List.mem_append_left _ ha))
        fun op x y hxy => hjoin op x y fun a ha => List.mem_append_left _ (hxy a ha)
      have hr := ihr n (by omega) (fun a ha => htable a (List.mem_append_right _ ha))
        fun op x y hxy => hjoin op x y fun a ha => List.mem_append_right _ (hxy a ha)
      rw [expression, ofExpression_operator hl hr]
      exact hjoin op l r fun a ha => ha

/--
A text that lays out a derivation is read as the formula, with what the table gives for
its references.
-/
theorem readWith_laidOut (lift : ReadError → ε) {ts : List Token} {cs : List Char}
    (h : Derives .sum ts f) (hlaid : LaidOut ts cs) (hdepth : f.depth ≤ allowedDepth)
    (hopen : Text.mostOpen cs ≤ Lexer.bracketLimit)
    (htable : ∀ r ∈ f.leaves, table r.kind r.id = some (.leaf (g r)))
    (hjoin : ∀ op (x y : Formula NodeReference), (∀ r ∈ x.leaves ++ y.leaves, r ∈ f.leaves) →
      join op (x.map g) (y.map g) = .ok (.apply op (x.map g) (y.map g))) :
    readWith lift table join (String.ofList cs) = .ok (f.map g) := by
  rw [readWith, expressionOf_laidOut h hlaid hdepth hopen]
  exact ofExpression_expression allowedDepth hdepth htable hjoin

/-- The text of a formula is read as the formula. -/
theorem readWith_text (lift : ReadError → ε) (hids : ∀ r ∈ f.leaves,
      (Text.decimalDigits r.id).length ≤ Text.digitLimit) (hdepth : f.depth ≤ allowedDepth)
    (hopen : Text.mostOpen (Piece.textOf f.pieces) ≤ Lexer.bracketLimit)
    (htable : ∀ r ∈ f.leaves, table r.kind r.id = some (.leaf (g r)))
    (hjoin : ∀ op (x y : Formula NodeReference), (∀ r ∈ x.leaves ++ y.leaves, r ∈ f.leaves) →
      join op (x.map g) (y.map g) = .ok (.apply op (x.map g) (y.map g))) :
    readWith lift table join (String.ofList (Piece.textOf f.pieces)) = .ok (f.map g) :=
  readWith_laidOut lift (written f).sum (Piece.laidOut_textOf (readable_pieces hids)) hdepth hopen
    htable hjoin

end Formula
end StockFlow
