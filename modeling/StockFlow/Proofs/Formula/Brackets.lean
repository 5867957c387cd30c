import StockFlow.Proofs.Expression.Spelling
import StockFlow.Proofs.Formula.Rendering

/-!
# No spelling opens fewer brackets

An operand is put in brackets where it binds too loosely for its place, and every
call has brackets of its own.  However an expression is spelled, these brackets are
there; the written form of a formula has no others.  A text is cut into tokens only
if not too many brackets are open at once.

Main definitions:

- {lit}`Expression.mostOpen`: how many brackets are open at once in every spelling.
- {lit}`Expression.openAt`: the same where a binding level is expected.

Main results:

- Theorem {lit}`Spells.opens`: every spelling opens at least so many brackets.
- Theorem {lit}`Formula.mostOpen_pieces`: the written form opens exactly so many.
- Theorem {lit}`Lexer.mostOpenFrom_scan_le`: the tokens of a text keep to the limit.
-/

namespace StockFlow

/-! ## What an expression needs -/

/-- How tightly what starts at a rank binds. -/
def Rank.level : Rank → Nat
  | .sum => 1
  | .product => 2
  | .factor => 3

namespace Expression

/-- How tightly the outermost element of a plain expression binds. -/
def precedence : Expression → Nat
  | .binary .add _ _ | .binary .subtract _ _ => 1
  | .binary .multiply _ _ | .binary .divide _ _ => 2
  | _ => 3

/-- Brackets around what opens so many, unless it binds tightly enough for its place. -/
def bracketed (level : Nat) (e : Expression) (opened : Nat) : Nat :=
  if e.precedence < level then opened + 1 else opened

/-- Nothing binds less tightly than a sum. -/
theorem precedence_pos (e : Expression) : 1 ≤ e.precedence := by
  unfold precedence
  split <;> decide

/-- What binds tightly enough for its place needs no brackets around it. -/
theorem bracketed_of_le {level : Nat} {e : Expression} (h : level ≤ e.precedence) (opened : Nat) :
    e.bracketed level opened = opened := by
  rw [bracketed, if_neg (by omega)]

/-- At the level of sums, no brackets are added. -/
theorem bracketed_one (e : Expression) (opened : Nat) : e.bracketed 1 opened = opened :=
  bracketed_of_le e.precedence_pos opened

/-- One pair of brackets more at most. -/
theorem bracketed_le_succ (level : Nat) (e : Expression) (opened : Nat) :
    e.bracketed level opened ≤ opened + 1 := by
  rw [bracketed]
  split <;> omega

/-- Where brackets are added at one level, they are at every tighter one. -/
theorem bracketed_mono {level level' : Nat} (h : level ≤ level') (e : Expression) (opened : Nat) :
    e.bracketed level opened ≤ e.bracketed level' opened := by
  rw [bracketed, bracketed]
  split <;> split <;> omega

/-- How many brackets of a plain expression are open at once, if there are no more than needed. -/
def mostOpen : Expression → Nat
  | .binary .add l r | .binary .subtract l r =>
      max (l.bracketed 1 l.mostOpen) (r.bracketed 2 r.mostOpen)
  | .binary .multiply l r | .binary .divide l r =>
      max (l.bracketed 2 l.mostOpen) (r.bracketed 3 r.mostOpen)
  | .call f [a] _ => max (f.bracketed 3 f.mostOpen) (a.mostOpen + 1)
  | .call f [a, b] _ => max (f.bracketed 3 f.mostOpen) (max a.mostOpen b.mostOpen + 1)
  | _ => 0

/-- How many brackets of a plain expression are open at once where a level is expected. -/
def openAt (level : Nat) (e : Expression) : Nat := e.bracketed level e.mostOpen

/-- A level adds one pair of brackets to those inside at most. -/
theorem openAt_le_succ (level : Nat) (e : Expression) : e.openAt level ≤ e.mostOpen + 1 :=
  e.bracketed_le_succ level e.mostOpen

theorem openAt_mono {level level' : Nat} (h : level ≤ level') (e : Expression) :
    e.openAt level ≤ e.openAt level' :=
  e.bracketed_mono h e.mostOpen

/-- At the level of sums, only the brackets inside are open. -/
theorem openAt_one (e : Expression) : e.openAt 1 = e.mostOpen :=
  e.bracketed_one e.mostOpen

end Expression

/-- An expression of an operator binds as tightly as the operator. -/
theorem Operator.precedence_expression (op : Operator) (l r : Expression) :
    (op.expression l r).precedence = op.precedence := by
  cases op <;> rfl

/-- The operands of a sign stand at its level and one above it. -/
theorem Operator.mostOpen_expression {op : Operator} (hop : op.precedence ≤ 2)
    (l r : Expression) : (op.expression l r).mostOpen =
      max (l.openAt op.precedence) (r.openAt (op.precedence + 1)) := by
  cases op <;> first | rfl | simp [precedence] at hop

/-! ## Every spelling -/

/-- What opens few brackets opens no more than many. -/
theorem Opens.mono {ts : List Token} {k l : Nat} (h : Opens ts l) (hk : k ≤ l) : Opens ts k :=
  fun n rest => ⟨Nat.le_trans (Nat.add_le_add_left hk n) (h n rest).1, (h n rest).2⟩

/-- A token that is no bracket opens none. -/
theorem opens_of_openAfter {t : Token} (h : ∀ n, Token.openAfter n t = n) : Opens [t] 0 := by
  intro n rest
  rw [List.singleton_append, mostOpenFrom_cons_of_eq (h n)]
  exact ⟨le_mostOpenFrom n rest, Nat.le_refl _⟩

/-- One part after another opens as much as the one with more. -/
theorem Opens.append {ts us : List Token} {k l : Nat} (ht : Opens ts k) (hu : Opens us l) :
    Opens (ts ++ us) (max k l) := by
  intro n rest
  have hleft := ht n (us ++ rest)
  have hright := hu n rest
  rw [List.append_assoc]
  constructor <;> omega

/-- What ends the arguments of a call opens nothing. -/
theorem EndsArguments.opens {ending : List Token} (h : EndsArguments ending) : Opens ending 0 := by
  rcases h with rfl | rfl
  · exact fun n rest => ⟨le_mostOpenFrom n rest, Nat.le_refl _⟩
  · exact opens_of_openAfter fun _ => rfl

/-- However a plain expression is spelled, the brackets it needs are there. -/
theorem Spells.opens {rank : Rank} {ts : List Token} {e : Expression} (h : Spells rank ts e) :
    Opens ts (e.openAt rank.level) := by
  induction h with
  | name id => exact opens_of_openAfter fun _ => rfl
  | literal v => exact opens_of_openAfter fun _ => rfl
  | sum _ ih => exact ih.mono (Expression.openAt_mono (by decide) _)
  | product _ ih => exact ih.mono (Expression.openAt_mono (by decide) _)
  | addition hop _ _ ihl ihr =>
      refine (ihl.signed ihr _).mono ?_
      rw [Rank.level, Expression.openAt_one, Operator.mostOpen_expression (by omega), hop]
      exact Nat.le_refl _
  | multiplication hop _ _ ihl ihr =>
      refine (ihl.signed ihr _).mono ?_
      rw [Rank.level, Expression.openAt, Expression.bracketed,
        Operator.precedence_expression, hop, if_neg (Nat.lt_irrefl 2),
        Operator.mostOpen_expression (by omega), hop]
      exact Nat.le_refl _
  | @brackets ts e _ ih =>
      refine ih.brackets.mono ?_
      rw [Rank.level, Rank.level, Expression.openAt_one]
      exact Expression.openAt_le_succ 3 _
  | callOne _ _ hending ihf iha =>
      have harguments := (iha.append hending.opens).brackets
      rw [List.append_assoc] at harguments
      refine (ihf.append harguments).mono ?_
      rw [Rank.level, Rank.level, Expression.openAt_one, Nat.max_zero]
      exact Nat.le_refl _
  | callTwo _ _ _ hending ihf iha ihb =>
      have hcomma := (opens_of_openAfter (t := .comma) fun _ => rfl).append
        (ihb.append hending.opens)
      have harguments := (iha.append hcomma).brackets
      rw [List.append_assoc, List.append_assoc, List.append_assoc] at harguments
      refine (ihf.append harguments).mono ?_
      rw [Rank.level, Rank.level, Expression.openAt_one, Expression.openAt_one, Nat.max_zero,
        Nat.zero_max]
      exact Nat.le_refl _

/-! ## The written form -/

/-- A formula binds as tightly as its expression. -/
theorem Formula.precedence_expression (f : Formula NodeReference) :
    f.expression.precedence = f.precedence := by
  cases f with
  | leaf r => rfl
  | apply op l r => exact op.precedence_expression _ _

/-- Whether tokens open exactly so many brackets at once, besides what follows them. -/
def OpensExactly (ts : List Token) (k : Nat) : Prop :=
  ∀ n rest, mostOpenFrom Token.openAfter n (ts ++ rest) =
    max (n + k) (mostOpenFrom Token.openAfter n rest)

/-- With a sign between two parts, as much is open as in the part with more. -/
theorem OpensExactly.signed {ts us : List Token} {k l : Nat} (hl : OpensExactly ts k)
    (hr : OpensExactly us l) (op : Operator) : OpensExactly (ts ++ op.token :: us) (max k l) := by
  intro n rest
  rw [List.append_assoc, List.cons_append, hl,
    mostOpenFrom_cons_of_eq (openAfter_token op n), hr]
  omega

/-- Brackets around a part are open with all that is open in it. -/
theorem OpensExactly.brackets {ts : List Token} {k : Nat} (h : OpensExactly ts k) :
    OpensExactly (.opening :: (ts ++ [.closing])) (k + 1) := by
  intro n rest
  have hopening : Token.openAfter n .opening = n + 1 := rfl
  have hclosing : Token.openAfter (n + 1) .closing = n := rfl
  have hrest : n ≤ mostOpenFrom Token.openAfter n rest := le_mostOpenFrom n rest
  rw [List.cons_append, List.append_assoc, List.singleton_append, mostOpenFrom, hopening, h,
    mostOpenFrom, hclosing]
  omega

/-- The brackets of a function are open with all that is open in either argument. -/
theorem OpensExactly.function {ts us : List Token} {k l : Nat} (hl : OpensExactly ts k)
    (hr : OpensExactly us l) (op : Operator) :
    OpensExactly (op.token :: .opening :: (ts ++ .comma :: (us ++ [.closing])))
      (max k l + 1) := by
  have hcomma : OpensExactly (ts ++ .comma :: us) (max k l) := by
    intro n rest
    rw [List.append_assoc, List.cons_append, hl, mostOpenFrom_cons_of_eq rfl, hr]
    omega
  intro n rest
  have hbrackets := hcomma.brackets n rest
  rw [List.append_assoc, List.cons_append] at hbrackets
  rw [List.cons_append, mostOpenFrom_cons_of_eq (openAfter_token op n)]
  exact hbrackets

namespace Formula

/-- On its right, a sign expects what binds more tightly than it does. -/
theorem bracketsRight_eq {α : Type} (op : Operator) (r : Formula α) :
    bracketsRight op r = decide (r.precedence < op.precedence + 1) := by
  rw [bracketsRight, decide_eq_decide, Nat.lt_succ_iff]

/-- An operand is put in brackets exactly where it binds too loosely. -/
theorem opensExactly_bracketPieces {f : Formula NodeReference} {condition : Bool} {level : Nat}
    (hcondition : condition = decide (f.precedence < level))
    (h : OpensExactly (Piece.tokensOf f.pieces) f.expression.mostOpen) :
    OpensExactly (Piece.tokensOf (bracketPieces condition f.pieces))
      (f.expression.openAt level) := by
  rw [Expression.openAt, Expression.bracketed, precedence_expression]
  by_cases hlevel : f.precedence < level
  · rw [if_pos hlevel, hcondition, decide_eq_true hlevel, bracketPieces, if_pos rfl,
      Piece.tokensOf_cons, Piece.tokensOf_append]
    exact h.brackets
  · rw [if_neg hlevel, hcondition, decide_eq_false hlevel]
    exact h

/-- The written form of a formula opens no more brackets than its expression needs. -/
theorem opensExactly_pieces (f : Formula NodeReference) :
    OpensExactly (Piece.tokensOf f.pieces) f.expression.mostOpen := by
  induction f with
  | leaf r =>
      intro n rest
      simp only [pieces, Piece.tokensOf_cons, Piece.tokens]
      exact NodeReference.mostOpenFrom_tokens r n rest
  | apply op l r ihl ihr =>
      cases hop : op.isFunction with
      | true =>
          rw [tokensOf_function hop, expression, Operator.expression_of_isFunction hop]
          exact ihl.function ihr op
      | false =>
          have hlevel := Operator.precedence_le_two hop
          rw [tokensOf_signed hop, expression, Operator.mostOpen_expression hlevel]
          exact (opensExactly_bracketPieces rfl ihl).signed
            (opensExactly_bracketPieces (bracketsRight_eq op r) ihr) op

/-- The text of a formula opens as many brackets at once as its expression needs. -/
theorem mostOpen_pieces {f : Formula NodeReference} (hids : ∀ r ∈ f.leaves,
      (Text.decimalDigits r.id).length ≤ Text.digitLimit) :
    Text.mostOpen (Piece.textOf f.pieces) = f.expression.mostOpen := by
  have htokens := opensExactly_pieces f 0 []
  rw [List.append_nil, Piece.mostOpenFrom_tokensOf (readable_pieces hids)] at htokens
  rw [Text.mostOpen, htokens, mostOpenFrom]
  omega

/-- Which leaves a formula has makes no difference to its brackets. -/
theorem mostOpen_expression_map (g : NodeReference → NodeReference) (f : Formula NodeReference) :
    (f.map g).expression.mostOpen = f.expression.mostOpen := by
  have hopenAt : ∀ {h : Formula NodeReference} (level : Nat),
      (h.map g).expression.mostOpen = h.expression.mostOpen →
      (h.map g).expression.openAt level = h.expression.openAt level := by
    intro h level heq
    rw [Expression.openAt, Expression.openAt, Expression.bracketed, Expression.bracketed,
      precedence_expression, precedence_expression, precedence_map, heq]
  induction f with
  | leaf r => rfl
  | apply op l r ihl ihr =>
      rw [map, expression, expression]
      cases hop : op.isFunction with
      | true =>
          rw [Operator.expression_of_isFunction hop, Operator.expression_of_isFunction hop]
          simp only [Expression.mostOpen, ihl, ihr]
      | false =>
          have hlevel := Operator.precedence_le_two hop
          rw [Operator.mostOpen_expression hlevel, Operator.mostOpen_expression hlevel,
            hopenAt _ ihl, hopenAt _ ihr]

end Formula

/-! ## The limit -/

/-- The tokens that are cut off keep to the limit, whether or not they are all of the text. -/
theorem Lexer.mostOpenFrom_scan_le {n : Nat} (hn : n ≤ bracketLimit) (cs : List Char) :
    mostOpenFrom Token.openAfter n (scan n cs).1 ≤ bracketLimit := by
  fun_induction scan n cs
  case case1 => exact hn
  case case2 ih => exact ih hn
  case case3 => exact hn
  case case4 ih => exact ih hn
  case case5 => exact hn
  case case6 => exact hn
  case case7 hroom _ _ ih => exact Nat.max_le.2 ⟨hn, ih (Nat.lt_of_not_le hroom)⟩
  case case8 ih => exact Nat.max_le.2 ⟨hn, ih (Nat.le_trans (Nat.sub_le _ 1) hn)⟩
  case case9 depth _ _ _ _ t _ _ _ _ hopening hclosing ih =>
      have ht : Token.openAfter depth t = depth := by
        cases t with
        | opening => exact (hopening ‹_› rfl HEq.rfl).elim
        | closing => exact (hclosing ‹_› rfl HEq.rfl).elim
        | _ => rfl
      rw [prepend, List.singleton_append, mostOpenFrom_cons_of_eq ht]
      exact ih hn

end StockFlow
