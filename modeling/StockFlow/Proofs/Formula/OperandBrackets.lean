import StockFlow.Proofs.Formula.Sentences

/-!
# No bracket around an operand can go

A formula is written with brackets of three kinds: those of its references, those of its
functions, and those around operands of infix signs.  However a formula is spelled, it
opens at least as many brackets as its written form.  So a text from which a pair has been
taken out spells another formula, or none.

Main definitions:

- {lit}`BracketPair`: a bracket pair in a text.
- {lit}`Formula.operandPairs`: the pairs that stand around operands of infix signs.
- {lit}`Expression.openings`: how many brackets every spelling opens.

Main results:

- Theorem {lit}`Formula.kept_of_mem_operandPairs`: the pairs are those of the written form.
- Theorem {lit}`Formula.count_opening_render`: no other brackets than those of the three kinds.
- Theorem {lit}`Spells.openings_le`: no spelling opens fewer brackets than needed.
- Theorem {lit}`Formula.count_render`: the written form opens no more.
-/

namespace StockFlow

/-! ## Bracket pairs -/

/-- A bracket pair in a text: what stands before, inside and after it. -/
structure BracketPair where
  before : List Char
  inside : List Char
  after : List Char
  deriving DecidableEq, Repr

namespace BracketPair

/-- The text with the bracket pair in it. -/
def kept (p : BracketPair) : List Char := p.before ++ '(' :: (p.inside ++ ')' :: p.after)

/-- The text without the bracket pair. -/
def dropped (p : BracketPair) : List Char := p.before ++ (p.inside ++ p.after)

/-- The same bracket pair in a longer text. -/
def within (before after : List Char) (p : BracketPair) : BracketPair :=
  { p with before := before ++ p.before, after := p.after ++ after }

/-- What stays around a pair of brackets stays. -/
@[simp] theorem kept_within (before after : List Char) (p : BracketPair) :
    (p.within before after).kept = before ++ (p.kept ++ after) := by
  simp [kept, within]

/-- Without the pair, one bracket less is opened. -/
theorem count_kept (p : BracketPair) : p.kept.count '(' = p.dropped.count '(' + 1 := by
  simp [kept, dropped]
  omega

end BracketPair

namespace Formula

/-! ## Around operands -/

/-- The bracket pairs of an operand: the one around it, if there is one, and those in it. -/
def pairsAround (condition : Bool) (cs : List Char) (ps : List BracketPair) : List BracketPair :=
  if condition then ⟨[], cs, []⟩ :: ps.map (.within ['('] [')']) else ps

/-- The bracket pairs in the written form of a formula that stand around operands of signs. -/
def operandPairs : Formula (List Char) → List BracketPair
  | .leaf _ => []
  | .apply op l r =>
      if op.isFunction then
        l.operandPairs.map
            (.within (op.symbol.toList ++ ['(']) (',' :: ' ' :: r.render ++ [')'])) ++
          r.operandPairs.map
            (.within (op.symbol.toList ++ '(' :: l.render ++ [',', ' ']) [')'])
      else
        (pairsAround (bracketsLeft op l) l.render l.operandPairs).map
            (.within [] (' ' :: op.symbol.toList ++
              ' ' :: bracketedIf (bracketsRight op r) r.render)) ++
          (pairsAround (bracketsRight op r) r.render r.operandPairs).map
            (.within (bracketedIf (bracketsLeft op l) l.render ++
              ' ' :: op.symbol.toList ++ [' ']) [])

/-- All bracket pairs of an operand keep its text. -/
theorem kept_of_mem_pairsAround {condition : Bool} {cs : List Char} {ps : List BracketPair}
    (h : ∀ p ∈ ps, p.kept = cs) {p : BracketPair} (hp : p ∈ pairsAround condition cs ps) :
    p.kept = bracketedIf condition cs := by
  cases condition with
  | true =>
      rw [pairsAround, if_pos rfl, List.mem_cons, List.mem_map] at hp
      rcases hp with rfl | ⟨q, hq, rfl⟩
      · simp [BracketPair.kept, bracketedIf]
      · simp [h q hq, bracketedIf]
  | false => exact h p hp

/-- The text with any of the pairs is the written form. -/
theorem kept_of_mem_operandPairs {f : Formula (List Char)} {p : BracketPair}
    (hp : p ∈ f.operandPairs) : p.kept = f.render := by
  induction f generalizing p with
  | leaf cs => cases hp
  | apply op l r ihl ihr =>
      rw [operandPairs] at hp
      rw [render]
      split at hp
      · rename_i hop
        rw [if_pos hop]
        rcases List.mem_append.1 hp with hp | hp
        all_goals obtain ⟨q, hq, rfl⟩ := List.mem_map.1 hp
        · simp [ihl hq]
        · simp [ihr hq]
      · rename_i hop
        rw [if_neg hop]
        rcases List.mem_append.1 hp with hp | hp
        all_goals obtain ⟨q, hq, rfl⟩ := List.mem_map.1 hp
        · simp [kept_of_mem_pairsAround (fun _ => ihl) hq]
        · simp [kept_of_mem_pairsAround (fun _ => ihr) hq]

/-- Brackets under a condition are one pair more if it holds. -/
theorem count_bracketedIf (condition : Bool) (cs : List Char) :
    (bracketedIf condition cs).count '(' = cs.count '(' + condition.toNat := by
  cases condition <;> simp [bracketedIf]

/-- There is one pair more if brackets are put around. -/
theorem length_pairsAround (condition : Bool) (cs : List Char) (ps : List BracketPair) :
    (pairsAround condition cs ps).length = ps.length + condition.toNat := by
  cases condition <;> simp [pairsAround]

theorem count_symbol (op : Operator) : op.symbol.toList.count '(' = 0 := by
  cases op <;> decide

/--
Where each leaf opens one bracket, all others of the written form are those of its
functions and the pairs around operands.
-/
theorem count_opening_render {f : Formula (List Char)} (h : ∀ cs ∈ f.leaves, cs.count '(' = 1) :
    f.render.count '(' =
      f.leaves.length + f.operators.countP Operator.isFunction + f.operandPairs.length := by
  induction f with
  | leaf cs => simpa [render, operators, operandPairs] using h
  | apply op l r ihl ihr =>
      have hl := ihl fun cs hcs => h cs (List.mem_append_left _ hcs)
      have hr := ihr fun cs hcs => h cs (List.mem_append_right _ hcs)
      rw [render, operandPairs, leaves_apply, operators]
      cases hop : op.isFunction with
      | true =>
          simp [hl, hr, hop, count_symbol]
          omega
      | false =>
          simp [hl, hr, hop, count_symbol, count_bracketedIf, length_pairsAround]
          omega

end Formula

/-! ## Every spelling -/

namespace Expression

/-- How many brackets a plain expression opens, if there are no more than needed. -/
def openings : Expression → Nat
  | .binary .add l r | .binary .subtract l r =>
      l.bracketed 1 l.openings + r.bracketed 2 r.openings
  | .binary .multiply l r | .binary .divide l r =>
      l.bracketed 2 l.openings + r.bracketed 3 r.openings
  | .call f [a] _ => f.bracketed 3 f.openings + (a.openings + 1)
  | .call f [a, b] _ => f.bracketed 3 f.openings + (a.openings + b.openings + 1)
  | _ => 0

end Expression

/-- The operands of a sign stand at its level and one above it. -/
theorem Operator.openings_expression {op : Operator} (hop : op.precedence ≤ 2)
    (l r : Expression) : (op.expression l r).openings =
      l.bracketed op.precedence l.openings + r.bracketed (op.precedence + 1) r.openings := by
  cases op <;> first | rfl | simp [precedence] at hop

/-- Whether a token opens a bracket. -/
def Token.isOpening : Token → Bool
  | .opening => true
  | _ => false

theorem Operator.isOpening_token (op : Operator) : op.token.isOpening = false := by
  cases op <;> rfl

theorem EndsArguments.countP_isOpening {ending : List Token} (h : EndsArguments ending) :
    ending.countP Token.isOpening = 0 := by
  rcases h with rfl | rfl <;> rfl

/--
However a plain expression is spelled, the brackets that it needs are there, with one
more around it where it binds too loosely for its place.
-/
theorem Spells.openings_le {rank : Rank} {ts : List Token} {e : Expression}
    (h : Spells rank ts e) :
    e.bracketed rank.level e.openings ≤ ts.countP Token.isOpening := by
  have hopening : Token.opening.isOpening = true := rfl
  have hclosing : Token.closing.isOpening = false := rfl
  have hcomma : Token.comma.isOpening = false := rfl
  induction h with
  | name id => exact Nat.zero_le _
  | literal v => exact Nat.zero_le _
  | sum _ ih => exact Nat.le_trans (Expression.bracketed_mono (by decide) _ _) ih
  | product _ ih => exact Nat.le_trans (Expression.bracketed_mono (by decide) _ _) ih
  | @addition ts us l r op hop _ _ ihl ihr =>
      rw [Rank.level, Expression.bracketed_one, Operator.openings_expression (by omega), hop]
      simp only [List.countP_append, List.countP_cons, Operator.isOpening_token]
      exact Nat.add_le_add ihl ihr
  | @multiplication ts us l r op hop _ _ ihl ihr =>
      have hlevel : Rank.product.level ≤ (op.expression l r).precedence := by
        rw [Operator.precedence_expression, hop]
        exact Nat.le_refl 2
      rw [Expression.bracketed_of_le hlevel, Operator.openings_expression (by omega), hop]
      simp only [List.countP_append, List.countP_cons, Operator.isOpening_token]
      exact Nat.add_le_add ihl ihr
  | @brackets ts e _ ih =>
      have hbrackets := e.bracketed_le_succ Rank.factor.level e.openings
      rw [Rank.level, Expression.bracketed_one] at ih
      simp only [List.countP_append, List.countP_cons, hopening, hclosing, List.countP_nil,
        if_true, Bool.false_eq_true, if_false]
      omega
  | callOne _ _ hending ihf iha =>
      rw [Rank.level, Expression.bracketed_one] at iha
      rw [Expression.bracketed_of_le (Nat.le_refl 3), Expression.openings]
      simp only [List.countP_append, List.countP_cons, hopening, hclosing, List.countP_nil,
        hending.countP_isOpening, if_true, Bool.false_eq_true, if_false]
      exact Nat.add_le_add ihf (by omega)
  | callTwo _ _ _ hending ihf iha ihb =>
      rw [Rank.level, Expression.bracketed_one] at iha ihb
      rw [Expression.bracketed_of_le (Nat.le_refl 3), Expression.openings]
      simp only [List.countP_append, List.countP_cons, hopening, hclosing, hcomma,
        List.countP_nil, hending.countP_isOpening, if_true, Bool.false_eq_true, if_false]
      exact Nat.add_le_add ihf (by omega)

/-! ## Texts -/

/-- A token that opens a bracket is written by one. -/
theorem Token.eq_of_isOpening_ofWritten {w : List Char} (h : (ofWritten w).isOpening = true) :
    w = ['('] := by
  have hopening : ofWritten w = .opening := by
    cases htoken : ofWritten w <;> rw [htoken] at h <;> first | rfl | cases h
  have hwritten : Token.opening.WrittenAs w :=
    writtenAs_of_ofWritten hopening (by simp [marks]) (by simp)
  exact hwritten

/-- The tokens of a text open no more brackets than stand in it. -/
theorem Text.countP_isOpening_tokens_le (cs : List Char) :
    (tokens cs).countP Token.isOpening ≤ cs.count '(' := by
  have hwords : ∀ ws : List (List Char),
      (ws.map Token.ofWritten).countP Token.isOpening ≤ ws.flatten.count '(' := by
    intro ws
    induction ws with
    | nil => exact Nat.le_refl 0
    | cons w ws ih =>
        rw [List.map_cons, List.countP_cons, List.flatten_cons, List.count_append]
        split
        · rename_i hopening
          rw [Token.eq_of_isOpening_ofWritten hopening, List.count_singleton_self]
          omega
        · omega
  have hflatten := hwords (words cs)
  rw [flatten_words] at hflatten
  exact Nat.le_trans hflatten (List.filter_sublist.count_le _)

namespace Formula

/-- What is read as a formula opens the brackets that the formula needs. -/
theorem openings_le_of_expressionOf {text : String} {f : Formula NodeReference}
    (h : expressionOf text = .ok f.expression) :
    f.expression.openings ≤ text.toList.count '(' := by
  have hspells := (spells_of_expressionOf h).openings_le
  rw [Rank.level, Expression.bracketed_one] at hspells
  exact Nat.le_trans hspells (Text.countP_isOpening_tokens_le _)

/-- An operand is put in brackets exactly where it binds too loosely. -/
theorem count_bracketedIf_eq {f : Formula NodeReference} {condition : Bool} {level : Nat}
    (hcondition : condition = decide (f.precedence < level)) {cs : List Char}
    (h : cs.count '(' = f.expression.openings) :
    (bracketedIf condition cs).count '(' =
      f.expression.bracketed level f.expression.openings := by
  rw [count_bracketedIf, h, hcondition, Expression.bracketed, precedence_expression]
  by_cases hlevel : f.precedence < level <;> simp [hlevel]

/-- The written form of a formula opens no more brackets than every spelling. -/
theorem count_render {name : NodeReference → List Char} {f : Formula NodeReference}
    (h : ∀ r ∈ f.leaves, (name r).count '(' = 1) :
    (f.map name).render.count '(' = f.expression.openings := by
  induction f with
  | leaf r => exact h r List.mem_cons_self
  | apply op l r ihl ihr =>
      have hl := ihl fun a ha => h a (List.mem_append_left _ ha)
      have hr := ihr fun a ha => h a (List.mem_append_right _ ha)
      rw [map, render, expression]
      cases hop : op.isFunction with
      | true =>
          have hname : (Expression.name op.symbol).bracketed 3 0 = 0 := rfl
          rw [Operator.expression_of_isFunction hop]
          simp [hl, hr, count_symbol, Expression.openings, hname]
      | false =>
          have hlevel := Operator.precedence_le_two hop
          have hleft : bracketsLeft op (l.map name) = decide (l.precedence < op.precedence) := by
            rw [bracketsLeft, precedence_map]
          have hright : bracketsRight op (r.map name) =
              decide (r.precedence < op.precedence + 1) := by
            rw [bracketsRight_eq, precedence_map]
          rw [Operator.openings_expression hlevel, ← count_bracketedIf_eq hleft hl,
            ← count_bracketedIf_eq hright hr]
          simp [count_symbol]

end Formula
end StockFlow
