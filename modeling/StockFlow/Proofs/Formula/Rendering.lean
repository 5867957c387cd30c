import StockFlow.Proofs.Expression.Parsing
import StockFlow.Proofs.Formula.Normalizing

/-!
# Pieces of written formulas

The text of a formula is made of pieces, and its tokens derive it: the brackets that are
written are those that the two levels of infix signs need.  Every call in a formula has
its own pair of brackets in the text.

Main definitions:

- {lit}`Piece.textAs`: the text of pieces under a naming of the references.
- {lit}`Formula.pieces`: the pieces of a written formula.
- {lit}`Formula.Written`: which parts of the grammar a written formula is.

Main results:

- Theorem {lit}`Formula.textAs_pieces`: the pieces make up the written formula.
- Theorem {lit}`Formula.written`: their tokens derive the formula.
- Theorem {lit}`Piece.mostOpenFrom_tokensOf`: pieces open as many brackets as their tokens.
-/

namespace StockFlow

/-! ## Named references -/

namespace Piece

/-- A piece as it is written under a naming of the references. -/
def charsAs (name : NodeReference → List Char) : Piece → List Char
  | .reference r => name r
  | p => p.chars

/-- The text of pieces under a naming of the references. -/
def textAs (name : NodeReference → List Char) (ps : List Piece) : List Char :=
  ps.flatMap (charsAs name)

@[simp] theorem textAs_nil (name : NodeReference → List Char) : textAs name [] = [] := rfl

@[simp] theorem textAs_cons (name : NodeReference → List Char) (p : Piece) (ps : List Piece) :
    textAs name (p :: ps) = p.charsAs name ++ textAs name ps := rfl

/-- The texts of pieces under given names are joined. -/
@[simp] theorem textAs_append (name : NodeReference → List Char) (ps qs : List Piece) :
    textAs name (ps ++ qs) = textAs name ps ++ textAs name qs :=
  List.flatMap_append

/-- Canonical references are named by their kinds and numbers. -/
theorem textAs_canonical (ps : List Piece) :
    textAs (fun r => Reference.canonical r.kind r.id) ps = textOf ps :=
  List.flatMap_congr fun p _ => by cases p <;> rfl

/-- Whether a piece stands in formulas whose references have a property. -/
def Plain (P : NodeReference → Prop) : Piece → Prop
  | .reference r => P r
  | .blank c => c = ' '
  | _ => True

/-- A piece that is plain stays so under a weaker condition on its references. -/
theorem Plain.mono {P Q : NodeReference → Prop} {p : Piece} (h : p.Plain P)
    (hPQ : ∀ r, P r → Q r) : p.Plain Q := by
  cases p with
  | reference r => exact hPQ r h
  | _ => exact h

end Piece

namespace Formula

/-! ## Pieces -/

/-- Pieces in brackets if a condition holds. -/
def bracketPieces (condition : Bool) (ps : List Piece) : List Piece :=
  if condition then .opening :: (ps ++ [.closing]) else ps

/-- The pieces of a written formula. -/
def pieces : Formula NodeReference → List Piece
  | .leaf r => [.reference r]
  | .apply op l r =>
      if op.isFunction then
        .operator op :: .opening :: (l.pieces ++ .comma :: .blank ' ' :: (r.pieces ++ [.closing]))
      else
        bracketPieces (bracketsLeft op l) l.pieces ++
          .blank ' ' :: .operator op :: .blank ' ' :: bracketPieces (bracketsRight op r) r.pieces

/-- New leaves do not change how tightly a formula binds. -/
theorem precedence_map {α β : Type} (g : α → β) (f : Formula α) :
    (f.map g).precedence = f.precedence := by
  cases f <;> rfl

/-- Pieces in brackets are written as their text in brackets. -/
theorem textAs_bracketPieces (name : NodeReference → List Char) (condition : Bool)
    (ps : List Piece) :
    Piece.textAs name (bracketPieces condition ps) =
      bracketedIf condition (Piece.textAs name ps) := by
  cases condition with
  | true => simp [bracketPieces, bracketedIf, Piece.charsAs, Piece.chars]
  | false => rfl

/-- The pieces make up the written formula, whatever the naming of its references. -/
theorem textAs_pieces (name : NodeReference → List Char) (f : Formula NodeReference) :
    Piece.textAs name f.pieces = (f.map name).render := by
  induction f with
  | leaf r => simp [pieces, map, render, Piece.charsAs]
  | apply op l r ihl ihr =>
      rw [pieces, map, render]
      cases op.isFunction with
      | true => simp [← ihl, ← ihr, Piece.charsAs, Piece.chars]
      | false =>
          simp [← ihl, ← ihr, Piece.charsAs, Piece.chars, textAs_bracketPieces, bracketsLeft,
            bracketsRight, precedence_map]

/-- The pieces of a formula are written as the formula is rendered. -/
theorem textOf_pieces (f : Formula NodeReference) :
    Piece.textOf f.pieces = (f.map fun r => Reference.canonical r.kind r.id).render := by
  rw [← Piece.textAs_canonical, textAs_pieces]

/-! ## Derivations -/

/-- What is never split can stand everywhere. -/
theorem derives_of_factor {ts : List Token} {f : Formula NodeReference}
    (h : Derives .factor ts f) (rank : Rank) : Derives rank ts f := by
  cases rank with
  | sum => exact .sum (.product h)
  | product => exact .product h
  | factor => exact h

/-- An operand that is bracketed unless it can stand as it is. -/
theorem derives_bracketPieces {rank : Rank} {condition : Bool} {ps : List Piece}
    {f : Formula NodeReference} (h : Derives .sum (Piece.tokensOf ps) f)
    (hfree : condition = false → Derives rank (Piece.tokensOf ps) f) :
    Derives rank (Piece.tokensOf (bracketPieces condition ps)) f := by
  cases condition with
  | true =>
      have htokens : Piece.tokensOf (bracketPieces true ps) =
          .opening :: (Piece.tokensOf ps ++ [.closing]) := by
        rw [bracketPieces, if_pos rfl, Piece.tokensOf_cons, Piece.tokensOf_append]
        rfl
      rw [htokens]
      exact derives_of_factor (.brackets h) rank
  | false => exact hfree rfl

/-- A sign stands between the tokens of its operands, each in brackets where it needs them. -/
theorem tokensOf_signed {op : Operator} (hop : op.isFunction = false)
    (l r : Formula NodeReference) :
    Piece.tokensOf (pieces (.apply op l r)) =
      Piece.tokensOf (bracketPieces (bracketsLeft op l) l.pieces) ++
        op.token :: Piece.tokensOf (bracketPieces (bracketsRight op r) r.pieces) := by
  rw [pieces, hop]
  simp [Piece.tokens]

/-- A function stands before the tokens of its operands, which need no brackets. -/
theorem tokensOf_function {op : Operator} (hop : op.isFunction = true)
    (l r : Formula NodeReference) :
    Piece.tokensOf (pieces (.apply op l r)) =
      op.token :: .opening :: (Piece.tokensOf l.pieces ++ .comma ::
        (Piece.tokensOf r.pieces ++ [.closing])) := by
  rw [pieces, hop]
  simp [Piece.tokens]
  rfl

/--
Whether the tokens of a written formula derive it: as a sum always, and as what binds
more tightly if its outermost element does.
-/
structure Written (f : Formula NodeReference) : Prop where
  sum : Derives .sum (Piece.tokensOf f.pieces) f
  product : 2 ≤ f.precedence → Derives .product (Piece.tokensOf f.pieces) f
  factor : 3 ≤ f.precedence → Derives .factor (Piece.tokensOf f.pieces) f

/-- What is derived as a factor is written at every rank. -/
theorem written_of_factor {f : Formula NodeReference}
    (h : Derives .factor (Piece.tokensOf f.pieces) f) : Written f where
  sum := derives_of_factor h .sum
  product := fun _ => derives_of_factor h .product
  factor := fun _ => h

/-- The left operand of a sign joins what the sign joins. -/
theorem Written.left {op : Operator} {l : Formula NodeReference} (h : Written l) {rank : Rank}
    (hrank : op.precedence = 1 ∧ rank = .sum ∨ op.precedence = 2 ∧ rank = .product) :
    Derives rank (Piece.tokensOf (bracketPieces (bracketsLeft op l) l.pieces)) l := by
  refine derives_bracketPieces h.sum fun hfree => ?_
  rw [bracketsLeft, decide_eq_false_iff_not] at hfree
  rcases hrank with ⟨_, rfl⟩ | ⟨hlevel, rfl⟩
  · exact h.sum
  · exact h.product (by omega)

/-- The right operand of a sign binds more tightly than the sign. -/
theorem Written.right {op : Operator} {r : Formula NodeReference} (h : Written r) {rank : Rank}
    (hrank : op.precedence = 1 ∧ rank = .product ∨ op.precedence = 2 ∧ rank = .factor) :
    Derives rank (Piece.tokensOf (bracketPieces (bracketsRight op r) r.pieces)) r := by
  refine derives_bracketPieces h.sum fun hfree => ?_
  rw [bracketsRight, decide_eq_false_iff_not] at hfree
  rcases hrank with ⟨hlevel, rfl⟩ | ⟨hlevel, rfl⟩
  · exact h.product (by omega)
  · exact h.factor (by omega)

/-- Two operands under a sign. -/
theorem Written.signed {op : Operator} (hop : op.isFunction = false) {l r : Formula NodeReference}
    (hl : Written l) (hr : Written r) : Written (.apply op l r) := by
  have hlevel : op.precedence = 1 ∨ op.precedence = 2 := by
    cases op <;> first | exact Or.inl rfl | exact Or.inr rfl | cases hop
  have hprecedence : (Formula.apply op l r).precedence = op.precedence := rfl
  rcases hlevel with hlevel | hlevel
  · have hsum := Derives.addition hlevel (hl.left (Or.inl ⟨hlevel, rfl⟩))
      (hr.right (Or.inl ⟨hlevel, rfl⟩))
    rw [← tokensOf_signed hop] at hsum
    exact ⟨hsum, fun h => by omega, fun h => by omega⟩
  · have hproduct := Derives.multiplication hlevel (hl.left (Or.inr ⟨hlevel, rfl⟩))
      (hr.right (Or.inr ⟨hlevel, rfl⟩))
    rw [← tokensOf_signed hop] at hproduct
    exact ⟨.sum hproduct, fun _ => hproduct, fun h => by omega⟩

/-- The tokens of a written formula derive it. -/
theorem written (f : Formula NodeReference) : Written f := by
  induction f with
  | leaf r =>
      have htokens : Piece.tokensOf (pieces (.leaf r)) = r.tokens := by
        simp [pieces, Piece.tokensOf, Piece.tokens]
      refine written_of_factor ?_
      rw [htokens]
      exact .reference r
  | apply op l r ihl ihr =>
      cases hop : op.isFunction with
      | true =>
          refine written_of_factor ?_
          rw [tokensOf_function hop]
          exact .function hop ihl.sum ihr.sum
      | false => exact .signed hop ihl ihr

/-! ## Plain pieces -/

/-- Brackets hold no references, and are plain. -/
theorem plain_bracketPieces {P : NodeReference → Prop} {ps : List Piece}
    (h : ∀ p ∈ ps, p.Plain P) (condition : Bool) : ∀ p ∈ bracketPieces condition ps, p.Plain P := by
  cases condition with
  | true =>
      intro p hp
      rw [bracketPieces, if_pos rfl, List.mem_cons, List.mem_append, List.mem_singleton] at hp
      rcases hp with rfl | hp | rfl
      · trivial
      · exact h p hp
      · trivial
  | false => exact h

/-- The only blanks of a written formula are spaces, and its references are its leaves. -/
theorem plain_pieces {P : NodeReference → Prop} {f : Formula NodeReference}
    (h : ∀ r ∈ f.leaves, P r) : ∀ p ∈ f.pieces, p.Plain P := by
  induction f with
  | leaf r =>
      intro p hp
      rw [pieces, List.mem_singleton] at hp
      subst hp
      exact h r (List.mem_singleton_self r)
  | apply op l r ihl ihr =>
      have hl := ihl fun a ha => h a (List.mem_append_left _ ha)
      have hr := ihr fun a ha => h a (List.mem_append_right _ ha)
      intro p hp
      rw [pieces] at hp
      split at hp
      · simp only [List.mem_cons, List.mem_append, List.not_mem_nil, or_false] at hp
        rcases hp with rfl | rfl | hp | rfl | rfl | hp | rfl
        · trivial
        · trivial
        · exact hl p hp
        · trivial
        · rfl
        · exact hr p hp
        · trivial
      · simp only [List.mem_cons, List.mem_append] at hp
        rcases hp with hp | rfl | rfl | rfl | hp
        · exact plain_bracketPieces hl _ p hp
        · rfl
        · trivial
        · rfl
        · exact plain_bracketPieces hr _ p hp

/-- The pieces of a formula can be read if its leaves have few enough digits. -/
theorem readable_pieces {f : Formula NodeReference}
    (h : ∀ r ∈ f.leaves, (Text.decimalDigits r.id).length ≤ Text.digitLimit) :
    ∀ p ∈ f.pieces, p.Readable := by
  intro p hp
  have hplain := plain_pieces h p hp
  cases p with
  | reference r => exact hplain
  | blank c => exact hplain ▸ rfl
  | _ => trivial

end Formula

/-! ## Open brackets -/

/-- Pieces open as many brackets as their tokens do. -/
theorem Piece.mostOpenFrom_tokensOf {ps : List Piece} (hread : ∀ p ∈ ps, p.Readable) (n : Nat) :
    mostOpenFrom Token.openAfter n (tokensOf ps) = mostOpenFrom Text.openAfter n (textOf ps) := by
  induction ps generalizing n with
  | nil => rfl
  | cons p rest ih =>
      have hrest := ih fun q hq => hread q (List.mem_cons_of_mem p hq)
      cases p with
      | opening => exact congrArg (max n) (hrest (n + 1))
      | closing => exact congrArg (max n) (hrest (n - 1))
      | comma => exact congrArg (max n) (hrest n)
      | blank c =>
          have hc : Lexer.isSeparator c = true := hread _ List.mem_cons_self
          rw [tokensOf_cons, textOf_cons, chars, List.singleton_append,
            mostOpenFrom_cons_of_eq (Lexer.openAfter_of_isSeparator hc n)]
          exact hrest n
      | operator op =>
          have hsymbol : ∀ c ∈ op.symbol.toList, Text.openAfter n c = n := by
            cases op <;> simp [Operator.symbol, Text.openAfter]
          rw [tokensOf_cons, textOf_cons, chars, mostOpenFrom_append_of_eq hsymbol, tokens,
            List.singleton_append, mostOpenFrom_cons_of_eq (openAfter_token op n)]
          exact hrest n
      | reference r =>
          rw [textOf_cons, mostOpenFrom_reference, ← hrest]
          exact NodeReference.mostOpenFrom_tokens r n _

end StockFlow
