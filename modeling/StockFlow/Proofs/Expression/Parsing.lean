import StockFlow.Proofs.Expression.Grammar
import StockFlow.Proofs.Expression.Lexing

/-!
# Everything that is derived is read

The reader of expressions goes down through all binding levels for every part of a
formula.  It reads the tokens of each derivation as its formula, if what follows
does not go on with it.  On the way from one level to the next the fuel shrinks by
a few units, so sixteen for each token are more than enough.  Down from the start of an
expression to a name or a number there are 22 steps, and each pair of brackets takes at
most 28 to the next ones.

Main definitions:

- {lit}`Opens`: how many brackets tokens open at once.
- {lit}`Rank.EndsBefore`: what follows does not go on with a formula of a rank.
- {lit}`ReadsAs`: the reader of a rank reads tokens as an expression, within some steps.

Main results:

- Theorem {lit}`Derives.opens`: derived tokens close what they open.
- Theorem {lit}`Derives.readsAs`: derived tokens are read as their formula.
- Theorem {lit}`Derives.ofTokens_finds`: as a whole line, too.
- Theorem {lit}`Expression.ofText_finds`: one reading of a text is enough for them.
-/

namespace StockFlow

/-! ## Open brackets -/

/-- Whether tokens open so many brackets at once, and no fewer than what follows them. -/
def Opens (ts : List Token) (k : Nat) : Prop :=
  ∀ n rest, n + k ≤ mostOpenFrom Token.openAfter n (ts ++ rest) ∧
    mostOpenFrom Token.openAfter n rest ≤ mostOpenFrom Token.openAfter n (ts ++ rest)

/-- The sign or the name of an operator is no bracket. -/
theorem openAfter_token (op : Operator) (n : Nat) : Token.openAfter n op.token = n := by
  cases op <;> rfl

/-- A sign between two parts opens nothing: as much is open as in the part with more. -/
theorem Opens.signed {ts us : List Token} {k l : Nat} (hl : Opens ts k) (hr : Opens us l)
    (op : Operator) : Opens (ts ++ op.token :: us) (max k l) := by
  intro n rest
  rcases hl n (op.token :: (us ++ rest)) with ⟨hleft, hmiddle⟩
  rcases hr n rest with ⟨hright, hrest⟩
  rw [mostOpenFrom_cons_of_eq (openAfter_token op n)] at hmiddle
  rw [List.append_assoc, List.cons_append]
  constructor <;> omega

/-- Brackets around a part are open with everything that is open in it. -/
theorem Opens.brackets {ts : List Token} {k : Nat} (h : Opens ts k) :
    Opens (.opening :: (ts ++ [.closing])) (k + 1) := by
  intro n rest
  rcases h (n + 1) (.closing :: rest) with ⟨hinside, hclosing⟩
  have hopening : Token.openAfter n .opening = n + 1 := rfl
  have hafter : Token.openAfter (n + 1) .closing = n := rfl
  rw [mostOpenFrom, hafter] at hclosing
  rw [List.cons_append, List.append_assoc, List.singleton_append, mostOpenFrom, hopening]
  constructor <;> omega

/-- The brackets of a function are open with everything in either argument. -/
theorem Opens.function {ts us : List Token} {k l : Nat} (hl : Opens ts k) (hr : Opens us l)
    (op : Operator) :
    Opens (op.token :: .opening :: (ts ++ .comma :: (us ++ [.closing]))) (max k l + 1) := by
  have hcomma : Opens (ts ++ .comma :: us) (max k l) := by
    intro n rest
    rcases hl n (.comma :: (us ++ rest)) with ⟨hleft, hmiddle⟩
    rcases hr n rest with ⟨hright, hrest⟩
    rw [mostOpenFrom_cons_of_eq rfl] at hmiddle
    rw [List.append_assoc, List.cons_append]
    constructor <;> omega
  intro n rest
  have hbrackets := hcomma.brackets n rest
  rw [List.append_assoc, List.cons_append] at hbrackets
  rw [List.cons_append, mostOpenFrom_cons_of_eq (openAfter_token op n)]
  exact hbrackets

/-- A reference opens one pair of brackets. -/
theorem NodeReference.mostOpenFrom_tokens (r : NodeReference) (n : Nat) (rest : List Token) :
    mostOpenFrom Token.openAfter n (r.tokens ++ rest) =
      max (n + 1) (mostOpenFrom Token.openAfter n rest) := by
  simp only [tokens, List.cons_append, List.nil_append, mostOpenFrom, Token.openAfter,
    Nat.add_sub_cancel]
  omega

/-- Derived tokens open some brackets, and close them. -/
theorem Derives.opens {rank : Rank} {ts : List Token} {f : Formula NodeReference}
    (h : Derives rank ts f) : ∃ k, Opens ts k := by
  induction h with
  | sum _ ih => exact ih
  | product _ ih => exact ih
  | addition _ _ _ ihl ihr | multiplication _ _ _ ihl ihr =>
      rcases ihl with ⟨k, hk⟩
      rcases ihr with ⟨l, hl⟩
      exact ⟨max k l, hk.signed hl _⟩
  | brackets _ ih =>
      rcases ih with ⟨k, hk⟩
      exact ⟨k + 1, hk.brackets⟩
  | reference r =>
      refine ⟨1, fun n rest => ?_⟩
      rw [NodeReference.mostOpenFrom_tokens]
      exact ⟨Nat.le_max_left _ _, Nat.le_max_right _ _⟩
  | function _ _ _ ihl ihr =>
      rcases ihl with ⟨k, hk⟩
      rcases ihr with ⟨l, hl⟩
      exact ⟨max k l + 1, hk.function hl _⟩

/-- What follows derived tokens opens no more than they do together. -/
theorem Derives.mostOpenFrom_le {rank : Rank} {ts : List Token} {f : Formula NodeReference}
    (h : Derives rank ts f) (n : Nat) (rest : List Token) :
    mostOpenFrom Token.openAfter n rest ≤ mostOpenFrom Token.openAfter n (ts ++ rest) :=
  h.opens.elim fun _ hk => (hk n rest).2

/-- The tokens of operators are neither brackets nor the end of the line. -/
theorem closeAll_token_cons (op : Operator) (n : Nat) (ts : List Token) :
    Token.closeAll n (op.token :: ts) = Token.closeAll n ts := by
  cases op <;> rfl

/-- Whether all is closed depends on what follows derived tokens only. -/
theorem Derives.closeAll_append {rank : Rank} {ts : List Token} {f : Formula NodeReference}
    (h : Derives rank ts f) (n : Nat) (us : List Token) :
    Token.closeAll n (ts ++ us) = Token.closeAll n us := by
  induction h generalizing n us with
  | sum _ ih => exact ih n us
  | product _ ih => exact ih n us
  | addition _ _ _ ihl ihr | multiplication _ _ _ ihl ihr =>
      rw [List.append_assoc, List.cons_append, ihl, closeAll_token_cons, ihr]
  | brackets _ ih =>
      rw [List.cons_append, List.append_assoc, Token.closeAll, ih]
      rfl
  | reference r => rfl
  | function hop _ _ ihl ihr =>
      rw [Operator.token_of_isFunction hop]
      simp only [List.cons_append, List.append_assoc, List.nil_append, Token.closeAll, ihl, ihr]
      rfl

/-! ## What follows -/

/-- Whether a token in a formula ends what stands in front of it. -/
def Rank.follows : Rank → Token → Bool
  | _, .closing | _, .comma | _, .lineEnd => true
  | .sum, _ => false
  | _, .plus | _, .minus => true
  | .product, _ => false
  | _, .star | _, .slash => true
  | .factor, _ => false

/-- Whether what follows does not go on with a formula of a rank. -/
def Rank.EndsBefore (rank : Rank) (rest : List Token) : Prop :=
  ∃ t ts, rest = t :: ts ∧ rank.follows t = true

namespace Rank

variable {rest : List Token}

theorem endsBefore_lineEnd (rank : Rank) : rank.EndsBefore [.lineEnd] := by
  cases rank <;> exact ⟨_, _, rfl, rfl⟩

theorem endsBefore_closing (rank : Rank) (rest : List Token) :
    rank.EndsBefore (.closing :: rest) := by
  cases rank <;> exact ⟨_, _, rfl, rfl⟩

theorem endsBefore_comma (rank : Rank) (rest : List Token) : rank.EndsBefore (.comma :: rest) := by
  cases rank <;> exact ⟨_, _, rfl, rfl⟩

/-- Where a sum ends, its last product does. -/
theorem EndsBefore.product (h : Rank.sum.EndsBefore rest) : Rank.product.EndsBefore rest := by
  rcases h with ⟨t, ts, rfl, ht⟩
  exact ⟨t, ts, rfl, by cases t <;> first | rfl | cases ht⟩

/-- Where a product ends, its last factor does. -/
theorem EndsBefore.factor (h : Rank.product.EndsBefore rest) : Rank.factor.EndsBefore rest := by
  rcases h with ⟨t, ts, rfl, ht⟩
  exact ⟨t, ts, rfl, by cases t <;> first | rfl | cases ht⟩

end Rank

theorem Starts.ne_nil {ts : List Token} (h : Starts ts) : ts ≠ [] := by
  rcases h with ⟨t, us, rfl, -⟩
  exact List.cons_ne_nil t us

namespace Expression

open Rank Reading

variable {rest : List Token} {k : Nat}

/-- What starts an expression is none of the other tokens. -/
theorem cons_ne_of_starts {t t' : Token} {us : List Token} (ht : t.starts = true)
    (ht' : t'.starts = false) (us' : List Token) : t :: us = t' :: us' → False := by
  intro heq
  rw [List.cons.injEq] at heq
  rw [heq.1, ht'] at ht
  cases ht

/-! ## Where reading stops -/

/-- Where a factor ends, no attribute and no call follow. -/
theorem readTrailers_stops (h : Rank.factor.EndsBefore rest) (n : Nat) (e : Expression) :
    readTrailers .first (n + 1) e rest = pure (e, rest) := by
  rcases h with ⟨t, ts, rfl, ht⟩
  cases t <;> first | rfl | cases ht

/-- Where a product ends, no further factor follows. -/
theorem readTermTail_stops (h : Rank.product.EndsBefore rest) (n : Nat) (e : Expression) :
    readTermTail .first (n + 1) e rest = pure (e, rest) := by
  rcases h with ⟨t, ts, rfl, ht⟩
  cases t <;> first | rfl | cases ht

/-- Where a sum ends, no further term follows. -/
theorem readSumTail_stops (h : Rank.sum.EndsBefore rest) (n : Nat) (e : Expression) :
    readSumTail .first (n + 1) e rest = pure (e, rest) := by
  rcases h with ⟨t, ts, rfl, ht⟩
  cases t <;> first | rfl | cases ht

/-- Where a sum ends, no comparison follows. -/
theorem readComparisons_stops (h : Rank.sum.EndsBefore rest) (n : Nat) :
    readComparisons .first (n + 1) rest = pure ([], rest) := by
  rcases h with ⟨t, ts, rfl, ht⟩
  cases t <;> first | rfl | cases ht

/-- Where a sum ends, no word joins another operand. -/
theorem readOperands_stops (h : Rank.sum.EndsBefore rest) (word : Connective) (n : Nat) :
    readOperands .first word (n + 1) rest = pure ([], rest) := by
  rcases h with ⟨t, ts, rfl, ht⟩
  cases t <;> first | rfl | cases ht

/-! ## From level to level -/

/-- Operands of a word are not joined where no word follows. -/
theorem readConnected_of_readOperand {word : Connective} {n : Nat} {ts : List Token}
    {e : Expression} (hts : Starts ts)
    (hread : (readOperand .first word (n + 1) ts).Finds (e, rest) k)
    (hrest : Rank.sum.EndsBefore rest) :
    (readConnected .first word (n + 2) ts).Finds (e, rest) (k + 1) := by
  rw [readConnected]
  refine (hread.deeper hts.ne_nil (Nat.le_refl _)).bind ?_
  simp only [readOperands_stops hrest]
  exact finds_pure (e, rest) _

/-- Between whole expressions and sums, no words are found. -/
theorem readExpression_of_readSum {n : Nat} {ts : List Token} {e : Expression} (hts : Starts ts)
    (hread : (readSum .first (n + 1) ts).Finds (e, rest) k) (hrest : Rank.sum.EndsBefore rest) :
    (readExpression .first (n + 7) ts).Finds (e, rest) (k + 13) := by
  have hinversion : (readInversion .first (n + 2) ts).Finds (e, rest) (k + 10) := by
    have hne := hts.ne_nil
    rcases hts with ⟨t, us, rfl, ht⟩
    rw [readInversion]
    · refine (hread.deeper hne (Nat.le_refl _)).bind ?_
      simp only [readComparisons_stops hrest]
      exact finds_pure (e, rest) _
    · exact cons_ne_of_starts ht rfl
  have hconjunction : (readConnected .first .conjunction (n + 4) ts).Finds (e, rest) (k + 11) :=
    readConnected_of_readOperand hts hinversion hrest
  have hdisjunction : (readConnected .first .disjunction (n + 6) ts).Finds (e, rest) (k + 12) :=
    readConnected_of_readOperand hts hconjunction hrest
  rw [readExpression]
  refine (hdisjunction.deeper hts.ne_nil (Nat.le_refl _)).bind ?_
  rcases hrest with ⟨t, us, rfl, ht⟩
  cases t <;> first | exact finds_pure _ _ | cases ht

/-- A factor without a sign, a power or a word is an atom with its calls. -/
theorem readFactor_of_readPrimary {n : Nat} {ts : List Token} {e : Expression} (hts : Starts ts)
    (hread : (readPrimary .first n ts).Finds (e, rest) k) (hrest : Rank.factor.EndsBefore rest) :
    (readFactor .first (n + 2) ts).Finds (e, rest) (k + 3) := by
  have hne := hts.ne_nil
  rcases hts with ⟨t, us, rfl, ht⟩
  have hawaited : (readAwaited .first (n + 1) (t :: us)).Finds (e, rest) (k + 1) := by
    rw [readAwaited]
    · exact hread.deeper hne (Nat.le_refl _)
    · exact cons_ne_of_starts ht rfl
  rw [readFactor]
  · refine (hawaited.deeper hne (Nat.le_refl _)).bind ?_
    rcases hrest with ⟨t', us', rfl, ht'⟩
    cases t' <;> first | exact finds_pure _ _ | cases ht'
  · exact cons_ne_of_starts ht rfl
  · exact cons_ne_of_starts ht rfl

/-! ## Factors -/

/-- A whole expression in brackets. -/
theorem readPrimary_brackets {n : Nat} {ts : List Token} {e : Expression} (hts : Starts ts)
    (hlength : 1 < ts.length)
    (hread : (readExpression .first n ts).Finds (e, .closing :: rest) k)
    (hrest : Rank.factor.EndsBefore rest) :
    (readPrimary .first (n + 3) (.opening :: ts)).Finds (e, rest) (k + 8) := by
  have hfirst : ((readExpression .first n ts).deeper 6 ts).Finds (e, .closing :: rest) (k + 6) :=
    hread.deeper hts.ne_nil (Nat.le_refl _)
  have hbracketed : (readBracketed .first (n + 1) ts).Finds (e, rest) (k + 6) := by
    rcases hts with ⟨t, us, rfl, ht⟩
    cases t with
    | name id => exact (hfirst.bind (finds_pure (e, rest) _)).after_ahead hlength
    | literal v => exact (hfirst.bind (finds_pure (e, rest) _)).after_ahead hlength
    | opening => exact (hfirst.bind (finds_pure (e, rest) _)).after_ahead hlength
    | _ => cases ht
  rw [readPrimary]
  refine Finds.bind (a := (e, rest)) ?_ ?_
  · refine Finds.deeper (m := k + 6) ?_ (List.cons_ne_nil _ _) (Nat.le_refl _)
    rw [readAtom]
    exact hbracketed
  · simp only [readTrailers_stops hrest]
    exact finds_pure (e, rest) _

/-- The first argument of a call, and those that follow it. -/
theorem readArguments_cons {n : Nat} {ts after : List Token} {e : Expression}
    {args keywords : List Expression} (hts : Starts ts) (hlength : 1 < ts.length)
    (hread : (readExpression .first n ts).Finds (e, after) k)
    (hafter : Rank.sum.EndsBefore after)
    (hmore : (readMoreArguments .first n after).Finds ((args, keywords), rest) (k + 2)) :
    (readArguments .first (n + 1) ts).Finds ((e :: args, keywords), rest) (k + 2) := by
  have hfirst : ((readExpression .first n ts).deeper 2 ts).Finds (e, after) (k + 2) :=
    hread.deeper hts.ne_nil (Nat.le_refl _)
  have hothers : (readMoreArguments .first n after >>= fun more =>
      pure ((e :: more.1.1, more.1.2), more.2)).Finds ((e :: args, keywords), rest) (k + 2) :=
    hmore.bind (finds_pure _ _)
  rcases hafter with ⟨t', us', rfl, ht'⟩
  rcases hts with ⟨t, us, rfl, ht⟩
  rw [readArguments]
  · refine (hfirst.bind ?_).after_ahead hlength
    cases t' with
    | closing => exact hothers
    | comma => exact hothers
    | lineEnd => exact hothers
    | _ => cases ht'
  · exact cons_ne_of_starts ht rfl
  · exact cons_ne_of_starts ht rfl
  · exact cons_ne_of_starts ht rfl

/-- The next argument of a call after a comma, and those that follow it. -/
theorem readMoreArguments_cons {n : Nat} {ts after : List Token} {e : Expression}
    {args keywords : List Expression} (hts : Starts ts) (hlength : 1 < ts.length)
    (hread : (readExpression .first n ts).Finds (e, after) k)
    (hmore : (readMoreArguments .first n after).Finds ((args, keywords), rest) (k + 6)) :
    (readMoreArguments .first (n + 2) (.comma :: ts)).Finds ((e :: args, keywords), rest)
      (k + 6) := by
  have hplain : (readPlainArguments .first (6, 7) (n + 1) ts).Finds ((e :: args, keywords), rest)
      (k + 6) := by
    have hne := hts.ne_nil
    rcases hts with ⟨t, us, rfl, ht⟩
    rw [readPlainArguments]
    · refine Finds.after_ahead ?_ hlength
      exact (hread.deeper hne (Nat.le_refl _)).bind (hmore.bind (finds_pure _ _))
    · exact cons_ne_of_starts ht rfl
    · exact cons_ne_of_starts ht rfl
  rcases hts with ⟨t, us, rfl, ht⟩
  rw [readMoreArguments]
  · exact hplain
  · exact cons_ne_of_starts ht rfl

/-- A name with arguments in brackets. -/
theorem readPrimary_call (name : String) {n : Nat} {ts : List Token}
    {args keywords : List Expression} (hts : ts ≠ [])
    (hread : (readArguments .first (n + 1) ts).Finds ((args, keywords), rest) k)
    (hrest : Rank.factor.EndsBefore rest) :
    (readPrimary .first (n + 3) (.name name :: .opening :: ts)).Finds
      (.call (.name name) args keywords, rest) (k + 2) := by
  have htrailers : (readTrailers .first (n + 2) (.name name) (.opening :: ts)).Finds
      (.call (.name name) args keywords, rest) (k + 2) := by
    rw [readTrailers]
    · refine (hread.deeper hts (Nat.le_refl _)).bind ?_
      simp only [readTrailers_stops hrest]
      exact finds_pure _ _
    · exact hts
  rw [readPrimary]
  refine Finds.bind (a := (.name name, .opening :: ts)) ?_ htrailers
  exact (finds_pure _ 0).deeper (List.cons_ne_nil _ _) (by omega)

/-- A literal alone. -/
theorem readSum_literal (n : Nat) (v : Literal) (hrest : Rank.sum.EndsBefore rest) :
    (readSum .first (n + 7) (.literal v :: rest)).Finds (.literal v, rest) 9 := by
  have hne := List.cons_ne_nil (Token.literal v) rest
  have hprimary : (readPrimary .first (n + 3) (.literal v :: rest)).Finds (.literal v, rest) 2 := by
    rw [readPrimary]
    refine Finds.bind (a := (.literal v, rest)) ((finds_pure _ 0).deeper hne (by omega)) ?_
    simp only [readTrailers_stops hrest.product.factor]
    exact finds_pure _ _
  have hfactor := readFactor_of_readPrimary ⟨_, _, rfl, rfl⟩ hprimary hrest.product.factor
  have hterm : (readTerm .first (n + 6) (.literal v :: rest)).Finds (.literal v, rest) 7 := by
    rw [readTerm]
    refine (hfactor.deeper hne (Nat.le_refl _)).bind ?_
    simp only [readTermTail_stops hrest.product]
    exact finds_pure _ _
  rw [readSum]
  refine (hterm.deeper hne (Nat.le_refl _)).bind ?_
  simp only [readSumTail_stops hrest]
  exact finds_pure _ _

/-! ## Further parts -/

/-- One more part of a sum. -/
theorem readSumTail_step {n : Nat} {op : Operator} (hop : op.precedence = 1) {ts us : List Token}
    {l r : Expression} {x : Expression × List Token} (hts : ts ≠ [])
    (hread : (readTerm .first n ts).Finds (r, us) k)
    (htail : (readSumTail .first n (op.expression l r) us).Finds x (k + 2)) :
    (readSumTail .first (n + 1) l (op.token :: ts)).Finds x (k + 2) := by
  have hright := hread.deeper (k := 2) hts (Nat.le_refl _)
  cases op with
  | add => exact hright.bind htail
  | subtract => exact hright.bind htail
  | _ => cases hop

/-- One more part of a product. -/
theorem readTermTail_step {n : Nat} {op : Operator} (hop : op.precedence = 2)
    {ts us : List Token} {l r : Expression} {x : Expression × List Token} (hts : ts ≠ [])
    (hread : (readFactor .first n ts).Finds (r, us) k)
    (htail : (readTermTail .first n (op.expression l r) us).Finds x (k + 2)) :
    (readTermTail .first (n + 1) l (op.token :: ts)).Finds x (k + 2) := by
  have hright := hread.deeper (k := 2) hts (Nat.le_refl _)
  cases op with
  | multiply => exact hright.bind htail
  | divide => exact hright.bind htail
  | _ => cases hop

end Expression

/-! ## Steps -/

/--
Whether the steps are enough to read tokens where so many are needed for a part without
brackets: each pair of brackets that is open at once takes 28 of them.
-/
def Suffices (steps least : Nat) (ts : List Token) : Prop :=
  ∃ n, least + 28 * mostOpenFrom Token.openAfter n ts ≤ 28 * n + steps

namespace Suffices

variable {steps least : Nat} {ts rest : List Token}

/-- Steps that suffice are at least those for a part without brackets. -/
theorem least_le (h : Suffices steps least ts) : least ≤ steps := by
  rcases h with ⟨n, hn⟩
  have hmost : n ≤ mostOpenFrom Token.openAfter n ts := le_mostOpenFrom n ts
  omega

/-- As many steps fewer are enough further down. -/
theorem down {j : Nat} (h : Suffices steps (least + j) ts) :
    ∃ k, steps = k + j ∧ Suffices k least ts := by
  obtain ⟨k, rfl⟩ : ∃ k, steps = k + j := ⟨steps - j, by have hle := h.least_le; omega⟩
  rcases h with ⟨n, hn⟩
  exact ⟨k, rfl, n, by omega⟩

/-- The way from a factor into its brackets and on to a part there is that of one pair. -/
theorem inside (h : Suffices steps 5 (.opening :: ts)) :
    ∃ k, steps = k + 11 ∧ Suffices k 22 ts := by
  rcases h with ⟨n, hn⟩
  have hinside : mostOpenFrom Token.openAfter (n + 1) ts ≤
      mostOpenFrom Token.openAfter n (.opening :: ts) := Nat.le_max_right _ _
  have hmost : n + 1 ≤ mostOpenFrom Token.openAfter (n + 1) ts := le_mostOpenFrom (n + 1) ts
  exact ⟨steps - 11, by omega, n + 1, by omega⟩

/-- A token that is no bracket needs no steps of its own. -/
theorem tail {t : Token} (h : Suffices steps least (t :: ts))
    (ht : ∀ n, Token.openAfter n t = n) : Suffices steps least ts := by
  rcases h with ⟨n, hn⟩
  rw [mostOpenFrom_cons_of_eq (ht n)] at hn
  exact ⟨n, hn⟩

/-- What is enough for derived tokens and what follows them is enough for the latter. -/
theorem after {rank : Rank} {f : Formula NodeReference} (h : Suffices steps least (ts ++ rest))
    (hts : Derives rank ts f) : Suffices steps least rest := by
  rcases h with ⟨n, hn⟩
  have hrest := hts.mostOpenFrom_le n rest
  exact ⟨n, by omega⟩

end Suffices

/-! ## Derivations -/

open Expression Reading

/--
Whether the reader of a rank reads tokens as an expression, if the steps suffice.  Where
signs can follow, it has read all of them when the reader of further parts takes over.
-/
def ReadsAs : Rank → List Token → Expression → Prop
  | .sum, ts, e => ∀ n rest, 16 * ts.length + 2 ≤ n → Rank.product.EndsBefore rest →
      ∃ m, n ≤ m + ts.length ∧ ∀ k x, Suffices k 9 (ts ++ rest) →
        (readSumTail .first m e rest).Finds x k → (readSum .first n (ts ++ rest)).Finds x k
  | .product, ts, e => ∀ n rest, 16 * ts.length + 1 ≤ n → Rank.factor.EndsBefore rest →
      ∃ m, n ≤ m + ts.length ∧ ∀ k x, Suffices k 7 (ts ++ rest) →
        (readTermTail .first m e rest).Finds x k → (readTerm .first n (ts ++ rest)).Finds x k
  | .factor, ts, e => ∀ n rest, 16 * ts.length ≤ n → Rank.factor.EndsBefore rest →
      ∀ k, Suffices k 5 (ts ++ rest) → (readFactor .first n (ts ++ rest)).Finds (e, rest) k

section

variable {ts us rest : List Token} {e l r : Expression} {f g : Formula NodeReference} {n k : Nat}

/-- What is read as a sum is read where nothing goes on with it. -/
theorem ReadsAs.readSum_finds (h : ReadsAs .sum ts e) (hn : 16 * ts.length + 2 ≤ n)
    (hrest : Rank.sum.EndsBefore rest) (hk : Suffices k 9 (ts ++ rest)) :
    (readSum .first n (ts ++ rest)).Finds (e, rest) k := by
  rcases h n rest hn hrest.product with ⟨m, hm, hread⟩
  obtain ⟨j, rfl⟩ : ∃ j, m = j + 1 := ⟨m - 1, by omega⟩
  refine hread k (e, rest) hk ?_
  rw [readSumTail_stops hrest]
  exact finds_pure _ _

/-- What is read as a product is read where nothing goes on with it. -/
theorem ReadsAs.readTerm_finds (h : ReadsAs .product ts e) (hn : 16 * ts.length + 1 ≤ n)
    (hrest : Rank.product.EndsBefore rest) (hk : Suffices k 7 (ts ++ rest)) :
    (readTerm .first n (ts ++ rest)).Finds (e, rest) k := by
  rcases h n rest hn hrest.factor with ⟨m, hm, hread⟩
  obtain ⟨j, rfl⟩ : ∃ j, m = j + 1 := ⟨m - 1, by omega⟩
  refine hread k (e, rest) hk ?_
  rw [readTermTail_stops hrest]
  exact finds_pure _ _

/-- What is read as a sum is read as a whole expression. -/
theorem ReadsAs.readExpression_finds (h : ReadsAs .sum ts e) (hts : Derives .sum ts f)
    (hn : 16 * ts.length + 8 ≤ n) (hrest : Rank.sum.EndsBefore rest)
    (hk : Suffices k 22 (ts ++ rest)) :
    (readExpression .first n (ts ++ rest)).Finds (e, rest) k := by
  obtain ⟨m, rfl⟩ : ∃ m, n = m + 7 := ⟨n - 7, by omega⟩
  have hlength := hts.starts.length_pos
  obtain ⟨j, rfl, hj⟩ : ∃ j, k = j + 13 ∧ Suffices j 9 (ts ++ rest) := hk.down
  exact readExpression_of_readSum (hts.starts.append rest) (h.readSum_finds (by omega) hrest hj)
    hrest

theorem ReadsAs.sum (h : ReadsAs .product ts e) (hts : Derives .product ts f) :
    ReadsAs .sum ts e := by
  intro n rest hn hrest
  have hlength := hts.starts.length_pos
  obtain ⟨m, rfl⟩ : ∃ m, n = m + 1 := ⟨n - 1, by omega⟩
  refine ⟨m, by omega, fun k x hk htail => ?_⟩
  obtain ⟨j, rfl, hj⟩ : ∃ j, k = j + 2 ∧ Suffices j 7 (ts ++ rest) := hk.down
  rw [readSum]
  have hterm := h.readTerm_finds (n := m) (by omega) hrest hj
  exact (hterm.deeper (hts.starts.append rest).ne_nil (Nat.le_refl _)).bind htail

theorem ReadsAs.product (h : ReadsAs .factor ts e) (hts : Derives .factor ts f) :
    ReadsAs .product ts e := by
  intro n rest hn hrest
  have hlength := hts.starts.length_pos
  obtain ⟨m, rfl⟩ : ∃ m, n = m + 1 := ⟨n - 1, by omega⟩
  refine ⟨m, by omega, fun k x hk htail => ?_⟩
  obtain ⟨j, rfl, hj⟩ : ∃ j, k = j + 2 ∧ Suffices j 5 (ts ++ rest) := hk.down
  rw [readTerm]
  have hfactor := h m rest (by omega) hrest j hj
  exact (hfactor.deeper (hts.starts.append rest).ne_nil (Nat.le_refl _)).bind htail

theorem ReadsAs.addition {op : Operator} (hop : op.precedence = 1) (hl : ReadsAs .sum ts l)
    (hts : Derives .sum ts f) (hr : ReadsAs .product us r) (hus : Derives .product us g) :
    ReadsAs .sum (ts ++ op.token :: us) (op.expression l r) := by
  intro n rest hn hrest
  rw [List.length_append, List.length_cons] at hn ⊢
  have hsign : Rank.product.EndsBefore (op.token :: (us ++ rest)) := by
    refine ⟨_, _, rfl, ?_⟩
    cases op <;> first | rfl | cases hop
  rcases hl n _ (by omega) hsign with ⟨m, hm, hread⟩
  obtain ⟨m, rfl⟩ : ∃ j, m = j + 1 := ⟨m - 1, by omega⟩
  refine ⟨m, by omega, fun k x hk htail => ?_⟩
  rw [List.append_assoc, List.cons_append] at hk ⊢
  obtain ⟨j, rfl, hj⟩ : ∃ j, k = j + 2 ∧ Suffices j 7 (us ++ rest) :=
    ((hk.after hts).tail (openAfter_token op)).down
  exact hread _ x hk (readSumTail_step hop (hus.starts.append rest).ne_nil
    (hr.readTerm_finds (by omega) hrest hj) htail)

theorem ReadsAs.multiplication {op : Operator} (hop : op.precedence = 2)
    (hl : ReadsAs .product ts l) (hts : Derives .product ts f) (hr : ReadsAs .factor us r)
    (hus : Derives .factor us g) : ReadsAs .product (ts ++ op.token :: us) (op.expression l r) := by
  intro n rest hn hrest
  rw [List.length_append, List.length_cons] at hn ⊢
  have hsign : Rank.factor.EndsBefore (op.token :: (us ++ rest)) := by
    refine ⟨_, _, rfl, ?_⟩
    cases op <;> first | rfl | cases hop
  rcases hl n _ (by omega) hsign with ⟨m, hm, hread⟩
  obtain ⟨m, rfl⟩ : ∃ j, m = j + 1 := ⟨m - 1, by omega⟩
  refine ⟨m, by omega, fun k x hk htail => ?_⟩
  rw [List.append_assoc, List.cons_append] at hk ⊢
  obtain ⟨j, rfl, hj⟩ : ∃ j, k = j + 2 ∧ Suffices j 5 (us ++ rest) :=
    ((hk.after hts).tail (openAfter_token op)).down
  exact hread _ x hk (readTermTail_step hop (hus.starts.append rest).ne_nil
    (hr m rest (by omega) hrest j hj) htail)

/-- Brackets around a sum are read as a factor. -/
theorem ReadsAs.brackets (h : ReadsAs .sum ts e) (hts : Derives .sum ts f) :
    ReadsAs .factor (.opening :: (ts ++ [.closing])) e := by
  intro n rest hn hrest k hk
  rw [List.length_cons, List.length_append, List.length_singleton] at hn
  obtain ⟨m, rfl⟩ : ∃ m, n = m + 5 := ⟨n - 5, by omega⟩
  rw [List.cons_append, List.append_assoc, List.singleton_append] at hk ⊢
  obtain ⟨j, rfl, hj⟩ := hk.inside
  have hinside := h.readExpression_finds hts (n := m) (by omega) (Rank.sum.endsBefore_closing rest)
    hj
  have hprimary := readPrimary_brackets (hts.starts.append _) (hts.starts.one_lt_length _ _)
    hinside hrest
  exact readFactor_of_readPrimary ⟨_, _, rfl, rfl⟩ hprimary hrest

/-- A function is read as the call of its name with two arguments. -/
theorem ReadsAs.function {name : String} (hl : ReadsAs .sum ts l) (hts : Derives .sum ts f)
    (hr : ReadsAs .sum us r) (hus : Derives .sum us g) :
    ReadsAs .factor (.name name :: .opening :: (ts ++ .comma :: (us ++ [.closing])))
      (.call (.name name) [l, r] []) := by
  intro n rest hn hrest k hk
  simp only [List.length_cons, List.length_append, List.length_nil] at hn
  obtain ⟨m, rfl⟩ : ∃ m, n = m + 7 := ⟨n - 7, by omega⟩
  simp only [List.cons_append, List.append_assoc, List.nil_append] at hk ⊢
  obtain ⟨j, rfl, hj⟩ := (hk.tail fun _ => rfl).inside
  have hright := hr.readExpression_finds hus (n := m) (by omega)
    (Rank.sum.endsBefore_closing rest) ((hj.after hts).tail fun _ => rfl)
  have hmore : (readMoreArguments .first (m + 2) (.comma :: (us ++ .closing :: rest))).Finds
      (([r], []), rest) (j + 6) := by
    obtain ⟨i, rfl⟩ : ∃ i, m = i + 1 := ⟨m - 1, by omega⟩
    refine readMoreArguments_cons (hus.starts.append _) (hus.starts.one_lt_length _ _) hright ?_
    rw [readMoreArguments]
    exact finds_pure _ _
  have hleft := hl.readExpression_finds hts (n := m + 2) (by omega)
    (Rank.sum.endsBefore_comma (us ++ .closing :: rest)) hj
  have harguments := readArguments_cons (hts.starts.append _) (hts.starts.one_lt_length _ _)
    (hleft.mono (Nat.le_add_right j 4)) (Rank.sum.endsBefore_comma _) hmore
  have hprimary := readPrimary_call name (n := m + 2) (hts.starts.append _).ne_nil harguments hrest
  exact readFactor_of_readPrimary ⟨_, _, rfl, rfl⟩ hprimary hrest

/-- A leaf is read as the call that it is written as. -/
theorem readsAs_reference (r : NodeReference) :
    ReadsAs .factor r.tokens (Formula.leaf r).expression := by
  intro n rest hn hrest k hk
  have hlength : r.tokens.length = 4 := rfl
  rw [hlength] at hn
  obtain ⟨m, rfl⟩ : ∃ m, n = m + 18 := ⟨n - 18, by omega⟩
  have htokens : r.tokens ++ rest = .name (String.ofList r.kind.letters) :: .opening ::
      .literal (.integer r.id) :: .closing :: rest := rfl
  rw [htokens] at hk ⊢
  obtain ⟨j, rfl, hj⟩ := (hk.tail fun _ => rfl).inside
  have hclosing := Rank.sum.endsBefore_closing rest
  have hnumber := readExpression_of_readSum (n := m + 6) ⟨_, _, rfl, rfl⟩
    (readSum_literal m (.integer r.id) hclosing) hclosing
  have hmore : (readMoreArguments .first (m + 13) (.closing :: rest)).Finds (([], []), rest)
      (j + 2) := by
    rw [readMoreArguments]
    exact finds_pure _ _
  have htwo : 1 < (Token.literal (.integer r.id) :: .closing :: rest).length :=
    Nat.succ_lt_succ (Nat.succ_pos rest.length)
  have harguments := readArguments_cons ⟨_, _, rfl, rfl⟩ htwo (hnumber.mono hj.least_le)
    hclosing hmore
  have hprimary := readPrimary_call (String.ofList r.kind.letters) (n := m + 13)
    (List.cons_ne_nil _ _) harguments hrest
  have hfactor := readFactor_of_readPrimary ⟨_, _, rfl, rfl⟩ hprimary hrest
  exact hfactor.mono (by omega)

end

/-- Derived tokens are read as their formula. -/
theorem Derives.readsAs {rank : Rank} {ts : List Token} {f : Formula NodeReference}
    (h : Derives rank ts f) : ReadsAs rank ts f.expression := by
  induction h with
  | sum h ih => exact ih.sum h
  | product h ih => exact ih.product h
  | addition hop hl hr ihl ihr => exact ihl.addition hop hl ihr hr
  | multiplication hop hl hr ihl ihr => exact ihl.multiplication hop hl ihr hr
  | brackets h ih => exact ih.brackets h
  | reference r => exact readsAs_reference r
  | function hop hl hr ihl ihr =>
      rw [Formula.expression, Operator.expression_of_isFunction hop,
        Operator.token_of_isFunction hop]
      exact ihl.function hl ihr hr

/-- The tokens of a whole line are read as the formula, within steps for each open bracket. -/
theorem Derives.ofTokens_finds {ts : List Token} {f : Formula NodeReference}
    (h : Derives .sum ts f) : (Expression.ofTokens .first (ts ++ [Token.lineEnd])).Finds
      f.expression (25 + 28 * mostOpenFrom Token.openAfter 0 (ts ++ [.lineEnd])) := by
  have hread := h.readsAs.readExpression_finds h (n := fuelFor (ts ++ [Token.lineEnd]).length)
    (k := 22 + 28 * mostOpenFrom Token.openAfter 0 (ts ++ [.lineEnd]))
    (by rw [fuelFor, List.length_append]; omega) (Rank.endsBefore_lineEnd .sum) ⟨0, by omega⟩
  rw [ofTokens]
  exact (hread.deeper (h.starts.append _).ne_nil (by omega)).bind (finds_pure _ _)

/-- What the first reading finds in the tokens of a text is found in the text. -/
theorem Expression.ofText_finds {cs : List Char} {e : Expression} {n : Nat}
    (h : (ofTokens .first (Lexer.tokens cs)).Finds e n) : (ofText cs).Finds e n := by
  rw [ofText]
  split
  · rename_i hrefused
    rw [hrefused] at h
    cases h.1
  · exact h

end StockFlow
