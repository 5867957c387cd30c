import StockFlow.Proofs.Expression.Grammar

/-!
# Everything that is read is spelled

Expressions can be spelled in more ways than formulas are written: names and literals
may stand in brackets of their own, and a comma may end the arguments of a call.
Whatever tokens are read as an expression made of names, literals, the four signs and
calls spell it in one of these ways.  The proof goes up through the binding levels of
the reader; only what stands in brackets is read with the loosest level again, and
with less fuel.

Main definitions:

- {lit}`Expression.isPlain`: what expressions of formulas are made of.
- {lit}`Spells`: which tokens spell which expression.

Main results:

- Theorem {lit}`Expression.taken_of_readExpression`: what is read is spelled by what is taken
  from the tokens.
- Theorem {lit}`Expression.spells_of_ofTokens`: as a whole line, too.
-/

namespace StockFlow

/-- Whether names, literals, the four signs and calls with one or two arguments make it up. -/
@[grind] def Expression.isPlain : Expression → Bool
  | .name _ => true
  | .literal _ => true
  | .binary .add l r => l.isPlain && r.isPlain
  | .binary .subtract l r => l.isPlain && r.isPlain
  | .binary .multiply l r => l.isPlain && r.isPlain
  | .binary .divide l r => l.isPlain && r.isPlain
  | .call f [a] [] => f.isPlain && a.isPlain
  | .call f [a, b] [] => f.isPlain && a.isPlain && b.isPlain
  | _ => false

/-- What may stand between the last argument of a call and its closing bracket. -/
def EndsArguments (ts : List Token) : Prop := ts = [] ∨ ts = [.comma]

/-- Whether tokens spell an expression of a rank. -/
inductive Spells : Rank → List Token → Expression → Prop
  | name (id : String) : Spells .factor [.name id] (.name id)
  | literal (v : Literal) : Spells .factor [.literal v] (.literal v)
  | sum {ts : List Token} {e : Expression} (h : Spells .product ts e) : Spells .sum ts e
  | product {ts : List Token} {e : Expression} (h : Spells .factor ts e) : Spells .product ts e
  | addition {ts us : List Token} {l r : Expression} {op : Operator}
      (hop : op.precedence = 1) (hl : Spells .sum ts l) (hr : Spells .product us r) :
      Spells .sum (ts ++ op.token :: us) (op.expression l r)
  | multiplication {ts us : List Token} {l r : Expression} {op : Operator}
      (hop : op.precedence = 2) (hl : Spells .product ts l) (hr : Spells .factor us r) :
      Spells .product (ts ++ op.token :: us) (op.expression l r)
  | brackets {ts : List Token} {e : Expression} (h : Spells .sum ts e) :
      Spells .factor (.opening :: (ts ++ [.closing])) e
  | callOne {ts us ending : List Token} {f a : Expression} (hf : Spells .factor ts f)
      (ha : Spells .sum us a) (hending : EndsArguments ending) :
      Spells .factor (ts ++ .opening :: (us ++ (ending ++ [.closing]))) (.call f [a] [])
  | callTwo {ts us vs ending : List Token} {f a b : Expression} (hf : Spells .factor ts f)
      (ha : Spells .sum us a) (hb : Spells .sum vs b) (hending : EndsArguments ending) :
      Spells .factor (ts ++ .opening :: (us ++ .comma :: (vs ++ (ending ++ [.closing]))))
        (.call f [a, b] [])

namespace Expression

open Reading

variable {n : Nat} {ts rest : List Token} {e left : Expression} {args : List Expression}

/-- Whether tokens are taken from the front of others, and spell an expression of a rank. -/
def Taken (rank : Rank) (ts : List Token) (e : Expression) (rest : List Token) : Prop :=
  ∃ us, ts = us ++ rest ∧ Spells rank us e

/-- Whether everything that is read with less fuel is spelled by what was taken. -/
def SpelledBelow (n : Nat) : Prop :=
  ∀ m < n, ∀ (ts : List Token) (e : Expression) (rest : List Token),
    (readExpression .first m ts).outcome = .found (e, rest) → e.isPlain = true →
      Taken .sum ts e rest

/-- What is known of more fuel is known of less. -/
theorem SpelledBelow.mono {m : Nat} (h : SpelledBelow n) (hm : m ≤ n) : SpelledBelow m :=
  fun k hk => h k (Nat.lt_of_lt_of_le hk hm)

/-! ## Brackets and arguments -/

/-- A yield has no place in a formula. -/
theorem isPlain_of_readYield (hread : (readYield .first n ts).outcome = .found (e, rest)) :
    e.isPlain = false := by
  cases n with
  | zero => cases hread
  | succ n =>
      rw [readYield.eq_def] at hread
      simp only at hread
      split at hread
      · grind
      · grind
      · simp only [outcome_bind, Prod.exists] at hread
        rcases hread with ⟨first, us, -, hread⟩
        split at hread
        all_goals grind

/-- In brackets that make no expression of another kind stands a whole expression. -/
theorem readExpression_of_readBracketed
    (hread : (readBracketed .first n ts).outcome = .found (e, rest)) (he : e.isPlain = true) :
    ∃ m < n, (readExpression .first m ts).outcome = .found (e, .closing :: rest) := by
  cases n with
  | zero => cases hread
  | succ n =>
      rw [readBracketed.eq_def] at hread
      simp only at hread
      split at hread
      all_goals try simp only [outcome_bind, outcome_deeper, Prod.exists] at hread
      all_goals grind [isPlain_of_readYield]

/-- A call that goes on with doubly starred arguments has one. -/
theorem ne_nil_of_readKeywords {steps : Nat × Nat} {keywords : List Expression}
    (hread : (readKeywords .first steps n ts).outcome = .found (keywords, rest)) :
    keywords ≠ [] := by
  cases n with
  | zero => cases hread
  | succ n =>
      rw [readKeywords.eq_def] at hread
      simp only at hread
      split at hread
      all_goals try simp only [outcome_bind, outcome_deeper, Prod.exists] at hread
      all_goals grind

/-- Whether an argument was read at the front of tokens, and the others after it. -/
def NextArgument (n : Nat) (ts : List Token) (args : List Expression) (rest : List Token) : Prop :=
  ∃ a more after, args = a :: more ∧
    (∃ m < n, (readExpression .first m ts).outcome = .found (a, after)) ∧
    ∃ m < n, (readMoreArguments .first m after).outcome = .found ((more, []), rest)

/-- An argument is read with more fuel as well. -/
theorem NextArgument.mono {m : Nat} (h : NextArgument n ts args rest) (hm : n ≤ m) :
    NextArgument m ts args rest := by
  rcases h with ⟨a, more, after, hargs, ⟨k, hk, hfirst⟩, ⟨j, hj, hmore⟩⟩
  exact ⟨a, more, after, hargs, ⟨k, by omega, hfirst⟩, ⟨j, by omega, hmore⟩⟩

/-- Arguments without stars and names start with a whole expression. -/
theorem nextArgument_of_readPlainArguments {steps : Nat × Nat}
    (hread : (readPlainArguments .first steps n ts).outcome = .found ((args, []), rest))
    (hargs : ∀ a ∈ args, a.isPlain = true) : NextArgument n ts args rest := by
  cases n with
  | zero => cases hread
  | succ n =>
      rw [readPlainArguments.eq_def] at hread
      simp only at hread
      split at hread
      all_goals simp only [outcome_bind, outcome_deeper, Prod.exists] at hread
      · rcases hread with ⟨_, -, keywords, after, hkeywords, heq⟩
        cases heq
        exact absurd rfl (ne_nil_of_readKeywords hkeywords)
      · rcases hread with ⟨value, after, _, more, keywords, _, _, heq⟩
        cases heq
        cases hargs (.starred value) List.mem_cons_self
      · rcases hread with ⟨_, -, a, after, ⟨-, hfirst⟩, more, keywords, _, hmore, heq⟩
        cases heq
        exact ⟨a, more, after, rfl, ⟨n, Nat.lt_succ_self n, hfirst⟩, n, Nat.lt_succ_self n, hmore⟩

/-- After a plain argument, the call ends or a comma and the next argument follow. -/
theorem ends_or_next_of_readMoreArguments
    (hread : (readMoreArguments .first n ts).outcome = .found ((args, []), rest))
    (hargs : ∀ a ∈ args, a.isPlain = true) :
    (args = [] ∧ ∃ ending, EndsArguments ending ∧ ts = ending ++ .closing :: rest) ∨
      ∃ us, ts = .comma :: us ∧ NextArgument n us args rest := by
  cases n with
  | zero => cases hread
  | succ n =>
      rw [readMoreArguments.eq_def] at hread
      simp only at hread
      split at hread
      · cases hread
        exact .inl ⟨rfl, [], .inl rfl, rfl⟩
      · rcases outcome_bind.1 hread with ⟨_, -, heq⟩
        cases heq
        exact .inl ⟨rfl, [.comma], .inr rfl, rfl⟩
      · exact .inr ⟨_, rfl, (nextArgument_of_readPlainArguments hread hargs).mono (Nat.le_succ n)⟩
      · cases hread

/-- Arguments without stars and names are none, or start with a whole expression. -/
theorem empty_or_next_of_readArguments
    (hread : (readArguments .first n ts).outcome = .found ((args, []), rest))
    (hargs : ∀ a ∈ args, a.isPlain = true) : args = [] ∨ NextArgument n ts args rest := by
  cases n with
  | zero => cases hread
  | succ n =>
      rw [readArguments.eq_def] at hread
      simp only at hread
      split at hread
      · grind
      · rcases outcome_bind.1 hread with ⟨_, -, hplain⟩
        exact .inr ((nextArgument_of_readPlainArguments hplain hargs).mono (Nat.le_succ n))
      · simp only [outcome_bind, Prod.exists] at hread
        rcases hread with ⟨_, -, keywords, after, hkeywords, heq⟩
        cases heq
        exact absurd rfl (ne_nil_of_readKeywords hkeywords)
      · simp only [outcome_bind, outcome_deeper, Prod.exists] at hread
        rcases hread with ⟨_, -, a, after, ⟨-, hfirst⟩, hread⟩
        split at hread
        · grind [List.mem_cons_self]
        · grind [List.mem_cons_self]
        · simp only [outcome_bind, Prod.exists] at hread
          rcases hread with ⟨more, keywords, after', hmore, heq⟩
          cases heq
          exact .inr ⟨a, more, after, rfl, ⟨n, Nat.lt_succ_self n, hfirst⟩,
            n, Nat.lt_succ_self n, hmore⟩

/-- An argument is spelled, and the bracket, or a comma and another argument, follows. -/
theorem NextArgument.taken (hbelow : SpelledBelow n) (h : NextArgument n ts args rest)
    (hargs : ∀ a ∈ args, a.isPlain = true) :
    ∃ a more us after, args = a :: more ∧ ts = us ++ after ∧ Spells .sum us a ∧
      ((more = [] ∧ ∃ ending, EndsArguments ending ∧ after = ending ++ .closing :: rest) ∨
        ∃ vs, after = .comma :: vs ∧ NextArgument n vs more rest) := by
  rcases h with ⟨a, more, after, rfl, ⟨m, hm, hfirst⟩, ⟨k, hk, hmore⟩⟩
  rcases hbelow m hm ts a after hfirst (hargs a List.mem_cons_self) with ⟨us, hts, hus⟩
  refine ⟨a, more, us, after, rfl, hts, hus, ?_⟩
  have hrest := ends_or_next_of_readMoreArguments hmore
    (fun b hb => hargs b (List.mem_cons_of_mem a hb))
  refine hrest.imp_right fun ⟨vs, hvs, hnext⟩ => ⟨vs, hvs, hnext.mono (Nat.le_of_lt hk)⟩

/-- One plain argument, with or without a comma after it. -/
theorem NextArgument.taken_one {a : Expression} (hbelow : SpelledBelow n)
    (h : NextArgument n ts [a] rest) (ha : a.isPlain = true) :
    ∃ us ending, Spells .sum us a ∧ EndsArguments ending ∧
      ts = us ++ (ending ++ .closing :: rest) := by
  have hargs : ∀ a' ∈ [a], a'.isPlain = true := by simpa using ha
  rcases h.taken hbelow hargs with ⟨a', more, us, after, hcons, rfl, hus, hmore⟩
  cases hcons
  rcases hmore with ⟨-, ending, hending, rfl⟩ | ⟨vs, -, b, more, after, hnil, -⟩
  · exact ⟨us, ending, hus, hending, rfl⟩
  · cases hnil

/-- Two plain arguments. -/
theorem NextArgument.taken_two {a b : Expression} (hbelow : SpelledBelow n)
    (h : NextArgument n ts [a, b] rest) (ha : a.isPlain = true) (hb : b.isPlain = true) :
    ∃ us vs ending, Spells .sum us a ∧ Spells .sum vs b ∧ EndsArguments ending ∧
      ts = us ++ .comma :: (vs ++ (ending ++ .closing :: rest)) := by
  have hargs : ∀ a' ∈ [a, b], a'.isPlain = true := by simp [ha, hb]
  rcases h.taken hbelow hargs with ⟨a', more, us, after, hcons, rfl, hus, hmore⟩
  cases hcons
  rcases hmore with ⟨hnil, -⟩ | ⟨vs', rfl, hnext⟩
  · cases hnil
  · rcases hnext.taken_one hbelow hb with ⟨vs, ending, hvs, hending, rfl⟩
    exact ⟨us, vs, ending, hus, hvs, hending, rfl⟩

/-! ## Atoms and calls -/

/--
Whether tokens taken from the front of others go on with an expression, so that every
spelling of it becomes one of the other expression.
-/
def Extended (rank : Rank) (ts : List Token) (left e : Expression) (rest : List Token) : Prop :=
  left.isPlain = true ∧
    ∃ us, ts = us ++ rest ∧ ∀ vs, Spells rank vs left → Spells rank (vs ++ us) e

/-- A plain atom is a name, a number or a plain expression in brackets. -/
theorem taken_of_readAtom (hbelow : SpelledBelow n)
    (hread : (readAtom .first n ts).outcome = .found (e, rest)) (he : e.isPlain = true) :
    Taken .factor ts e rest := by
  cases n with
  | zero => cases hread
  | succ n =>
      rw [readAtom.eq_def] at hread
      simp only at hread
      split at hread
      · cases hread
        exact ⟨[.name _], rfl, .name _⟩
      · cases hread
        exact ⟨[.literal _], rfl, .literal _⟩
      · rcases readExpression_of_readBracketed hread he with ⟨m, hm, hinside⟩
        rcases hbelow m (by omega) _ e _ hinside he with ⟨us, rfl, hus⟩
        exact ⟨.opening :: (us ++ [.closing]), by simp, .brackets hus⟩
      · cases hread

theorem extended_refl (he : e.isPlain = true) (rank : Rank) : Extended rank rest e e rest :=
  ⟨he, [], rfl, fun vs hvs => by rwa [List.append_nil]⟩

/-- A call with arguments is plain only if they are one or two plain ones. -/
theorem isPlain_call {f : Expression} {keywords : List Expression}
    (h : (call f args keywords).isPlain = true) :
    f.isPlain = true ∧ keywords = [] ∧ ((∃ a, args = [a] ∧ a.isPlain = true) ∨
      ∃ a b, args = [a, b] ∧ a.isPlain = true ∧ b.isPlain = true) := by
  unfold isPlain at h
  split at h <;> grind

/-- The arguments of a call go on with what is called. -/
theorem Extended.call {f : Expression} {us : List Token} {keywords : List Expression}
    (hbelow : SpelledBelow n)
    (hargs : (readArguments .first n ts).outcome = .found ((args, keywords), us))
    (h : Extended .factor us (.call f args keywords) e rest) :
    Extended .factor (.opening :: ts) f e rest := by
  rcases h with ⟨hcall, vs, rfl, hspells⟩
  rcases isPlain_call hcall with ⟨hf, rfl, ⟨a, rfl, ha⟩ | ⟨a, b, rfl, ha, hb⟩⟩
  · rcases empty_or_next_of_readArguments hargs (by simpa using ha) with hnil | hnext
    · cases hnil
    · rcases hnext.taken_one hbelow ha with ⟨as, ending, has, hending, rfl⟩
      refine ⟨hf, .opening :: (as ++ (ending ++ [.closing])) ++ vs, by simp, fun fs hfs => ?_⟩
      rw [← List.append_assoc]
      exact hspells _ (.callOne hfs has hending)
  · rcases empty_or_next_of_readArguments hargs (by simp [ha, hb]) with hnil | hnext
    · cases hnil
    · rcases hnext.taken_two hbelow ha hb with ⟨as, bs, ending, has, hbs, hending, rfl⟩
      refine ⟨hf, .opening :: (as ++ .comma :: (bs ++ (ending ++ [.closing]))) ++ vs, by simp,
        fun fs hfs => ?_⟩
      rw [← List.append_assoc]
      exact hspells _ (.callTwo hfs has hbs hending)

/-- Calls extend what they follow by the spelling of one or two arguments. -/
theorem extended_of_readTrailers (hbelow : SpelledBelow n)
    (hread : (readTrailers .first n left ts).outcome = .found (e, rest)) (he : e.isPlain = true) :
    Extended .factor ts left e rest := by
  induction n generalizing left ts with
  | zero => cases hread
  | succ n ih =>
      have hbelow' : SpelledBelow n := hbelow.mono (Nat.le_succ n)
      rw [readTrailers.eq_def] at hread
      simp only at hread
      split at hread
      · exact Bool.noConfusion (ih hbelow' hread).1
      · cases (outcome_deeper.1 hread).2
      · cases hread
      · simp only [outcome_bind, outcome_deeper, Prod.exists] at hread
        rcases hread with ⟨args, keywords, us, ⟨-, hargs⟩, hread⟩
        exact (ih hbelow' hread).call hbelow' hargs
      · cases (outcome_deeper.1 hread).2
        exact extended_refl he .factor

/-- What was taken, and what extends it. -/
theorem Extended.taken {rank : Rank} {us : List Token}
    (h : Extended rank us left e rest) (hleft : left.isPlain = true → Taken rank ts left us) :
    Taken rank ts e rest := by
  rcases h with ⟨hplain, vs, rfl, hspells⟩
  rcases hleft hplain with ⟨ws, rfl, hws⟩
  exact ⟨ws ++ vs, by simp, hspells ws hws⟩

/-- A plain primary is an atom with its calls. -/
theorem taken_of_readPrimary (hbelow : SpelledBelow n)
    (hread : (readPrimary .first n ts).outcome = .found (e, rest)) (he : e.isPlain = true) :
    Taken .factor ts e rest := by
  cases n with
  | zero => cases hread
  | succ n =>
      have hbelow' : SpelledBelow n := hbelow.mono (Nat.le_succ n)
      rw [readPrimary] at hread
      simp only [outcome_bind, outcome_deeper, Prod.exists] at hread
      rcases hread with ⟨first, us, ⟨-, hfirst⟩, hread⟩
      exact (extended_of_readTrailers hbelow' hread he).taken (taken_of_readAtom hbelow' hfirst)

theorem taken_of_readAwaited (hbelow : SpelledBelow n)
    (hread : (readAwaited .first n ts).outcome = .found (e, rest)) (he : e.isPlain = true) :
    Taken .factor ts e rest := by
  cases n with
  | zero => cases hread
  | succ n =>
      rw [readAwaited.eq_def] at hread
      simp only at hread
      split at hread
      · grind
      · exact taken_of_readPrimary (hbelow.mono (Nat.le_succ n)) (outcome_deeper.1 hread).2 he

/-- A plain factor has neither a sign in front nor a power behind. -/
theorem taken_of_readFactor (hbelow : SpelledBelow n)
    (hread : (readFactor .first n ts).outcome = .found (e, rest)) (he : e.isPlain = true) :
    Taken .factor ts e rest := by
  cases n with
  | zero => cases hread
  | succ n =>
      rw [readFactor.eq_def] at hread
      simp only at hread
      split at hread
      · grind
      · grind
      · simp only [outcome_bind, outcome_deeper, Prod.exists] at hread
        rcases hread with ⟨base, us, ⟨-, hbase⟩, hread⟩
        split at hread
        · grind
        · cases hread
          exact taken_of_readAwaited (hbelow.mono (Nat.le_succ n)) hbase he

/-! ## Signs -/

/-- What an operator makes of its operands is plain only if both of them are. -/
theorem isPlain_expression {op : Operator} (hop : op.precedence = 1 ∨ op.precedence = 2)
    {l r : Expression} (h : (op.expression l r).isPlain = true) :
    l.isPlain = true ∧ r.isPlain = true := by
  cases op <;> simp_all [Operator.expression, Operator.precedence, isPlain]

/-- A sign with its right operand extends what stands to the left of it. -/
theorem Extended.sign {rank next : Rank} (op : Operator) {right : Expression} {us : List Token}
    (hop : op.precedence = 1 ∨ op.precedence = 2)
    (hjoin : ∀ {ls rs l r}, Spells rank ls l → Spells next rs r →
      Spells rank (ls ++ op.token :: rs) (op.expression l r))
    (h : Extended rank us (op.expression left right) e rest)
    (hright : right.isPlain = true → Taken next ts right us) :
    Extended rank (op.token :: ts) left e rest := by
  rcases h with ⟨hplain, vs, rfl, hspells⟩
  rcases isPlain_expression hop hplain with ⟨hleft, hr⟩
  rcases hright hr with ⟨rs, rfl, hrs⟩
  refine ⟨hleft, op.token :: rs ++ vs, by simp, fun ls hls => ?_⟩
  rw [← List.append_assoc]
  exact hspells _ (hjoin hls hrs)

/-- Further factors extend what stands to their left, a sign and a factor at a time. -/
theorem extended_of_readTermTail (hbelow : SpelledBelow n)
    (hread : (readTermTail .first n left ts).outcome = .found (e, rest)) (he : e.isPlain = true) :
    Extended .product ts left e rest := by
  induction n generalizing left ts with
  | zero => cases hread
  | succ n ih =>
      have hbelow' : SpelledBelow n := hbelow.mono (Nat.le_succ n)
      rw [readTermTail.eq_def] at hread
      simp only at hread
      split at hread
      · simp only [outcome_bind, outcome_deeper, Prod.exists] at hread
        rcases hread with ⟨right, us, ⟨-, hright⟩, hread⟩
        exact Extended.sign .multiply (.inr rfl) (.multiplication rfl) (ih hbelow' hread)
          (taken_of_readFactor hbelow' hright)
      · simp only [outcome_bind, outcome_deeper, Prod.exists] at hread
        rcases hread with ⟨right, us, ⟨-, hright⟩, hread⟩
        exact Extended.sign .divide (.inr rfl) (.multiplication rfl) (ih hbelow' hread)
          (taken_of_readFactor hbelow' hright)
      · simp only [outcome_bind, outcome_deeper, Prod.exists] at hread
        rcases hread with ⟨right, us, ⟨-, hright⟩, hread⟩
        exact Bool.noConfusion (ih hbelow' hread).1
      · cases hread
        exact extended_refl he .product

/-- A plain term is spelled factor by factor. -/
theorem taken_of_readTerm (hbelow : SpelledBelow n)
    (hread : (readTerm .first n ts).outcome = .found (e, rest)) (he : e.isPlain = true) :
    Taken .product ts e rest := by
  cases n with
  | zero => cases hread
  | succ n =>
      have hbelow' : SpelledBelow n := hbelow.mono (Nat.le_succ n)
      rw [readTerm] at hread
      simp only [outcome_bind, outcome_deeper, Prod.exists] at hread
      rcases hread with ⟨first, us, ⟨-, hfirst⟩, hread⟩
      refine (extended_of_readTermTail hbelow' hread he).taken fun hplain => ?_
      rcases taken_of_readFactor hbelow' hfirst hplain with ⟨vs, hvs, hspells⟩
      exact ⟨vs, hvs, hspells.product⟩

/-- Further terms extend what stands to their left, a sign and a term at a time. -/
theorem extended_of_readSumTail (hbelow : SpelledBelow n)
    (hread : (readSumTail .first n left ts).outcome = .found (e, rest)) (he : e.isPlain = true) :
    Extended .sum ts left e rest := by
  induction n generalizing left ts with
  | zero => cases hread
  | succ n ih =>
      have hbelow' : SpelledBelow n := hbelow.mono (Nat.le_succ n)
      rw [readSumTail.eq_def] at hread
      simp only at hread
      split at hread
      · simp only [outcome_bind, outcome_deeper, Prod.exists] at hread
        rcases hread with ⟨right, us, ⟨-, hright⟩, hread⟩
        exact Extended.sign .add (.inl rfl) (.addition rfl) (ih hbelow' hread)
          (taken_of_readTerm hbelow' hright)
      · simp only [outcome_bind, outcome_deeper, Prod.exists] at hread
        rcases hread with ⟨right, us, ⟨-, hright⟩, hread⟩
        exact Extended.sign .subtract (.inl rfl) (.addition rfl) (ih hbelow' hread)
          (taken_of_readTerm hbelow' hright)
      · cases hread
        exact extended_refl he .sum

/-- A plain sum is spelled term by term. -/
theorem taken_of_readSum (hbelow : SpelledBelow n)
    (hread : (readSum .first n ts).outcome = .found (e, rest)) (he : e.isPlain = true) :
    Taken .sum ts e rest := by
  cases n with
  | zero => cases hread
  | succ n =>
      have hbelow' : SpelledBelow n := hbelow.mono (Nat.le_succ n)
      rw [readSum] at hread
      simp only [outcome_bind, outcome_deeper, Prod.exists] at hread
      rcases hread with ⟨first, us, ⟨-, hfirst⟩, hread⟩
      refine (extended_of_readSumTail hbelow' hread he).taken fun hplain => ?_
      rcases taken_of_readTerm hbelow' hfirst hplain with ⟨vs, hvs, hspells⟩
      exact ⟨vs, hvs, hspells.sum⟩

/-! ## Words -/

/-- Where no comparison was found, nothing was taken. -/
theorem rest_of_readComparisons
    (hread : (readComparisons .first n ts).outcome = .found ([], rest)) : ts = rest := by
  cases n with
  | zero => cases hread
  | succ n =>
      rw [readComparisons.eq_def] at hread
      simp only at hread
      split at hread
      all_goals grind

/-- Where no further operand was found, nothing was taken. -/
theorem rest_of_readOperands {word : Connective}
    (hread : (readOperands .first word n ts).outcome = .found ([], rest)) : ts = rest := by
  cases n with
  | zero => cases hread
  | succ n =>
      rw [readOperands.eq_def] at hread
      simp only at hread
      split at hread
      all_goals grind

/-- Without a negation or a comparison, an inversion is a sum. -/
theorem readSum_of_readInversion (hread : (readInversion .first n ts).outcome = .found (e, rest))
    (he : e.isPlain = true) : ∃ m ≤ n, (readSum .first m ts).outcome = .found (e, rest) := by
  cases n with
  | zero => cases hread
  | succ n =>
      rw [readInversion.eq_def] at hread
      simp only at hread
      split at hread
      · grind
      · simp only [outcome_bind, outcome_deeper, Prod.exists] at hread
        rcases hread with ⟨first, us, ⟨-, hfirst⟩, more, vs, hmore, hread⟩
        cases more with
        | nil =>
            cases hread
            rw [← rest_of_readComparisons hmore]
            exact ⟨n, Nat.le_succ n, hfirst⟩
        | cons next more => grind

/-- Operands are joined only in expressions of another kind. -/
theorem readOperand_of_readConnected {word : Connective}
    (hread : (readConnected .first word n ts).outcome = .found (e, rest))
    (he : e.isPlain = true) :
    ∃ m ≤ n, (readOperand .first word m ts).outcome = .found (e, rest) := by
  cases n with
  | zero => cases hread
  | succ n =>
      rw [readConnected] at hread
      simp only [outcome_bind, outcome_deeper, Prod.exists] at hread
      rcases hread with ⟨first, us, ⟨-, hfirst⟩, more, vs, hmore, hread⟩
      cases more with
      | nil =>
          cases hread
          rw [← rest_of_readOperands hmore]
          exact ⟨n, Nat.le_succ n, hfirst⟩
      | cons next more => grind

/-- Without a word between operands, what words join is an inversion. -/
theorem readInversion_of_readConnected
    (hread : (readConnected .first .disjunction n ts).outcome = .found (e, rest))
    (he : e.isPlain = true) :
    ∃ m ≤ n, (readInversion .first m ts).outcome = .found (e, rest) := by
  rcases readOperand_of_readConnected hread he with ⟨j, hj, hoperand⟩
  cases j with
  | zero => cases hoperand
  | succ j =>
      rcases readOperand_of_readConnected hoperand he with ⟨k, hk, hinversion⟩
      cases k with
      | zero => cases hinversion
      | succ k => exact ⟨k, by omega, hinversion⟩

theorem readConnected_of_readExpression
    (hread : (readExpression .first n ts).outcome = .found (e, rest)) (he : e.isPlain = true) :
    ∃ m ≤ n, (readConnected .first .disjunction m ts).outcome = .found (e, rest) := by
  cases n with
  | zero => cases hread
  | succ n =>
      rw [readExpression] at hread
      simp only [outcome_bind, outcome_deeper, Prod.exists] at hread
      rcases hread with ⟨body, us, ⟨-, hbody⟩, _, -, hread⟩
      split at hread
      · simp only [outcome_bind, outcome_deeper, Prod.exists] at hread
        rcases hread with ⟨test, vs, _, hread⟩
        split at hread
        · simp only [outcome_bind, outcome_deeper, Prod.exists] at hread
          rcases hread with ⟨otherwise, ws, _, heq⟩
          cases heq
          cases he
        · cases hread
      · cases hread
        exact ⟨n, Nat.le_succ n, hbody⟩

/-- What is plain as an expression is read as a sum. -/
theorem readSum_of_readExpression (hread : (readExpression .first n ts).outcome = .found (e, rest))
    (he : e.isPlain = true) : ∃ m ≤ n, (readSum .first m ts).outcome = .found (e, rest) := by
  rcases readConnected_of_readExpression hread he with ⟨j, hj, hread⟩
  rcases readInversion_of_readConnected hread he with ⟨k, hk, hread⟩
  rcases readSum_of_readInversion hread he with ⟨m, hm, hread⟩
  exact ⟨m, by omega, hread⟩

/-! ## Whole expressions -/

/-- By induction on the fuel: only brackets come back to whole expressions. -/
theorem spelledBelow (n : Nat) : SpelledBelow n := by
  induction n with
  | zero =>
      intro m hm
      cases hm
  | succ n ih =>
      intro m hm ts e rest hread he
      rcases readSum_of_readExpression hread he with ⟨k, hk, hsum⟩
      exact taken_of_readSum (ih.mono (by omega)) hsum he

/-- What is read is spelled by what is taken from the tokens. -/
theorem taken_of_readExpression (hread : (readExpression .first n ts).outcome = .found (e, rest))
    (he : e.isPlain = true) : Taken .sum ts e rest :=
  spelledBelow (n + 1) n (Nat.lt_succ_self n) ts e rest hread he

/-- A whole line that is read as a plain expression spells it, up to its end. -/
theorem spells_of_ofTokens (hread : (ofTokens .first ts).outcome = .found e)
    (he : e.isPlain = true) : ∃ us, ts = us ++ [.lineEnd] ∧ Spells .sum us e := by
  rw [ofTokens] at hread
  simp only [outcome_bind, outcome_deeper, Prod.exists] at hread
  rcases hread with ⟨first, rest, ⟨-, hfirst⟩, hread⟩
  split at hread
  · cases hread
    exact taken_of_readExpression hfirst he
  · simp only [outcome_bind] at hread
    rcases hread with ⟨others, _, heq⟩
    cases heq
    cases he
  · cases hread

end Expression

/-- Formulas are plain expressions. -/
theorem Formula.isPlain_expression (f : Formula NodeReference) : f.expression.isPlain = true := by
  induction f with
  | leaf r => rfl
  | apply op l r ihl ihr =>
      cases op <;> simp [expression, Operator.expression, Expression.isPlain, ihl, ihr]

end StockFlow
