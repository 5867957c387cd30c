import StockFlow.Proofs.Formula.Symbols

/-!
# Sentences of the grammar

A text is a sentence if its words and signs, with the blanks between them dropped, write
the tokens of a derivation.  Expressions of formulas can be spelled in more ways: a
bracket may stand around the name of a reference or a function, or around a number, and a
comma may end the arguments of a call.  These strays are all that tells the spellings of
formulas from the sentences.

Main definitions:

- {lit}`Text.Writes`: whether a text is a sentence that writes a formula.
- {lit}`Stray`, {lit}`HasStray`: tokens side by side that no sentence has.
- {lit}`Place`, {lit}`Place.run`: what the grammar lets follow what.

Main results:

- Theorem {lit}`Derives.unique`: tokens write at most one formula.
- Theorem {lit}`Derives.not_hasStray`: a sentence has no stray.
- Theorem {lit}`Spells.derives`: a spelling of a formula without strays is a derivation.
- Theorem {lit}`Formula.writes_iff_of_expressionOf`: what is read as a formula is a sentence
  exactly if it has no stray.
-/

namespace StockFlow

/-- Whether the words and signs of a text write the tokens of a derivation of a formula. -/
def Text.Writes (cs : List Char) (f : Formula NodeReference) : Prop :=
  ∃ ts, Derives .sum ts f ∧ ts.Forall₂ Token.WrittenAs (words cs)

/-- Tokens write at most one formula. -/
theorem Derives.unique {ts : List Token} {f g : Formula NodeReference} (hf : Derives .sum ts f)
    (hg : Derives .sum ts g) : f = g := by
  have hsame := hf.ofTokens_finds.1
  rw [hg.ofTokens_finds.1] at hsame
  exact (Formula.expression_injective (Reading.Outcome.found.inj hsame)).symm

/-! ## Strays -/

/-- A comma or a name in front of a closing bracket, or a number in brackets of its own. -/
inductive Stray : List Token → Prop
  | comma : Stray [.comma, .closing]
  | name (id : String) : Stray [.name id, .closing]
  | number (v : Literal) : Stray [.opening, .opening, .literal v]

/-- Whether there is a stray among tokens. -/
def HasStray (ts : List Token) : Prop := ∃ s, Stray s ∧ s <:+: ts

/-- A list has the strays of its parts. -/
theorem HasStray.mono {ts us : List Token} (h : HasStray us) (hus : us <:+: ts) : HasStray ts := by
  obtain ⟨s, hs, hinfix⟩ := h
  exact ⟨s, hs, hinfix.trans hus⟩

/-- A stray stays one with more behind it. -/
theorem HasStray.append_left {ts : List Token} (h : HasStray ts) (us : List Token) :
    HasStray (ts ++ us) :=
  h.mono (List.prefix_append ts us).isInfix

/-- A stray stays one with more in front of it. -/
theorem HasStray.append_right {ts : List Token} (h : HasStray ts) (us : List Token) :
    HasStray (us ++ ts) :=
  h.mono (List.suffix_append us ts).isInfix

theorem HasStray.cons {ts : List Token} (h : HasStray ts) (t : Token) : HasStray (t :: ts) :=
  h.append_right [t]

/-! ## What follows what -/

/-- What has been read of a sentence last, as far as it decides what may follow. -/
inductive Place where
  /-- An operand is to follow. -/
  | operand
  /-- A name has been read. -/
  | name
  /-- The bracket behind a name has been opened. -/
  | argument
  /-- The number of a reference has been read. -/
  | number
  /-- An operand is complete. -/
  | complete
  deriving DecidableEq, Repr

namespace Place

/-- The place behind one more token. -/
def after : Place → Token → Option Place
  | .operand, .name _ => some .name
  | .operand, .opening => some .operand
  | .name, .opening => some .argument
  | .argument, .name _ => some .name
  | .argument, .opening => some .operand
  | .argument, .literal _ => some .number
  | .number, .closing => some .complete
  | .complete, .closing => some .complete
  | .complete, .comma => some .operand
  | .complete, .plus => some .operand
  | .complete, .minus => some .operand
  | .complete, .star => some .operand
  | .complete, .slash => some .operand
  | _, _ => none

/-- The place behind several tokens. -/
def run (p : Place) : List Token → Option Place
  | [] => some p
  | t :: ts => (p.after t).bind fun q => q.run ts

/-- A run over two lists goes on over the second from where the first left it. -/
theorem run_append (p : Place) (ts us : List Token) :
    p.run (ts ++ us) = (p.run ts).bind fun q => q.run us := by
  induction ts generalizing p with
  | nil => rfl
  | cons t ts ih =>
      rw [List.cons_append, run, run, Option.bind_assoc]
      exact congrArg _ (funext fun q => ih q)

/-- Behind a whole operand, a sign asks for another one. -/
theorem after_token {op : Operator} (hop : op.precedence ≤ 2) :
    complete.after op.token = some .operand := by
  cases op <;> first | rfl | (simp [Operator.precedence] at hop)

end Place

/-- A derivation leads from where an operand is to follow to where it is complete. -/
theorem Derives.run_eq {rank : Rank} {ts : List Token} {f : Formula NodeReference}
    (h : Derives rank ts f) {p : Place} (hp : p = .operand ∨ p = .argument) :
    p.run ts = some .complete := by
  have hsign : ∀ {ts us : List Token} {op : Operator} {p : Place}, op.precedence ≤ 2 →
      p.run ts = some .complete → Place.operand.run us = some .complete →
        p.run (ts ++ op.token :: us) = some .complete := by
    intro ts us op p hop hl hr
    rw [Place.run_append, hl, Option.bind_some, Place.run, Place.after_token hop,
      Option.bind_some, hr]
  induction h generalizing p with
  | sum _ ih => exact ih hp
  | product _ ih => exact ih hp
  | addition hop _ _ ihl ihr => exact hsign (by omega) (ihl hp) (ihr (Or.inl rfl))
  | multiplication hop _ _ ihl ihr => exact hsign (by omega) (ihl hp) (ihr (Or.inl rfl))
  | brackets _ ih =>
      have hopening : p.after .opening = some .operand := by rcases hp with rfl | rfl <;> rfl
      rw [Place.run, hopening, Option.bind_some, Place.run_append, ih (Or.inl rfl)]
      rfl
  | reference r => rcases hp with rfl | rfl <;> rfl
  | function hop _ _ ihl ihr =>
      have hname : ∀ id, p.after (.name id) = some .name := fun _ => by
        rcases hp with rfl | rfl <;> rfl
      have hopening : Place.name.after .opening = some .argument := rfl
      have hcomma : Place.complete.after .comma = some .operand := rfl
      rw [Operator.token_of_isFunction hop, Place.run, hname, Option.bind_some, Place.run, hopening,
        Option.bind_some, Place.run_append, ihl (Or.inr rfl), Option.bind_some, Place.run, hcomma,
        Option.bind_some, Place.run_append, ihr (Or.inl rfl)]
      rfl

/-- No run of a sentence passes over a stray. -/
theorem Stray.run_eq_none {s : List Token} (h : Stray s) (p : Place) : p.run s = none := by
  cases h <;> cases p <;> rfl

/-- Where one thing may follow the other, there is no stray. -/
theorem not_hasStray_of_run {ts : List Token} {p q : Place} (h : p.run ts = some q) :
    ¬ HasStray ts := by
  rintro ⟨s, hs, before, after, rfl⟩
  have hnone : ∀ o : Option Place, (o.bind fun q => q.run s) = none := by
    intro o
    cases o with
    | none => rfl
    | some q => exact hs.run_eq_none q
  rw [Place.run_append, Place.run_append, hnone] at h
  cases h

/-- A sentence has no stray. -/
theorem Derives.not_hasStray {rank : Rank} {ts : List Token} {f : Formula NodeReference}
    (h : Derives rank ts f) : ¬ HasStray ts :=
  not_hasStray_of_run (h.run_eq (Or.inl rfl))

/-! ## Spellings without strays -/

/-- The token of an expression that is one. -/
def Expression.atom? : Expression → Option Token
  | .name id => some (.name id)
  | .literal v => some (.literal v)
  | _ => none

theorem Operator.atom?_expression (op : Operator) (l r : Expression) :
    (op.expression l r).atom? = none := by
  cases op <;> rfl

/-- A name or a literal is spelled with any number of brackets around it. -/
theorem Spells.eq_of_atom {rank : Rank} {ts : List Token} {e : Expression} {t : Token}
    (h : Spells rank ts e) (he : e.atom? = some t) :
    ∃ n, ts = List.replicate n .opening ++ t :: List.replicate n .closing := by
  induction h with
  | name id =>
      cases he
      exact ⟨0, rfl⟩
  | literal v =>
      cases he
      exact ⟨0, rfl⟩
  | sum _ ih => exact ih he
  | product _ ih => exact ih he
  | addition => rw [Operator.atom?_expression] at he; cases he
  | multiplication => rw [Operator.atom?_expression] at he; cases he
  | brackets _ ih =>
      obtain ⟨n, rfl⟩ := ih he
      refine ⟨n + 1, ?_⟩
      rw [List.replicate_succ, List.replicate_succ']
      simp
  | callOne => cases he
  | callTwo => cases he

/-- A name whose bracket is no stray is spelled without brackets. -/
theorem Spells.eq_name {rank : Rank} {ts : List Token} {id : String}
    (h : Spells rank ts (.name id)) (hstray : ¬ HasStray ts) : ts = [.name id] := by
  obtain ⟨n, rfl⟩ := h.eq_of_atom rfl
  cases n with
  | zero => rfl
  | succ n =>
      refine absurd ⟨_, .name id, List.replicate (n + 1) .opening, List.replicate n .closing, ?_⟩
        hstray
      simp [List.replicate_succ]

/-- A number whose bracket is no stray is spelled without one. -/
theorem Spells.eq_literal {rank : Rank} {ts : List Token} {v : Literal}
    (h : Spells rank ts (.literal v)) (hstray : ¬ HasStray (.opening :: ts)) :
    ts = [.literal v] := by
  obtain ⟨n, rfl⟩ := h.eq_of_atom rfl
  cases n with
  | zero => rfl
  | succ n =>
      have hopen : (.opening :: List.replicate (n + 1) .opening : List Token) =
          List.replicate n .opening ++ [.opening, .opening] := by
        rw [← List.replicate_succ, List.replicate_succ', List.replicate_succ', List.append_assoc]
        rfl
      refine absurd ⟨_, .number v, List.replicate n .opening, List.replicate (n + 1) .closing, ?_⟩
        hstray
      rw [← List.cons_append, hopen]
      simp

/-- A comma at the end of arguments is a stray. -/
theorem EndsArguments.eq_nil {ending : List Token} (h : EndsArguments ending)
    (hstray : ¬ HasStray (ending ++ [.closing])) : ending = [] := by
  rcases h with rfl | rfl
  · rfl
  · exact absurd ⟨_, .comma, List.infix_rfl⟩ hstray

namespace Formula

/-- Only a formula under the same operator has the expression of an operator. -/
theorem exists_of_expression_eq_operator {g : Formula NodeReference} {op : Operator}
    {l r : Expression} (h : op.expression l r = g.expression) :
    ∃ x y, g = .apply op x y ∧ l = x.expression ∧ r = y.expression := by
  cases g with
  | leaf a => exact absurd h (operator_expression_ne_leaf op l r a)
  | apply op' x y =>
      obtain ⟨rfl, hl, hr⟩ := operator_expression_inj h
      exact ⟨x, y, rfl, hl, hr⟩

/-- Only a leaf has the expression of a call with one argument. -/
theorem exists_of_expression_eq_callOne {g : Formula NodeReference} {f a : Expression}
    (h : .call f [a] [] = g.expression) :
    ∃ r : NodeReference, g = .leaf r ∧ f = .name (String.ofList r.kind.letters) ∧
      a = .literal (.integer r.id) := by
  cases g with
  | leaf r =>
      cases h
      exact ⟨r, rfl, rfl, rfl⟩
  | apply op x y => cases op <;> cases h

/-- Only a function has the expression of a call with two arguments. -/
theorem exists_of_expression_eq_callTwo {g : Formula NodeReference} {f a b : Expression}
    (h : .call f [a, b] [] = g.expression) :
    ∃ op x y, op.isFunction = true ∧ g = .apply op x y ∧ f = .name op.symbol ∧
      a = x.expression ∧ b = y.expression := by
  cases g with
  | leaf r => cases h
  | apply op x y =>
      cases op <;> first | (cases h; exact ⟨_, x, y, rfl, rfl, rfl, rfl, rfl⟩) | cases h

theorem atom?_expression (g : Formula NodeReference) : g.expression.atom? = none := by
  cases g with
  | leaf r => rfl
  | apply op l r => exact op.atom?_expression _ _

end Formula

/-- A spelling of a formula without strays is a derivation. -/
theorem Spells.derives {rank : Rank} {ts : List Token} {e : Expression} (h : Spells rank ts e)
    {g : Formula NodeReference} (he : e = g.expression) (hstray : ¬ HasStray ts) :
    Derives rank ts g := by
  induction h generalizing g with
  | name id => exact absurd g.atom?_expression (by rw [← he]; exact Option.some_ne_none _)
  | literal v => exact absurd g.atom?_expression (by rw [← he]; exact Option.some_ne_none _)
  | sum _ ih => exact .sum (ih he hstray)
  | product _ ih => exact .product (ih he hstray)
  | addition hop _ _ ihl ihr =>
      obtain ⟨x, y, rfl, hl, hr⟩ := Formula.exists_of_expression_eq_operator he
      exact .addition hop (ihl hl fun h => hstray (h.append_left _))
        (ihr hr fun h => hstray ((h.cons _).append_right _))
  | multiplication hop _ _ ihl ihr =>
      obtain ⟨x, y, rfl, hl, hr⟩ := Formula.exists_of_expression_eq_operator he
      exact .multiplication hop (ihl hl fun h => hstray (h.append_left _))
        (ihr hr fun h => hstray ((h.cons _).append_right _))
  | brackets _ ih => exact .brackets (ih he fun h => hstray ((h.append_left _).cons _))
  | callOne hf ha hending _ _ =>
      obtain ⟨r, rfl, rfl, rfl⟩ := Formula.exists_of_expression_eq_callOne he
      have hname := hf.eq_name fun h => hstray (h.append_left _)
      have hnumber := ha.eq_literal fun h => hstray ((h.append_left _).append_right _)
      have hend := hending.eq_nil fun h => hstray (((h.append_right _).cons _).append_right _)
      rw [hname, hnumber, hend]
      exact .reference r
  | callTwo hf ha hb hending _ iha ihb =>
      obtain ⟨op, x, y, hop, rfl, rfl, rfl, rfl⟩ := Formula.exists_of_expression_eq_callTwo he
      have hname := hf.eq_name fun h => hstray (h.append_left _)
      have hend := hending.eq_nil fun h =>
        hstray (((((h.append_right _).cons _).append_right _).cons _).append_right _)
      rw [hname, hend, List.nil_append, ← Operator.token_of_isFunction hop]
      exact .function hop (iha rfl fun h => hstray (((h.append_left _).cons _).append_right _))
        (ihb rfl fun h =>
          hstray (((((h.append_left _).cons _).append_right _).cons _).append_right _))

/-! ## Tokens and their words -/

namespace Token

/-- A word that is no number and no other mark is a name. -/
theorem eq_name_of_ofWord {s : String} {t : Token} (h : ofWord s = t) (hother : t.marks ≠ [.other])
    (hnumber : ∀ n, t ≠ .literal (.integer n)) : t = .name s := by
  unfold ofWord at h
  split at h
  · subst h
    exact absurd rfl hother
  · split at h
    · rename_i v _
      subst h
      cases v with
      | integer n => exact absurd rfl (hnumber n)
      | _ => exact absurd rfl hother
    · split at h
      · subst h
        exact absurd rfl hother
      · exact h.symm

/-- A word or a sign writes its token where this has a place in formulas, numbers apart. -/
theorem writtenAs_of_ofWritten {w : List Char} {t : Token} (h : ofWritten w = t)
    (hother : t.marks ≠ [.other]) (hnumber : ∀ n, t ≠ .literal (.integer n)) : t.WrittenAs w := by
  unfold ofWritten at h
  split at h
  case h_9 =>
    split at h
    · exact absurd h.symm (hnumber _)
    · rw [eq_name_of_ofWord h hother hnumber]
      exact String.toList_ofList.symm
  case h_8 =>
    subst h
    exact absurd rfl hother
  all_goals
    subst h
    rfl

/-- A number is the token of a word that starts with a digit. -/
theorem digit_of_ofWritten {w : List Char} {n : Nat} (h : ofWritten w = .literal (.integer n)) :
    w.head?.any Char.isDigit = true ∧ Mark.numberOf w = n := by
  have hconstants : ∀ e ∈ constants, ∀ n, e.2 ≠ .integer n := by
    simp [constants]
  unfold ofWritten at h
  split at h
  case h_9 =>
    split at h
    · rename_i hdigit
      exact ⟨hdigit, Literal.integer.inj (Token.literal.inj h)⟩
    · unfold ofWord at h
      split at h
      · cases h
      · split at h
        · rename_i v hv
          cases h
          exact absurd rfl (hconstants _ (OrderedMap.mem_of_lookup hv) n)
        · split at h <;> cases h
  all_goals cases h

end Token

namespace Reference

/-- The references at the start of a text keep their numbers. -/
theorem DirectNumerals.append_left {ws vs : List (List Char)} (h : DirectNumerals (ws ++ vs)) :
    DirectNumerals ws := by
  rintro ts ⟨us, rfl⟩ kind ds post rfl hds
  have hsuffix : kind.letters :: ['('] :: ds :: [')'] :: (post ++ vs) <:+
      us ++ kind.letters :: ['('] :: ds :: [')'] :: post ++ vs := ⟨us, by simp⟩
  exact h _ hsuffix kind ds (post ++ vs) rfl hds

/-- The references at the end of a text keep their numbers. -/
theorem DirectNumerals.append_right {ws vs : List (List Char)} (h : DirectNumerals (vs ++ ws)) :
    DirectNumerals ws :=
  fun ts hts => h ts (hts.trans (List.suffix_append vs ws))

end Reference

theorem Operator.writtenAs_token {op : Operator} {w : List Char}
    (h : Token.ofWritten w = op.token) : op.token.WrittenAs w := by
  refine Token.writtenAs_of_ofWritten h ?_ fun n => ?_
  · rw [op.marks_token]
    simp
  · cases op <;> exact nofun

/-- Words are split where their tokens are. -/
theorem Reference.DirectNumerals.split {ws : List (List Char)} {ts us : List Token} {t : Token}
    (hws : DirectNumerals ws) (h : ws.map Token.ofWritten = ts ++ t :: us) :
    ∃ ls w rs, ws = ls ++ w :: rs ∧ ls.map Token.ofWritten = ts ∧ Token.ofWritten w = t ∧
      rs.map Token.ofWritten = us ∧ DirectNumerals ls ∧ DirectNumerals rs := by
  obtain ⟨ls, rest, rfl, hls, hrest⟩ := List.map_eq_append_iff.1 h
  obtain ⟨w, rs, rfl, hw, hrs⟩ := List.map_eq_cons_iff.1 hrest
  exact ⟨ls, w, rs, rfl, hls, hw, hrs, hws.append_left, (directNumerals_cons.1 hws.append_right).2⟩

/-- The words of derived tokens write them where the numbers of references are rows of digits. -/
theorem Derives.forall₂_writtenAs {rank : Rank} {ts : List Token} {f : Formula NodeReference}
    (h : Derives rank ts f) {ws : List (List Char)} (hws : Reference.DirectNumerals ws)
    (hts : ws.map Token.ofWritten = ts) : ts.Forall₂ Token.WrittenAs ws := by
  have hopening : ∀ {w}, Token.ofWritten w = .opening → Token.WrittenAs .opening w :=
    fun hw => Token.writtenAs_of_ofWritten hw (by simp [Token.marks]) (by simp)
  have hclosing : ∀ {w}, Token.ofWritten w = .closing → Token.WrittenAs .closing w :=
    fun hw => Token.writtenAs_of_ofWritten hw (by simp [Token.marks]) (by simp)
  have hcomma : ∀ {w}, Token.ofWritten w = .comma → Token.WrittenAs .comma w :=
    fun hw => Token.writtenAs_of_ofWritten hw (by simp [Token.marks]) (by simp)
  induction h generalizing ws with
  | sum _ ih => exact ih hws hts
  | product _ ih => exact ih hws hts
  | addition _ _ _ ihl ihr =>
      obtain ⟨ls, w, rs, rfl, hls, hw, hrs, hl, hr⟩ := hws.split hts
      exact List.rel_append (ihl hl hls) (.cons (Operator.writtenAs_token hw) (ihr hr hrs))
  | multiplication _ _ _ ihl ihr =>
      obtain ⟨ls, w, rs, rfl, hls, hw, hrs, hl, hr⟩ := hws.split hts
      exact List.rel_append (ihl hl hls) (.cons (Operator.writtenAs_token hw) (ihr hr hrs))
  | brackets _ ih =>
      obtain ⟨w, ws, rfl, hw, hts⟩ := List.map_eq_cons_iff.1 hts
      obtain ⟨ls, v, rs, rfl, hls, hv, hrs, hl, -⟩ :=
        (Reference.directNumerals_cons.1 hws).2.split hts
      rw [List.map_eq_nil_iff.1 hrs]
      exact .cons (hopening hw) (List.rel_append (ih hl hls) (.cons (hclosing hv) .nil))
  | reference r =>
      obtain ⟨w, ws, rfl, hw, hts⟩ := List.map_eq_cons_iff.1 hts
      obtain ⟨u, us, rfl, hu, hts⟩ := List.map_eq_cons_iff.1 hts
      obtain ⟨ds, vs, rfl, hds, hts⟩ := List.map_eq_cons_iff.1 hts
      obtain ⟨v, vs, rfl, hv, hts⟩ := List.map_eq_cons_iff.1 hts
      obtain rfl := List.map_eq_nil_iff.1 hts
      have hname : Token.WrittenAs (.name (String.ofList r.kind.letters)) w := by
        refine Token.writtenAs_of_ofWritten hw ?_ (by simp)
        cases r.kind <;> decide
      obtain ⟨hdigit, hvalue⟩ := Token.digit_of_ofWritten hds
      have hletters : w = r.kind.letters := hname.trans String.toList_ofList
      have hnumeral : Text.IsNumeral (Mark.numberOf ds) ds := by
        refine hws _ List.suffix_rfl r.kind ds [] ?_ hdigit
        rw [hletters, show u = ['('] from hopening hu, show v = [')'] from hclosing hv]
      rw [hvalue] at hnumeral
      exact .cons hname (.cons (hopening hu) (.cons hnumeral (.cons (hclosing hv) .nil)))
  | function hop _ _ ihl ihr =>
      obtain ⟨w, ws, rfl, hw, hts⟩ := List.map_eq_cons_iff.1 hts
      obtain ⟨u, us, rfl, hu, hts⟩ := List.map_eq_cons_iff.1 hts
      have hus := (Reference.directNumerals_cons.1 (Reference.directNumerals_cons.1 hws).2).2
      obtain ⟨ls, v, vs, rfl, hls, hv, hts, hl, hvs⟩ := hus.split hts
      obtain ⟨rs, z, ends, rfl, hrs, hz, hends, hr, -⟩ := hvs.split hts
      rw [List.map_eq_nil_iff.1 hends]
      exact .cons (Operator.writtenAs_token hw) (.cons (hopening hu) (List.rel_append (ihl hl hls)
        (.cons (hcomma hv) (List.rel_append (ihr hr hrs) (.cons (hclosing hz) .nil)))))

/-- The word or sign that writes a derived token has this token. -/
theorem Derives.ofWritten_eq {rank : Rank} {ts : List Token} {f : Formula NodeReference}
    (h : Derives rank ts f) : ∀ t ∈ ts, ∀ w, t.WrittenAs w → Token.ofWritten w = t := by
  have hoperator : ∀ (op : Operator) w, op.token.WrittenAs w → Token.ofWritten w = op.token := by
    intro op w hw
    cases op <;> cases hw <;> rfl
  have hopening : ∀ w, Token.opening.WrittenAs w → Token.ofWritten w = .opening := by
    rintro w rfl
    rfl
  have hclosing : ∀ w, Token.closing.WrittenAs w → Token.ofWritten w = .closing := by
    rintro w rfl
    rfl
  have hcomma : ∀ w, Token.comma.WrittenAs w → Token.ofWritten w = .comma := by
    rintro w rfl
    rfl
  induction h with
  | sum _ ih => exact ih
  | product _ ih => exact ih
  | addition _ _ _ ihl ihr =>
      exact List.forall_mem_append.2 ⟨ihl, List.forall_mem_cons.2 ⟨hoperator _, ihr⟩⟩
  | multiplication _ _ _ ihl ihr =>
      exact List.forall_mem_append.2 ⟨ihl, List.forall_mem_cons.2 ⟨hoperator _, ihr⟩⟩
  | brackets _ ih =>
      exact List.forall_mem_cons.2 ⟨hopening, List.forall_mem_append.2
        ⟨ih, List.forall_mem_singleton.2 hclosing⟩⟩
  | reference r =>
      refine List.forall_mem_cons.2 ⟨?_, List.forall_mem_cons.2 ⟨hopening, List.forall_mem_cons.2
        ⟨fun w hw => Token.ofWritten_numeral hw, List.forall_mem_singleton.2 hclosing⟩⟩⟩
      rintro w rfl
      cases r.kind <;> rfl
  | function _ _ _ ihl ihr =>
      refine List.forall_mem_cons.2 ⟨hoperator _, List.forall_mem_cons.2 ⟨hopening,
        List.forall_mem_append.2 ⟨ihl, List.forall_mem_cons.2 ⟨hcomma,
          List.forall_mem_append.2 ⟨ihr, List.forall_mem_singleton.2 hclosing⟩⟩⟩⟩⟩

/-- A sentence is written by the tokens of its words. -/
theorem Text.Writes.derives {cs : List Char} {f : Formula NodeReference} (h : Writes cs f) :
    Derives .sum (tokens cs) f := by
  obtain ⟨ts, hts, hwords⟩ := h
  have htokens : ∀ {ts : List Token} {ws : List (List Char)}, ts.Forall₂ Token.WrittenAs ws →
      (∀ t ∈ ts, ∀ w, t.WrittenAs w → Token.ofWritten w = t) → ws.map Token.ofWritten = ts := by
    intro ts ws hforall hone
    induction hforall with
    | nil => rfl
    | cons hw _ ih =>
        rw [List.forall_mem_cons] at hone
        rw [List.map_cons, hone.1 _ hw, ih hone.2]
  rwa [tokens, htokens hwords hts.ofWritten_eq]

/-- What is read as a formula is a sentence, and of no other formula, exactly if it has no stray. -/
theorem Formula.writes_iff_of_expressionOf {text : String} {f g : Formula NodeReference}
    (h : expressionOf text = .ok f.expression) :
    Text.Writes text.toList g ↔ g = f ∧ ¬ HasStray (Text.tokens text.toList) := by
  have hspells := spells_of_expressionOf h
  obtain ⟨normalized, _, hnormal, _⟩ := exists_tokens_of_expressionOf h
  constructor
  · intro hwrites
    have hread := hwrites.derives.ofTokens_finds.1
    rw [ofTokens_of_expressionOf h] at hread
    exact ⟨(expression_injective (Reading.Outcome.found.inj hread)).symm,
      hwrites.derives.not_hasStray⟩
  · rintro ⟨rfl, hstray⟩
    have hderives := hspells.derives rfl hstray
    exact ⟨_, hderives, hderives.forall₂_writtenAs
      (Reference.directNumerals_of_normalize hnormal) rfl⟩

end StockFlow
