import StockFlow.Formula.Reader
import StockFlow.Proofs.Expression.Unfinished

/-!
# Where reading breaks down

Reading a text gives what it stands for, or refuses the text.  Apart from that it
stops at a bound: a number in a reference has too many digits, the text leaves too much
unfinished at once, or a refusal would have to quote what cannot be written.  Each
of these needs a text that goes beyond the bound.  The bounds are safe ones: the room
for unfinished steps is measured by the tokens, which stand for as many steps as reading
leaves unfinished or more, and where little is on the stack already there is room to
quote what goes somewhat beyond.

Main definitions:

- {lit}`Formula.Writes`: the expression that a text writes.
- {lit}`Formula.Strains`: an expression of which a part cannot be quoted.
- {lit}`Formula.Overtaxes`: the bounds that a text exceeds.
- {lit}`Formula.Settles`: reading gives something, or an error that has its reason.

Main results:

- Theorem {lit}`Formula.settles_ofExpression`: an expression is a formula, or refused, unless a
  part of it cannot be quoted.
- Theorem {lit}`Formula.settles_readWith`: a text is read or refused, unless it exceeds a bound.
-/

namespace StockFlow

/-! ## Long numbers in references -/

/-- What is left between blanks is a part of the text. -/
theorem Text.strip_isInfix (cs : List Char) : strip cs <:+: cs := by
  have hfront : cs.dropWhile isBlank <:+: cs := (List.dropWhile_suffix _).isInfix
  have hback : strip cs <+: cs.dropWhile isBlank := by
    rw [strip, ← List.reverse_suffix, List.reverse_reverse]
    exact List.dropWhile_suffix _
  exact hback.isInfix.trans hfront

namespace Reference

/-- A row of digits in a text that is too long to be read. -/
def HasLongNumber (cs : List Char) (count : Nat) : Prop :=
  ∃ digits, digits <:+: cs ∧ (∀ c ∈ digits, Text.isAsciiDigit c = true) ∧
    digits.length = count ∧ Text.digitLimit < count

/-- A text has the long numbers of its parts. -/
theorem HasLongNumber.of_isInfix {cs cs' : List Char} {count : Nat} (h : HasLongNumber cs count)
    (hpart : cs <:+: cs') : HasLongNumber cs' count := by
  rcases h with ⟨digits, hdigits, hrest⟩
  exact ⟨digits, hdigits.trans hpart, hrest⟩

/-- The body of a reference and what follows it are parts of the text. -/
theorem isInfix_of_match? {cs : List Char} {m : Match} (h : match? cs = some m) :
    m.body <:+: cs ∧ m.rest <:+: cs := by
  have hbracketed : ∀ {kind : ReferenceKind} {cs : List Char}, bracketed? kind cs = some m →
      m.body <:+: cs ∧ m.rest <:+: cs := by
    intro kind cs h
    rw [bracketed?] at h
    split at h
    · rename_i inner hinner
      split at h
      · rename_i rest hrest
        cases h
        have hsuffix : inner <:+ cs :=
          (List.suffix_cons '(' inner).trans (hinner ▸ List.dropWhile_suffix _)
        have htail : rest <:+ inner :=
          (List.suffix_cons ')' rest).trans (hrest ▸ List.dropWhile_suffix _)
        exact ⟨(List.takeWhile_prefix _).isInfix.trans hsuffix.isInfix,
          (htail.trans hsuffix).isInfix⟩
      · cases h
    · cases h
  have hletters : ∀ {kind : ReferenceKind} {a b : Char} {rest : List Char},
      bracketed? kind rest = some m → m.body <:+: a :: b :: rest ∧ m.rest <:+: a :: b :: rest := by
    intro kind a b rest h
    have hsuffix : rest <:+: a :: b :: rest := (List.suffix_append [a, b] rest).isInfix
    exact (hbracketed h).imp (·.trans hsuffix) (·.trans hsuffix)
  rw [match?.eq_def] at h
  split at h
  · exact hletters h
  · exact hletters h
  · exact hletters h
  · cases h

/-- The number of a reference breaks reading down only if it is too long. -/
theorem hasLongNumber_of_id {m : Match} {e : ReadError} (h : m.id = .error e)
    (hbreak : e.isBreakdown = true) : ∃ count, e = .tooManyDigits count ∧
      HasLongNumber m.body count := by
  rw [Match.id] at h
  split at h
  · cases h
    cases hbreak
  · rename_i hdigits
    split at h
    · rename_i hlong
      cases h
      rw [Bool.or_eq_true, not_or, Bool.not_eq_true', Bool.not_eq_false] at hdigits
      exact ⟨_, rfl, Text.strip m.body, Text.strip_isInfix m.body,
        List.all_eq_true.1 hdigits.2, rfl, hlong⟩
    · cases h

/-- Bringing references into canonical form breaks down only at a number that is too long. -/
theorem hasLongNumber_of_normalizeAfter {afterWord : Bool} {cs : List Char} {e : ReadError}
    (h : normalizeAfter afterWord cs = .error e) (hbreak : e.isBreakdown = true) :
    ∃ count, e = .tooManyDigits count ∧ HasLongNumber cs count := by
  have herror : ∀ {f : List Char → List Char} {x : Except ReadError (List Char)},
      x.map f = .error e → x = .error e := by
    intro f x h
    cases x with
    | error e' => exact congrArg Except.error (Except.error.inj h)
    | ok out => cases h
  have hmatched : ∀ {afterWord : Bool} {cs : List Char} {m : Match},
      (if afterWord = true then none else match? cs) = some m → match? cs = some m := by
    intro afterWord cs m h
    cases afterWord with
    | false => exact h
    | true => cases h
  fun_induction normalizeAfter afterWord cs
  case case1 => cases h
  case case2 hmatch _ _ hid =>
      cases h
      rcases hasLongNumber_of_id hid hbreak with ⟨count, rfl, hlong⟩
      exact ⟨count, rfl, hlong.of_isInfix (isInfix_of_match? (hmatched hmatch)).1⟩
  case case3 hmatch _ _ _ ih =>
      rcases ih (herror h) with ⟨count, rfl, hlong⟩
      exact ⟨count, rfl, hlong.of_isInfix (isInfix_of_match? (hmatched hmatch)).2⟩
  case case4 c rest _ ih =>
      rcases ih (herror h) with ⟨count, rfl, hlong⟩
      exact ⟨count, rfl, hlong.of_isInfix (List.suffix_cons c rest).isInfix⟩

end Reference

namespace Expression

theorem writingSteps_binary (sign : BinarySign) (l r : Expression) :
    (binary sign l r).writingSteps = max l.writingSteps r.writingSteps + 3 := rfl

theorem writingSteps_call_pair (f l r : Expression) (keywords : List Expression) :
    (call f [l, r] keywords).writingSteps = max f.writingSteps
      (max (max l.writingSteps (max r.writingSteps 0)) (depthOfHeld writingWeights keywords)) +
        3 := rfl

end Expression

namespace Formula

variable {α ε : Type}

/-! ## Bounds of reading -/

/-- Whether a text writes an expression, once its references are in canonical form. -/
def Writes (text : String) (e : Expression) : Prop :=
  ∃ normalized, Reference.normalize text.toList = .ok normalized ∧
    (Expression.ofText (Text.strip normalized)).outcome = .found e

/--
Whether an expression that may still have some levels goes beyond what can be quoted:
it is too deep to be written, or has a number that is too long.
-/
inductive Strains (levels : Nat) (e : Expression) : ReadError → Prop
  | depth (h : quotingRoom + levels ≤ e.writingSteps) : Strains levels e .tooDeepToQuote
  | number (h : e.hasLongInteger = true) : Strains levels e .numberTooLong

/--
Whether a text goes beyond a bound of reading, each with the error that tells of it.  There
may not be room enough for the steps that its open brackets and its tokens stand for.
-/
inductive Overtaxes (text : String) : ReadError → Prop
  | digits {count : Nat} (h : Reference.HasLongNumber text.toList count) :
      Overtaxes text (.tooManyDigits count)
  | room {normalized : List Char} (hnormal : Reference.normalize text.toList = .ok normalized)
      (h : readingRoom < 40 + Expression.load 0 false (Lexer.tokens (Text.strip normalized))) :
      Overtaxes text .outOfRoom
  | quoting {e : Expression} {error : ReadError} (he : Writes text e)
      (h : Strains allowedDepth e error) : Overtaxes text error

/--
Whether reading comes to an end that has its reason: it gives something good, or it fails
with a refusal, or with a breakdown for which there is a cause.
-/
def Settles (lift : ReadError → ε) (good : α → Prop) (cause : ReadError → Prop)
    (x : Except ε α) : Prop :=
  (∃ a, x = .ok a ∧ good a) ∨
    ∃ e, x = .error (lift e) ∧ (e.isBreakdown = true → cause e)

theorem Settles.imp {lift : ReadError → ε} {good : α → Prop} {cause cause' : ReadError → Prop}
    {x : Except ε α} (h : Settles lift good cause x) (hcause : ∀ e, cause e → cause' e) :
    Settles lift good cause' x :=
  h.imp_right fun ⟨e, he, hbreak⟩ => ⟨e, he, fun hb => hcause e (hbreak hb)⟩

/-- A refusal that is no breakdown. -/
theorem settles_error {lift : ReadError → ε} {good : α → Prop} {cause : ReadError → Prop}
    {e : ReadError} (h : e.isBreakdown = false) : Settles lift good cause (.error (lift e)) :=
  Or.inr ⟨e, rfl, fun hb => by rw [h] at hb; cases hb⟩

/-! ## Expressions -/

/-- Below a part of an expression there is one level less. -/
theorem Strains.of_part {levels : Nat} {part e : Expression} {error : ReadError}
    (h : Strains levels part error) (hsteps : part.writingSteps < e.writingSteps)
    (hintegers : part.integers ⊆ e.integers) : Strains (levels + 1) e error := by
  cases h with
  | depth h => exact .depth (Nat.lt_of_le_of_lt h hsteps)
  | number h =>
      refine .number ?_
      rw [Expression.hasLongInteger, List.any_eq_true] at h ⊢
      exact h.imp fun n hn => ⟨hintegers hn.1, hn.2⟩

section

variable {lift : ReadError → ε} {table : Table α} {join : Operator → α → α → Except ε α}
  {good : α → Prop}

/-- A refusal that quotes breaks down only if what it quotes cannot be quoted. -/
theorem settles_refuse {reason : String → ReadError} {levels : Nat} {e : Expression}
    (h : ∀ s, (reason s).isBreakdown = false) :
    Settles lift good (Strains levels e) (refuse lift reason levels e) := by
  rw [refuse]
  split
  · rename_i hdeep
    exact Or.inr ⟨_, rfl, fun _ => .depth hdeep⟩
  · split
    · rename_i hlong
      exact Or.inr ⟨_, rfl, fun _ => .number hlong⟩
    · exact settles_error (h _)

/-- A reference resolves to what the table holds, or is refused unless it cannot be quoted. -/
theorem settles_resolve {kind : ReferenceKind} {levels : Nat} {f : Expression}
    {arguments keywords : List Expression}
    (htable : ∀ kind n a, table kind n = some a → good a) :
    Settles lift good (Strains levels (.call f arguments keywords))
      (resolve lift table kind levels (.call f arguments keywords) arguments) := by
  unfold resolve
  split
  · rename_i id
    split
    · rename_i a ha
      exact Or.inl ⟨a, rfl, htable _ _ _ ha⟩
    · split
      · rename_i hlong
        refine Or.inr ⟨_, rfl, fun _ => .number ?_⟩
        rw [Expression.hasLongInteger, List.any_eq_true]
        exact ⟨id, by simp [Expression.integers, Expression.integersOfList], hlong⟩
      · exact settles_error rfl
  · exact settles_refuse fun _ => rfl
  · exact settles_error rfl

variable (htable : ∀ kind n a, table kind n = some a → good a)
  (hjoin : ∀ op a b, good a → good b → ∃ c, join op a b = .ok c ∧ good c)

include hjoin in
/-- Two operands are joined, unless one of them is no formula. -/
theorem settles_join {cause : ReadError → Prop} {op : Operator} {x y : Except ε α}
    (hx : Settles lift good cause x) (hy : Settles lift good cause y) :
    Settles lift good cause (do
      let left ← x
      let right ← y
      join op left right) := by
  rcases hx with ⟨a, rfl, ha⟩ | ⟨e, rfl, he⟩
  · rcases hy with ⟨b, rfl, hb⟩ | ⟨e, rfl, he⟩
    · exact Or.inl (hjoin op a b ha hb)
    · exact Or.inr ⟨e, rfl, he⟩
  · exact Or.inr ⟨e, rfl, he⟩

include htable hjoin in
/-- An expression is taken for a formula or refused, unless a part of it cannot be quoted. -/
theorem settles_ofExpression (depth : Nat) (e : Expression) :
    Settles lift good (Strains depth e) (ofExpression lift table join depth e) := by
  fun_induction ofExpression lift table join depth e
  case case1 => exact settles_error rfl
  case case2 => exact settles_refuse fun _ => rfl
  case case3 depth sign l r op _ ihl ihr =>
      refine settles_join hjoin (ihl.imp fun _ h => h.of_part ?_ ?_)
        (ihr.imp fun _ h => h.of_part ?_ ?_)
      · rw [Expression.writingSteps_binary]
        omega
      · exact List.subset_append_left _ _
      · rw [Expression.writingSteps_binary]
        omega
      · exact List.subset_append_right _ _
  case case4 => exact settles_resolve htable
  case case5 => exact settles_error rfl
  case case6 depth name keywords _ _ op _ l r ihl ihr =>
      have hintegers : (Expression.call (.name name) [l, r] keywords).integers =
          l.integers ++ (r.integers ++ Expression.integersOfList keywords) := by
        simp [Expression.integers, Expression.integersOfList]
      refine settles_join hjoin (ihl.imp fun _ h => h.of_part ?_ ?_)
        (ihr.imp fun _ h => h.of_part ?_ ?_)
      · rw [Expression.writingSteps_call_pair]
        omega
      · rw [hintegers]
        exact List.subset_append_left _ _
      · rw [Expression.writingSteps_call_pair]
        omega
      · rw [hintegers]
        exact List.subset_append_of_subset_right _ (List.subset_append_left _ _)
  case case7 => exact settles_error rfl
  case case8 => exact settles_refuse fun _ => rfl
  case case9 => exact settles_refuse fun _ => rfl

/-! ## Texts -/

/-- Reading a text gives the expression that it writes, or refuses it, or is overtaxed. -/
theorem settles_expressionOf (text : String) :
    Settles id (Writes text) (Overtaxes text) (expressionOf text) := by
  rw [expressionOf]
  split
  · exact settles_error rfl
  · cases hnormal : Reference.normalize text.toList with
    | error error =>
        refine Or.inr ⟨error, rfl, fun hbreak => ?_⟩
        rcases Reference.hasLongNumber_of_normalizeAfter hnormal hbreak with ⟨count, rfl, hlong⟩
        exact .digits hlong
    | ok normalized =>
        have hsteps := Expression.steps_ofText_le (Text.strip normalized)
        simp only [bind, Except.bind]
        split
        · rename_i hroom
          exact Or.inr ⟨.outOfRoom, rfl, fun _ =>
            .room hnormal (Nat.lt_of_lt_of_le hroom hsteps)⟩
        · split
          · rename_i e he
            split
            · exact Or.inl ⟨e, rfl, normalized, hnormal, he⟩
            · exact settles_error rfl
          · exact settles_error rfl

include htable hjoin in
/-- A text is read or refused, unless it exceeds a bound. -/
theorem settles_readWith (text : String) :
    Settles lift good (Overtaxes text) (readWith lift table join text) := by
  rw [readWith]
  rcases settles_expressionOf text with ⟨e, he, hwrites⟩ | ⟨error, he, hcause⟩
  · rw [he]
    exact (settles_ofExpression htable hjoin allowedDepth e).imp fun _ h => .quoting hwrites h
  · rw [he]
    exact Or.inr ⟨error, rfl, hcause⟩

end

/-- A text is a formula over what a table gives, or refused, unless it exceeds a bound. -/
theorem settles_ofText {table : Table α} {known : α → Prop}
    (htable : ∀ kind n a, table kind n = some a → known a) (text : String) :
    Settles id (fun f => ∀ a ∈ f.leaves, known a) (Overtaxes text) (ofText table text) := by
  refine settles_readWith (fun kind n f hf => ?_) (fun op f g hf hg => ?_) text
  · rw [Option.map_eq_some_iff] at hf
    rcases hf with ⟨a, ha, rfl⟩
    intro x hx
    rw [List.mem_singleton.1 hx]
    exact htable kind n a ha
  · exact ⟨_, rfl, fun a ha => (List.mem_append.1 ha).elim (hf a) (hg a)⟩

end Formula
end StockFlow
