import StockFlow.Proofs.Formula.Normalizing

/-!
# What the words and signs of a text stand for

The words and the signs of a formula text, read one after the other and without any
regard to its brackets, tell which operators and which numbered references it holds.

Main definitions:

- {lit}`Mark`: an operator, a kind of node, a number, or anything else.
- {lit}`Text.marks`: the marks of a text.
-/

namespace StockFlow

/-- What a word or a sign of a formula text stands for. -/
inductive Mark where
  | operator (op : Operator)
  | node (kind : ReferenceKind)
  | number (n : Nat)
  | other
  deriving DecidableEq, Repr

namespace Mark

/-- What a name stands for: a kind of node or a function. -/
def ofName (name : String) : Mark :=
  match ReferenceKind.ofName? name with
  | some kind => .node kind
  | none =>
      match [Operator.maximum, .minimum, .round].find? (·.symbol == name) with
      | some op => .operator op
      | none => .other

/-- The number that a word writes in base ten, or in one of the bases that are named in front. -/
def numberOf (word : List Char) : Nat :=
  match word with
  | '0' :: 'x' :: digits | '0' :: 'X' :: digits => Lexer.valueIn 16 (digits.filter (· != '_'))
  | '0' :: 'o' :: digits | '0' :: 'O' :: digits => Lexer.valueIn 8 (digits.filter (· != '_'))
  | '0' :: 'b' :: digits | '0' :: 'B' :: digits => Lexer.valueIn 2 (digits.filter (· != '_'))
  | digits => Text.decimalValue (digits.filter (· != '_'))

/-- What a word stands for, if there is one. -/
def ofWord (word : List Char) : List Mark :=
  match word with
  | [] => []
  | c :: rest =>
      if c.isDigit then [.number (numberOf (c :: rest))] else [ofName (String.ofList (c :: rest))]

/-- What a character between words stands for; brackets, commas and blanks stand for nothing. -/
def ofSign : Char → List Mark
  | '+' => [.operator .add]
  | '-' => [.operator .subtract]
  | '*' => [.operator .multiply]
  | '/' => [.operator .divide]
  | '.' => [.other]
  | _ => []

end Mark

theorem Lexer.isWordPart_of_isDigit {c : Char} (hc : c.isDigit = true) : isWordPart c = true := by
  rw [isWordPart, Char.isAlphanum, hc, Bool.or_true, Bool.true_or]

namespace Text

/-- The marks of the rest of a text in which a word has begun. -/
def marksAfter (word : List Char) : List Char → List Mark
  | [] => Mark.ofWord word
  | c :: rest =>
      if Lexer.isWordPart c then marksAfter (word ++ [c]) rest
      else Mark.ofWord word ++ (Mark.ofSign c ++ marksAfter [] rest)

/-- What the words and signs of a text stand for, in their order. -/
def marks (cs : List Char) : List Mark := marksAfter [] cs

/-! ## Blanks -/

theorem toNat_of_isWordPart {c : Char} (hc : Lexer.isWordPart c = true) :
    48 ≤ c.toNat ∧ c.toNat ≤ 122 := by
  unfold Lexer.isWordPart Char.isAlphanum Char.isAlpha Char.isUpper Char.isLower Char.isDigit at hc
  simp only [ge_iff_le, UInt32.le_iff_toNat_le, Bool.or_eq_true, Bool.and_eq_true,
    decide_eq_true_eq, beq_iff_eq] at hc
  rcases hc with ((⟨hlow, hhigh⟩ | ⟨hlow, hhigh⟩) | ⟨hlow, hhigh⟩) | rfl
  · exact ⟨Nat.le_trans (by decide) hlow, Nat.le_trans hhigh (by decide)⟩
  · exact ⟨Nat.le_trans (by decide) hlow, hhigh⟩
  · exact ⟨hlow, Nat.le_trans hhigh (by decide)⟩
  · decide

/-- A blank is no part of a word. -/
theorem not_isWordPart_of_isBlank {c : Char} (hc : isBlank c = true) :
    Lexer.isWordPart c = false := by
  by_contra hword
  have hrange := toNat_of_isWordPart ((Bool.not_eq_false _).mp hword)
  simp only [isBlank, Bool.or_eq_true, Bool.and_eq_true, decide_eq_true_eq, beq_iff_eq] at hc
  omega

/-- A blank is no sign. -/
theorem ofSign_of_isBlank {c : Char} (hc : isBlank c = true) : Mark.ofSign c = [] := by
  have hsign : ∀ d ∈ ['+', '-', '*', '/', '.'], c ≠ d := by
    rintro d hd rfl
    simp only [List.mem_cons, List.not_mem_nil, or_false] at hd
    rcases hd with rfl | rfl | rfl | rfl | rfl <;> revert hc <;> decide
  unfold Mark.ofSign
  split <;> first | rfl | exact absurd rfl (hsign _ (by decide))

/-- What is stripped off a text is blank. -/
theorem exists_blanks_of_strip (cs : List Char) :
    ∃ before after, cs = before ++ (strip cs ++ after) ∧ (∀ c ∈ before, isBlank c = true) ∧
      ∀ c ∈ after, isBlank c = true := by
  have hfront := List.takeWhile_append_dropWhile (p := isBlank) (l := cs)
  have hback := List.takeWhile_append_dropWhile (p := isBlank) (l := (cs.dropWhile isBlank).reverse)
  refine ⟨cs.takeWhile isBlank, ((cs.dropWhile isBlank).reverse.takeWhile isBlank).reverse, ?_,
    List.all_eq_true.1 List.all_takeWhile, fun c hc => ?_⟩
  · rw [strip, ← List.reverse_append, hback, List.reverse_reverse, hfront]
  · exact List.all_eq_true.1 List.all_takeWhile c (List.mem_reverse.1 hc)

end Text

/-! ## References -/

theorem ReferenceKind.isWordPart_letters (kind : ReferenceKind) :
    ∀ c ∈ kind.letters, Lexer.isWordPart c = true := by
  rw [← List.all_eq_true]
  cases kind <;> rfl

/-- Digits and underscores name no other base. -/
theorem Mark.numberOf_decimal {ws : List Char} (hws : ∀ c ∈ ws, c.isDigit = true ∨ c = '_') :
    numberOf ws = Text.decimalValue (ws.filter (· != '_')) := by
  have hletter : ∀ x after, ws = '0' :: x :: after → x.isDigit = true ∨ x = '_' := by
    rintro x after rfl
    exact hws x (by simp)
  unfold numberOf
  split
  case h_7 => rfl
  all_goals exact absurd (hletter _ _ rfl) (by decide)

/-- A row of digits is a number in base ten. -/
theorem Mark.numberOf_digits {ds : List Char} (hds : ∀ c ∈ ds, c.isDigit = true) :
    numberOf ds = Text.decimalValue ds := by
  have hfilter : ds.filter (· != '_') = ds := by
    refine List.filter_eq_self.2 fun c hc => ?_
    rw [bne_iff_ne]
    rintro rfl
    exact absurd (hds _ hc) (by decide)
  rw [numberOf_decimal fun c hc => Or.inl (hds c hc), hfilter]

namespace Reference

/-- A reference that is found is what the text starts with. -/
theorem eq_source_of_match? {cs : List Char} {m : Match} (h : match? cs = some m) :
    cs = m.source ++ m.rest ∧ ∀ c ∈ m.gap, Text.isBlank c = true := by
  have hbracketed : ∀ {kind : ReferenceKind} {cs : List Char}, bracketed? kind cs = some m →
      kind.letters ++ cs = m.source ++ m.rest ∧ ∀ c ∈ m.gap, Text.isBlank c = true := by
    intro kind cs h
    have hgap := List.takeWhile_append_dropWhile (p := Text.isBlank) (l := cs)
    rw [bracketed?] at h
    split at h
    · rename_i inner hinner
      have hbody := List.takeWhile_append_dropWhile (p := isInside) (l := inner)
      split at h
      · rename_i rest hrest
        cases h
        rw [hrest] at hbody
        rw [hinner, ← hbody] at hgap
        refine ⟨?_, List.all_eq_true.1 List.all_takeWhile⟩
        conv_lhs => rw [← hgap]
        simp [Match.source]
      · cases h
    · cases h
  rw [match?.eq_def] at h
  split at h
  · exact hbracketed h
  · exact hbracketed h
  · exact hbracketed h
  · cases h

end Reference
end StockFlow
