import StockFlow.Proofs.Formula.Pieces

/-!
# Canonical references

References are brought into canonical form before formula text is cut into tokens.
A reference may be written with blanks inside and with leading zeros; all other text
stays as it is.

Main results:

- Theorem {lit}`Reference.match?_reference`: a reference is found with its parts.
- Theorem {lit}`Reference.id_of_isNumeral`: its number is what its digits write.
- Theorem {lit}`Reference.normalizeAfter_of_match`: it is replaced by its canonical form.
-/

namespace StockFlow

/-! ## Blanks at the ends -/

/-- Blanks are dropped as far as ends that are not blank. -/
theorem Text.strip_append {lead cs trail : List Char} (hlead : ∀ c ∈ lead, isBlank c = true)
    (htrail : ∀ c ∈ trail, isBlank c = true) (hhead : ∀ c ∈ cs.head?, isBlank c = false)
    (hlast : ∀ c ∈ cs.getLast?, isBlank c = false) : strip (lead ++ (cs ++ trail)) = cs := by
  have hdrop : ∀ {ds es : List Char}, (∀ c ∈ ds, isBlank c = true) →
      (∀ c ∈ es.head?, isBlank c = false) → (ds ++ es).dropWhile isBlank = es := by
    intro ds es hds hes
    rw [List.dropWhile_append_of_pos hds]
    cases es with
    | nil => rfl
    | cons e rest =>
        rw [List.dropWhile_cons_of_neg]
        simp [hes e rfl]
  have htrail' : ∀ c ∈ trail.reverse, isBlank c = true := fun c hc =>
    htrail c (List.mem_reverse.1 hc)
  have hlast' : ∀ c ∈ cs.reverse.head?, isBlank c = false := by rwa [List.head?_reverse]
  cases cs with
  | nil =>
      have hall : ∀ c ∈ lead ++ trail, isBlank c = true := fun c hc =>
        (List.mem_append.1 hc).elim (hlead c) (htrail c)
      have hnone : (lead ++ trail ++ []).dropWhile isBlank = [] := hdrop hall (by simp)
      rw [List.append_nil] at hnone
      rw [strip, List.nil_append, hnone]
      rfl
  | cons c rest =>
      have hhead' : ∀ d ∈ (c :: rest ++ trail).head?, isBlank d = false := hhead
      rw [strip, hdrop hlead hhead', List.reverse_append, hdrop htrail' hlast',
        List.reverse_reverse]

namespace Reference

/-! ## One reference -/

/-- A reference in front of other text, with blanks in front of its bracket. -/
theorem match?_reference (kind : ReferenceKind) (gap body rest : List Char)
    (hgap : ∀ c ∈ gap, Text.isBlank c = true) (hbody : ∀ c ∈ body, isInside c = true) :
    match? (kind.letters ++ gap ++ '(' :: (body ++ ')' :: rest)) =
      some { kind, gap, body, rest } := by
  have hbracketed : bracketed? kind (gap ++ '(' :: (body ++ ')' :: rest)) =
      some { kind, gap, body, rest } := by
    have hdrop : (gap ++ '(' :: (body ++ ')' :: rest)).dropWhile Text.isBlank =
        '(' :: (body ++ ')' :: rest) := by
      rw [List.dropWhile_append_of_pos hgap]
      rfl
    have hinner : (body ++ ')' :: rest).dropWhile isInside = ')' :: rest := by
      rw [List.dropWhile_append_of_pos hbody]
      rfl
    have htake : (gap ++ '(' :: (body ++ ')' :: rest)).takeWhile Text.isBlank = gap := by
      rw [List.takeWhile_append_of_pos hgap]
      simp [Text.isBlank]
    have hbody' : (body ++ ')' :: rest).takeWhile isInside = body := by
      rw [List.takeWhile_append_of_pos hbody]
      simp [isInside]
    rw [bracketed?, hdrop]
    simp only [hinner, htake, hbody']
  rw [List.append_assoc]
  cases kind with
  | auxiliary => exact hbracketed
  | constant => exact hbracketed
  | level => exact hbracketed

/-- The number of a reference that has nothing but blanks around its digits. -/
theorem id_of_isNumeral {m : Match} {before digits after : List Char} {k : Nat}
    (hbody : m.body = before ++ (digits ++ after)) (hbefore : ∀ c ∈ before, Text.isBlank c = true)
    (hafter : ∀ c ∈ after, Text.isBlank c = true) (hdigits : Text.IsNumeral k digits) :
    m.id = .ok k := by
  have hblank : ∀ c ∈ digits, Text.isBlank c = false := by
    intro c hc
    have hclass : (!Text.isBlank c) = true :=
      Text.forall_isDigit (p := fun c => !Text.isBlank c) (by decide)
        ((Text.isDigit_eq_isAsciiDigit c).trans (hdigits.digits c hc))
    rwa [Bool.not_eq_true'] at hclass
  have hstrip : Text.strip m.body = digits := by
    rw [hbody]
    exact Text.strip_append hbefore hafter (fun c hc => hblank c (List.mem_of_mem_head? hc))
      fun c hc => hblank c (List.mem_of_mem_getLast? hc)
  have hempty : digits.isEmpty = false := List.isEmpty_eq_false_iff.2 hdigits.ne_nil
  have hall : digits.all Text.isAsciiDigit = true := List.all_eq_true.2 hdigits.digits
  rw [Match.id, hstrip, hempty, hall, hdigits.value_eq]
  simp [Nat.not_lt.2 hdigits.length_le]

/-! ## Text with references -/

/-- Where no reference starts, a character stays as it is. -/
theorem normalizeAfter_of_none {b : Bool} {c : Char} {cs out : List Char}
    (h : b = true ∨ match? (c :: cs) = none)
    (hrest : normalizeAfter (Lexer.isWordPart c) cs = .ok out) :
    normalizeAfter b (c :: cs) = .ok (c :: out) := by
  have hnone : (if b = true then none else match? (c :: cs)) = none := by
    rcases h with rfl | hmatch
    · rfl
    · rw [hmatch, ite_self]
  rw [normalizeAfter]
  split
  · rename_i m hsome
    rw [hnone] at hsome
    cases hsome
  · rw [hrest]
    rfl

/-- A reference is replaced by its canonical form. -/
theorem normalizeAfter_of_match {c : Char} {cs out : List Char} {m : Match} {k : Nat}
    (hmatch : match? (c :: cs) = some m) (hid : m.id = .ok k)
    (hrest : normalizeAfter false m.rest = .ok out) :
    normalizeAfter false (c :: cs) = .ok (canonical m.kind k ++ out) := by
  rw [normalizeAfter]
  split
  · rename_i m' hsome
    rw [if_neg Bool.false_ne_true, hmatch] at hsome
    cases hsome
    rw [hid, hrest]
    rfl
  · rename_i hnone
    rw [if_neg Bool.false_ne_true, hmatch] at hnone
    cases hnone

/-- The rest of a word is no reference. -/
theorem normalizeAfter_word (ws : List Char) {rest out : List Char}
    (hws : ws.all Lexer.isWordPart = true) (hrest : normalizeAfter true rest = .ok out) :
    normalizeAfter true (ws ++ rest) = .ok (ws ++ out) := by
  induction ws with
  | nil => exact hrest
  | cons c cs ih =>
      rw [List.all_cons, Bool.and_eq_true] at hws
      refine normalizeAfter_of_none (Or.inl rfl) ?_
      rw [hws.1]
      exact ih hws.2

end Reference

namespace Piece

open Reference

/-- The name of a function stays as it is. -/
theorem normalizeAfter_function {op : Operator} (hop : op.isFunction = true)
    {rest out : List Char} (hrest : normalizeAfter true rest = .ok out) :
    normalizeAfter false (op.symbol.toList ++ rest) = .ok (op.symbol.toList ++ out) := by
  cases op with
  | maximum =>
      exact normalizeAfter_of_none (Or.inr rfl)
        (normalizeAfter_word ['A', 'X'] (by decide) hrest)
  | minimum =>
      exact normalizeAfter_of_none (Or.inr rfl)
        (normalizeAfter_word ['I', 'N'] (by decide) hrest)
  | round =>
      exact normalizeAfter_of_none (Or.inr rfl)
        (normalizeAfter_word ['O', 'U', 'N', 'D'] (by decide) hrest)
  | _ => cases hop

end Piece

end StockFlow
