import StockFlow.Proofs.Formula.Brackets
import StockFlow.Proofs.Formula.Words
import StockFlow.Proofs.OrderedMap

/-!
# Marks of tokens

Where every word, number and sign of a text has its place in a formula, the text is cut
into tokens at the ends of its words, so that each word and each sign is one token, and
the tokens stand for what the text does.  A number that runs into a word needs a keyword
there, and no formula has one.

Main definitions:

- {lit}`Token.marks`: what a token stands for.

Main results:

- Theorem {lit}`Lexer.exists_word_of_number?`: a whole number is a word of the text.
- Theorem {lit}`Lexer.tokens_of_scan`: tokens with a place in formulas are those of the
  words of their text.
- Theorem {lit}`Text.marks_eq`: a formula text stands for what its tokens do.
-/

namespace StockFlow

/-- What a token stands for; brackets and commas stand for nothing. -/
def Token.marks : Token → List Mark
  | .name id => [.ofName id]
  | .literal (.integer n) => [.number n]
  | .plus => [.operator .add]
  | .minus => [.operator .subtract]
  | .star => [.operator .multiply]
  | .slash => [.operator .divide]
  | .opening | .closing | .comma => []
  | _ => [.other]

/-! ## Words -/

/-- The letters that the kinds of nodes and the functions start with. -/
def Mark.initials : List Char := ['A', 'C', 'L', 'M', 'R']

/-- What starts with another letter is no kind of node and no function. -/
theorem Mark.ofName_eq_other {c : Char} (hc : initials.contains c = false) (ws : List Char) :
    ofName (String.ofList (c :: ws)) = .other := by
  have hne : ∀ cs : List Char, cs.head?.all initials.contains = true →
      String.ofList cs ≠ String.ofList (c :: ws) := by
    intro cs hcs heq
    rw [String.ofList_inj.1 heq, List.head?_cons, Option.all_some, hc] at hcs
    cases hcs
  have hkind : ReferenceKind.ofName? (String.ofList (c :: ws)) = none := by
    rw [ReferenceKind.ofName?, List.find?_eq_none]
    intro kind _ heq
    exact hne kind.letters (by cases kind <;> rfl) (beq_iff_eq.1 heq)
  have hfunction : [Operator.maximum, .minimum, .round].find?
      (·.symbol == String.ofList (c :: ws)) = none := by
    rw [List.find?_eq_none]
    intro op hop heq
    refine hne op.symbol.toList ?_ (by rw [String.ofList_toList]; exact beq_iff_eq.1 heq)
    simp only [List.mem_cons, List.not_mem_nil, or_false] at hop
    rcases hop with rfl | rfl | rfl <;> decide
  rw [ofName, hkind, hfunction]

/-- Words with a meaning of their own are no names of formulas. -/
theorem Token.marks_ofWord (w : String) : (ofWord w).marks = [.ofName w] := by
  have hkeywords : ∀ e ∈ keywords, Mark.ofName e.1 = .other := by decide
  have hconstants : ∀ e ∈ constants, (literal e.2).marks = [.ofName e.1] := by
    simp only [constants, List.forall_mem_cons]
    refine ⟨?_, ?_, ?_, List.forall_mem_nil _⟩ <;> decide
  have hreserved : ∀ s ∈ reservedWords, Mark.ofName s = .other := by decide
  unfold ofWord
  split
  · rename_i k hk
    rw [hkeywords _ (OrderedMap.mem_of_lookup hk)]
    rfl
  · split
    · rename_i v hv
      exact hconstants _ (OrderedMap.mem_of_lookup hv)
    · split
      · rename_i hw
        rw [hreserved w (List.contains_iff_mem.1 hw)]
        rfl
      · rfl

namespace Lexer

/-! ## Numbers -/

/-- The digits of a run are what is left of its word without the underscores. -/
theorem exists_word_of_digitRun {p : Char → Bool} (hp : p '_' = false) {cs digits rest : List Char}
    (h : digitRun p cs = some (digits, rest)) :
    ∃ ws, cs = ws ++ rest ∧ ws.filter (· != '_') = digits ∧ ∀ c ∈ ws, p c = true ∨ c = '_' := by
  have hne : ∀ {c}, p c = true → (c != '_') = true := by
    intro c hc
    rw [bne_iff_ne]
    rintro rfl
    rw [hp] at hc
    cases hc
  fun_induction digitRun p cs generalizing digits with
  | case1 =>
      cases h
      exact ⟨[], rfl, rfl, List.forall_mem_nil _⟩
  | case2 c cs hc ih =>
      obtain ⟨⟨ds, after⟩, hrun, heq⟩ := Option.map_eq_some_iff.1 h
      cases heq
      obtain ⟨ws, hcs, hws, hdigits⟩ := ih hrun
      refine ⟨c :: ws, by rw [hcs]; rfl, ?_, List.forall_mem_cons.2 ⟨Or.inl hc, hdigits⟩⟩
      rw [List.filter_cons, hne hc, if_pos rfl, hws]
  | case3 => cases h
  | case4 d cs hd _ ih =>
      obtain ⟨⟨ds, after⟩, hrun, heq⟩ := Option.map_eq_some_iff.1 h
      cases heq
      obtain ⟨ws, hcs, hws, hdigits⟩ := ih hrun
      refine ⟨'_' :: d :: ws, by rw [hcs]; rfl, ?_, ?_⟩
      · rw [List.filter_cons_of_neg (by decide), List.filter_cons, hne hd, if_pos rfl, hws]
      · exact List.forall_mem_cons.2 ⟨Or.inr rfl, List.forall_mem_cons.2 ⟨Or.inl hd, hdigits⟩⟩
  | case5 => cases h
  | case6 =>
      cases h
      exact ⟨[], rfl, rfl, List.forall_mem_nil _⟩

/-- The number after its two leading characters that name a base. -/
theorem exists_word_of_basedInteger? {base : Nat} {p : Char → Bool}
    (hp : ∀ c, p c = true → isWordPart c = true ∧ c ≠ '_') {cs rest : List Char} {n : Nat}
    (h : basedInteger? base p cs = some (.integer n, rest)) :
    ∃ ws, cs = ws ++ rest ∧ (∀ d ∈ ws, isWordPart d = true) ∧
      valueIn base (ws.filter (· != '_')) = n ∧ endsNumber rest = true := by
  have hunderscore : p '_' = false := by
    cases hvalue : p '_' with
    | false => rfl
    | true => exact absurd rfl (hp _ hvalue).2
  unfold basedInteger? at h
  split at h
  · rename_i digits after hrun
    split at h
    · cases h
    · rename_i hend
      cases h
      obtain ⟨ws, hcs, hdigits, hws⟩ := exists_word_of_digitRun hunderscore hrun
      simp only [Bool.or_eq_true, Bool.not_eq_true', not_or, Bool.not_eq_false] at hend
      refine ⟨ws, hcs, fun d hd => ?_, by rw [hdigits], hend.2⟩
      rcases hws d hd with hd | rfl
      · exact (hp d hd).1
      · decide
  · cases h

/-- Zeros alone have the value zero. -/
theorem decimalValue_of_all_zero {ds : List Char} (h : ds.all (· == '0') = true) :
    Text.decimalValue ds = 0 := by
  induction ds with
  | nil => rfl
  | cons d rest ih =>
      rw [List.all_cons, Bool.and_eq_true, beq_iff_eq] at h
      rw [h.1]
      exact ih h.2

/-- Digits that are a whole number are the integer of their value. -/
theorem eq_integer_of_wholeNumber? {digits : List Char} {v : Literal}
    (h : wholeNumber? digits = some v) : v = .integer (Text.decimalValue digits) := by
  unfold wholeNumber? at h
  split at h
  · rename_i hzero
    cases h
    rw [decimalValue_of_all_zero hzero]
  · split at h
    · cases h
    · split at h
      · cases h
      · cases h
        rfl

/-- A number with a fraction or an exponent is no integer. -/
theorem finishDecimal?_ne_integer {digits cs rest : List Char} {power : Int} {n : Nat} :
    finishDecimal? digits power cs ≠ some (.integer n, rest) := by
  intro h
  simp only [finishDecimal?] at h
  split at h <;> split at h <;> cases h

theorem endsNumber_of_else {cs : List Char} (h : "else".toList.isPrefixOf cs = true) :
    endsNumber cs = true := by
  cases cs with
  | nil => rfl
  | cons c rest =>
      rw [endsNumber, Bool.or_eq_true]
      exact Or.inr (List.any_eq_true.2 ⟨_, by decide, h⟩)

/-- A number in front of a keyword is an integer where it would be one without the keyword. -/
theorem integer_of_beforeKeyword? {whole : List Char} {fraction : Option (List Char)} {n : Nat}
    (h : beforeKeyword? whole fraction = some (.integer n)) :
    fraction = none ∧ wholeNumber? whole = some (.integer n) := by
  unfold beforeKeyword? at h
  split at h
  · cases h
  · rename_i hreal
    simp only [Bool.or_eq_true, not_or, Option.isSome_iff_ne_none, ne_eq, not_not] at hreal
    exact ⟨hreal.1, h⟩

/-- A number with a fraction or an exponent is no integer. -/
theorem integer_of_afterFraction? {whole cs rest : List Char} {fraction : Option (List Char)}
    {n : Nat} (h : afterFraction? whole fraction cs = some (.integer n, rest)) :
    fraction = none ∧ rest = cs ∧ n = Text.decimalValue whole ∧ endsNumber cs = true := by
  have hwhole : ∀ {o : Option Literal},
      (o = some (.integer n) → fraction = none ∧ wholeNumber? whole = some (.integer n)) →
        endsNumber cs = true → o.map (·, cs) = some (.integer n, rest) →
          fraction = none ∧ rest = cs ∧ n = Text.decimalValue whole ∧ endsNumber cs = true := by
    intro o ho hend hmap
    obtain ⟨v, hv, heq⟩ := Option.map_eq_some_iff.1 hmap
    cases heq
    obtain ⟨hnone, hnumber⟩ := ho hv
    exact ⟨hnone, rfl, Literal.integer.inj (eq_integer_of_wholeNumber? hnumber), hend⟩
  simp only [afterFraction?] at h
  split at h
  case h_1 | h_2 =>
      split at h
      · split at h
        · exact (finishDecimal?_ne_integer h).elim
        · cases h
      · split at h
        · rename_i helse
          exact hwhole integer_of_beforeKeyword? (endsNumber_of_else helse) h
        · cases h
  case h_3 | h_4 => exact (finishDecimal?_ne_integer h).elim
  case h_5 =>
      split at h
      · exact (finishDecimal?_ne_integer h).elim
      · rename_i hfraction
        split at h
        · rename_i hend
          exact hwhole (fun hv => ⟨by simpa using hfraction, hv⟩) hend h
        · cases h

/-- A whole part with a point behind it is no integer. -/
theorem integer_of_afterWhole? {whole cs rest : List Char} {n : Nat}
    (h : afterWhole? whole cs = some (.integer n, rest)) :
    cs.head? ≠ some '.' ∧ rest = cs ∧ n = Text.decimalValue whole ∧ endsNumber cs = true := by
  unfold afterWhole? at h
  split at h
  · rename_i fraction after hfraction
    obtain ⟨rfl, rfl, hn, hend⟩ := integer_of_afterFraction? h
    unfold fraction? at hfraction
    split at hfraction
    · split at hfraction
      · obtain ⟨found, _, heq⟩ := Option.map_eq_some_iff.1 hfraction
        cases heq
      · cases hfraction
    · rename_i hpoint
      cases hfraction
      refine ⟨fun hhead => ?_, rfl, hn, hend⟩
      cases cs with
      | nil => cases hhead
      | cons c tail =>
          cases hhead
          exact hpoint tail rfl
  · cases h

/-- The digits of all bases are parts of words, and no underscores. -/
theorem isWordPart_of_isHexDigit {c : Char} (hc : isHexDigit c = true) :
    isWordPart c = true ∧ c ≠ '_' := by
  refine ⟨?_, by rintro rfl; exact absurd hc (by decide)⟩
  unfold isHexDigit Char.isDigit at hc
  unfold isWordPart Char.isAlphanum Char.isAlpha Char.isUpper Char.isLower Char.isDigit
  simp only [Char.le_def, ge_iff_le, UInt32.le_iff_toNat_le, Bool.or_eq_true, Bool.and_eq_true,
    decide_eq_true_eq] at hc ⊢
  rcases hc with (hdigit | ⟨hlow, hhigh⟩) | ⟨hlow, hhigh⟩
  · exact Or.inl (Or.inr hdigit)
  · exact Or.inl (Or.inl (Or.inr ⟨hlow, Nat.le_trans hhigh (by decide)⟩))
  · exact Or.inl (Or.inl (Or.inl ⟨hlow, Nat.le_trans hhigh (by decide)⟩))

theorem isHexDigit_of_isOctalDigit {c : Char} (hc : isOctalDigit c = true) :
    isHexDigit c = true := by
  unfold isOctalDigit at hc
  unfold isHexDigit Char.isDigit
  simp only [Char.le_def, ge_iff_le, UInt32.le_iff_toNat_le, Bool.or_eq_true, Bool.and_eq_true,
    decide_eq_true_eq] at hc ⊢
  exact Or.inl (Or.inl ⟨hc.1, Nat.le_trans hc.2 (by decide)⟩)

theorem isHexDigit_of_isBinaryDigit {c : Char} (hc : isBinaryDigit c = true) :
    isHexDigit c = true := by
  rw [isBinaryDigit, Bool.or_eq_true, beq_iff_eq, beq_iff_eq] at hc
  rcases hc with rfl | rfl <;> decide

/-- The whole part of a decimal number is a row of digits and underscores. -/
theorem exists_word_of_whole {c : Char} {cs whole rest : List Char} (hc : c.isDigit = true)
    (h : digitRun Char.isDigit (c :: cs) = some (whole, rest)) :
    ∃ ws, c :: cs = c :: ws ++ rest ∧ (∀ d ∈ ws, isWordPart d = true) ∧
      Mark.numberOf (c :: ws) = Text.decimalValue whole := by
  obtain ⟨ws, hcs, hwhole, hws⟩ := exists_word_of_digitRun (by decide) h
  have hshort := digitRun_length_lt hc h
  cases ws with
  | nil =>
      rw [hcs] at hshort
      exact absurd hshort (Nat.lt_irrefl _)
  | cons d ws =>
      cases hcs
      refine ⟨ws, rfl, fun d hd => ?_, by rw [Mark.numberOf_decimal hws, hwhole]⟩
      rcases hws d (List.mem_cons_of_mem _ hd) with hd | rfl
      · exact isWordPart_of_isDigit hd
      · decide

/-- A whole number is written by a word of the text, and a number ends there. -/
theorem exists_word_of_number? {c : Char} {cs rest : List Char} {n : Nat} (hc : c.isDigit = true)
    (h : number? (c :: cs) = some (.integer n, rest)) :
    ∃ ws, c :: cs = c :: ws ++ rest ∧ (∀ d ∈ ws, isWordPart d = true) ∧
      Mark.numberOf (c :: ws) = n ∧ endsNumber rest = true := by
  have hbased : ∀ {base : Nat} {p : Char → Bool} {x : Char} {digits : List Char},
      (∀ c, p c = true → isHexDigit c = true) → isWordPart x = true →
        (∀ ws, Mark.numberOf ('0' :: x :: ws) = valueIn base (ws.filter (· != '_'))) →
          basedInteger? base p digits = some (.integer n, rest) → c :: cs = '0' :: x :: digits →
            ∃ ws, c :: cs = c :: ws ++ rest ∧ (∀ d ∈ ws, isWordPart d = true) ∧
              Mark.numberOf (c :: ws) = n ∧ endsNumber rest = true := by
    intro base p x digits hp hx hnumber hdigits heq
    obtain ⟨ws, rfl, hws, hn, hend⟩ :=
      exists_word_of_basedInteger? (fun d hd => isWordPart_of_isHexDigit (hp d hd)) hdigits
    cases heq
    exact ⟨x :: ws, rfl, List.forall_mem_cons.2 ⟨hx, hws⟩, by rw [hnumber, hn], hend⟩
  have hoctal := fun d => isHexDigit_of_isOctalDigit (c := d)
  have hbinary := fun d => isHexDigit_of_isBinaryDigit (c := d)
  unfold number? at h
  split at h
  · exact hbased (x := 'x') (fun _ hd => hd) (by decide) (fun _ => rfl) h ‹_›
  · exact hbased (x := 'X') (fun _ hd => hd) (by decide) (fun _ => rfl) h ‹_›
  · exact hbased (x := 'o') hoctal (by decide) (fun _ => rfl) h ‹_›
  · exact hbased (x := 'O') hoctal (by decide) (fun _ => rfl) h ‹_›
  · exact hbased (x := 'b') hbinary (by decide) (fun _ => rfl) h ‹_›
  · exact hbased (x := 'B') hbinary (by decide) (fun _ => rfl) h ‹_›
  · split at h
    · rename_i whole after hrun
      obtain ⟨-, rfl, rfl, hend⟩ := integer_of_afterWhole? h
      obtain ⟨ws, hcs, hws, hn⟩ := exists_word_of_whole hc hrun
      exact ⟨ws, hcs, hws, hn, hend⟩
    · cases h

/-! ## Tokens -/

/-- What is cut into tokens starts with one of them. -/
theorem exists_token_of_scan {n : Nat} {c : Char} {cs : List Char} {ts : List Token}
    (hc : isSeparator c = false) (hc' : isLineBreak c = false)
    (h : scan n (c :: cs) = (ts, true)) :
    ∃ t after us, token? c cs = some (t, after) ∧ ts = t :: us := by
  rw [scan, hc, hc'] at h
  simp only [Bool.false_eq_true, if_false] at h
  split at h
  · cases h
  · rename_i t after htoken
    have hts : ∃ us, ts = t :: us := by
      split at h
      · split at h
        · cases h
        · exact (exists_of_prepend h).imp fun _ hus => hus.2
      · exact (exists_of_prepend h).imp fun _ hus => hus.2
      · exact (exists_of_prepend h).imp fun _ hus => hus.2
    obtain ⟨us, hus⟩ := hts
    exact ⟨t, after, us, htoken, hus⟩

/-- No keyword may follow a number: as a word it has no place in a formula. -/
theorem other_mem_of_wordsAfterNumber {cs : List Char}
    (hcs : wordsAfterNumber.any (·.isPrefixOf cs) = true) {n : Nat} {ts : List Token}
    (h : scan n cs = (ts, true)) : Mark.other ∈ ts.flatMap Token.marks := by
  have hstart : ∀ w ∈ wordsAfterNumber, ∃ c rest, w = c :: rest ∧ isSeparator c = false ∧
      isLineBreak c = false ∧ isWordStart c = true ∧ Mark.initials.contains c = false := by
    simp only [wordsAfterNumber, List.forall_mem_cons]
    refine ⟨?_, ?_, ?_, ?_, ?_, ?_, ?_, ?_, List.forall_mem_nil _⟩ <;>
      exact ⟨_, _, rfl, by decide, by decide, by decide, by decide⟩
  obtain ⟨w, hw, hprefix⟩ := List.any_eq_true.1 hcs
  obtain ⟨c, rest, rfl, hseparator, hbreak, hc, hinitial⟩ := hstart w hw
  obtain ⟨tail, rfl⟩ := List.isPrefixOf_iff_prefix.1 hprefix
  rw [List.cons_append] at h
  obtain ⟨t, after, us, htoken, rfl⟩ := exists_token_of_scan hseparator hbreak h
  rw [token?, if_pos hc] at htoken
  cases htoken
  have hname := Mark.ofName_eq_other hinitial ((rest ++ tail).takeWhile isWordPart)
  rw [List.takeWhile_cons_of_pos (isWordPart_of_isWordStart hc), List.flatMap_cons,
    Token.marks_ofWord, hname]
  exact List.mem_cons_self

/-- A sign is a word of its own. -/
theorem tokens_sign {c : Char} (hc : isWordPart c = false) (hblank : Text.isBlank c = false)
    (rest : List Char) : Text.tokens (c :: rest) = .ofWritten [c] :: Text.tokens rest := by
  rw [Text.tokens, Text.words_sign hc hblank]
  rfl

/-- A blank is no token. -/
theorem tokens_blank {c : Char} (hc : Text.isBlank c = true) (rest : List Char) :
    Text.tokens (c :: rest) = Text.tokens rest := by
  have hblank : ∀ d ∈ [c], Text.isBlank d = true := by simpa using hc
  rw [Text.tokens, Text.tokens, ← Text.words_blanks hblank rest]
  rfl

/-- A sign that stands for something in a formula is one character. -/
theorem tokens_of_sign? {c : Char} {cs after : List Char} {t : Token}
    (h : sign? c cs = some (t, after)) (hother : .other ∉ t.marks) :
    Text.tokens (c :: cs) = t :: Text.tokens after := by
  have hdoubling : ∀ {d : Char} {single double : Token}, double.marks = [.other] →
      some (doubling d single double cs) = some (t, after) → t = single ∧ after = cs := by
    intro d single double hdouble hsign
    rw [Option.some.injEq] at hsign
    unfold doubling at hsign
    split at hsign
    · cases hsign
      exact ⟨rfl, rfl⟩
    · split at hsign
      · cases hsign
        exact (hother (hdouble ▸ List.mem_cons_self)).elim
      · cases hsign
        exact ⟨rfl, rfl⟩
  unfold sign? at h
  split at h
  · obtain ⟨rfl, rfl⟩ := hdoubling rfl h
    exact tokens_sign (by decide) (by decide) after
  · obtain ⟨rfl, rfl⟩ := hdoubling rfl h
    exact tokens_sign (by decide) (by decide) after
  case h_8 =>
    rw [Option.some.injEq, point.eq_def] at h
    split at h <;> cases h <;> exact (hother List.mem_cons_self).elim
  case h_9 => cases h
  all_goals
    cases h
    exact tokens_sign (by decide) (by decide) cs

/-- What starts a word is no digit. -/
theorem isDigit_eq_false_of_isWordStart {c : Char} (hc : isWordStart c = true) :
    c.isDigit = false := by
  rw [← Bool.not_eq_true]
  intro hdigit
  have hnone := Text.forall_isDigit (p := fun d => !isWordStart d) (by decide) hdigit
  rw [hc] at hnone
  cases hnone

/-- The token of a word that is no number. -/
theorem ofWritten_of_isWordStart {c : Char} (ws : List Char) (hc : isWordStart c = true) :
    Token.ofWritten (c :: ws) = .ofWord (String.ofList (c :: ws)) := by
  have hdigit : ¬(c :: ws).head?.any Char.isDigit = true := by
    simp [isDigit_eq_false_of_isWordStart hc]
  unfold Token.ofWritten
  split
  case h_9 => rw [if_neg hdigit]
  all_goals
    rename_i heq
    cases heq
    exact absurd hc (by decide)

/-- A word is one token. -/
theorem tokens_of_word {c : Char} (cs : List Char) (hc : isWordStart c = true) :
    Text.tokens (c :: cs) = (word (c :: cs)).1 :: Text.tokens (word (c :: cs)).2 := by
  have hends : ∀ d ∈ ((c :: cs).dropWhile isWordPart).head?, isWordPart d = false := by
    intro d hd
    have hnot := List.head?_dropWhile_not isWordPart (c :: cs)
    rwa [hd] at hnot
  have hparts : ∀ d ∈ (c :: cs).takeWhile isWordPart, isWordPart d = true :=
    List.all_eq_true.1 List.all_takeWhile
  have htake := List.takeWhile_cons_of_pos (l := cs) (isWordPart_of_isWordStart hc)
  have hwords := Text.words_word (by rw [htake]; exact List.cons_ne_nil _ _) hparts hends
  rw [List.takeWhile_append_dropWhile] at hwords
  rw [Text.tokens, hwords, List.map_cons, word, htake, ofWritten_of_isWordStart _ hc]
  rfl

/-- A whole number is one token, unless a keyword runs into it. -/
theorem tokens_of_number? {c : Char} {cs rest : List Char} {k : Nat} (hc : c.isDigit = true)
    (h : number? (c :: cs) = some (.integer k, rest))
    (hkeyword : wordsAfterNumber.any (·.isPrefixOf rest) = false) :
    Text.tokens (c :: cs) = .literal (.integer k) :: Text.tokens rest := by
  obtain ⟨ws, hcs, hws, hk, hend⟩ := exists_word_of_number? hc h
  have hrest : ∀ d ∈ rest.head?, isWordPart d = false := by
    cases rest with
    | nil => rintro d ⟨⟩
    | cons e tail =>
        rintro d ⟨⟩
        rw [endsNumber, hkeyword, Bool.or_false, Bool.not_eq_true'] at hend
        exact hend
  have hparts : ∀ d ∈ c :: ws, isWordPart d = true :=
    List.forall_mem_cons.2 ⟨isWordPart_of_isDigit hc, hws⟩
  rw [hcs, Text.tokens, Text.words_word (List.cons_ne_nil c ws) hparts hrest, List.map_cons,
    Token.ofWritten_digits hc, hk]
  rfl

/-- A token in front of others is written by the first word or sign. -/
theorem tokens_cons_of_token? {n : Nat} {c : Char} {cs after : List Char} {t : Token}
    {ts : List Token} (htoken : token? c cs = some (t, after))
    (hts : scan n after = (ts, true)) (ih : Text.tokens after = ts)
    (hother : .other ∉ (t :: ts).flatMap Token.marks) : Text.tokens (c :: cs) = t :: ts := by
  rw [List.flatMap_cons, List.mem_append, not_or] at hother
  have hinteger : ∀ {v : Literal}, t = .literal v → ∃ k, v = .integer k := by
    rintro v rfl
    cases v with
    | integer k => exact ⟨k, rfl⟩
    | _ => exact (hother.1 List.mem_cons_self).elim
  subst ih
  unfold token? at htoken
  split at htoken
  · rename_i hc
    cases htoken
    exact tokens_of_word cs hc
  · split at htoken
    · rename_i hdigit
      obtain ⟨⟨v, rest⟩, hnumber, heq⟩ := Option.map_eq_some_iff.1 htoken
      cases heq
      obtain ⟨k, rfl⟩ := hinteger rfl
      -- a keyword behind the number would be the next token, which has no place
      have hkeyword : wordsAfterNumber.any (·.isPrefixOf rest) = false := by
        rw [← Bool.not_eq_true]
        exact fun hprefix => hother.2 (other_mem_of_wordsAfterNumber hprefix hts)
      exact tokens_of_number? hdigit hnumber hkeyword
    · split at htoken
      · obtain ⟨⟨v, rest⟩, hnumber, heq⟩ := Option.map_eq_some_iff.1 htoken
        cases heq
        obtain ⟨k, rfl⟩ := hinteger rfl
        exact ((integer_of_afterWhole? hnumber).1 rfl).elim
      · exact tokens_of_sign? htoken hother.1

/-- Tokens that all have a place in formulas are those of the words of their text. -/
theorem tokens_of_scan {n : Nat} {cs : List Char} {ts : List Token}
    (h : scan n cs = (ts, true)) (hother : .other ∉ ts.flatMap Token.marks) :
    Text.tokens cs = ts := by
  fun_induction scan n cs generalizing ts
  case case1 =>
      cases h
      rfl
  case case2 hc ih =>
      rcases isSeparator_iff.1 hc with rfl | rfl | rfl <;>
        rw [tokens_blank (by decide)] <;> exact ih h hother
  case case3 => cases h
  case case4 hbreak _ ih =>
      rw [isLineBreak, Bool.or_eq_true, beq_iff_eq, beq_iff_eq] at hbreak
      rcases hbreak with rfl | rfl <;>
        rw [tokens_blank (by decide)] <;> exact ih h hother
  case case5 => cases h
  case case6 => cases h
  all_goals
    rename_i ih
    obtain ⟨us, hus, rfl⟩ := exists_of_prepend h
    have hothers : .other ∉ us.flatMap Token.marks := by
      rw [List.flatMap_cons, List.mem_append, not_or] at hother
      exact hother.2
    exact tokens_cons_of_token? ‹_› hus (ih hus hothers) hother

end Lexer

/-! ## Marks of texts -/

theorem Lexer.isWordStart_of_isWordPart {c : Char} (hc : isWordPart c = true)
    (hdigit : c.isDigit = false) : isWordStart c = true := by
  rw [isWordPart, Char.isAlphanum, hdigit, Bool.or_false] at hc
  exact hc

/-- A word has the marks of the token that it is written as. -/
theorem Mark.ofWord_eq {word : List Char} (hword : ∀ c ∈ word, Lexer.isWordPart c = true) :
    ofWord word = ((Text.ended word).map Token.ofWritten).flatMap Token.marks := by
  cases word with
  | nil => rfl
  | cons c rest =>
      rw [Text.ended_of_ne_nil (List.cons_ne_nil c rest), ofWord]
      split
      · rename_i hdigit
        simp [Token.ofWritten_digits hdigit, Token.marks]
      · rename_i hdigit
        have hstart := Lexer.isWordStart_of_isWordPart (hword c List.mem_cons_self)
          (Bool.eq_false_iff.2 hdigit)
        simp [Lexer.ofWritten_of_isWordStart rest hstart, Token.marks_ofWord]

/-- A sign has the marks of the token that it is written as. -/
theorem Mark.ofSign_eq {c : Char} (hc : Formula.isAllowed c = true)
    (hword : Lexer.isWordPart c = false) :
    ofSign c = ((Text.signOf c).map Token.ofWritten).flatMap Token.marks := by
  rw [Formula.isAllowed, hword, Bool.false_or, Bool.or_eq_true] at hc
  cases hblank : Text.isBlank c with
  | true =>
      rw [Text.signOf, if_pos hblank, Text.ofSign_of_isBlank hblank]
      rfl
  | false =>
      have hmem := List.contains_iff_mem.1 (hc.resolve_left (by simp [hblank]))
      simp only [List.mem_cons, List.not_mem_nil, or_false] at hmem
      rcases hmem with rfl | rfl | rfl | rfl | rfl | rfl | rfl | rfl <;> rfl

/-- A text has the marks of its tokens, a word that was begun included. -/
theorem Text.marksAfter_eq {word cs : List Char} (hcs : ∀ c ∈ cs, Formula.isAllowed c = true)
    (hword : ∀ c ∈ word, Lexer.isWordPart c = true) :
    marksAfter word cs = ((wordsAfter word cs).map Token.ofWritten).flatMap Token.marks := by
  induction cs generalizing word with
  | nil => exact Mark.ofWord_eq hword
  | cons c rest ih =>
      rw [List.forall_mem_cons] at hcs
      rw [marksAfter, wordsAfter]
      split
      · rename_i hc
        refine ih hcs.2 fun d hd => (List.mem_append.1 hd).elim (hword d) fun hd => ?_
        rwa [List.mem_singleton.1 hd]
      · rename_i hc
        rw [ih hcs.2 (List.forall_mem_nil _), Mark.ofWord_eq hword,
          Mark.ofSign_eq hcs.1 (Bool.eq_false_iff.2 hc)]
        simp only [List.map_append, List.flatMap_append]

/-- The words and signs of a formula text stand for what their tokens do. -/
theorem Text.marks_eq {cs : List Char} (hcs : ∀ c ∈ cs, Formula.isAllowed c = true) :
    marks cs = (tokens cs).flatMap Token.marks :=
  marksAfter_eq hcs (List.forall_mem_nil _)

end StockFlow
