import StockFlow.Expression.Lexer
import StockFlow.Proofs.Text.Decimals

/-!
# Tokens in front of other text

Words and numbers are cut off a text where the next character is no part of them,
and the text behind a token is cut in the same way, with the brackets that are open
then.

Main definitions:

- {lit}`mostOpenFrom`, {lit}`Text.mostOpen`: the most brackets that are open at once.

Main results:

- Theorem {lit}`Lexer.scan_of_token?`: a token in front of other text.
- Theorem {lit}`Lexer.number?_decimalDigits`: the digits of a number are read as it.
-/

namespace StockFlow

/-! ## Open brackets -/

/-- The most that is open at once in a list of things that each open or close something. -/
def mostOpenFrom {α : Type} (after : Nat → α → Nat) (n : Nat) : List α → Nat
  | [] => n
  | a :: rest => max n (mostOpenFrom after (after n a) rest)

section

variable {α : Type} {after : Nat → α → Nat}

/-- What is open at the start counts as open. -/
theorem le_mostOpenFrom (n : Nat) (as : List α) : n ≤ mostOpenFrom after n as := by
  cases as with
  | nil => exact Nat.le_refl n
  | cons a rest => exact Nat.le_max_left _ _

/-- What follows can only open more. -/
theorem mostOpenFrom_le_append (n : Nat) (as bs : List α) :
    mostOpenFrom after n as ≤ mostOpenFrom after n (as ++ bs) := by
  induction as generalizing n with
  | nil => exact le_mostOpenFrom n bs
  | cons a rest ih =>
      exact Nat.max_le.2 ⟨Nat.le_max_left _ _, Nat.le_trans (ih (after n a)) (Nat.le_max_right _ _)⟩

theorem mostOpenFrom_cons_of_eq {n : Nat} {a : α} (h : after n a = n) (as : List α) :
    mostOpenFrom after n (a :: as) = mostOpenFrom after n as := by
  rw [mostOpenFrom, h]
  exact Nat.max_eq_right (le_mostOpenFrom n as)

/-- What opens and closes nothing can be left out in front. -/
theorem mostOpenFrom_append_of_eq {n : Nat} {as : List α} (h : ∀ a ∈ as, after n a = n)
    (bs : List α) : mostOpenFrom after n (as ++ bs) = mostOpenFrom after n bs := by
  induction as with
  | nil => rfl
  | cons a rest ih =>
      rw [List.cons_append, mostOpenFrom_cons_of_eq (h a List.mem_cons_self)]
      exact ih fun b hb => h b (List.mem_cons_of_mem a hb)

/-- Ends that open as much, whatever is open before them, do so behind anything. -/
theorem mostOpenFrom_append_congr {bs cs : List α}
    (h : ∀ n, mostOpenFrom after n bs = mostOpenFrom after n cs) (n : Nat) (as : List α) :
    mostOpenFrom after n (as ++ bs) = mostOpenFrom after n (as ++ cs) := by
  induction as generalizing n with
  | nil => exact h n
  | cons a rest ih => exact congrArg (max n) (ih (after n a))

theorem mostOpenFrom_cons_of_lt {n : Nat} {a : α} (h : n < after n a) (as : List α) :
    mostOpenFrom after n (a :: as) = mostOpenFrom after (after n a) as := by
  rw [mostOpenFrom]
  refine Nat.max_eq_right (Nat.le_trans (Nat.le_of_lt h) ?_)
  exact le_mostOpenFrom _ as

end

/-- How many brackets are open after a character. -/
def Text.openAfter (n : Nat) (c : Char) : Nat :=
  if c = '(' then n + 1 else if c = ')' then n - 1 else n

/-- The most brackets of a text that are open at once. -/
def Text.mostOpen (cs : List Char) : Nat := mostOpenFrom Text.openAfter 0 cs

/-- How many brackets are open after a token. -/
def Token.openAfter (n : Nat) : Token → Nat
  | .opening => n + 1
  | .closing => n - 1
  | _ => n

namespace Lexer

/-- Blanks between tokens are spaces, tabs and form feeds. -/
theorem isSeparator_iff {c : Char} : isSeparator c = true ↔ c = ' ' ∨ c = '\t' ∨ c = '\x0c' := by
  simp [isSeparator, or_assoc]

/-- A blank neither opens nor closes a bracket. -/
theorem openAfter_of_isSeparator {c : Char} (hc : isSeparator c = true) (n : Nat) :
    Text.openAfter n c = n := by
  rcases isSeparator_iff.1 hc with rfl | rfl | rfl <;> rfl

theorem prepend_prepend (ts us : List Token) (found : List Token × Bool) :
    prepend ts (prepend us found) = prepend (ts ++ us) found := by
  rw [prepend, prepend, prepend, List.append_assoc]

/-- With a token in front, a text is cut into tokens as a whole if what follows it is. -/
theorem exists_of_prepend {t : Token} {found : List Token × Bool} {ts : List Token}
    (h : prepend [t] found = (ts, true)) : ∃ us, found = (us, true) ∧ ts = t :: us := by
  rcases found with ⟨us, complete⟩
  cases h
  exact ⟨us, rfl, rfl⟩

/-- A token in front of other text. -/
theorem scan_of_token? {n : Nat} {c : Char} {cs after : List Char} {t : Token}
    (hc : isSeparator c = false) (hc' : isLineBreak c = false)
    (htoken : token? c cs = some (t, after)) (hlimit : Token.openAfter n t ≤ bracketLimit) :
    scan n (c :: cs) = prepend [t] (scan (Token.openAfter n t) after) := by
  rw [scan, hc, hc']
  simp only [Bool.false_eq_true, if_false]
  split
  · rename_i hnone
    rw [htoken] at hnone
    cases hnone
  · rename_i t' after' hsome
    rw [htoken] at hsome
    cases hsome
    cases t with
    | opening =>
        have hn : ¬ bracketLimit ≤ n := by
          rw [Token.openAfter] at hlimit
          omega
        rw [if_neg hn]
        rfl
    | _ => rfl

/-- A word ends where no part of a word follows. -/
theorem word_append {ws rest : List Char} (hws : ∀ c ∈ ws, isWordPart c = true)
    (hrest : ∀ c ∈ rest.head?, isWordPart c = false) :
    word (ws ++ rest) = (Token.ofWord (String.ofList ws), rest) := by
  have htake : (ws ++ rest).takeWhile isWordPart = ws := by
    rw [List.takeWhile_append_of_pos hws]
    cases rest with
    | nil => simp
    | cons c cs => simp [hrest c rfl]
  have hdrop : (ws ++ rest).dropWhile isWordPart = rest := by
    rw [List.dropWhile_append_of_pos hws]
    cases rest with
    | nil => rfl
    | cons c cs => simp [hrest c rfl]
  rw [word, htake, hdrop]

/-- A run of digits ends where neither a digit nor an underscore follows. -/
theorem digitRun_append {digits rest : List Char} (hdigits : ∀ c ∈ digits, c.isDigit = true)
    (hrest : ∀ c ∈ rest.head?, c.isDigit = false ∧ c ≠ '_') :
    digitRun Char.isDigit (digits ++ rest) = some (digits, rest) := by
  induction digits with
  | nil =>
      cases rest with
      | nil => rfl
      | cons c cs =>
          rcases hrest c rfl with ⟨hdigit, hunderscore⟩
          rw [List.nil_append, digitRun.eq_def]
          simp [hdigit, hunderscore]
  | cons d ds ih =>
      have hd := hdigits d List.mem_cons_self
      rw [List.cons_append, digitRun.eq_def]
      simp [hd, ih fun c hc => hdigits c (List.mem_cons_of_mem d hc)]

/-- The decimal digits of a number are read as this number, if they are not too many. -/
theorem wholeNumber?_decimalDigits {n : Nat}
    (hn : (Text.decimalDigits n).length ≤ Text.digitLimit) :
    wholeNumber? (Text.decimalDigits n) = some (.integer n) := by
  by_cases hzero : n = 0
  · rw [hzero, Text.decimalDigits_zero]
    rfl
  · have hhead := Text.head?_decimalDigits_ne (Nat.pos_of_ne_zero hzero)
    have hall : ((Text.decimalDigits n).all (· == '0')) = false := by
      cases hdigits : Text.decimalDigits n with
      | nil => exact (Text.decimalDigits_ne_nil n hdigits).elim
      | cons d ds =>
          rw [hdigits] at hhead
          have hd : (d == '0') = false := by simpa using hhead
          rw [List.all_cons, hd, Bool.false_and]
    have hhead' : ((Text.decimalDigits n).head? == some '0') = false := by
      rwa [beq_eq_false_iff_ne]
    rw [wholeNumber?, hall, hhead', Text.decimalValue_decimalDigits]
    simp [Nat.not_lt.2 hn]

/-- The digits of a number in front of a closing bracket. -/
theorem number?_decimalDigits {n : Nat} (rest : List Char)
    (hn : (Text.decimalDigits n).length ≤ Text.digitLimit) :
    number? (Text.decimalDigits n ++ ')' :: rest) = some (.integer n, ')' :: rest) := by
  have hrun : digitRun Char.isDigit (Text.decimalDigits n ++ ')' :: rest) =
      some (Text.decimalDigits n, ')' :: rest) := by
    refine digitRun_append (fun c hc => Text.isDigit_of_mem_decimalDigits hc) ?_
    rintro c hc
    cases hc
    decide
  have hafter : afterWhole? (Text.decimalDigits n) (')' :: rest) =
      some (.integer n, ')' :: rest) := by
    have hfraction : fraction? (')' :: rest) = some (none, ')' :: rest) := rfl
    have hfinish : afterFraction? (Text.decimalDigits n) none (')' :: rest) =
        (wholeNumber? (Text.decimalDigits n)).map (·, ')' :: rest) := rfl
    rw [afterWhole?, hfraction]
    simp only [hfinish, wholeNumber?_decimalDigits hn, Option.map_some]
  -- a letter behind a leading zero would make a number of another base
  have hbase : ∀ x after, x ≠ ')' →
      Text.decimalDigits n ++ ')' :: rest = '0' :: x :: after → False := by
    intro x after hx heq
    by_cases hzero : n = 0
    · rw [hzero, Text.decimalDigits_zero] at heq
      have hnext := (List.cons.inj (List.cons.inj heq).2).1
      exact hx hnext.symm
    · have hhead := congrArg List.head? heq
      rw [List.head?_append_of_ne_nil _ (Text.decimalDigits_ne_nil n)] at hhead
      exact Text.head?_decimalDigits_ne (Nat.pos_of_ne_zero hzero) hhead
  rw [number?]
  · rw [hrun]
    exact hafter
  all_goals
    intro after
    exact hbase _ after (by decide)

/-! ## One token -/

/-- A word in front of what is no part of it. -/
theorem token?_word {c : Char} {cs rest : List Char} (hc : isWordStart c = true)
    (hcs : cs.all isWordPart = true) (hrest : ∀ d ∈ rest.head?, isWordPart d = false) :
    token? c (cs ++ rest) = some (Token.ofWord (String.ofList (c :: cs)), rest) := by
  have hparts : ∀ d ∈ c :: cs, isWordPart d = true :=
    List.forall_mem_cons.2 ⟨isWordPart_of_isWordStart hc, List.all_eq_true.1 hcs⟩
  have hword := word_append hparts hrest
  rw [token?, if_pos hc, ← List.cons_append, hword]

/-- A number in front of a closing bracket. -/
theorem scan_number {n k : Nat} (rest : List Char)
    (hk : (Text.decimalDigits k).length ≤ Text.digitLimit) (hn : n ≤ bracketLimit) :
    scan n (Text.decimalDigits k ++ ')' :: rest) =
      prepend [.literal (.integer k)] (scan n (')' :: rest)) := by
  have hnumber := number?_decimalDigits rest hk
  cases hdigits : Text.decimalDigits k with
  | nil => exact (Text.decimalDigits_ne_nil k hdigits).elim
  | cons d ds =>
      have hd : d.isDigit = true :=
        Text.isDigit_of_mem_decimalDigits (n := k) (hdigits ▸ List.mem_cons_self)
      rw [hdigits] at hnumber
      have hclass : (!isWordStart d && !isSeparator d && !isLineBreak d) = true :=
        Text.forall_isDigit (p := fun d => !isWordStart d && !isSeparator d && !isLineBreak d)
          (by decide) hd
      simp only [Bool.and_eq_true, Bool.not_eq_true'] at hclass
      rcases hclass with ⟨⟨hstart, hseparator⟩, hbreak⟩
      have htoken : token? d (ds ++ ')' :: rest) =
          some (.literal (.integer k), ')' :: rest) := by
        rw [token?, hstart, hd, ← List.cons_append, hnumber]
        rfl
      exact scan_of_token? hseparator hbreak htoken hn

/-! ## The end of a text -/

/-- No character stands for the end of a text. -/
theorem ne_lineEnd_of_token? {c : Char} {cs after : List Char} {t : Token}
    (h : token? c cs = some (t, after)) : t ≠ .lineEnd := by
  have hword : ∀ w : String, Token.ofWord w ≠ .lineEnd := by
    intro w
    rw [Token.ofWord]
    split
    · nofun
    · split
      · nofun
      · split <;> nofun
  have hliteral : ∀ {found : Option (Literal × List Char)},
      found.map literalToken = some (t, after) → t ≠ .lineEnd := by
    intro found hfound
    rcases Option.map_eq_some_iff.1 hfound with ⟨v, -, heq⟩
    cases heq
    nofun
  unfold token? at h
  split at h
  · cases h
    exact hword _
  · split at h
    · exact hliteral h
    · split at h
      · exact hliteral h
      · unfold sign? doubling point at h
        grind

/-- What is cut off has no end of its own. -/
theorem lineEnd_not_mem_scan (n : Nat) (cs : List Char) : .lineEnd ∉ (scan n cs).1 := by
  have hprepend : ∀ {c : Char} {rest after : List Char} {t : Token} {found : List Token × Bool},
      token? c rest = some (t, after) → .lineEnd ∉ found.1 →
      .lineEnd ∉ (prepend [t] found).1 := by
    intro c rest after t found ht hfound
    rw [prepend, List.mem_append, List.mem_singleton, not_or]
    exact ⟨(ne_lineEnd_of_token? ht).symm, hfound⟩
  fun_induction scan n cs with
  | case1 => exact List.not_mem_nil
  | case2 _ _ _ _ ih => exact ih
  | case3 => exact List.not_mem_nil
  | case4 _ _ _ _ _ _ ih => exact ih
  | case5 => exact List.not_mem_nil
  | case6 => exact List.not_mem_nil
  | case7 _ _ _ _ _ _ h _ _ _ ih => exact hprepend h ih
  | case8 _ _ _ _ _ _ h _ _ ih => exact hprepend h ih
  | case9 _ _ _ _ _ _ _ h _ _ _ _ ih => exact hprepend h ih

/-- In front of an unmatched bracket stand only tokens that were there. -/
theorem mem_of_mem_untilUnmatched {t : Token} {n : Nat} {ts : List Token}
    (h : t ∈ Token.untilUnmatched n ts) : t ∈ ts := by
  fun_induction Token.untilUnmatched n ts with
  | case1 => cases h
  | case2 _ _ ih => exact List.mem_cons.2 ((List.mem_cons.1 h).imp_right ih)
  | case3 => cases h
  | case4 _ _ ih => exact List.mem_cons.2 ((List.mem_cons.1 h).imp_right ih)
  | case5 _ _ _ _ _ _ ih => exact List.mem_cons.2 ((List.mem_cons.1 h).imp_right ih)

/-- A text has an end only if all of it is cut into tokens. -/
theorem exists_scan_of_lineEnd_mem {cs : List Char} (h : .lineEnd ∈ tokens cs) :
    ∃ ts, scan 0 cs = (ts, true) ∧ tokens cs = ts ++ [.lineEnd] := by
  have hnone := lineEnd_not_mem_scan 0 cs
  unfold tokens at h ⊢
  split at h
  · rename_i ts hscan
    rw [hscan] at hnone
    split at h
    · rename_i hclosed
      exact ⟨ts, hscan, if_pos hclosed⟩
    · exact (hnone (mem_of_mem_untilUnmatched h)).elim
  · rename_i ts hscan
    rw [hscan] at hnone
    exact (hnone (mem_of_mem_untilUnmatched h)).elim

end Lexer
end StockFlow
