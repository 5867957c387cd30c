import StockFlow.Expression.Token
import StockFlow.Number.Double
import StockFlow.Text.Basic

/-!
# Reading tokens

Text is cut into tokens from the left, the longest token first.  Spaces, tabs
and form feeds separate tokens, line breaks only inside brackets; no other blank
may stand between tokens.  More than {lit}`Lexer.bracketLimit` brackets may not
be open at once.

Main definitions:

- {lit}`Lexer.number?`: a number at the start of a text.
- {lit}`Lexer.token?`: one token at the start of a text.
- {lit}`Lexer.scan`: the tokens of a text as far as it is cut into tokens of this syntax.
- {lit}`Lexer.tokens`: the tokens of a text with its end, if there is one.

Main results:

- Theorem {lit}`Lexer.token?_length`: a token takes at least one character.
-/

namespace StockFlow
namespace Lexer

/-! ## Character classes -/

/-- Letters and the underscore start a word. -/
def isWordStart (c : Char) : Bool := c.isAlpha || c == '_'

/-- Letters, digits and the underscore continue a word. -/
def isWordPart (c : Char) : Bool := c.isAlphanum || c == '_'

/-- Blanks that separate tokens everywhere. -/
def isSeparator (c : Char) : Bool := c == ' ' || c == '\t' || c == '\x0c'

/-- Blanks that separate tokens inside brackets. -/
def isLineBreak (c : Char) : Bool := c == '\n' || c == '\r'

/-- Digits of base sixteen. -/
def isHexDigit (c : Char) : Bool := c.isDigit || ('a' ≤ c && c ≤ 'f') || ('A' ≤ c && c ≤ 'F')

/-- Digits of base eight. -/
def isOctalDigit (c : Char) : Bool := '0' ≤ c && c ≤ '7'

/-- Digits of base two. -/
def isBinaryDigit (c : Char) : Bool := c == '0' || c == '1'

/-! ## Numbers -/

/--
The digits at the start of a text and what follows them.  Single underscores may
stand in front of digits and are left out; an underscore without a digit after
it makes the text unreadable.
-/
def digitRun (isDigit : Char → Bool) : List Char → Option (List Char × List Char)
  | [] => some ([], [])
  | c :: rest =>
      if isDigit c then
        (digitRun isDigit rest).map fun found => (c :: found.1, found.2)
      else if c = '_' then
        match rest with
        | [] => none
        | d :: rest' =>
            if isDigit d then
              (digitRun isDigit rest').map fun found => (d :: found.1, found.2)
            else none
      else some ([], c :: rest)

/-- The value of a digit in a base up to sixteen. -/
def digitOf (c : Char) : Nat :=
  if c.isDigit then c.toNat - '0'.toNat
  else if 'a' ≤ c then c.toNat - 'a'.toNat + 10
  else c.toNat - 'A'.toNat + 10

/-- The value of a row of digits in a base. -/
def valueIn (base : Nat) (digits : List Char) : Nat :=
  digits.foldl (fun n c => base * n + digitOf c) 0

/-- Keywords that may follow a number without a blank. -/
def wordsAfterNumber : List (List Char) :=
  ["and".toList, "else".toList, "for".toList, "if".toList, "in".toList, "is".toList, "or".toList,
   "not".toList]

/-- A number ends where no letter follows, unless the letters start one of a few keywords. -/
def endsNumber (rest : List Char) : Bool :=
  match rest with
  | [] => true
  | c :: _ => !isWordPart c || wordsAfterNumber.any (·.isPrefixOf rest)

/-- A number in base sixteen, eight or two, after its two leading characters. -/
def basedInteger? (base : Nat) (isDigit : Char → Bool) (cs : List Char) :
    Option (Literal × List Char) :=
  match digitRun isDigit cs with
  | some (digits, rest) =>
      if digits.isEmpty || !endsNumber rest then none
      else some (.integer (valueIn base digits), rest)
  | none => none

/-- The exponent after its letter: its value and the rest. -/
def exponent? (cs : List Char) : Option (Int × List Char) :=
  match cs with
  | '+' :: rest =>
      (digitRun Char.isDigit rest).map fun found => ((Text.decimalValue found.1 : Int), found.2)
  | '-' :: rest =>
      (digitRun Char.isDigit rest).map fun found => (-(Text.decimalValue found.1 : Int), found.2)
  | _ =>
      (digitRun Char.isDigit cs).map fun found => ((Text.decimalValue found.1 : Int), found.2)

/-- Whether a text starts with a digit. -/
def startsWithDigit (cs : List Char) : Bool :=
  match cs with
  | d :: _ => d.isDigit
  | [] => false

/-- Whether a text starts with a digit, after a sign if there is one. -/
def startsExponent (cs : List Char) : Bool :=
  match cs with
  | '+' :: rest => startsWithDigit rest
  | '-' :: rest => startsWithDigit rest
  | _ => startsWithDigit cs

/-- A whole number without a sign: no leading zeros, and no more digits than the limit. -/
def wholeNumber? (digits : List Char) : Option Literal :=
  if digits.all (· == '0') then some (.integer 0)
  else if digits.head? == some '0' then none
  else if Text.digitLimit < digits.length then none
  else some (.integer (Text.decimalValue digits))

/-- The end of a decimal number whose mantissa and exponent have been read. -/
def finishDecimal? (digits : List Char) (power : Int) (rest : List Char) :
    Option (Literal × List Char) :=
  let value := Double.ofDecimal false (Text.decimalValue digits) power
  match rest with
  | 'j' :: after | 'J' :: after =>
      if endsNumber after then some (.imaginary value, after) else none
  | _ => if endsNumber rest then some (.real value, rest) else none

/-- The digits after a point, if there is a point. -/
def fraction? (cs : List Char) : Option (Option (List Char) × List Char) :=
  match cs with
  | '.' :: rest =>
      if startsWithDigit rest then
        (digitRun Char.isDigit rest).map fun found => (some found.1, found.2)
      else some (some [], rest)
  | _ => some (none, cs)

/-- The value of a whole part and a fraction. -/
def mantissaValue (whole : List Char) (fraction : Option (List Char)) : Float :=
  let digits := fraction.getD []
  Double.ofDecimal false (Text.decimalValue (whole ++ digits)) (-(digits.length : Int))

/-- A number in front of the keyword whose first letter could start an exponent. -/
def beforeKeyword? (whole : List Char) (fraction : Option (List Char)) : Option Literal :=
  if fraction.isSome || (whole.head? == some '0' && whole.any (· != '0')) then
    some (.real (mantissaValue whole fraction))
  else wholeNumber? whole

/--
A decimal number after its whole part and its fraction.  A fraction or an
exponent makes it a real, a final `j` an imaginary number.  The letter `e`
belongs to the number unless it starts the keyword that may follow one; leading
zeros then make a real.
-/
def afterFraction? (whole : List Char) (fraction : Option (List Char)) (cs : List Char) :
    Option (Literal × List Char) :=
  let digits := whole ++ fraction.getD []
  let power : Int := -((fraction.getD []).length : Int)
  match cs with
  | 'e' :: after | 'E' :: after =>
      if startsExponent after then
        match exponent? after with
        | some (n, rest) => finishDecimal? digits (power + n) rest
        | none => none
      else if "else".toList.isPrefixOf cs then
        (beforeKeyword? whole fraction).map (·, cs)
      else none
  | 'j' :: _ | 'J' :: _ => finishDecimal? digits power cs
  | _ =>
      if fraction.isSome then finishDecimal? digits power cs
      else if endsNumber cs then (wholeNumber? whole).map (·, cs)
      else none

/-- A decimal number after its whole part. -/
def afterWhole? (whole : List Char) (cs : List Char) : Option (Literal × List Char) :=
  match fraction? cs with
  | some (fraction, rest) => afterFraction? whole fraction rest
  | none => none

/-- A number at the start of a text that begins with a digit. -/
def number? (cs : List Char) : Option (Literal × List Char) :=
  match cs with
  | '0' :: 'x' :: rest | '0' :: 'X' :: rest => basedInteger? 16 isHexDigit rest
  | '0' :: 'o' :: rest | '0' :: 'O' :: rest => basedInteger? 8 isOctalDigit rest
  | '0' :: 'b' :: rest | '0' :: 'B' :: rest => basedInteger? 2 isBinaryDigit rest
  | _ =>
      match digitRun Char.isDigit cs with
      | some (whole, rest) => afterWhole? whole rest
      | none => none

/-! ## Tokens -/

/-- A word at the start of a text. -/
def word (cs : List Char) : Token × List Char :=
  (Token.ofWord (String.ofList (cs.takeWhile isWordPart)), cs.dropWhile isWordPart)

/-- A number as a token. -/
def literalToken (found : Literal × List Char) : Token × List Char :=
  (.literal found.1, found.2)

/-- A sign that is another one when its character is doubled. -/
def doubling (c : Char) (single double : Token) (cs : List Char) : Token × List Char :=
  match cs with
  | [] => (single, [])
  | d :: rest => if d = c then (double, rest) else (single, d :: rest)

/-- What a point that starts no number stands for: three of them are a constant. -/
def point (cs : List Char) : Token × List Char :=
  match cs with
  | '.' :: '.' :: rest => (.literal .ellipsis, rest)
  | _ => (.dot, cs)

/-- A sign of one or two characters. -/
def sign? (c : Char) (cs : List Char) : Option (Token × List Char) :=
  match c with
  | '*' => some (doubling '*' .star .doubleStar cs)
  | '/' => some (doubling '/' .slash .doubleSlash cs)
  | '+' => some (.plus, cs)
  | '-' => some (.minus, cs)
  | '(' => some (.opening, cs)
  | ')' => some (.closing, cs)
  | ',' => some (.comma, cs)
  | '.' => some (point cs)
  | _ => none

/-- One token at the start of a text that does not start with a blank. -/
def token? (c : Char) (cs : List Char) : Option (Token × List Char) :=
  if isWordStart c then some (word (c :: cs))
  else if c.isDigit then (number? (c :: cs)).map literalToken
  else if c = '.' ∧ startsWithDigit cs then (afterWhole? [] ('.' :: cs)).map literalToken
  else sign? c cs

/-! ## Progress -/

/-- A run of digits and what it leaves are no longer than the text. -/
theorem digitRun_length {p : Char → Bool} {cs digits rest : List Char}
    (h : digitRun p cs = some (digits, rest)) : digits.length + rest.length ≤ cs.length := by
  fun_induction digitRun p cs generalizing digits with
  | case1 => simp_all
  | case2 c cs' hc ih =>
      obtain ⟨⟨ds, r⟩, hr, heq⟩ := Option.map_eq_some_iff.1 h
      simp only [Prod.mk.injEq] at heq
      obtain ⟨rfl, rfl⟩ := heq
      have := ih hr
      simp only [List.length_cons]
      omega
  | case3 => simp at h
  | case4 d cs' hd hc ih =>
      obtain ⟨⟨ds, r⟩, hr, heq⟩ := Option.map_eq_some_iff.1 h
      simp only [Prod.mk.injEq] at heq
      obtain ⟨rfl, rfl⟩ := heq
      have := ih hr
      simp only [List.length_cons]
      omega
  | case5 => simp at h
  | case6 c cs' hc hu =>
      simp only [Option.some.injEq, Prod.mk.injEq] at h
      simp [← h.1, ← h.2]

/-- The digit at the start of a text belongs to the digits read. -/
theorem digitRun_length_lt {p : Char → Bool} {c : Char} {cs digits rest : List Char}
    (hc : p c = true) (h : digitRun p (c :: cs) = some (digits, rest)) :
    rest.length < (c :: cs).length := by
  rw [digitRun.eq_def] at h
  simp only [hc, if_true] at h
  obtain ⟨⟨ds, r⟩, hr, heq⟩ := Option.map_eq_some_iff.1 h
  simp only [Prod.mk.injEq] at heq
  have := digitRun_length hr
  rw [← heq.2, List.length_cons]
  omega

/-- A number in another base is no longer than the text that it starts. -/
theorem basedInteger?_length {base : Nat} {p : Char → Bool} {cs rest : List Char} {v : Literal}
    (h : basedInteger? base p cs = some (v, rest)) : rest.length ≤ cs.length := by
  unfold basedInteger? at h
  split at h
  · rename_i digits after hrun
    split at h
    · simp at h
    · simp only [Option.some.injEq, Prod.mk.injEq] at h
      have := digitRun_length hrun
      rw [← h.2]
      omega
  · simp at h

/-- An exponent is no longer than the text that it starts. -/
theorem exponent?_length {cs rest : List Char} {n : Int}
    (h : exponent? cs = some (n, rest)) : rest.length ≤ cs.length := by
  have of_run : ∀ {ds : List Char} (value : List Char → Int),
      (digitRun Char.isDigit ds).map (fun found => (value found.1, found.2)) = some (n, rest) →
        rest.length ≤ ds.length := by
    intro ds value hrun
    obtain ⟨⟨digits, after⟩, hr, heq⟩ := Option.map_eq_some_iff.1 hrun
    simp only [Prod.mk.injEq] at heq
    have := digitRun_length hr
    rw [← heq.2]
    omega
  unfold exponent? at h
  split at h
  · exact Nat.le_succ_of_le (of_run (fun digits => Text.decimalValue digits) h)
  · exact Nat.le_succ_of_le (of_run (fun digits => -(Text.decimalValue digits : Int)) h)
  · exact of_run (fun digits => Text.decimalValue digits) h

/-- The end of a decimal number is no longer than the text that it starts. -/
theorem finishDecimal?_length {digits cs rest : List Char} {n : Int} {v : Literal}
    (h : finishDecimal? digits n cs = some (v, rest)) : rest.length ≤ cs.length := by
  simp only [finishDecimal?] at h
  split at h <;> split at h <;> simp only [Option.some.injEq, Prod.mk.injEq, reduceCtorEq] at h <;>
    simp [← h.2]

/-- What follows a fraction is no longer than the text. -/
theorem afterFraction?_length {whole cs rest : List Char} {fraction : Option (List Char)}
    {v : Literal} (h : afterFraction? whole fraction cs = some (v, rest)) :
    rest.length ≤ cs.length := by
  have keeps : ∀ {o : Option Literal}, o.map (·, cs) = some (v, rest) → rest.length ≤ cs.length := by
    intro o ho
    obtain ⟨_, _, heq⟩ := Option.map_eq_some_iff.1 ho
    simp only [Prod.mk.injEq] at heq
    simp [← heq.2]
  have afterLetter : ∀ {e : Char} {after : List Char}, cs = e :: after →
      (if startsExponent after then
        match exponent? after with
        | some (n, r) =>
            finishDecimal? (whole ++ fraction.getD []) (-((fraction.getD []).length : Int) + n) r
        | none => none
      else if "else".toList.isPrefixOf cs then (beforeKeyword? whole fraction).map (·, cs)
      else none) = some (v, rest) → rest.length ≤ cs.length := by
    intro e after hcs hread
    split at hread
    · split at hread
      · rename_i n r hexp
        have h₁ := finishDecimal?_length hread
        have h₂ := exponent?_length hexp
        simp only [hcs, List.length_cons]
        omega
      · simp at hread
    · split at hread
      · exact keeps hread
      · simp at hread
  simp only [afterFraction?] at h
  split at h
  · exact afterLetter rfl h
  · exact afterLetter rfl h
  · exact finishDecimal?_length h
  · exact finishDecimal?_length h
  · split at h
    · exact finishDecimal?_length h
    · split at h
      · exact keeps h
      · simp at h

/-- A fraction is no longer than the text that it starts. -/
theorem fraction?_length {cs rest : List Char} {fraction : Option (List Char)}
    (h : fraction? cs = some (fraction, rest)) : rest.length ≤ cs.length := by
  unfold fraction? at h
  split at h
  · split at h
    · obtain ⟨⟨ds, r⟩, hr, heq⟩ := Option.map_eq_some_iff.1 h
      simp only [Prod.mk.injEq] at heq
      have := digitRun_length hr
      rw [← heq.2, List.length_cons]
      omega
    · simp only [Option.some.injEq, Prod.mk.injEq] at h
      simp [← h.2]
  · simp only [Option.some.injEq, Prod.mk.injEq] at h
    simp [← h.2]

/-- A point is taken whatever follows it. -/
theorem fraction?_point_length {cs rest : List Char} {fraction : Option (List Char)}
    (h : fraction? ('.' :: cs) = some (fraction, rest)) : rest.length ≤ cs.length := by
  simp only [fraction?] at h
  split at h
  · obtain ⟨⟨ds, r⟩, hr, heq⟩ := Option.map_eq_some_iff.1 h
    simp only [Prod.mk.injEq] at heq
    have := digitRun_length hr
    rw [← heq.2]
    omega
  · simp only [Option.some.injEq, Prod.mk.injEq] at h
    simp [← h.2]

/-- What follows a whole part is no longer than the text. -/
theorem afterWhole?_length {whole cs rest : List Char} {v : Literal}
    (h : afterWhole? whole cs = some (v, rest)) : rest.length ≤ cs.length := by
  unfold afterWhole? at h
  split at h
  · rename_i hf
    exact Nat.le_trans (afterFraction?_length h) (fraction?_length hf)
  · simp at h

/-- A number takes at least its first digit. -/
theorem number?_length {c : Char} {cs rest : List Char} {v : Literal} (hc : c.isDigit = true)
    (h : number? (c :: cs) = some (v, rest)) : rest.length < (c :: cs).length := by
  unfold number? at h
  split at h
  case h_7 =>
    split at h
    · rename_i hrun
      exact Nat.lt_of_le_of_lt (afterWhole?_length h) (digitRun_length_lt hc hrun)
    · simp at h
  all_goals
    rename_i heq
    have := basedInteger?_length h
    rw [heq]
    simp only [List.length_cons]
    omega

/-- What starts a word may be part of one. -/
theorem isWordPart_of_isWordStart {c : Char} (h : isWordStart c = true) : isWordPart c = true := by
  simp only [isWordStart, isWordPart, Char.isAlphanum, Bool.or_eq_true] at *
  rcases h with h | h
  · exact Or.inl (Or.inl h)
  · exact Or.inr h

/-- A word takes at least the character that starts it. -/
theorem word_length {c : Char} (cs : List Char) (hc : isWordStart c = true) :
    (word (c :: cs)).2.length < (c :: cs).length := by
  simp only [word, List.dropWhile_cons_of_pos (isWordPart_of_isWordStart hc)]
  exact Nat.lt_succ_of_le (List.dropWhile_suffix _).length_le

/-- A literal leaves as much when it is made a token. -/
theorem literalToken_length {found : Option (Literal × List Char)} {t : Token} {n : Nat}
    {rest : List Char} (hfound : ∀ v r, found = some (v, r) → r.length < n)
    (h : found.map literalToken = some (t, rest)) : rest.length < n := by
  obtain ⟨⟨v, r⟩, hr, heq⟩ := Option.map_eq_some_iff.1 h
  simp only [literalToken, Prod.mk.injEq] at heq
  exact heq.2 ▸ hfound v r hr

/-- A sign that may be doubled leaves no more than it finds. -/
theorem doubling_length (c : Char) (single double : Token) (cs : List Char) :
    (doubling c single double cs).2.length ≤ cs.length := by
  unfold doubling
  split
  · exact Nat.le_refl _
  · split
    · exact Nat.le_succ _
    · exact Nat.le_refl _

/-- A point, or an ellipsis, leaves no more than it finds. -/
theorem point_length (cs : List Char) : (point cs).2.length ≤ cs.length := by
  unfold point
  split
  · simp only [List.length_cons]
    omega
  · exact Nat.le_refl _

/-- A sign leaves no more than it finds. -/
theorem sign?_length {c : Char} {cs rest : List Char} {t : Token}
    (h : sign? c cs = some (t, rest)) : rest.length ≤ cs.length := by
  have of_eq : ∀ {found : Token × List Char}, found.2.length ≤ cs.length →
      some found = some (t, rest) → rest.length ≤ cs.length := by
    intro found hlen hfound
    rw [Option.some.injEq] at hfound
    rw [hfound] at hlen
    exact hlen
  unfold sign? at h
  split at h
  · exact of_eq (doubling_length _ _ _ _) h
  · exact of_eq (doubling_length _ _ _ _) h
  · exact of_eq (Nat.le_refl _) h
  · exact of_eq (Nat.le_refl _) h
  · exact of_eq (Nat.le_refl _) h
  · exact of_eq (Nat.le_refl _) h
  · exact of_eq (Nat.le_refl _) h
  · exact of_eq (point_length _) h
  · simp at h

/-- A token takes at least one character. -/
theorem token?_length {c : Char} {cs rest : List Char} {t : Token}
    (h : token? c cs = some (t, rest)) : rest.length < (c :: cs).length := by
  unfold token? at h
  split at h
  · rename_i hw
    rw [Option.some.injEq] at h
    have := word_length cs hw
    rw [h] at this
    exact this
  · split at h
    · rename_i hd
      exact literalToken_length (fun v r hr => number?_length hd hr) h
    · split at h
      · refine literalToken_length (fun v r hr => ?_) h
        unfold afterWhole? at hr
        split at hr
        · rename_i hf
          exact Nat.lt_succ_of_le
            (Nat.le_trans (afterFraction?_length hr) (fraction?_point_length hf))
        · simp at hr
      · exact Nat.lt_succ_of_le (sign?_length h)

/-- The most brackets that may be open at once. -/
def bracketLimit : Nat := 200

/-- What is found in a text behind some tokens. -/
def prepend (ts : List Token) (found : List Token × Bool) : List Token × Bool :=
  (ts ++ found.1, found.2)

/--
The tokens at the start of a text in which a number of brackets is open already, and
whether they are all of the text.
-/
def scan (depth : Nat) (cs : List Char) : List Token × Bool :=
  match cs with
  | [] => ([], true)
  | c :: rest =>
      if isSeparator c then scan depth rest
      else if isLineBreak c then
        if depth = 0 then ([], false) else scan depth rest
      else
        match h : token? c rest with
        | none => ([], false)
        | some (t, after) =>
            have : after.length < rest.length + 1 := token?_length h
            match t with
            | .opening =>
                if bracketLimit ≤ depth then ([], false) else prepend [t] (scan (depth + 1) after)
            | .closing => prepend [t] (scan (depth - 1) after)
            | _ => prepend [t] (scan depth after)
termination_by cs.length

/--
The tokens of a text, up to a bracket that closes none.  Only where all of it is cut into
tokens and every bracket has its other one do they have an end.
-/
def tokens (cs : List Char) : List Token :=
  match scan 0 cs with
  | (ts, true) =>
      if Token.closeAll 0 ts then ts ++ [.lineEnd] else Token.untilUnmatched 0 ts
  | (ts, false) => Token.untilUnmatched 0 ts

end Lexer
end StockFlow
