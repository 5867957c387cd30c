import StockFlow.Formula.Reader
import StockFlow.Proofs.Expression.Grammar
import StockFlow.Proofs.Expression.Lexing

/-!
# Formula text in pieces

Formula text consists of references, signs, function names, brackets, commas and
blanks.  A text is cut into the tokens of its pieces, as long as no two of them
run together and not too many brackets are open at once.

Main definitions:

- {lit}`Piece`, {lit}`Piece.textOf`, {lit}`Piece.tokensOf`: what formula text is made of.
- {lit}`Piece.Readable`, {lit}`Piece.Separated`: what can be cut into tokens.

Main results:

- Theorem {lit}`Piece.scan_textOf`: texts are cut into the tokens of their pieces.
- Theorem {lit}`Piece.scan_textOf_of_lt`: unless too many brackets are open.
-/

namespace StockFlow

/-- What formula text is made of. -/
inductive Piece where
  | reference (r : NodeReference)
  /-- A sign, or the name of a function. -/
  | operator (op : Operator)
  | opening
  | closing
  | comma
  | blank (c : Char)

namespace Piece

/-- A piece as it is written, with a canonical reference. -/
def chars : Piece → List Char
  | .reference r => Reference.canonical r.kind r.id
  | .operator op => op.symbol.toList
  | .opening => ['(']
  | .closing => [')']
  | .comma => [',']
  | .blank c => [c]

/-- The tokens of a piece. -/
def tokens : Piece → List Token
  | .reference r => r.tokens
  | .operator op => [op.token]
  | .opening => [.opening]
  | .closing => [.closing]
  | .comma => [.comma]
  | .blank _ => []

/-- The text of pieces. -/
def textOf (ps : List Piece) : List Char := ps.flatMap chars

/-- The tokens of pieces. -/
def tokensOf (ps : List Piece) : List Token := ps.flatMap tokens

/-- Whether a piece can be read: no number is too long, and blanks may stand between tokens. -/
def Readable : Piece → Prop
  | .reference r => (Text.decimalDigits r.id).length ≤ Text.digitLimit
  | .blank c => Lexer.isSeparator c = true
  | _ => True

/-- Whether an operator does not run together with what stands behind it. -/
def Follows (op : Operator) : List Piece → Prop
  | .opening :: _ => True
  | .blank _ :: _ => True
  | .reference _ :: _ => op.isFunction = false
  | .operator op' :: _ => op.isFunction = false ∧ op'.isFunction = true
  | _ => False

/-- Whether no two pieces run together. -/
def Separated : List Piece → Prop
  | [] => True
  | .operator op :: rest => Follows op rest ∧ Separated rest
  | _ :: rest => Separated rest

/-- More pieces at the end change nothing for an operator in front. -/
theorem Follows.append {op : Operator} {ps : List Piece} (h : Follows op ps) (qs : List Piece) :
    Follows op (ps ++ qs) := by
  cases ps with
  | nil => exact h.elim
  | cons p rest => cases p <;> exact h

/-- Separated pieces one after the other are separated. -/
theorem Separated.append {ps qs : List Piece} (hp : Separated ps) (hq : Separated qs) :
    Separated (ps ++ qs) := by
  induction ps with
  | nil => exact hq
  | cons p rest ih =>
      cases p with
      | operator op => exact ⟨hp.1.append qs, ih hp.2⟩
      | _ => exact ih hp

@[simp] theorem textOf_nil : textOf [] = [] := rfl

/-- A text begins with the characters of its first piece. -/
@[simp] theorem textOf_cons (p : Piece) (ps : List Piece) :
    textOf (p :: ps) = p.chars ++ textOf ps := rfl

/-- The texts of pieces are joined. -/
@[simp] theorem textOf_append (ps qs : List Piece) : textOf (ps ++ qs) = textOf ps ++ textOf qs :=
  List.flatMap_append

/-- A token list begins with the tokens of its first piece. -/
@[simp] theorem tokensOf_cons (p : Piece) (ps : List Piece) :
    tokensOf (p :: ps) = p.tokens ++ tokensOf ps := rfl

/-- The tokens of pieces are joined. -/
@[simp] theorem tokensOf_append (ps qs : List Piece) :
    tokensOf (ps ++ qs) = tokensOf ps ++ tokensOf qs :=
  List.flatMap_append

/-! ## Tokens -/

open Lexer

/-- Whether a piece in front of other text is cut off as its tokens. -/
def CutOff (p : Piece) (rest : List Char) : Prop :=
  ∀ n, mostOpenFrom Text.openAfter n (p.chars ++ rest) ≤ bracketLimit →
    ∃ m, mostOpenFrom Text.openAfter m rest ≤ bracketLimit ∧
      scan n (p.chars ++ rest) = prepend p.tokens (scan m rest)

/-- An opening bracket is cut off from anything. -/
theorem cutOff_opening (rest : List Char) : CutOff .opening rest := by
  intro n hopen
  have hafter : Text.openAfter n '(' = n + 1 := rfl
  have hrest : mostOpenFrom Text.openAfter (n + 1) rest ≤ bracketLimit := by
    rwa [chars, List.singleton_append, mostOpenFrom_cons_of_lt (by rw [hafter]; omega)] at hopen
  refine ⟨n + 1, hrest, ?_⟩
  exact scan_of_token? rfl rfl rfl (Nat.le_trans (le_mostOpenFrom _ rest) hrest)

/-- A closing bracket is scanned as one bracket open less. -/
theorem scan_closing {n : Nat} (rest : List Char) (hn : n - 1 ≤ bracketLimit) :
    scan n (chars .closing ++ rest) = prepend [.closing] (scan (n - 1) rest) :=
  scan_of_token? rfl rfl rfl hn

/-- A closing bracket is cut off from anything. -/
theorem cutOff_closing (rest : List Char) : CutOff .closing rest := by
  intro n hopen
  have hrest : mostOpenFrom Text.openAfter (n - 1) rest ≤ bracketLimit :=
    Nat.le_trans (Nat.le_max_right n _) hopen
  refine ⟨n - 1, hrest, ?_⟩
  exact scan_closing rest (Nat.le_trans (le_mostOpenFrom _ rest) hrest)

/-- Whether a piece neither opens nor closes anything and is cut off as its tokens. -/
structure Passes (p : Piece) (rest : List Char) : Prop where
  open_eq : ∀ n, mostOpenFrom Text.openAfter n (p.chars ++ rest) =
    mostOpenFrom Text.openAfter n rest
  tokens_eq : ∀ n ≤ bracketLimit,
    scan n (p.chars ++ rest) = prepend p.tokens (scan n rest)

/-- A piece that passes without brackets is cut off as its tokens. -/
theorem Passes.cutOff {p : Piece} {rest : List Char} (h : Passes p rest) : CutOff p rest := by
  intro n hopen
  rw [h.open_eq] at hopen
  exact ⟨n, hopen, h.tokens_eq n (Nat.le_trans (le_mostOpenFrom n rest) hopen)⟩

/-- A piece that is read as one token and is no bracket passes. -/
theorem Passes.of_token? {p : Piece} (c : Char) (cs : List Char) {rest : List Char} {t : Token}
    (hchars : p.chars = c :: cs) (htokens : p.tokens = [t])
    (hc : isSeparator c = false) (hc' : isLineBreak c = false)
    (hopen : ∀ n, ∀ d ∈ c :: cs, Text.openAfter n d = n) (ht : ∀ n, Token.openAfter n t = n)
    (htoken : token? c (cs ++ rest) = some (t, rest)) : Passes p rest where
  open_eq := by
    intro n
    rw [hchars, mostOpenFrom_append_of_eq (hopen n)]
  tokens_eq := by
    intro n hn
    have hcut := scan_of_token? (n := n) hc hc' htoken (by rwa [ht])
    rw [hchars, htokens, List.cons_append, hcut, ht]

/-- A comma passes in front of anything. -/
theorem passes_comma (rest : List Char) : Passes .comma rest :=
  Passes.of_token? ',' [] rfl rfl rfl rfl (by simp [Text.openAfter]) (fun _ => rfl) rfl

/-- The name of a function in front of what is no part of it. -/
theorem passes_function {op : Operator} (hop : op.isFunction = true) {rest : List Char}
    (hrest : ∀ c ∈ rest.head?, isWordPart c = false) : Passes (.operator op) rest := by
  cases op with
  | maximum =>
      exact Passes.of_token? 'M' ['A', 'X'] rfl rfl rfl rfl (by simp [Text.openAfter])
        (fun _ => rfl) (token?_word rfl (by decide) hrest)
  | minimum =>
      exact Passes.of_token? 'M' ['I', 'N'] rfl rfl rfl rfl (by simp [Text.openAfter])
        (fun _ => rfl) (token?_word rfl (by decide) hrest)
  | round =>
      exact Passes.of_token? 'R' ['O', 'U', 'N', 'D'] rfl rfl rfl rfl (by simp [Text.openAfter])
        (fun _ => rfl) (token?_word rfl (by decide) hrest)
  | _ => cases hop

/-- A sign in front of another character. -/
theorem passes_sign {op : Operator} (hop : op.isFunction = false) {rest : List Char}
    (hrest : ∀ c ∈ rest.head?, c ∉ op.symbol.toList) : Passes (.operator op) rest := by
  have hsingle : ∀ (d : Char) (single double : Token), d ∈ op.symbol.toList →
      doubling d single double rest = (single, rest) := by
    intro d single double hd
    cases rest with
    | nil => rfl
    | cons c cs =>
        have hne : ¬ c = d := by
          rintro rfl
          exact hrest c rfl hd
        rw [doubling, if_neg hne]
  cases op with
  | add =>
      exact Passes.of_token? '+' [] rfl rfl rfl rfl (by simp [Text.openAfter]) (fun _ => rfl) rfl
  | subtract =>
      exact Passes.of_token? '-' [] rfl rfl rfl rfl (by simp [Text.openAfter]) (fun _ => rfl) rfl
  | multiply =>
      have htoken : token? '*' rest = some (doubling '*' .star .doubleStar rest) := rfl
      rw [hsingle '*' .star .doubleStar (by decide)] at htoken
      exact Passes.of_token? '*' [] rfl rfl rfl rfl (by simp [Text.openAfter]) (fun _ => rfl) htoken
  | divide =>
      have htoken : token? '/' rest = some (doubling '/' .slash .doubleSlash rest) := rfl
      rw [hsingle '/' .slash .doubleSlash (by decide)] at htoken
      exact Passes.of_token? '/' [] rfl rfl rfl rfl (by simp [Text.openAfter]) (fun _ => rfl) htoken
  | _ => cases hop

/-- A blank passes without a token. -/
theorem passes_blank {c : Char} (hc : isSeparator c = true) (rest : List Char) :
    Passes (.blank c) rest where
  open_eq := fun n => mostOpenFrom_cons_of_eq (openAfter_of_isSeparator hc n) rest
  tokens_eq := by
    intro n _
    rw [chars, List.singleton_append, scan, if_pos hc]
    rfl

/-- The letters of a reference are scanned as a name. -/
theorem scan_letters {n : Nat} (kind : ReferenceKind) (rest : List Char)
    (hn : n ≤ bracketLimit) :
    scan n (kind.letters ++ '(' :: rest) =
      prepend [.name (String.ofList kind.letters)] (scan n ('(' :: rest)) := by
  have hbracket : ∀ d ∈ ('(' :: rest).head?, isWordPart d = false := by
    intro d hd
    cases hd
    rfl
  cases kind with
  | auxiliary => exact scan_of_token? rfl rfl (token?_word rfl (by decide) hbracket) hn
  | constant => exact scan_of_token? rfl rfl (token?_word rfl (by decide) hbracket) hn
  | level => exact scan_of_token? rfl rfl (token?_word rfl (by decide) hbracket) hn

/-- The letters of a reference open and close nothing. -/
theorem openAfter_of_mem_letters {kind : ReferenceKind} (n : Nat) :
    ∀ c ∈ kind.letters, Text.openAfter n c = n := by
  cases kind <;> simp [ReferenceKind.letters, Text.openAfter]

/-- Digits open and close nothing. -/
theorem openAfter_of_mem_decimalDigits {k : Nat} (n : Nat) :
    ∀ c ∈ Text.decimalDigits k, Text.openAfter n c = n := by
  intro c hc
  have hclass : (c != '(' && c != ')') = true :=
    Text.forall_isDigit (p := fun c => c != '(' && c != ')') (by decide)
      (Text.isDigit_of_mem_decimalDigits hc)
  simp only [Bool.and_eq_true, bne_iff_ne] at hclass
  rw [Text.openAfter, if_neg hclass.1, if_neg hclass.2]

/-- A reference is written as letters, and digits in brackets. -/
theorem chars_reference_append (r : NodeReference) (rest : List Char) :
    chars (.reference r) ++ rest =
      r.kind.letters ++ '(' :: (Text.decimalDigits r.id ++ ')' :: rest) := by
  simp [chars, Reference.canonical]

/-- A canonical reference opens one pair of brackets. -/
theorem mostOpenFrom_reference (r : NodeReference) (n : Nat) (rest : List Char) :
    mostOpenFrom Text.openAfter n (chars (.reference r) ++ rest) =
      max (n + 1) (mostOpenFrom Text.openAfter n rest) := by
  have hopening : Text.openAfter n '(' = n + 1 := rfl
  rw [chars_reference_append, mostOpenFrom_append_of_eq (openAfter_of_mem_letters n),
    mostOpenFrom_cons_of_lt (by rw [hopening]; omega), hopening,
    mostOpenFrom_append_of_eq (openAfter_of_mem_decimalDigits (n + 1))]
  rfl

/-- A canonical reference is cut off with its brackets, if there is room for them. -/
theorem scan_reference {r : NodeReference}
    (hr : (Text.decimalDigits r.id).length ≤ Text.digitLimit) {n : Nat}
    (hinside : n + 1 ≤ bracketLimit) (rest : List Char) :
    scan n (chars (.reference r) ++ rest) =
      prepend r.tokens (scan n rest) := by
  have hn : n ≤ bracketLimit := Nat.le_of_succ_le hinside
  have hclosed : scan (n + 1) (')' :: rest) =
      prepend [.closing] (scan n rest) :=
    scan_of_token? rfl rfl rfl hn
  have hopened : scan n ('(' :: (Text.decimalDigits r.id ++ ')' :: rest)) =
      prepend [.opening] (scan (n + 1) (Text.decimalDigits r.id ++ ')' :: rest)) :=
    scan_of_token? rfl rfl rfl hinside
  rw [chars_reference_append, scan_letters r.kind _ hn, hopened,
    scan_number rest hr hinside, hclosed, prepend_prepend, prepend_prepend, prepend_prepend]
  rfl

/-- A reference with few enough digits is cut off as a call of its letters. -/
theorem cutOff_reference {r : NodeReference}
    (hr : (Text.decimalDigits r.id).length ≤ Text.digitLimit) (rest : List Char) :
    CutOff (.reference r) rest := by
  intro n hopen
  rw [mostOpenFrom_reference] at hopen
  have hinside : n + 1 ≤ bracketLimit := Nat.le_trans (Nat.le_max_left _ _) hopen
  have hrest : mostOpenFrom Text.openAfter n rest ≤ bracketLimit :=
    Nat.le_trans (Nat.le_max_right (n + 1) _) hopen
  exact ⟨n, hrest, scan_reference hr hinside rest⟩

/-- The first character behind an operator is no part of it. -/
theorem Follows.head {op : Operator} {ps : List Piece} (h : Follows op ps)
    (hread : ∀ p ∈ ps, p.Readable) {c : Char} (hc : c ∈ (textOf ps).head?) :
    (op.isFunction = true → isWordPart c = false) ∧
      (op.isFunction = false → c ∉ op.symbol.toList) := by
  cases ps with
  | nil => exact h.elim
  | cons p rest =>
      cases p with
      | opening =>
          cases hc
          cases op <;> decide
      | blank d =>
          cases hc
          have hseparator : isSeparator c = true := hread _ List.mem_cons_self
          rcases isSeparator_iff.1 hseparator with rfl | rfl | rfl <;> cases op <;> decide
      | reference r =>
          have hsign : op.isFunction = false := h
          rcases r with ⟨kind, id⟩
          cases kind <;> cases hc <;> cases op <;> first | decide | cases hsign
      | operator op' =>
          rcases h with ⟨hsign, hfunction⟩
          cases op' <;> cases hfunction
          all_goals cases hc
          all_goals cases op <;> first | decide | cases hsign
      | _ => exact h.elim

/-- A separated operator passes. -/
theorem passes_operator {op : Operator} {ps : List Piece}
    (hread : ∀ q ∈ .operator op :: ps, q.Readable) (h : Separated (.operator op :: ps)) :
    Passes (.operator op) (textOf ps) := by
  have hhead := fun c => h.1.head (c := c) fun q hq => hread q (List.mem_cons_of_mem _ hq)
  cases hop : op.isFunction with
  | true => exact passes_function hop fun c hc => (hhead c hc).1 hop
  | false => exact passes_sign hop fun c hc => (hhead c hc).2 hop

/-- Of separated pieces, the first is cut off from the others. -/
theorem cutOff_of_separated {p : Piece} {ps : List Piece} (hread : ∀ q ∈ p :: ps, q.Readable)
    (h : Separated (p :: ps)) : CutOff p (textOf ps) := by
  have hp : p.Readable := hread p List.mem_cons_self
  cases p with
  | reference r => exact cutOff_reference hp _
  | opening => exact cutOff_opening _
  | closing => exact cutOff_closing _
  | comma => exact (passes_comma _).cutOff
  | blank c => exact (passes_blank hp _).cutOff
  | operator op => exact (passes_operator hread h).cutOff

/-- Without the first of them, separated pieces are separated. -/
theorem Separated.tail {p : Piece} {ps : List Piece} (h : Separated (p :: ps)) : Separated ps := by
  cases p with
  | operator op => exact h.2
  | _ => exact h

/-- Texts are cut into the tokens of their pieces. -/
theorem scan_textOf {ps : List Piece} (hread : ∀ p ∈ ps, p.Readable)
    (hseparated : Separated ps) {n : Nat}
    (hopen : mostOpenFrom Text.openAfter n (textOf ps) ≤ bracketLimit) :
    scan n (textOf ps) = (tokensOf ps, true) := by
  induction ps generalizing n with
  | nil =>
      rw [textOf_nil, scan]
      rfl
  | cons p rest ih =>
      rcases cutOff_of_separated hread hseparated n hopen with ⟨m, hrest, hcut⟩
      have hih := ih (fun q hq => hread q (List.mem_cons_of_mem p hq)) hseparated.tail hrest
      rw [textOf_cons, hcut, hih]
      rfl

/-! ## Too many brackets -/

/-- Where all brackets are open that may be, the scan ends at one more. -/
theorem scan_opening_of_le {n : Nat} (hn : bracketLimit ≤ n) (rest : List Char) :
    scan n ('(' :: rest) = ([], false) := by
  have hseparator : isSeparator '(' = false := rfl
  have hbreak : isLineBreak '(' = false := rfl
  rw [scan, hseparator, hbreak]
  simp only [Bool.false_eq_true, if_false]
  split
  · rfl
  · rename_i t after hsome
    have htoken : token? '(' rest = some (.opening, rest) := rfl
    rw [htoken] at hsome
    cases hsome
    exact if_pos hn

/-- A text that opens too many brackets at once is not cut into tokens as a whole. -/
theorem scan_textOf_of_lt {ps : List Piece} (hread : ∀ p ∈ ps, p.Readable)
    (hseparated : Separated ps) {n : Nat} (hn : n ≤ bracketLimit)
    (hopen : bracketLimit < mostOpenFrom Text.openAfter n (textOf ps)) :
    (scan n (textOf ps)).2 = false := by
  induction ps generalizing n with
  | nil => exact absurd hn (Nat.not_le_of_lt hopen)
  | cons p rest ih =>
      have hrest := fun {m : Nat} =>
        ih (n := m) (fun q hq => hread q (List.mem_cons_of_mem p hq)) hseparated.tail
      have hpasses : Passes p (textOf rest) → (scan n (textOf (p :: rest))).2 = false := by
        intro hp
        rw [textOf_cons, hp.open_eq] at hopen
        rw [textOf_cons, hp.tokens_eq n hn]
        exact hrest hn hopen
      cases p with
      | comma => exact hpasses (passes_comma _)
      | blank c => exact hpasses (passes_blank (hread _ List.mem_cons_self) _)
      | operator op => exact hpasses (passes_operator hread hseparated)
      | opening =>
          by_cases hlimit : n + 1 ≤ bracketLimit
          · have hafter : Text.openAfter n '(' = n + 1 := rfl
            rw [textOf_cons, chars, List.singleton_append,
              mostOpenFrom_cons_of_lt (by rw [hafter]; omega), hafter] at hopen
            have hopened : scan n ('(' :: textOf rest) =
                prepend [.opening] (scan (n + 1) (textOf rest)) :=
              scan_of_token? rfl rfl rfl hlimit
            rw [textOf_cons, chars, List.singleton_append, hopened]
            exact hrest hlimit hopen
          · rw [textOf_cons, chars, List.singleton_append, scan_opening_of_le (by omega)]
      | closing =>
          have hlimit : n - 1 ≤ bracketLimit := Nat.le_trans (Nat.sub_le n 1) hn
          have hafter : mostOpenFrom Text.openAfter n (textOf (.closing :: rest)) =
              max n (mostOpenFrom Text.openAfter (n - 1) (textOf rest)) := rfl
          rw [hafter] at hopen
          rw [textOf_cons, scan_closing _ hlimit]
          exact hrest hlimit (by omega)
      | reference r =>
          rw [textOf_cons, mostOpenFrom_reference] at hopen
          by_cases hlimit : n + 1 ≤ bracketLimit
          · rw [textOf_cons, scan_reference (hread _ List.mem_cons_self) hlimit]
            exact hrest hn (by omega)
          · rw [textOf_cons, chars_reference_append, scan_letters r.kind _ hn,
              scan_opening_of_le (by omega)]
            rfl

end Piece
end StockFlow
