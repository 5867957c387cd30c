import StockFlow.Proofs.Formula.Marks

/-!
# The words of a text

A formula text is a row of words and signs with blanks between them.  A word goes on as
long as its characters do; every other character that is not blank stands for itself.
Bringing references into canonical form leaves the tokens of these words as they are, and
accepts a number that stands directly between the brackets of a reference only if it is a
row of digits.

Main definitions:

- {lit}`Text.words`: the words and signs of a text.
- {lit}`Token.ofWritten`, {lit}`Text.tokens`: the tokens that they write.

Main results:

- Theorem {lit}`Text.flatten_words`: the words and signs are the text without its blanks.
- Theorem {lit}`Reference.tokens_normalize`: canonical references leave the tokens as they are.
- Theorem {lit}`Reference.directNumerals_of_normalize`: the numbers of references are rows of
  digits.
-/

namespace StockFlow
namespace Text

/-! ## Words and signs -/

/-- A word that has ended, if there was one. -/
def ended (word : List Char) : List (List Char) := if word.isEmpty then [] else [word]

/-- A character between words: a sign stands for itself, a blank for nothing. -/
def signOf (c : Char) : List (List Char) := if isBlank c then [] else [[c]]

/-- The words and signs of the rest of a text in which a word has begun. -/
def wordsAfter (word : List Char) : List Char → List (List Char)
  | [] => ended word
  | c :: rest =>
      if Lexer.isWordPart c then wordsAfter (word ++ [c]) rest
      else ended word ++ (signOf c ++ wordsAfter [] rest)

/-- The words and signs of a text, in their order. -/
def words (cs : List Char) : List (List Char) := wordsAfter [] cs

theorem ended_of_ne_nil {word : List Char} (h : word ≠ []) : ended word = [word] := by
  rw [ended, if_neg (by rwa [List.isEmpty_iff])]

/-- Parts of words go on with the word that was begun. -/
theorem wordsAfter_append {ws : List Char} (hws : ∀ c ∈ ws, Lexer.isWordPart c = true)
    (word rest : List Char) : wordsAfter word (ws ++ rest) = wordsAfter (word ++ ws) rest := by
  induction ws generalizing word with
  | nil => rw [List.append_nil, List.nil_append]
  | cons c cs ih =>
      rw [List.forall_mem_cons] at hws
      rw [List.cons_append, wordsAfter, if_pos hws.1, ih hws.2, List.append_assoc]
      rfl

/-- Where a word ends, the rest of the text begins anew. -/
theorem wordsAfter_of_ends {rest : List Char}
    (hrest : ∀ c ∈ rest.head?, Lexer.isWordPart c = false) (word : List Char) :
    wordsAfter word rest = ended word ++ words rest := by
  cases rest with
  | nil => rw [words, wordsAfter, wordsAfter, ended, ended]; exact (List.append_nil _).symm
  | cons c cs =>
      have hc : ¬Lexer.isWordPart c = true := by simp [hrest c rfl]
      rw [words, wordsAfter, wordsAfter, if_neg hc, if_neg hc]
      rfl

/-- A whole word in front of what is no part of it. -/
theorem words_word {ws rest : List Char} (hne : ws ≠ [])
    (hws : ∀ c ∈ ws, Lexer.isWordPart c = true)
    (hrest : ∀ c ∈ rest.head?, Lexer.isWordPart c = false) :
    words (ws ++ rest) = ws :: words rest := by
  rw [words, wordsAfter_append hws, wordsAfter_of_ends hrest, List.nil_append,
    ended_of_ne_nil hne]
  rfl

/-- What is no part of a word ends it. -/
theorem words_cons_of_not_isWordPart {c : Char} (hc : Lexer.isWordPart c = false)
    (rest : List Char) : words (c :: rest) = signOf c ++ words rest := by
  rw [words, wordsAfter, if_neg (by simp [hc])]
  rfl

/-- A sign is a word of its own. -/
theorem words_sign {c : Char} (hc : Lexer.isWordPart c = false) (hblank : isBlank c = false)
    (rest : List Char) : words (c :: rest) = [c] :: words rest := by
  rw [words_cons_of_not_isWordPart hc, signOf, hblank]
  rfl

/-! ## Blanks -/

/-- Blanks in front are no words. -/
theorem words_blanks {bs : List Char} (hbs : ∀ c ∈ bs, isBlank c = true) (rest : List Char) :
    words (bs ++ rest) = words rest := by
  induction bs with
  | nil => rfl
  | cons c cs ih =>
      rw [List.forall_mem_cons] at hbs
      rw [List.cons_append, words_cons_of_not_isWordPart (not_isWordPart_of_isBlank hbs.1), signOf,
        if_pos hbs.1, List.nil_append, ih hbs.2]

/-- Blanks at the end are no words. -/
theorem wordsAfter_append_blanks {bs : List Char} (hbs : ∀ c ∈ bs, isBlank c = true)
    (word cs : List Char) : wordsAfter word (cs ++ bs) = wordsAfter word cs := by
  induction cs generalizing word with
  | nil =>
      have hnone : words bs = [] := by
        have hblanks := words_blanks hbs []
        rwa [List.append_nil] at hblanks
      have hends : ∀ c ∈ bs.head?, Lexer.isWordPart c = false :=
        fun c hc => not_isWordPart_of_isBlank (hbs c (List.mem_of_mem_head? hc))
      rw [List.nil_append, wordsAfter_of_ends hends, hnone, wordsAfter, List.append_nil]
  | cons c cs ih =>
      rw [List.cons_append, wordsAfter, wordsAfter]
      split
      · exact ih _
      · rw [ih]

/-- Blanks at the ends belong to no word. -/
theorem words_strip (cs : List Char) : words (strip cs) = words cs := by
  rcases exists_blanks_of_strip cs with ⟨before, after, hcs, hbefore, hafter⟩
  calc words (strip cs) = words (strip cs ++ after) := (wordsAfter_append_blanks hafter [] _).symm
    _ = words (before ++ (strip cs ++ after)) := (words_blanks hbefore _).symm
    _ = words cs := by rw [← hcs]

/-! ## Texts of words -/

/-- The words of a text are the text without its blanks. -/
theorem flatten_wordsAfter (word cs : List Char) :
    (wordsAfter word cs).flatten = word ++ cs.filter fun c => !isBlank c := by
  have hended : ∀ word, (ended word).flatten = word := by
    intro word
    cases word <;> simp [ended]
  induction cs generalizing word with
  | nil => rw [wordsAfter, hended]; exact (List.append_nil word).symm
  | cons c rest ih =>
      rw [wordsAfter, List.filter_cons]
      split
      · rename_i hc
        have hblank : isBlank c = false := by
          rw [← Bool.not_eq_true]
          intro hblank
          rw [not_isWordPart_of_isBlank hblank] at hc
          cases hc
        simp [ih, hblank]
      · rw [List.flatten_append, List.flatten_append, hended, ih, signOf]
        split <;> simp_all

/-- The words and signs of a text are the text without its blanks. -/
theorem flatten_words (cs : List Char) :
    (words cs).flatten = cs.filter fun c => !isBlank c :=
  flatten_wordsAfter [] cs

/-- The first word of a text stands behind blanks, and is a word or a sign. -/
theorem exists_of_words_cons {cs w : List Char} {ws : List (List Char)}
    (h : words cs = w :: ws) :
    ∃ gap rest, cs = gap ++ (w ++ rest) ∧ (∀ c ∈ gap, isBlank c = true) ∧ words rest = ws ∧
      ((∀ c ∈ w, Lexer.isWordPart c = true) ∨ ∃ c, w = [c] ∧ Lexer.isWordPart c = false) := by
  induction cs with
  | nil => cases h
  | cons c cs ih =>
      cases hword : Lexer.isWordPart c with
      | true =>
          have hends : ∀ d ∈ ((c :: cs).dropWhile Lexer.isWordPart).head?,
              Lexer.isWordPart d = false := by
            intro d hd
            have hnot := List.head?_dropWhile_not Lexer.isWordPart (c :: cs)
            rwa [hd] at hnot
          have hparts : ∀ d ∈ (c :: cs).takeWhile Lexer.isWordPart, Lexer.isWordPart d = true :=
            List.all_eq_true.1 List.all_takeWhile
          have hne : (c :: cs).takeWhile Lexer.isWordPart ≠ [] := by
            rw [List.takeWhile_cons_of_pos hword]
            exact List.cons_ne_nil _ _
          have hsplit := List.takeWhile_append_dropWhile (p := Lexer.isWordPart) (l := c :: cs)
          have hwords := words_word hne hparts hends
          rw [hsplit, h] at hwords
          obtain ⟨rfl, rfl⟩ := List.cons.inj hwords
          exact ⟨[], _, hsplit.symm, List.forall_mem_nil _, rfl, Or.inl hparts⟩
      | false =>
          rw [words_cons_of_not_isWordPart hword, signOf] at h
          split at h
          · rename_i hblank
            obtain ⟨gap, rest, rfl, hgap, hrest, hw⟩ := ih h
            exact ⟨c :: gap, rest, rfl, List.forall_mem_cons.2 ⟨hblank, hgap⟩, hrest, hw⟩
          · obtain ⟨rfl, rfl⟩ := List.cons.inj h
            exact ⟨[], cs, rfl, List.forall_mem_nil _, rfl, Or.inr ⟨c, rfl, hword⟩⟩

end Text

/-! ## Tokens of words -/

/-- The token that a word or a sign of a formula text writes. -/
def Token.ofWritten (w : List Char) : Token :=
  match w with
  | ['('] => .opening
  | [')'] => .closing
  | [','] => .comma
  | ['+'] => .plus
  | ['-'] => .minus
  | ['*'] => .star
  | ['/'] => .slash
  | ['.'] => .dot
  | w =>
      if w.head?.any Char.isDigit then .literal (.integer (Mark.numberOf w))
      else .ofWord (String.ofList w)

/-- The tokens that the words and signs of a text write, one for each. -/
def Text.tokens (cs : List Char) : List Token := (words cs).map Token.ofWritten

/-- A word that starts with a digit is the number of its digits. -/
theorem Token.ofWritten_digits {c : Char} {ds : List Char} (hc : c.isDigit = true) :
    ofWritten (c :: ds) = .literal (.integer (Mark.numberOf (c :: ds))) := by
  have hne : ∀ d, d.isDigit = false → c ≠ d := by
    rintro d hd rfl
    rw [hc] at hd
    cases hd
  have hhead : (c :: ds).head?.any Char.isDigit = true := hc
  unfold ofWritten
  split
  case h_9 => rw [if_pos hhead]
  all_goals
    rename_i heq
    cases heq
    exact absurd rfl (hne _ rfl)

/-- A numeral in front of what ends a number is one of base ten. -/
theorem Token.ofWritten_numeral {k : Nat} {ds : List Char} (h : Text.IsNumeral k ds) :
    ofWritten ds = .literal (.integer k) := by
  have hdigits : ∀ c ∈ ds, c.isDigit = true := fun c hc =>
    (Text.isDigit_eq_isAsciiDigit c).trans (h.digits c hc)
  have hnumber := Mark.numberOf_digits hdigits
  rw [h.value_eq] at hnumber
  cases ds with
  | nil => exact absurd rfl h.ne_nil
  | cons d rest => rw [ofWritten_digits (hdigits d List.mem_cons_self), hnumber]

/-! ## References -/

namespace Reference

/-- A reference, with blanks in front of its bracket and around its digits. -/
theorem words_reference (kind : ReferenceKind) {k : Nat} {gap before ds after : List Char}
    (hgap : ∀ c ∈ gap, Text.isBlank c = true) (hbefore : ∀ c ∈ before, Text.isBlank c = true)
    (hafter : ∀ c ∈ after, Text.isBlank c = true) (hds : Text.IsNumeral k ds)
    (rest : List Char) :
    Text.words (kind.letters ++ (gap ++ '(' :: (before ++ (ds ++ (after ++ ')' :: rest))))) =
      kind.letters :: ['('] :: ds :: [')'] :: Text.words rest := by
  have hend : ∀ {bs : List Char} {c : Char} {cs : List Char}, (∀ b ∈ bs, Text.isBlank b = true) →
      Lexer.isWordPart c = false → ∀ d ∈ (bs ++ c :: cs).head?, Lexer.isWordPart d = false := by
    intro bs c cs hbs hc
    cases bs with
    | nil =>
        rintro d hd
        cases hd
        exact hc
    | cons b rest =>
        rintro d hd
        cases hd
        exact Text.not_isWordPart_of_isBlank (hbs b List.mem_cons_self)
  have hletters : kind.letters ≠ [] := by cases kind <;> exact List.cons_ne_nil _ _
  have hdigits : ∀ c ∈ ds, Lexer.isWordPart c = true := fun c hc =>
    Lexer.isWordPart_of_isDigit ((Text.isDigit_eq_isAsciiDigit c).trans (hds.digits c hc))
  rw [Text.words_word hletters kind.isWordPart_letters (hend hgap (by decide)),
    Text.words_blanks hgap, Text.words_sign (by decide) (by decide), Text.words_blanks hbefore,
    Text.words_word hds.ne_nil hdigits (hend hafter (by decide)), Text.words_blanks hafter,
    Text.words_sign (by decide) (by decide)]

/-- A number that can be read is a row of digits between blanks. -/
theorem isNumeral_of_id {m : Match} {k : Nat} (h : m.id = .ok k) :
    Text.IsNumeral k (Text.strip m.body) := by
  simp only [Match.id] at h
  split at h
  · cases h
  · rename_i hdigits
    simp only [Bool.or_eq_true, Bool.not_eq_true', not_or, Bool.not_eq_true, Bool.not_eq_false,
      List.isEmpty_eq_false_iff, List.all_eq_true] at hdigits
    split at h
    · cases h
    · rename_i hlimit
      cases h
      exact ⟨hdigits.1, hdigits.2, rfl, Nat.le_of_not_lt hlimit⟩

/-- The words of a reference whose number can be read. -/
theorem words_source {m : Match} {k : Nat} (hgap : ∀ c ∈ m.gap, Text.isBlank c = true)
    (hid : m.id = .ok k) (rest : List Char) :
    ∃ ds, Text.IsNumeral k ds ∧
      Text.words (m.source ++ rest) =
        m.kind.letters :: ['('] :: ds :: [')'] :: Text.words rest := by
  rcases Text.exists_blanks_of_strip m.body with ⟨before, after, hbody, hbefore, hafter⟩
  have hsource : m.source ++ rest = m.kind.letters ++ (m.gap ++ '(' ::
      (before ++ (Text.strip m.body ++ (after ++ ')' :: rest)))) := by
    rw [Match.source]
    conv_lhs => rw [hbody]
    simp
  refine ⟨Text.strip m.body, ?_, ?_⟩
  · exact isNumeral_of_id hid
  · rw [hsource]
    exact words_reference m.kind hgap hbefore hafter (isNumeral_of_id hid) rest

/-- A reference with few enough digits has four words. -/
theorem words_canonical (kind : ReferenceKind) {k : Nat}
    (hk : (Text.decimalDigits k).length ≤ Text.digitLimit) (rest : List Char) :
    Text.words (canonical kind k ++ rest) =
      kind.letters :: ['('] :: Text.decimalDigits k :: [')'] :: Text.words rest := by
  have hwords := words_reference kind (List.forall_mem_nil _) (List.forall_mem_nil _)
    (List.forall_mem_nil _) (Text.isNumeral_decimalDigits hk) rest
  rw [← hwords, canonical]
  simp

/-! ## Canonical form -/

/-- Whether references in canonical form make one text of another, behind a word or not. -/
inductive Normalizes : Bool → List Char → List Char → Prop
  | nil (b : Bool) : Normalizes b [] []
  | reference {cs out : List Char} {m : Match} {k : Nat} (hmatch : match? cs = some m)
      (hid : m.id = .ok k) (h : Normalizes false m.rest out) :
      Normalizes false cs (canonical m.kind k ++ out)
  | other {b : Bool} {c : Char} {rest out : List Char}
      (hnone : b = true ∨ match? (c :: rest) = none)
      (h : Normalizes (Lexer.isWordPart c) rest out) : Normalizes b (c :: rest) (c :: out)

/-- Normalizing a text puts each reference in its canonical form. -/
theorem normalizes_of_normalizeAfter {b : Bool} {cs out : List Char}
    (h : normalizeAfter b cs = .ok out) : Normalizes b cs out := by
  fun_induction normalizeAfter b cs generalizing out with
  | case1 b => cases h; exact .nil b
  | case2 => cases h
  | case3 b c rest m hmatch hless k hid ih =>
      obtain ⟨rfl, hmatch⟩ : b = false ∧ match? (c :: rest) = some m := by
        split at hmatch
        · cases hmatch
        · rename_i hb
          exact ⟨Bool.eq_false_iff.2 hb, hmatch⟩
      cases hrest : normalizeAfter false m.rest with
      | error e =>
          rw [hrest] at h
          cases h
      | ok out' =>
          rw [hrest] at h
          cases h
          exact .reference hmatch hid (ih hrest)
  | case4 b c rest hnone ih =>
      cases hrest : normalizeAfter (Lexer.isWordPart c) rest with
      | error e =>
          rw [hrest] at h
          cases h
      | ok out' =>
          rw [hrest] at h
          cases h
          refine .other ?_ (ih hrest)
          cases b with
          | true => exact Or.inl rfl
          | false => exact Or.inr hnone

/-- Normalizing a text does not change its tokens. -/
theorem Normalizes.tokens_eq {b : Bool} {cs out word : List Char} (h : Normalizes b cs out)
    (hword : b = !word.isEmpty) :
    (Text.wordsAfter word out).map Token.ofWritten =
      (Text.wordsAfter word cs).map Token.ofWritten := by
  induction h generalizing word with
  | nil => rfl
  | @reference cs out m k hmatch hid _ ih =>
      obtain rfl : word = [] := by simpa using hword
      obtain ⟨hsource, hgap⟩ := eq_source_of_match? hmatch
      obtain ⟨ds, hds, hwords⟩ := words_source hgap hid m.rest
      have hrest : (Text.words out).map Token.ofWritten = (Text.words m.rest).map Token.ofWritten :=
        ih rfl
      have hcanonical := words_canonical m.kind hds.length_decimalDigits_le out
      have hnumeral := Text.isNumeral_decimalDigits hds.length_decimalDigits_le
      have hsame : (Text.words (canonical m.kind k ++ out)).map Token.ofWritten =
          (Text.words (m.source ++ m.rest)).map Token.ofWritten := by
        rw [hcanonical, hwords]
        simp only [List.map_cons, Token.ofWritten_numeral hds, Token.ofWritten_numeral hnumeral,
          hrest]
      rwa [← hsource] at hsame
  | @other b c rest out _ _ ih =>
      rw [Text.wordsAfter, Text.wordsAfter]
      split
      · rename_i hc
        exact ih (by simp [hc])
      · rename_i hc
        rw [List.map_append, List.map_append, List.map_append, List.map_append,
          ih (by simpa using hc)]

/-- Canonical references leave the tokens of a text as they are. -/
theorem tokens_normalize {cs out : List Char} (h : normalize cs = .ok out) :
    Text.tokens out = Text.tokens cs :=
  (normalizes_of_normalizeAfter h).tokens_eq rfl

/-! ## Numbers of references -/

/-- Whether the number of a reference at the front of words, if there is one, is a row of digits. -/
def HeadNumeral (ws : List (List Char)) : Prop :=
  ∀ (kind : ReferenceKind) (ds : List Char) (post : List (List Char)),
    ws = kind.letters :: ['('] :: ds :: [')'] :: post → ds.head?.any Char.isDigit = true →
      Text.IsNumeral (Mark.numberOf ds) ds

/-- Whether numbers that stand directly between the brackets of references are rows of digits. -/
def DirectNumerals (ws : List (List Char)) : Prop := ∀ ts, ts <:+ ws → HeadNumeral ts

/-- A word that begins no reference asks nothing of what follows it. -/
theorem headNumeral_of_ne {w : List Char} (hw : ∀ kind : ReferenceKind, w ≠ kind.letters)
    (ws : List (List Char)) : HeadNumeral (w :: ws) :=
  fun kind _ _ heq => absurd (List.cons.inj heq).1 (hw kind)

/-- The references of a text are the one at its start and those further on. -/
theorem directNumerals_cons {w : List Char} {ws : List (List Char)} :
    DirectNumerals (w :: ws) ↔ HeadNumeral (w :: ws) ∧ DirectNumerals ws := by
  constructor
  · intro h
    exact ⟨h _ List.suffix_rfl, fun ts hts => h ts (hts.trans (List.suffix_cons w ws))⟩
  · rintro ⟨hhead, hrest⟩ ts hts
    rcases List.suffix_cons_iff.1 hts with rfl | hts
    · exact hhead
    · exact hrest ts hts

/-- The letters of a reference are more than one. -/
theorem letters_ne_singleton (kind : ReferenceKind) (c : Char) : [c] ≠ kind.letters := by
  cases kind <;> simp [ReferenceKind.letters]

theorem isInside_of_isBlank {c : Char} (hc : Text.isBlank c = true) : isInside c = true := by
  rw [isInside, Bool.and_eq_true, bne_iff_ne, bne_iff_ne]
  constructor <;> rintro rfl <;> exact absurd hc (by decide)

theorem isInside_of_isWordPart {c : Char} (hc : Lexer.isWordPart c = true) : isInside c = true := by
  rw [isInside, Bool.and_eq_true, bne_iff_ne, bne_iff_ne]
  constructor <;> rintro rfl <;> exact absurd hc (by decide)

/-- Where the words of a reference begin, a reference is found. -/
theorem match?_ne_none_of_words {kind : ReferenceKind} {c : Char} {cs ds : List Char}
    {post : List (List Char)} (hc : Lexer.isWordPart c = true)
    (hwords : Text.words (c :: cs) = kind.letters :: ['('] :: ds :: [')'] :: post)
    (hds : ds.head?.any Char.isDigit = true) : match? (c :: cs) ≠ none := by
  obtain ⟨gap, rest₁, hcs, hgap, h₁, _⟩ := Text.exists_of_words_cons hwords
  obtain ⟨before, rest₂, rfl, hbefore, h₂, _⟩ := Text.exists_of_words_cons h₁
  obtain ⟨inner, rest₃, rfl, hinner, h₃, hword⟩ := Text.exists_of_words_cons h₂
  obtain ⟨after, rest₄, rfl, hafter, _, _⟩ := Text.exists_of_words_cons h₃
  have hnil : gap = [] := by
    cases gap with
    | nil => rfl
    | cons b bs =>
        obtain ⟨rfl, _⟩ := List.cons.inj hcs
        rw [Text.not_isWordPart_of_isBlank (hgap c List.mem_cons_self)] at hc
        cases hc
  have hparts : ∀ d ∈ ds, Lexer.isWordPart d = true := by
    rcases hword with hparts | ⟨d, rfl, hd⟩
    · exact hparts
    · rw [Lexer.isWordPart_of_isDigit hds] at hd
      cases hd
  have hbody : ∀ d ∈ inner ++ (ds ++ after), isInside d = true := by
    simp only [List.mem_append]
    rintro d (hd | hd | hd)
    · exact isInside_of_isBlank (hinner d hd)
    · exact isInside_of_isWordPart (hparts d hd)
    · exact isInside_of_isBlank (hafter d hd)
  have hmatch := match?_reference kind before (inner ++ (ds ++ after)) rest₄ hbefore hbody
  have hsplit : c :: cs =
      kind.letters ++ before ++ '(' :: ((inner ++ (ds ++ after)) ++ ')' :: rest₄) := by
    rw [hcs, hnil]
    simp
  rw [hsplit, hmatch]
  exact Option.some_ne_none _

theorem directNumerals_nil : DirectNumerals [] := by
  rintro ts hts kind ds post rfl
  cases List.suffix_nil.1 hts

/-- The first word is left out where it began before the text. -/
theorem Normalizes.directNumerals {b : Bool} {cs out word : List Char} (h : Normalizes b cs out)
    (hword : b = !word.isEmpty) :
    DirectNumerals (if b then (Text.wordsAfter word cs).tail else Text.wordsAfter word cs) := by
  have hended : ∀ {b : Bool} {word : List Char} (ws : List (List Char)), b = !word.isEmpty →
      (if b then (Text.ended word ++ ws).tail else Text.ended word ++ ws) = ws := by
    rintro b word ws rfl
    cases word <;> rfl
  induction h generalizing word with
  | nil b =>
      have hnone := hended [] hword
      rw [List.append_nil] at hnone
      rw [Text.wordsAfter, hnone]
      exact directNumerals_nil
  | @reference cs out m k hmatch hid _ ih =>
      obtain rfl : word = [] := by simpa using hword
      obtain ⟨hsource, hgap⟩ := eq_source_of_match? hmatch
      obtain ⟨ds, hds, hwords⟩ := words_source hgap hid m.rest
      have hrest : DirectNumerals (Text.words m.rest) := @ih [] rfl
      have hdigits : ∀ c ∈ ds, c.isDigit = true := fun c hc =>
        (Text.isDigit_eq_isAsciiDigit c).trans (hds.digits c hc)
      have hne : ∀ kind : ReferenceKind, ds ≠ kind.letters := by
        rintro kind rfl
        cases kind <;> exact absurd (hdigits 'N' (by decide)) (by decide)
      change DirectNumerals (Text.words cs)
      rw [hsource, hwords, directNumerals_cons, directNumerals_cons, directNumerals_cons,
        directNumerals_cons]
      refine ⟨?_, headNumeral_of_ne (letters_ne_singleton · '(') _, headNumeral_of_ne hne _,
        headNumeral_of_ne (letters_ne_singleton · ')') _, hrest⟩
      intro kind ds' post heq _
      simp only [List.cons.injEq, true_and] at heq
      rwa [← heq.2.1, Mark.numberOf_digits hdigits, hds.value_eq]
  | @other b c rest out hnone _ ih =>
      by_cases hc : Lexer.isWordPart c = true
      · rw [Text.wordsAfter, if_pos hc]
        have htail := @ih (word ++ [c]) (by simp [hc])
        rw [if_pos hc] at htail
        split
        · exact htail
        · rename_i hb
          obtain rfl : word = [] := by simpa [hb] using hword
          cases hwords : Text.wordsAfter ([] ++ [c]) rest with
          | nil => exact directNumerals_nil
          | cons w ws =>
              rw [hwords] at htail
              refine directNumerals_cons.2 ⟨fun kind ds post heq hds => ?_, htail⟩
              have hall : Text.words (c :: rest) = w :: ws := by
                rw [Text.words, Text.wordsAfter, if_pos hc, hwords]
              rw [heq] at hall
              exact absurd (hnone.resolve_left hb) (match?_ne_none_of_words hc hall hds)
      · rw [Text.wordsAfter, if_neg hc, hended _ hword]
        have hrest : DirectNumerals (Text.words rest) := by
          have hwords := @ih [] (by simpa using hc)
          rwa [if_neg hc] at hwords
        rw [Text.signOf]
        split
        · exact hrest
        · exact directNumerals_cons.2 ⟨headNumeral_of_ne (letters_ne_singleton · c) _, hrest⟩

/-- The numbers of references in a text that has a canonical form are rows of digits. -/
theorem directNumerals_of_normalize {cs out : List Char} (h : normalize cs = .ok out) :
    DirectNumerals (Text.words cs) :=
  (normalizes_of_normalizeAfter h).directNumerals (rfl : false = !([] : List Char).isEmpty)

end Reference
end StockFlow
