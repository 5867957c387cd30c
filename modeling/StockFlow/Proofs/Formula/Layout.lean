import StockFlow.Proofs.Expression.Parsing
import StockFlow.Proofs.Expression.Unfinished
import StockFlow.Proofs.Formula.Rendering

/-!
# Formula text in any layout

Between the tokens of a formula there may be blanks and tabs, inside references too,
and numbers may have leading zeros.  When its references are brought into canonical
form, such a text becomes one of pieces, between blanks that are dropped.

Main definitions:

- {lit}`LaidOut`: which texts lay out some tokens.
- {lit}`Piece.Source`: what becomes of the text of a piece.
- {lit}`Piece.Arranges`: what becomes of a whole text.
- {lit}`ReadsText`: what is read of a text with its references in canonical form.

Main results:

- Theorem {lit}`Piece.exists_arranges`: a text that lays out the tokens of pieces becomes
  a text of the same pieces with blanks between them.
- Theorem {lit}`Derives.readsText`: a text that lays out a derivation is read as its
  formula, unless too many brackets are open at once.
-/

namespace StockFlow

/-- Whether characters write a token of a formula. -/
def Token.WrittenAs : Token → List Char → Prop
  | .name id, cs => cs = id.toList
  | .literal (.integer n), cs => Text.IsNumeral n cs
  | .opening, cs => cs = ['(']
  | .closing, cs => cs = [')']
  | .comma, cs => cs = [',']
  | .plus, cs => cs = ['+']
  | .minus, cs => cs = ['-']
  | .star, cs => cs = ['*']
  | .slash, cs => cs = ['/']
  | _, _ => False

/-- Whether a text writes tokens one after the other, with blanks and tabs around them. -/
inductive LaidOut : List Token → List Char → Prop
  | nil : LaidOut [] []
  | blank {ts : List Token} {cs : List Char} {c : Char} (hc : Lexer.isSeparator c = true)
      (h : LaidOut ts cs) : LaidOut ts (c :: cs)
  | token {t : Token} {ts : List Token} {ds cs : List Char} (ht : t.WrittenAs ds)
      (h : LaidOut ts cs) : LaidOut (t :: ts) (ds ++ cs)

/-- Whether characters are blanks that may stand between tokens. -/
def Blanks (cs : List Char) : Prop := ∀ c ∈ cs, Lexer.isSeparator c = true

namespace Blanks

variable {cs : List Char}

/-- What holds of the three separators holds of all blanks. -/
theorem forall_mem (h : Blanks cs) {p : Char → Bool} (hp : [' ', '\t', '\x0c'].all p = true) :
    ∀ c ∈ cs, p c = true := by
  intro c hc
  have hmem : c ∈ [' ', '\t', '\x0c'] := by simpa using Lexer.isSeparator_iff.1 (h c hc)
  exact List.all_eq_true.1 hp c hmem

/-- Every character of blanks is one. -/
theorem isBlank (h : Blanks cs) : ∀ c ∈ cs, Text.isBlank c = true := h.forall_mem (by decide)

/-- Blanks may stand inside a reference. -/
theorem isInside (h : Blanks cs) : ∀ c ∈ cs, Reference.isInside c = true :=
  h.forall_mem (by decide)

/-- Blanks may stand in a formula's text. -/
theorem isAllowed (h : Blanks cs) : ∀ c ∈ cs, Formula.isAllowed c = true :=
  h.forall_mem (by decide)

/-- Blanks open and close nothing. -/
theorem openAfter (h : Blanks cs) (n : Nat) : ∀ c ∈ cs, Text.openAfter n c = n :=
  fun c hc => Lexer.openAfter_of_isSeparator (h c hc) n

end Blanks

namespace LaidOut

variable {t : Token} {ts : List Token} {cs : List Char}

/-- A text that lays out nothing is blank. -/
theorem blanks_of_nil (h : LaidOut [] cs) : Blanks cs := by
  generalize hts : ([] : List Token) = ts at h
  induction h with
  | nil => exact fun c hc => by cases hc
  | blank hc _ ih => exact List.forall_mem_cons.2 ⟨hc, ih hts⟩
  | token => cases hts

/-- The first token stands behind blanks. -/
theorem cons (h : LaidOut (t :: ts) cs) :
    ∃ gap ds rest, cs = gap ++ (ds ++ rest) ∧ Blanks gap ∧ t.WrittenAs ds ∧ LaidOut ts rest := by
  generalize hts : t :: ts = ts' at h
  induction h with
  | nil => cases hts
  | blank hc _ ih =>
      rcases ih hts with ⟨gap, ds, rest, rfl, hgap, hds, hrest⟩
      exact ⟨_ :: gap, ds, rest, rfl, List.forall_mem_cons.2 ⟨hc, hgap⟩, hds, hrest⟩
  | token ht h =>
      cases hts
      exact ⟨[], _, _, rfl, List.forall_mem_nil _, ht, h⟩

end LaidOut

namespace Piece

open Reference Lexer

/-! ## The text of a piece -/

/-- Whether no reference is looked for in front of a piece that follows a word. -/
def startsWord : Piece → Bool
  | .reference _ => true
  | .operator op => op.isFunction
  | _ => false

/-- Whether a piece ends with a character of a word. -/
def endsWord : Piece → Bool
  | .operator op => op.isFunction
  | _ => false

/-- Whether a text becomes a piece when references are brought into canonical form. -/
structure Source (p : Piece) (ds : List Char) : Prop where
  readable : p.Readable
  allowed : ∀ c ∈ ds, Formula.isAllowed c = true
  open_eq : ∀ n rest, mostOpenFrom Text.openAfter n (ds ++ rest) =
    mostOpenFrom Text.openAfter n (p.chars ++ rest)
  normalize_eq : ∀ {b : Bool} {rest out : List Char}, (b = true → p.startsWord = false) →
    normalizeAfter p.endsWord rest = .ok out →
      normalizeAfter b (ds ++ rest) = .ok (p.chars ++ out)

/-- An opening bracket is written as itself. -/
theorem source_opening : Source .opening ['('] where
  readable := trivial
  allowed := List.all_eq_true.1 rfl
  open_eq := fun _ _ => rfl
  normalize_eq := fun _ hrest => normalizeAfter_of_none (Or.inr rfl) hrest

/-- A closing bracket is written as itself. -/
theorem source_closing : Source .closing [')'] where
  readable := trivial
  allowed := List.all_eq_true.1 rfl
  open_eq := fun _ _ => rfl
  normalize_eq := fun _ hrest => normalizeAfter_of_none (Or.inr rfl) hrest

theorem source_comma : Source .comma [','] where
  readable := trivial
  allowed := List.all_eq_true.1 rfl
  open_eq := fun _ _ => rfl
  normalize_eq := fun _ hrest => normalizeAfter_of_none (Or.inr rfl) hrest

/-- An operator is written as its symbol. -/
theorem source_operator (op : Operator) : Source (.operator op) op.symbol.toList where
  readable := trivial
  allowed := by cases op <;> exact List.all_eq_true.1 rfl
  open_eq := fun _ _ => rfl
  normalize_eq := by
    intro b rest out hb hrest
    cases hop : op.isFunction with
    | true =>
        have hword : startsWord (.operator op) = true := hop
        have hends : endsWord (.operator op) = true := hop
        rw [hends] at hrest
        cases b with
        | true => rw [hb rfl] at hword; cases hword
        | false => exact normalizeAfter_function hop hrest
    | false =>
        have hends : endsWord (.operator op) = false := hop
        rw [hends] at hrest
        cases op with
        | add => exact normalizeAfter_of_none (Or.inr rfl) hrest
        | subtract => exact normalizeAfter_of_none (Or.inr rfl) hrest
        | multiply => exact normalizeAfter_of_none (Or.inr rfl) hrest
        | divide => exact normalizeAfter_of_none (Or.inr rfl) hrest
        | _ => cases hop

/-- The text of a reference with blanks inside and leading zeros. -/
def referenceText (kind : ReferenceKind) (gap before digits after : List Char) : List Char :=
  kind.letters ++ gap ++ '(' :: (before ++ (digits ++ after) ++ [')'])

/-- What holds of the ten digits holds of every digit of a numeral. -/
theorem forall_mem_numeral {k : Nat} {digits : List Char} (h : Text.IsNumeral k digits)
    {p : Char → Bool}
    (hp : ['0', '1', '2', '3', '4', '5', '6', '7', '8', '9'].all p = true) :
    ∀ c ∈ digits, p c = true :=
  fun c hc => Text.forall_isDigit hp ((Text.isDigit_eq_isAsciiDigit c).trans (h.digits c hc))

/-- A reference opens one pair of brackets, whatever its layout. -/
theorem mostOpenFrom_referenceText (kind : ReferenceKind) {k : Nat}
    {gap before digits after : List Char} (hgap : Blanks gap) (hbefore : Blanks before)
    (hafter : Blanks after) (hdigits : Text.IsNumeral k digits) (n : Nat) (rest : List Char) :
    mostOpenFrom Text.openAfter n (referenceText kind gap before digits after ++ rest) =
      max (n + 1) (mostOpenFrom Text.openAfter n rest) := by
  have hinside : ∀ c ∈ digits, Text.openAfter (n + 1) c = n + 1 := by
    intro c hc
    have hclass := forall_mem_numeral hdigits (p := fun c => c != '(' && c != ')') (by decide) c hc
    simp only [Bool.and_eq_true, bne_iff_ne] at hclass
    rw [Text.openAfter, if_neg hclass.1, if_neg hclass.2]
  have hopening : Text.openAfter n '(' = n + 1 := rfl
  have hsplit : referenceText kind gap before digits after ++ rest =
      kind.letters ++ (gap ++ '(' :: (before ++ (digits ++ (after ++ ')' :: rest)))) := by
    simp [referenceText]
  rw [hsplit, mostOpenFrom_append_of_eq (openAfter_of_mem_letters n),
    mostOpenFrom_append_of_eq (hgap.openAfter n),
    mostOpenFrom_cons_of_lt (by rw [hopening]; omega), hopening,
    mostOpenFrom_append_of_eq (hbefore.openAfter (n + 1)),
    mostOpenFrom_append_of_eq hinside, mostOpenFrom_append_of_eq (hafter.openAfter (n + 1))]
  rfl

/-- A reference is written with blanks between its parts, and with leading zeros perhaps. -/
theorem source_reference {r : NodeReference} {gap before digits after : List Char}
    (hgap : Blanks gap) (hbefore : Blanks before) (hafter : Blanks after)
    (hdigits : Text.IsNumeral r.id digits) :
    Source (.reference r) (referenceText r.kind gap before digits after) where
  readable := hdigits.length_decimalDigits_le
  allowed := by
    have hletters : ∀ c ∈ r.kind.letters, Formula.isAllowed c = true := by
      cases r.kind <;> exact List.all_eq_true.1 rfl
    have hnumeral := forall_mem_numeral hdigits (p := Formula.isAllowed) (by decide)
    intro c hc
    simp only [referenceText, List.mem_append, List.mem_cons, List.not_mem_nil, or_false] at hc
    rcases hc with (hc | hc) | rfl | (hc | hc | hc) | rfl
    · exact hletters c hc
    · exact hgap.isAllowed c hc
    · rfl
    · exact hbefore.isAllowed c hc
    · exact hnumeral c hc
    · exact hafter.isAllowed c hc
    · rfl
  open_eq := by
    intro n rest
    rw [mostOpenFrom_referenceText r.kind hgap hbefore hafter hdigits, mostOpenFrom_reference]
  normalize_eq := by
    intro b rest out hb hrest
    have hstart : b = false := by
      cases b with
      | true => cases hb rfl
      | false => rfl
    have hbody : ∀ c ∈ before ++ (digits ++ after), isInside c = true := by
      intro c hc
      rw [List.mem_append, List.mem_append] at hc
      rcases hc with hc | hc | hc
      · exact hbefore.isInside c hc
      · exact forall_mem_numeral hdigits (by decide) c hc
      · exact hafter.isInside c hc
    have hmatch := match?_reference r.kind gap (before ++ (digits ++ after)) rest hgap.isBlank hbody
    have hid := id_of_isNumeral
      (m := { kind := r.kind, gap, body := before ++ (digits ++ after), rest }) rfl
      hbefore.isBlank hafter.isBlank hdigits
    have hsplit : referenceText r.kind gap before digits after ++ rest =
        r.kind.letters ++ gap ++ '(' :: (before ++ (digits ++ after) ++ ')' :: rest) := by
      simp [referenceText]
    rw [← hsplit, referenceText] at hmatch
    rw [hstart, chars, referenceText]
    revert hmatch hid
    cases r.kind with
    | auxiliary => exact fun hmatch hid => normalizeAfter_of_match hmatch hid hrest
    | constant => exact fun hmatch hid => normalizeAfter_of_match hmatch hid hrest
    | level => exact fun hmatch hid => normalizeAfter_of_match hmatch hid hrest

/-! ## Whole texts -/

/--
Whether pieces, with blanks in front and behind, are what a text becomes that writes
other pieces, when its references are brought into canonical form.
-/
structure Arranges (ps qs : List Piece) (lead trail cs : List Char) : Prop where
  tokens_eq : tokensOf qs = tokensOf ps
  head_eq : qs.head? = ps.head?
  last_eq : qs.getLast? = ps.getLast?
  readable : ∀ q ∈ qs, q.Readable
  separated : Separated qs
  lead_blanks : Blanks lead
  lead_eq_nil : ps = [] → lead = []
  trail_blanks : Blanks trail
  allowed : ∀ c ∈ cs, Formula.isAllowed c = true
  open_eq : ∀ n, mostOpenFrom Text.openAfter n cs = mostOpenFrom Text.openAfter n (textOf qs)
  normalize_eq : ∀ b : Bool,
    (b = true → lead = [] → ∃ op, op.isFunction = true ∧ Follows op qs) →
      normalizeAfter b cs = .ok (lead ++ (textOf qs ++ trail))

variable {p : Piece} {ps qs : List Piece} {lead trail gap ds cs : List Char}

/-- Blanks stay as they are, and end a word in front of them. -/
theorem normalizeAfter_blanks (hgap : Blanks gap) {b : Bool} {out : List Char}
    (hrest : normalizeAfter (b && gap.isEmpty) cs = .ok out) :
    normalizeAfter b (gap ++ cs) = .ok (gap ++ out) := by
  induction gap generalizing b with
  | nil =>
      rw [List.isEmpty_nil, Bool.and_true] at hrest
      exact hrest
  | cons c rest ih =>
      rw [List.isEmpty_cons, Bool.and_false] at hrest
      have hafter : normalizeAfter false (rest ++ cs) = .ok (rest ++ out) :=
        ih (fun d hd => hgap d (List.mem_cons_of_mem c hd)) hrest
      rcases isSeparator_iff.1 (hgap c List.mem_cons_self) with rfl | rfl | rfl <;>
        exact normalizeAfter_of_none (Or.inr rfl) hafter

/-- Blanks at the end arrange no piece. -/
theorem arranges_nil (h : Blanks cs) : Arranges [] [] [] cs cs where
  tokens_eq := rfl
  head_eq := rfl
  last_eq := rfl
  readable := List.forall_mem_nil _
  separated := trivial
  lead_blanks := List.forall_mem_nil _
  lead_eq_nil := fun _ => rfl
  trail_blanks := h
  allowed := h.isAllowed
  open_eq := fun n => by
    have hopen := mostOpenFrom_append_of_eq (h.openAfter n) []
    rwa [List.append_nil] at hopen
  normalize_eq := by
    intro b _
    have hempty : normalizeAfter (b && cs.isEmpty) [] = .ok [] := by rw [normalizeAfter]
    have hblanks := normalizeAfter_blanks h hempty
    rwa [List.append_nil] at hblanks

/-- Whether pieces may follow an operator is up to the first of them. -/
theorem Follows.of_head {op : Operator} (h : Follows op ps) (hhead : qs.head? = ps.head?) :
    Follows op qs := by
  cases ps with
  | nil => exact h.elim
  | cons p rest =>
      cases qs with
      | nil => cases hhead
      | cons q rest' =>
          cases hhead
          cases p <;> exact h

/-- Blanks as pieces are written as themselves. -/
theorem textOf_blanks (lead : List Char) : textOf (lead.map .blank) = lead := by
  induction lead with
  | nil => rfl
  | cons c rest ih =>
      rw [List.map_cons, textOf_cons, ih]
      rfl

/-- Blanks as pieces are no tokens. -/
theorem tokensOf_blanks (lead : List Char) : tokensOf (lead.map .blank) = [] := by
  induction lead with
  | nil => rfl
  | cons c rest ih =>
      rw [List.map_cons, tokensOf_cons, ih]
      rfl

/-- Blanks in front join no pieces. -/
theorem Separated.blanks_append (h : Separated qs) (lead : List Char) :
    Separated (lead.map .blank ++ qs) := by
  induction lead with
  | nil => exact h
  | cons c rest ih => exact ih

/-- With blanks in between, pieces are no closer to each other. -/
theorem Separated.cons_blanks (h : Separated (p :: ps)) (hqs : Separated qs)
    (hhead : qs.head? = ps.head?) (lead : List Char) :
    Separated (p :: (lead.map .blank ++ qs)) := by
  have hrest := hqs.blanks_append lead
  cases p with
  | operator op =>
      refine ⟨?_, hrest⟩
      cases lead with
      | nil => exact h.1.of_head hhead
      | cons c rest => trivial
  | _ => exact hrest

/-- Behind the name of a function stands what does not go on with it. -/
theorem Separated.follows_of_endsWord (h : Separated (p :: ps)) (hp : p.endsWord = true) :
    ∃ op, op.isFunction = true ∧ Follows op ps := by
  cases p with
  | operator op => exact ⟨op, hp, h.1⟩
  | _ => cases hp

/-- A piece that does not go on with the name of a function starts no word. -/
theorem Follows.startsWord_eq {op : Operator} (h : Follows op (p :: ps))
    (hop : op.isFunction = true) : p.startsWord = false := by
  cases p with
  | reference r => exact absurd h (by simp [Follows, hop])
  | operator op' => exact absurd h (by simp [Follows, hop])
  | _ => rfl

/-- One more piece in front of a text. -/
theorem Arranges.cons (h : Arranges ps qs lead trail cs) (hp : Source p ds)
    (hseparated : Separated (p :: ps)) :
    Arranges (p :: ps) (p :: (lead.map .blank ++ qs)) [] trail (ds ++ cs) where
  tokens_eq := by
    rw [tokensOf_cons, tokensOf_append, tokensOf_blanks, List.nil_append, h.tokens_eq]
    rfl
  head_eq := rfl
  last_eq := by
    rw [List.getLast?_cons, List.getLast?_cons, List.getLast?_append, h.last_eq]
    cases ps with
    | nil =>
        rw [h.lead_eq_nil rfl]
        rfl
    | cons p' rest =>
        rw [List.getLast?_cons]
        rfl
  readable := by
    intro q hq
    rw [List.mem_cons, List.mem_append, List.mem_map] at hq
    rcases hq with rfl | ⟨c, hc, rfl⟩ | hq
    · exact hp.readable
    · exact h.lead_blanks c hc
    · exact h.readable q hq
  separated := hseparated.cons_blanks h.separated h.head_eq lead
  lead_blanks := List.forall_mem_nil _
  lead_eq_nil := fun _ => rfl
  trail_blanks := h.trail_blanks
  allowed := fun c hc => (List.mem_append.1 hc).elim (hp.allowed c) (h.allowed c)
  open_eq := by
    intro n
    have hrest : ∀ m, mostOpenFrom Text.openAfter m cs =
        mostOpenFrom Text.openAfter m (lead ++ textOf qs) := by
      intro m
      rw [h.open_eq, mostOpenFrom_append_of_eq (h.lead_blanks.openAfter m)]
    rw [hp.open_eq, mostOpenFrom_append_congr hrest, textOf_cons, textOf_append, textOf_blanks]
  normalize_eq := by
    intro b hb
    have hstart : b = true → p.startsWord = false := by
      intro htrue
      rcases hb htrue rfl with ⟨op, hop, hfollows⟩
      exact hfollows.startsWord_eq hop
    have hrest := h.normalize_eq p.endsWord fun hend _ => by
      rcases hseparated.follows_of_endsWord hend with ⟨op, hop, hfollows⟩
      exact ⟨op, hop, hfollows.of_head h.head_eq⟩
    have hpiece := hp.normalize_eq hstart hrest
    rw [textOf_cons, textOf_append, textOf_blanks]
    simpa using hpiece

/-- Blanks in front of a text. -/
theorem Arranges.after_blanks (h : Arranges (p :: ps) qs [] trail cs) (hgap : Blanks gap) :
    Arranges (p :: ps) qs gap trail (gap ++ cs) where
  tokens_eq := h.tokens_eq
  head_eq := h.head_eq
  last_eq := h.last_eq
  readable := h.readable
  separated := h.separated
  lead_blanks := hgap
  lead_eq_nil := fun hnil => by cases hnil
  trail_blanks := h.trail_blanks
  allowed := fun c hc => (List.mem_append.1 hc).elim (hgap.isAllowed c) (h.allowed c)
  open_eq := fun n => by rw [mostOpenFrom_append_of_eq (hgap.openAfter n), h.open_eq]
  normalize_eq := by
    intro b hb
    refine normalizeAfter_blanks hgap (h.normalize_eq _ fun hstart _ => ?_)
    rw [Bool.and_eq_true, List.isEmpty_iff] at hstart
    exact hb hstart.1 hstart.2

/-- A piece that is no blank has no blank characters. -/
theorem isBlank_of_mem_chars (hp : p.tokens ≠ []) : ∀ c ∈ p.chars, Text.isBlank c = false := by
  have hnone : ∀ {cs : List Char}, cs.any Text.isBlank = false →
      ∀ c ∈ cs, Text.isBlank c = false :=
    fun h c hc => Bool.eq_false_iff.2 (List.any_eq_false.1 h c hc)
  cases p with
  | blank d => exact absurd rfl hp
  | operator op => cases op <;> exact hnone rfl
  | reference r =>
      have hletters : ∀ c ∈ r.kind.letters, Text.isBlank c = false := by
        cases r.kind <;> exact hnone rfl
      intro c hc
      simp only [chars, canonical, List.mem_append, List.mem_cons, List.not_mem_nil,
        or_false] at hc
      rcases hc with (hc | rfl | hc) | rfl
      · exact hletters c hc
      · rfl
      · have hclass : (!Text.isBlank c) = true :=
          Text.forall_isDigit (p := fun c => !Text.isBlank c) (by decide)
            (Text.isDigit_of_mem_decimalDigits hc)
        rwa [Bool.not_eq_true'] at hclass
      · rfl
  | _ => exact hnone rfl

theorem chars_ne_nil (p : Piece) : p.chars ≠ [] := by
  cases p with
  | reference r => simp [chars, canonical]
  | operator op => cases op <;> decide
  | _ => exact List.cons_ne_nil _ _

/-- The text of a piece stands behind blanks in every text that lays it out. -/
theorem exists_source (hp : p.tokens ≠ []) {ts : List Token} (h : LaidOut (p.tokens ++ ts) cs) :
    ∃ gap ds rest, cs = gap ++ (ds ++ rest) ∧ Blanks gap ∧ Source p ds ∧ LaidOut ts rest := by
  cases p with
  | blank d => exact absurd rfl hp
  | opening =>
      rcases h.cons with ⟨gap, ds, rest, rfl, hgap, rfl, hrest⟩
      exact ⟨gap, _, rest, rfl, hgap, source_opening, hrest⟩
  | closing =>
      rcases h.cons with ⟨gap, ds, rest, rfl, hgap, rfl, hrest⟩
      exact ⟨gap, _, rest, rfl, hgap, source_closing, hrest⟩
  | comma =>
      rcases h.cons with ⟨gap, ds, rest, rfl, hgap, rfl, hrest⟩
      exact ⟨gap, _, rest, rfl, hgap, source_comma, hrest⟩
  | operator op =>
      rcases h.cons with ⟨gap, ds, rest, rfl, hgap, hds, hrest⟩
      refine ⟨gap, ds, rest, rfl, hgap, ?_, hrest⟩
      have hsymbol : ds = op.symbol.toList := by
        cases op <;> exact hds
      rw [hsymbol]
      exact source_operator op
  | reference r =>
      rcases h.cons with ⟨lead, letters, cs₁, rfl, hlead, hletters, h₁⟩
      rcases h₁.cons with ⟨gap, _, cs₂, rfl, hgap, rfl, h₂⟩
      rcases h₂.cons with ⟨before, digits, cs₃, rfl, hbefore, hdigits, h₃⟩
      rcases h₃.cons with ⟨after, _, rest, rfl, hafter, rfl, hrest⟩
      have hletters' : letters = r.kind.letters := by
        rw [hletters, String.toList_ofList]
      refine ⟨lead, referenceText r.kind gap before digits after, rest, ?_, hlead,
        source_reference hgap hbefore hafter hdigits, hrest⟩
      simp [referenceText, hletters']

/--
A text that lays out the tokens of pieces becomes a text of the same pieces, with
blanks between them, when its references are brought into canonical form.
-/
theorem exists_arranges (hps : ∀ p ∈ ps, p.tokens ≠ []) (hseparated : Separated ps)
    (h : LaidOut (tokensOf ps) cs) : ∃ qs lead trail, Arranges ps qs lead trail cs := by
  induction ps generalizing cs with
  | nil => exact ⟨[], [], cs, arranges_nil h.blanks_of_nil⟩
  | cons p rest ih =>
      rcases exists_source (hps p List.mem_cons_self) h with
        ⟨gap, ds, cs', rfl, hgap, hsource, hrest⟩
      rcases ih (fun q hq => hps q (List.mem_cons_of_mem p hq)) hseparated.tail hrest with
        ⟨qs, lead, trail, harranges⟩
      exact ⟨_, gap, trail, (harranges.cons hsource hseparated).after_blanks hgap⟩

/-- Blanks around pieces are dropped. -/
theorem Arranges.strip_eq (h : Arranges ps qs lead trail cs) (hps : ∀ p ∈ ps, p.tokens ≠ []) :
    Text.strip (lead ++ (textOf qs ++ trail)) = textOf qs := by
  refine Text.strip_append h.lead_blanks.isBlank h.trail_blanks.isBlank (fun c hc => ?_)
    fun c hc => ?_
  · cases qs with
    | nil => cases hc
    | cons q rest =>
        have hq : q ∈ ps := List.mem_of_head? h.head_eq.symm
        rw [textOf_cons, List.head?_append_of_ne_nil _ q.chars_ne_nil] at hc
        exact isBlank_of_mem_chars (hps q hq) c (List.mem_of_mem_head? hc)
  · rcases List.eq_nil_or_concat qs with rfl | ⟨init, q, rfl⟩
    · cases hc
    · have hq : q ∈ ps := by
        refine List.mem_of_getLast? ?_
        rw [← h.last_eq, List.concat_eq_append, List.getLast?_concat]
      rw [List.concat_eq_append, textOf_append, textOf_cons, textOf_nil, List.append_nil,
        List.getLast?_append_of_ne_nil _ q.chars_ne_nil] at hc
      exact isBlank_of_mem_chars (hps q hq) c (List.mem_of_mem_getLast? hc)

end Piece

/-! ## Derivations -/

/-- Whether pieces that can stand side by side make up tokens, without blanks. -/
structure MakesUp (ps : List Piece) (ts : List Token) : Prop where
  tokens_eq : Piece.tokensOf ps = ts
  separated : Piece.Separated ps
  tokens_ne_nil : ∀ p ∈ ps, p.tokens ≠ []

namespace MakesUp

open Piece

variable {ps qs : List Piece} {ts us : List Token} {op : Operator}

/-- What starts a formula does not run together with a sign in front of it. -/
theorem follows (h : MakesUp ps ts) (hts : Starts ts) (hop : op.isFunction = false) :
    Follows op ps := by
  rcases hts with ⟨t, rest, hcons, ht⟩
  cases ps with
  | nil =>
      have hnil := h.tokens_eq
      rw [hcons] at hnil
      cases hnil
  | cons p rest' =>
      have htokens := h.tokens_eq
      rw [tokensOf_cons, hcons] at htokens
      cases p with
      | opening => trivial
      | reference r => exact hop
      | operator op' =>
          refine ⟨hop, ?_⟩
          cases op' <;> first | rfl | (cases htokens; cases ht)
      | closing =>
          cases htokens
          cases ht
      | comma =>
          cases htokens
          cases ht
      | blank c => exact absurd rfl (h.tokens_ne_nil _ List.mem_cons_self)

/-- Pieces one after the other make up their tokens one after the other. -/
theorem append (hp : MakesUp ps ts) (hq : MakesUp qs us) : MakesUp (ps ++ qs) (ts ++ us) where
  tokens_eq := by rw [tokensOf_append, hp.tokens_eq, hq.tokens_eq]
  separated := hp.separated.append hq.separated
  tokens_ne_nil := fun p hmem =>
    (List.mem_append.1 hmem).elim (hp.tokens_ne_nil p) (hq.tokens_ne_nil p)

/-- A single piece that nothing runs together with. -/
theorem single {p : Piece} (hp : p.tokens ≠ []) (hseparated : Separated [p]) :
    MakesUp [p] p.tokens where
  tokens_eq := by rw [tokensOf_cons]; exact List.append_nil _
  separated := hseparated
  tokens_ne_nil := by
    intro q hq
    rwa [List.mem_singleton.1 hq]

/-- An operator in front of pieces that may follow it makes up its token. -/
theorem operator_cons (h : MakesUp ps ts) (op : Operator) (hfollows : Follows op ps) :
    MakesUp (.operator op :: ps) (op.token :: ts) where
  tokens_eq := by
    rw [tokensOf_cons, h.tokens_eq]
    rfl
  separated := ⟨hfollows, h.separated⟩
  tokens_ne_nil := List.forall_mem_cons.2 ⟨List.cons_ne_nil _ _, h.tokens_ne_nil⟩

/-- Brackets around pieces make up brackets around their tokens. -/
theorem brackets (h : MakesUp ps ts) :
    MakesUp (.opening :: (ps ++ [.closing])) (.opening :: (ts ++ [.closing])) :=
  (single (p := .opening) (List.cons_ne_nil _ _) trivial).append
    (h.append (single (p := .closing) (List.cons_ne_nil _ _) trivial))

/-- A comma between pieces makes up a comma between their tokens. -/
theorem comma (hp : MakesUp ps ts) (hq : MakesUp qs us) :
    MakesUp (ps ++ .comma :: qs) (ts ++ .comma :: us) :=
  hp.append ((single (p := .comma) (List.cons_ne_nil _ _) trivial).append hq)

end MakesUp

/-- The tokens of a formula are made up of pieces. -/
theorem Derives.exists_makesUp {rank : Rank} {ts : List Token} {f : Formula NodeReference}
    (h : Derives rank ts f) : ∃ ps, MakesUp ps ts := by
  induction h with
  | sum _ ih => exact ih
  | product _ ih => exact ih
  | addition hop _ hr ihl ihr =>
      rcases ihl with ⟨ps, hps⟩
      rcases ihr with ⟨qs, hqs⟩
      have hsign := Operator.isFunction_eq_false (Nat.le_trans (Nat.le_of_eq hop) (by decide))
      exact ⟨_, hps.append (hqs.operator_cons _ (hqs.follows hr.starts hsign))⟩
  | multiplication hop _ hr ihl ihr =>
      rcases ihl with ⟨ps, hps⟩
      rcases ihr with ⟨qs, hqs⟩
      have hsign := Operator.isFunction_eq_false (Nat.le_of_eq hop)
      exact ⟨_, hps.append (hqs.operator_cons _ (hqs.follows hr.starts hsign))⟩
  | brackets _ ih =>
      rcases ih with ⟨ps, hps⟩
      exact ⟨_, hps.brackets⟩
  | reference r => exact ⟨_, MakesUp.single (p := .reference r) (List.cons_ne_nil _ _) trivial⟩
  | @function ts us f g op hop _ _ ihl ihr =>
      rcases ihl with ⟨ps, hps⟩
      rcases ihr with ⟨qs, hqs⟩
      have hcall := (hps.comma hqs).brackets.operator_cons op trivial
      simp only [List.append_assoc, List.cons_append] at hcall
      exact ⟨_, hcall⟩

/--
Whether reading goes on with a text that lays out the tokens of a formula, and what is read
once its references are in canonical form: the formula, unless too many brackets are open.
-/
structure ReadsText (ts : List Token) (cs : List Char) (f : Formula NodeReference) : Prop where
  allowed : ∀ c ∈ cs, Formula.isAllowed c = true
  open_eq : mostOpenFrom Token.openAfter 0 ts = Text.mostOpen cs
  reads : ∃ normalized, Reference.normalize cs = .ok normalized ∧
    (Text.mostOpen cs ≤ Lexer.bracketLimit →
      (Expression.ofText (Text.strip normalized)).Finds f.expression Formula.readingRoom) ∧
    (Lexer.bracketLimit < Text.mostOpen cs →
      ∀ e, (Expression.ofText (Text.strip normalized)).outcome ≠ .found e)

/-- The tokens of a whole formula are read within the room that there is, up to the limit. -/
theorem Derives.ofText_finds {ts : List Token} {cs : List Char} {f : Formula NodeReference}
    (h : Derives .sum ts f) (hscan : Lexer.scan 0 cs = (ts, true))
    (hopen : mostOpenFrom Token.openAfter 0 ts ≤ Lexer.bracketLimit) :
    (Expression.ofText cs).Finds f.expression Formula.readingRoom := by
  have hclosed : Token.closeAll 0 ts = true := by
    have happend := h.closeAll_append 0 []
    rwa [List.append_nil] at happend
  have htokens : Lexer.tokens cs = ts ++ [.lineEnd] := by
    rw [Lexer.tokens, hscan]
    exact if_pos hclosed
  have hend : ∀ n, mostOpenFrom Token.openAfter n [.lineEnd] =
      mostOpenFrom Token.openAfter n [] := fun _ => mostOpenFrom_cons_of_eq rfl []
  have hline : mostOpenFrom Token.openAfter 0 (ts ++ [.lineEnd]) =
      mostOpenFrom Token.openAfter 0 ts := by
    rw [mostOpenFrom_append_congr hend, List.append_nil]
  have hlimit : Lexer.bracketLimit = 200 := rfl
  have hroom : Formula.readingRoom = 6000 := rfl
  have hfinds := h.ofTokens_finds
  rw [← htokens] at hfinds
  refine Expression.ofText_finds (hfinds.mono ?_)
  rw [htokens, hline]
  omega

/--
A text that lays out a derivation is read as its formula, unless too many brackets are
open at once.
-/
theorem Derives.readsText {ts : List Token} {cs : List Char} {f : Formula NodeReference}
    (h : Derives .sum ts f) (hlaid : LaidOut ts cs) : ReadsText ts cs f := by
  rcases h.exists_makesUp with ⟨ps, hps⟩
  rw [← hps.tokens_eq] at hlaid
  rcases Piece.exists_arranges hps.tokens_ne_nil hps.separated hlaid with
    ⟨qs, lead, trail, harranges⟩
  have hopen : Text.mostOpen cs = mostOpenFrom Text.openAfter 0 (Piece.textOf qs) :=
    harranges.open_eq 0
  have htokens : Piece.tokensOf qs = ts := harranges.tokens_eq.trans hps.tokens_eq
  have hopen_eq : mostOpenFrom Token.openAfter 0 ts = Text.mostOpen cs := by
    rw [hopen, ← htokens, Piece.mostOpenFrom_tokensOf harranges.readable]
  have hnormal := harranges.normalize_eq false fun hword => by cases hword
  refine ⟨harranges.allowed, hopen_eq, _, hnormal, fun hlimit => ?_, fun hlimit e hfound => ?_⟩
  · rw [harranges.strip_eq hps.tokens_ne_nil]
    refine h.ofText_finds ?_ (hopen_eq ▸ hlimit)
    rw [Piece.scan_textOf harranges.readable harranges.separated (hopen ▸ hlimit), htokens]
  · rw [harranges.strip_eq hps.tokens_ne_nil] at hfound
    rcases Expression.exists_scan_of_ofText hfound with ⟨us, hscan, -⟩
    have hunfinished := Piece.scan_textOf_of_lt harranges.readable harranges.separated
      (Nat.zero_le _) (hopen ▸ hlimit)
    rw [hscan] at hunfinished
    cases hunfinished

/-! ## Canonical text -/

/-- The text of pieces lays out their tokens. -/
theorem Piece.laidOut_textOf {ps : List Piece} (hread : ∀ p ∈ ps, p.Readable) :
    LaidOut (tokensOf ps) (textOf ps) := by
  induction ps with
  | nil => exact .nil
  | cons p rest ih =>
      have hrest := ih fun q hq => hread q (List.mem_cons_of_mem p hq)
      cases p with
      | blank c => exact .blank (hread _ List.mem_cons_self) hrest
      | opening => exact .token (t := .opening) rfl hrest
      | closing => exact .token (t := .closing) rfl hrest
      | comma => exact .token (t := .comma) rfl hrest
      | operator op =>
          have hwritten : op.token.WrittenAs op.symbol.toList := by
            cases op <;> rfl
          exact .token hwritten hrest
      | reference r =>
          have hid : (Token.literal (.integer r.id)).WrittenAs (Text.decimalDigits r.id) :=
            Text.isNumeral_decimalDigits (hread _ List.mem_cons_self)
          have hname : (Token.name (String.ofList r.kind.letters)).WrittenAs r.kind.letters :=
            String.toList_ofList.symm
          rw [textOf_cons, chars_reference_append]
          exact .token hname (.token (t := .opening) rfl
            (.token hid (.token (t := .closing) rfl hrest)))

end StockFlow
