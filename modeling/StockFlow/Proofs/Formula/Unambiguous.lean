import StockFlow.Proofs.Formula.Mapping
import StockFlow.Proofs.Formula.Sentences

/-!
# Written formulas are unambiguous

The text of a formula over leaves that are written as references is cut into its pieces
in one way only: the first character of a piece says how far it goes.  The pieces make up
the tokens of a derivation, and tokens derive at most one formula.  So the text gives the
formula back, whatever its depth and however many brackets are open at once.

Main definitions:

- {lit}`IsReferenceText`: leaf texts that written formulas may have.
- {lit}`Piece.span`: how many characters the first piece of a text has.

Main results:

- Theorem {lit}`Piece.textAs_injective`: a text is one of one list of pieces only.
- Theorem {lit}`Formula.pieces_injective`: pieces are those of one formula only.
- Theorem {lit}`Formula.render_injective`: and so are written formulas.
-/

namespace StockFlow

/-- Whether a leaf is written like a reference: letters, and brackets that hold no brackets. -/
def IsReferenceText (cs : List Char) : Prop :=
  ∃ (kind : ReferenceKind) (body : List Char),
    cs = kind.letters ++ '(' :: (body ++ [')']) ∧ ∀ c ∈ body, Reference.isInside c = true

namespace Piece

variable {name : NodeReference → List Char} {p q : Piece} {ps qs : List Piece}

/-! ## Cutting off a piece -/

/-- How many characters the first piece of a text has. -/
def span : List Char → Nat
  | 'M' :: _ => 3
  | 'R' :: _ => 5
  | 'A' :: rest => (rest.takeWhile (· != ')')).length + 2
  | 'C' :: rest => (rest.takeWhile (· != ')')).length + 2
  | 'L' :: rest => (rest.takeWhile (· != ')')).length + 2
  | _ => 1

/-- The span of a reference ends where the reference does. -/
theorem span_reference {cs : List Char} (h : IsReferenceText cs) (rest : List Char) :
    span (cs ++ rest) = cs.length := by
  obtain ⟨kind, body, rfl, hbody⟩ := h
  have htake : (body ++ ')' :: rest).takeWhile (· != ')') = body := by
    rw [List.takeWhile_append_of_pos]
    · simp
    · intro c hc
      have hinside := hbody c hc
      rw [Reference.isInside, Bool.and_eq_true] at hinside
      exact hinside.2
  cases kind <;> simp [ReferenceKind.letters, span, htake]

/-- The span of a piece ends where the piece does, whatever follows. -/
theorem span_charsAs (hp : p.Plain fun r => IsReferenceText (name r)) (rest : List Char) :
    span (p.charsAs name ++ rest) = (p.charsAs name).length := by
  cases p with
  | reference r => exact span_reference hp rest
  | operator op => cases op <;> rfl
  | blank c =>
      obtain rfl : c = ' ' := hp
      rfl
  | _ => rfl

/-! ## Recognising a piece -/

/-- The piece that characters are, references apart. -/
def ofChars? : List Char → Option Piece
  | ['('] => some .opening
  | [')'] => some .closing
  | [','] => some .comma
  | [' '] => some (.blank ' ')
  | ['+'] => some (.operator .add)
  | ['-'] => some (.operator .subtract)
  | ['*'] => some (.operator .multiply)
  | ['/'] => some (.operator .divide)
  | ['M', 'A', 'X'] => some (.operator .maximum)
  | ['M', 'I', 'N'] => some (.operator .minimum)
  | ['R', 'O', 'U', 'N', 'D'] => some (.operator .round)
  | _ => none

theorem ofChars?_reference {cs : List Char} (h : IsReferenceText cs) : ofChars? cs = none := by
  obtain ⟨kind, body, rfl, _⟩ := h
  cases kind <;> rfl

/-- A piece that is no reference is recognised. -/
theorem ofChars?_charsAs (hp : p.Plain fun r => IsReferenceText (name r)) :
    (∃ r, p = .reference r ∧ ofChars? (p.charsAs name) = none) ∨
      ofChars? (p.charsAs name) = some p := by
  cases p with
  | reference r => exact Or.inl ⟨r, rfl, ofChars?_reference hp⟩
  | operator op => exact Or.inr (by cases op <;> rfl)
  | blank c =>
      obtain rfl : c = ' ' := hp
      exact Or.inr rfl
  | _ => exact Or.inr rfl

section
variable {P : NodeReference → Prop} (hname : ∀ r s, P r → P s → name r = name s → r = s)
  (htext : ∀ r, P r → IsReferenceText (name r))
include hname htext

/-- Plain pieces with the same characters are the same. -/
theorem charsAs_injective (hp : p.Plain P) (hq : q.Plain P)
    (h : p.charsAs name = q.charsAs name) : p = q := by
  rcases ofChars?_charsAs (hp.mono htext) with ⟨r, rfl, hnone⟩ | hsome
  · rcases ofChars?_charsAs (hq.mono htext) with ⟨s, rfl, _⟩ | hsome
    · exact congrArg _ (hname r s hp hq h)
    · rw [← h, hnone] at hsome
      cases hsome
  · rcases ofChars?_charsAs (hq.mono htext) with ⟨s, rfl, hnone⟩ | hsome'
    · rw [← h, hsome] at hnone
      cases hnone
    · rw [← h, hsome] at hsome'
      exact Option.some.inj hsome'

omit hname in
/-- No plain piece is without characters. -/
theorem charsAs_ne_nil (hp : p.Plain P) : p.charsAs name ≠ [] := by
  cases p with
  | reference r =>
      obtain ⟨kind, body, heq, _⟩ := htext r hp
      simp [charsAs, heq]
  | operator op => cases op <;> exact List.cons_ne_nil _ _
  | _ => exact List.cons_ne_nil _ _

/-- A text is one of one list of pieces only. -/
theorem textAs_injective (hps : ∀ p ∈ ps, p.Plain P) (hqs : ∀ q ∈ qs, q.Plain P)
    (h : textAs name ps = textAs name qs) : ps = qs := by
  induction ps generalizing qs with
  | nil =>
      cases qs with
      | nil => rfl
      | cons q qs =>
          have hnil := List.append_eq_nil_iff.1 h.symm
          exact absurd hnil.1 (charsAs_ne_nil htext (hqs q List.mem_cons_self))
  | cons p ps ih =>
      rw [List.forall_mem_cons] at hps
      cases qs with
      | nil =>
          have hnil := List.append_eq_nil_iff.1 h
          exact absurd hnil.1 (charsAs_ne_nil htext hps.1)
      | cons q qs =>
          rw [List.forall_mem_cons] at hqs
          rw [textAs_cons, textAs_cons] at h
          -- both texts go on with the same characters, so their first pieces are equally long
          have hlength : (p.charsAs name).length = (q.charsAs name).length := by
            rw [← span_charsAs (hps.1.mono htext) (textAs name ps), h,
              span_charsAs (hqs.1.mono htext)]
          obtain ⟨hfirst, hrest⟩ := List.append_inj h hlength
          rw [charsAs_injective hname htext hps.1 hqs.1 hfirst, ih hps.2 hqs.2 hrest]

end

end Piece

namespace Formula

/-! ## Written formulas -/

/-- Pieces are those of one formula only. -/
theorem pieces_injective {f g : Formula NodeReference} (h : f.pieces = g.pieces) : f = g := by
  have hg := (written g).sum
  rw [← h] at hg
  exact (written f).sum.unique hg

/--
Two formulas over leaves that are written like references are the same if they are written
alike.  Their leaves may be anything between the brackets, and the formulas of any depth.
-/
theorem render_injective {f g : Formula (List Char)} (hf : ∀ cs ∈ f.leaves, IsReferenceText cs)
    (hg : ∀ cs ∈ g.leaves, IsReferenceText cs) (h : f.render = g.render) : f = g := by
  -- leaves are numbered, so that the numbers stand for them in the derivations of formulas
  let texts := f.leaves ++ g.leaves
  let ref (cs : List Char) : NodeReference := ⟨.level, texts.idxOf cs⟩
  let name (r : NodeReference) : List Char := texts.getD r.id []
  let P (r : NodeReference) : Prop := ∃ cs ∈ texts, r = ref cs
  have hback : ∀ cs ∈ texts, name (ref cs) = cs := by
    intro cs hcs
    have hlt := List.idxOf_lt_length_iff.2 hcs
    simp [name, ref, hlt]
  have hname : ∀ r s, P r → P s → name r = name s → r = s := by
    rintro _ _ ⟨cs, hcs, rfl⟩ ⟨ds, hds, rfl⟩ hsame
    rw [hback cs hcs, hback ds hds] at hsame
    rw [hsame]
  have htext : ∀ r, P r → IsReferenceText (name r) := by
    rintro _ ⟨cs, hcs, rfl⟩
    rw [hback cs hcs]
    exact (List.mem_append.1 hcs).elim (hf cs) (hg cs)
  have hplain : ∀ h : Formula (List Char), (∀ cs ∈ h.leaves, cs ∈ texts) →
      (∀ p ∈ (h.map ref).pieces, p.Plain P) ∧ Piece.textAs name (h.map ref).pieces = h.render := by
    intro h hmem
    constructor
    · refine plain_pieces fun r hr => ?_
      rw [leaves_map] at hr
      obtain ⟨cs, hcs, rfl⟩ := List.mem_map.1 hr
      exact ⟨cs, hmem cs hcs, rfl⟩
    · have hself : (h.map ref).map name = h := by
        rw [map_map]
        exact (map_congr fun cs hcs => hback cs (hmem cs hcs)).trans (map_id h)
      rw [textAs_pieces, hself]
  obtain ⟨hfplain, hftext⟩ := hplain f fun cs hcs => List.mem_append_left _ hcs
  obtain ⟨hgplain, hgtext⟩ := hplain g fun cs hcs => List.mem_append_right _ hcs
  have hpieces := Piece.textAs_injective hname htext hfplain hgplain (by rw [hftext, hgtext, h])
  refine map_injective (fun cs hcs ds hds hsame => ?_) (pieces_injective hpieces)
  rw [← hback cs (List.mem_append_left _ hcs), hsame, hback ds (List.mem_append_right _ hds)]

end Formula
end StockFlow
