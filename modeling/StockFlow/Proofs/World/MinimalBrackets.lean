import StockFlow.Proofs.Formula.OperandBrackets
import StockFlow.Proofs.World.TextSymbols
import StockFlow.Proofs.World.WrittenForms

/-!
# Short texts have no bracket too many

Each bracket pair around an operand of an infix sign is needed: the short text without
that one pair is not read as a formula equal to the one that was written.

Main results:

- Theorem {lit}`Drafts.not_areEqual_read_dropped`: no pair around an operand can go.
-/

namespace StockFlow

/-- Inverted numbers give nodes. -/
theorem NumberTable.giveNodes_inverted (numbers : NumberTable) :
    Drafts.GiveNodes fun kind => (numbers.inverted kind).getD [] := by
  intro kind e he
  obtain ⟨entry, _, rfl⟩ := List.mem_map.1 he
  exact ⟨entry.2, rfl⟩

/-- A text of a reference opens one bracket. -/
theorem IsReferenceText.count_opening {cs : List Char} (h : IsReferenceText cs) :
    cs.count '(' = 1 := by
  obtain ⟨kind, body, rfl, hbody⟩ := h
  have hletters : kind.letters.count '(' = 0 := by cases kind <;> decide
  have hinside : body.count '(' = 0 := by
    rw [List.count_eq_zero]
    intro hopening
    exact absurd (hbody _ hopening) (by decide)
  simp [hletters, hinside]

/-- Formulas are equal only if they are the same. -/
theorem Argument.eq_of_equals_ofFormula {f g : Formula NodeId}
    (h : (Argument.ofFormula f).equals (Argument.ofFormula g) = true) : f = g := by
  induction f generalizing g with
  | leaf n =>
      cases g with
      | leaf n' => exact congrArg _ (eq_of_beq h)
      | apply op l r => cases h
  | apply op l r ihl ihr =>
      cases g with
      | leaf n => cases h
      | apply op' l' r' =>
          have hparts : (op == op' && (Argument.ofFormula l).equals (Argument.ofFormula l') &&
              (Argument.ofFormula r).equals (Argument.ofFormula r')) = true := h
          rw [Bool.and_eq_true, Bool.and_eq_true, beq_iff_eq] at hparts
          rw [hparts.1.1, ihl hparts.1.2, ihr hparts.2]

namespace Drafts

variable {w : World} {numbers : NumberTable} {d d' : Drafts} {f : Formula NodeId} {t t' : Term}

/-- No text with fewer brackets than the short text of a formula is read as an equal one. -/
theorem count_opening_le_of_read {tables : ReferenceKind → List (Int × Term)} {text : String}
    (htables : GiveNodes tables) (ht : d.tree? t = some (Argument.ofFormula f))
    (hleaves : ∀ n ∈ f.leaves, w.IsNumbered numbers n)
    (hread : d.read w (fun kind => some (tables kind)) (.text text) = .ok (d', t'))
    (hequal : d'.areEqual t t' = true) :
    (f.map (w.numberedText numbers)).render.count '(' ≤ text.toList.count '(' := by
  obtain ⟨g, hexpression, -, htree, -⟩ := exists_formula_of_read htables hread
  have hsame : f = g.map (nodeOf tables) := by
    refine Argument.eq_of_equals_ofFormula ?_
    rwa [areEqual, argument, argument, (extends_of_read hread).tree? ht, htree] at hequal
  subst hsame
  rw [Formula.leaves_map, List.forall_mem_map] at hleaves
  rw [Formula.map_map, Formula.count_render fun r hr =>
    (hleaves r hr).isReferenceText.count_opening]
  exact Formula.openings_le_of_expressionOf hexpression

/--
Take any of the bracket pairs that the short text of a formula has around operands of
infix signs, at any depth and on either side.  If the text without this pair is accepted
with the inverted numbers at all, the term that is read is not equal to the formula.
-/
theorem not_areEqual_read_dropped (ht : d.tree? t = some (Argument.ofFormula f))
    (hleaves : ∀ n ∈ f.leaves, w.IsNumbered numbers n) {p : BracketPair}
    (hp : p ∈ (f.map (w.numberedText numbers)).operandPairs) :
    w.shortTextOf numbers (d.argument t) = .ok (String.ofList p.kept) ∧
      ∀ d' t', d.read w numbers.inverted (.text (String.ofList p.dropped)) = .ok (d', t') →
        d'.areEqual t t' = false := by
  have hargument : d.argument t = Argument.ofFormula f := by
    rw [argument, ht]
    rfl
  have hkept := Formula.kept_of_mem_operandPairs hp
  refine ⟨?_, fun d' t' hread => ?_⟩
  · rw [hargument, hkept, World.shortTextOf_numberedText hleaves]
  · rw [← Bool.not_eq_true]
    intro hequal
    have hfewest := count_opening_le_of_read numbers.giveNodes_inverted ht hleaves hread hequal
    rw [← hkept, p.count_kept, String.toList_ofList] at hfewest
    exact absurd hfewest (Nat.not_succ_le_self _)

/-- Without its pair, this text is accepted all the same. -/
theorem not_areEqual_read_dropped_gap :
    ∃ d' t', (copy {} gapFormula).1.read (World.run {} gapSession)
        ((World.run {} gapSession).numbering ⟨0⟩).inverted
        (.text "LN(1) - CN(1) - MAX(AN(1), LN(1))") = .ok (d', t') ∧
      (World.run {} gapSession).shortTextOf ((World.run {} gapSession).numbering ⟨0⟩)
        ((copy {} gapFormula).1.argument (copy {} gapFormula).2) =
          .ok "LN(1) - (CN(1) - MAX(AN(1), LN(1)))" ∧
      d'.areEqual (copy {} gapFormula).2 t' = false := by
  have htree : (copy {} gapFormula).1.tree? (copy {} gapFormula).2 =
      some (Argument.ofFormula gapFormula) := rfl
  have hleaves : ∀ n ∈ gapFormula.leaves,
      (World.run {} gapSession).IsNumbered ((World.run {} gapSession).numbering ⟨0⟩) n := by
    have hnodes : ∀ n ∈ gapFormula.leaves, n ∈ [⟨0⟩, ⟨1⟩, (⟨2⟩ : NodeId)] := by decide
    exact fun n hn => isNumbered_gapSession (hnodes n hn)
  have hpair : ⟨"LN(1) - ".toList, "CN(1) - MAX(AN(1), LN(1))".toList, []⟩ ∈
      (gapFormula.map ((World.run {} gapSession).numberedText
        ((World.run {} gapSession).numbering ⟨0⟩))).operandPairs := by
    decide +kernel
  obtain ⟨d', t', hread⟩ := exists_of_isSome_toOption
    (x := (copy {} gapFormula).1.read (World.run {} gapSession)
      ((World.run {} gapSession).numbering ⟨0⟩).inverted
      (.text "LN(1) - CN(1) - MAX(AN(1), LN(1))")) (by decide +kernel)
  obtain ⟨hshort, hdropped⟩ := not_areEqual_read_dropped htree hleaves hpair
  exact ⟨d', t', hread, hshort, hdropped d' t' hread⟩

end Drafts
end StockFlow
