import StockFlow.Proofs.Formula.Unambiguous
import StockFlow.Proofs.World.ShortTexts

/-!
# Short texts are unambiguous

A short text is the text of one formula only, also where it is nested too deep to be read
back, as long as no number is given to two nodes of one kind.  Numbers may be negative.

Main definitions:

- {lit}`NumberTable.TellsApart`: whether no number is given to two nodes of one kind.

Main results:

- Theorem {lit}`World.shortTextOf_injective`: different formulas have different short texts.
-/

namespace StockFlow

/-- Whether no number is given to two nodes of one kind. -/
def NumberTable.TellsApart (numbers : NumberTable) : Prop :=
  ∀ kind, ∀ e ∈ numbers kind, ∀ e' ∈ numbers kind, e.2 = e'.2 → e.1 = e'.1

namespace World

variable {w : World} {numbers : NumberTable} {n n' : NodeId}

/-- A numbered node is written like a reference, also if its number is negative. -/
theorem IsNumbered.isReferenceText (h : w.IsNumbered numbers n) :
    IsReferenceText (w.numberedText numbers n) := by
  obtain ⟨kind, k, hkind, hk⟩ := h.exists_number
  refine ⟨kind, (Text.decimal k).toList, numberedText_eq hkind hk, fun c hc => ?_⟩
  rcases Text.mem_decimal hc with rfl | hdigit
  · decide
  · exact Reference.isInside_of_isWordPart (Lexer.isWordPart_of_isDigit hdigit)

/-- Nodes that are written alike are of one kind and have one number. -/
theorem IsNumbered.eq_of_numberedText_eq (h : w.IsNumbered numbers n)
    (h' : w.IsNumbered numbers n') (hnumbers : numbers.TellsApart)
    (htext : w.numberedText numbers n = w.numberedText numbers n') : n = n' := by
  obtain ⟨kind, k, hkind, hk⟩ := h.exists_number
  obtain ⟨kind', k', hkind', hk'⟩ := h'.exists_number
  rw [numberedText_eq hkind hk, numberedText_eq hkind' hk'] at htext
  have hlength : kind.letters.length = kind'.letters.length := by
    cases kind <;> cases kind' <;> rfl
  obtain ⟨hletters, hrest⟩ := List.append_inj htext hlength
  have hsame : kind = kind' := by
    cases kind <;> cases kind' <;> first | rfl | cases hletters
  subst hsame
  have hnumber : k = k' :=
    Text.decimal_injective (List.append_cancel_right (List.cons.inj hrest).2)
  exact hnumbers kind _ (OrderedMap.mem_of_lookup hk) _ (OrderedMap.mem_of_lookup hk') hnumber

/--
Two formulas of any size and depth over nodes that are numbered, without one number for
two nodes of a kind, have short texts, and these are different unless the formulas are the
same, node for node and operator for operator.
-/
theorem shortTextOf_injective (hnumbers : numbers.TellsApart) {f g : Formula NodeId}
    (hf : ∀ n ∈ f.leaves, w.IsNumbered numbers n) (hg : ∀ n ∈ g.leaves, w.IsNumbered numbers n) :
    ∃ s t, w.shortTextOf numbers (Argument.ofFormula f) = .ok s ∧
      w.shortTextOf numbers (Argument.ofFormula g) = .ok t ∧ (s = t → f = g) := by
  refine ⟨_, _, shortTextOf_numberedText hf, shortTextOf_numberedText hg, fun htext => ?_⟩
  have htexts : ∀ {f : Formula NodeId}, (∀ n ∈ f.leaves, w.IsNumbered numbers n) →
      ∀ cs ∈ (f.map (w.numberedText numbers)).leaves, IsReferenceText cs := by
    intro f hf
    rw [Formula.leaves_map, List.forall_mem_map]
    exact fun n hn => (hf n hn).isReferenceText
  have hwritten := Formula.render_injective (htexts hf) (htexts hg) (String.ofList_inj.1 htext)
  exact Formula.map_injective
    (fun n hn n' hn' hsame => (hf n hn).eq_of_numberedText_eq (hg n' hn') hnumbers hsame) hwritten

theorem shortTextOf_injective_gapSession :
    ∃ s t, (World.run {} Drafts.gapSession).shortTextOf
        ((World.run {} Drafts.gapSession).numbering ⟨0⟩)
        (Argument.ofFormula (.apply .subtract (.apply .subtract (.leaf ⟨0⟩) (.leaf ⟨1⟩))
          (.leaf ⟨2⟩))) = .ok s ∧
      (World.run {} Drafts.gapSession).shortTextOf
        ((World.run {} Drafts.gapSession).numbering ⟨0⟩)
        (Argument.ofFormula (.apply .subtract (.leaf ⟨0⟩)
          (.apply .subtract (.leaf ⟨1⟩) (.leaf ⟨2⟩)))) = .ok t ∧ s ≠ t := by
  have hnumbers : ((World.run {} Drafts.gapSession).numbering ⟨0⟩).TellsApart := by
    intro kind
    cases kind <;> decide +kernel
  obtain ⟨s, t, hs, ht, hinjective⟩ :=
    shortTextOf_injective (w := World.run {} Drafts.gapSession) hnumbers
      (f := .apply .subtract (.apply .subtract (.leaf ⟨0⟩) (.leaf ⟨1⟩)) (.leaf ⟨2⟩))
      (g := .apply .subtract (.leaf ⟨0⟩) (.apply .subtract (.leaf ⟨1⟩) (.leaf ⟨2⟩)))
      (fun n hn => Drafts.isNumbered_gapSession hn) (fun n hn => Drafts.isNumbered_gapSession hn)
  refine ⟨s, t, hs, ht, fun hsame => ?_⟩
  cases hinjective hsame

end World
end StockFlow
