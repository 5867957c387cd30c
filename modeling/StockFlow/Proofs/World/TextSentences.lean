import StockFlow.Proofs.Formula.Sentences
import StockFlow.Proofs.World.AcceptedTexts

/-!
# Accepted texts and sentences

An accepted text spells the formula that it stands for.  It is a sentence of the grammar,
and then one of this formula only, exactly if no bracket stands around a name or around
the number of a reference and no comma ends the arguments of a function.

Main results:

- Theorem {lit}`Drafts.read_writes_iff`: which accepted texts are sentences.
-/

namespace StockFlow
namespace Drafts

variable {w : World} {d d' : Drafts} {t : Term} {tables : ReferenceKind → List (Int × Term)}

/--
Whatever the tables, an accepted text spells, with its words and signs, a formula over
references that the tables know, and what is read is this formula with its references
replaced.  The text is a sentence of the grammar exactly if it has no stray, and then it
writes this formula; so whatever else is accepted has a stray.
-/
theorem read_writes_iff {text : String}
    (hread : d.read w (fun kind => some (tables kind)) (.text text) = .ok (d', t)) :
    ∃ f : Formula NodeReference, (d', t) = d.place (f.map (entry tables)) ∧
      (∀ r ∈ f.leaves, references tables r.kind r.id = some (.leaf (entry tables r))) ∧
      Spells .sum (Text.tokens text.toList) f.expression ∧
      ∀ g, Text.Writes text.toList g ↔ g = f ∧ ¬ HasStray (Text.tokens text.toList) := by
  rcases exists_of_read hread with ⟨f, hexpression, _, hplace, hknown⟩
  exact ⟨f, hplace, hknown, Formula.spells_of_expressionOf hexpression,
    fun g => Formula.writes_iff_of_expressionOf hexpression⟩

/-- A sentence with blanks and a leading zero, and the same text with strays. -/
theorem read_writes_iff_spelled :
    (∃ d' t f,
      ({} : Drafts).read (World.run {} gapSession) (fun kind => some (gapTables kind))
        (.text "LN (1)*MAX( CN(01),AN(1) )") = .ok (d', t) ∧
      (d', t) = ({} : Drafts).place (f.map (entry gapTables)) ∧
      Text.Writes "LN (1)*MAX( CN(01),AN(1) )".toList f) ∧
    ∃ d' t,
      ({} : Drafts).read (World.run {} gapSession) (fun kind => some (gapTables kind))
        (.text "(LN)(1)*MAX( CN((0x1)),AN(1), )") = .ok (d', t) ∧
      ∀ g, ¬ Text.Writes "(LN)(1)*MAX( CN((0x1)),AN(1), )".toList g := by
  have hplace : Place.operand.run (Text.tokens "LN (1)*MAX( CN(01),AN(1) )".toList) =
      some .complete := by
    decide +kernel
  have hstray : HasStray (Text.tokens "(LN)(1)*MAX( CN((0x1)),AN(1), )".toList) :=
    ⟨_, .name "LN", [.opening], _, by rfl⟩
  constructor
  · obtain ⟨d', t, hread⟩ := exists_of_isSome_toOption (x := ({} : Drafts).read
      (World.run {} gapSession) (fun kind => some (gapTables kind))
      (.text "LN (1)*MAX( CN(01),AN(1) )")) (by decide +kernel)
    obtain ⟨f, hf, _, _, hwrites⟩ := read_writes_iff hread
    exact ⟨d', t, f, hread, hf, (hwrites f).2 ⟨rfl, not_hasStray_of_run hplace⟩⟩
  · obtain ⟨d', t, hread⟩ := exists_of_isSome_toOption (x := ({} : Drafts).read
      (World.run {} gapSession) (fun kind => some (gapTables kind))
      (.text "(LN)(1)*MAX( CN((0x1)),AN(1), )")) (by decide +kernel)
    obtain ⟨f, _, _, _, hwrites⟩ := read_writes_iff hread
    exact ⟨d', t, hread, fun g hg => ((hwrites g).1 hg).2 hstray⟩

/-- A number in base sixteen is refused in a reference, and accepted in brackets of its own. -/
theorem not_writes_of_read_bracketed :
    (∃ d' t, ({} : Drafts).read (World.run {} gapSession) (fun kind => some (gapTables kind))
      (.text "CN((0x1))") = .ok (d', t)) ∧
      (({} : Drafts).read (World.run {} gapSession) (fun kind => some (gapTables kind))
        (.text "CN(0x1)")).toOption.isNone = true ∧
      ∀ g, ¬ Text.Writes "CN((0x1))".toList g := by
  have hstray : HasStray (Text.tokens "CN((0x1))".toList) := ⟨_, .number _, [.name "CN"], _, by rfl⟩
  exact ⟨exists_of_isSome_toOption (by decide +kernel), by decide +kernel,
    fun g hg => hg.derives.not_hasStray hstray⟩

end Drafts
end StockFlow
