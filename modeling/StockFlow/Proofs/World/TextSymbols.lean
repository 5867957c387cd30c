import StockFlow.Proofs.Formula.Symbols
import StockFlow.Proofs.World.AcceptedTexts

/-!
# What accepted texts hold

Whatever the spelling of an accepted text, the formula that it stands for has the
operators of the text, in their order, and at its leaves the nodes that the tables give
for the references of the text, in their order and with repeats.

Main definitions:

- {lit}`Drafts.StandsFor`: the node that the tables give for a reference.

Main results:

- Theorem {lit}`Drafts.read_symbols`: an accepted text and its formula have the same symbols.
-/

namespace StockFlow
namespace Drafts

variable {w : World} {d d' : Drafts} {t : Term} {tables : ReferenceKind → List (Int × Term)}

/-- Whether a node is what the table of its kind gives for a reference. -/
def StandsFor (tables : ReferenceKind → List (Int × Term)) (n : NodeId) (r : NodeReference) :
    Prop :=
  references tables r.kind r.id = some (.leaf (.node n))

/-- What an accepted text stands for is a formula over the nodes of its references. -/
theorem exists_formula_of_read {text : String} (htables : GiveNodes tables)
    (hread : d.read w (fun kind => some (tables kind)) (.text text) = .ok (d', t)) :
    ∃ f : Formula NodeReference, Formula.expressionOf text = .ok f.expression ∧
      f.depth ≤ Formula.allowedDepth ∧
      d'.tree? t = some (Argument.ofFormula (f.map (nodeOf tables))) ∧
      ∀ r ∈ f.leaves, StandsFor tables (nodeOf tables r) r := by
  rcases exists_of_read hread with ⟨f, hexpression, hdepth, hplace, hknown⟩
  have htree := tree?_place_nodes d (f.map (nodeOf tables))
  rw [← htables.map_entry_eq hknown, ← hplace] at htree
  refine ⟨f, hexpression, hdepth, htree, fun r hr => ?_⟩
  rw [StandsFor, ← htables.entry_eq (hknown r hr)]
  exact hknown r hr

/--
The words and signs of an accepted text write references and operators, and nothing else
but brackets, commas and blanks.  The formula that the text stands for is at most 250 deep.
It has the same operators in the same order and, for the references in their order, the
nodes that the tables of their kinds give, each in the place of its reference.
-/
theorem read_symbols {text : String} (htables : GiveNodes tables)
    (hread : d.read w (fun kind => some (tables kind)) (.text text) = .ok (d', t)) :
    ∃ (f : Formula NodeId) (ss : List (Symbol NodeReference)),
      d'.tree? t = some (Argument.ofFormula f) ∧ f.depth ≤ 250 ∧
      Text.symbols? text.toList = some ss ∧
      f.leaves.Forall₂ (StandsFor tables) (ss.filterMap Symbol.leaf?) ∧
      f.operators = ss.filterMap Symbol.operator? ∧
      f.symbols.Forall₂ (Symbol.Related (StandsFor tables)) ss := by
  rcases exists_formula_of_read htables hread with ⟨f, hexpression, hdepth, htree, hknown⟩
  refine ⟨_, f.symbols, htree, ?_, Formula.symbols?_of_expressionOf hexpression, ?_, ?_,
    Formula.forall₂_symbols_map hknown⟩
  · rwa [Formula.depth_map]
  · rw [Formula.leaves_map, Formula.filterMap_leaf?_symbols, List.forall₂_map_left_iff]
    exact List.forall₂_same.2 hknown
  · rw [Formula.operators_map, Formula.filterMap_operator?_symbols]

theorem read_symbols_spelled :
    GiveNodes gapTables ∧ ∃ d' t f,
      ({} : Drafts).read (World.run {} gapSession) (fun kind => some (gapTables kind))
        (.text "(LN)((0x1)) - MAX(CN(01), AN((1)),)") = .ok (d', t) ∧
      d'.tree? t = some (Argument.ofFormula f) ∧
      Text.symbols? "(LN)((0x1)) - MAX(CN(01), AN((1)),)".toList =
        some [.leaf ⟨.level, 1⟩, .operator .subtract, .operator .maximum, .leaf ⟨.constant, 1⟩,
          .leaf ⟨.auxiliary, 1⟩] ∧
      f.leaves.Forall₂ (StandsFor gapTables) [⟨.level, 1⟩, ⟨.constant, 1⟩, ⟨.auxiliary, 1⟩] ∧
      f.operators = [.subtract, .maximum] := by
  have htables := giveNodes_of_holdNodes holdNodes_gapTables
  have hsymbols : Text.symbols? "(LN)((0x1)) - MAX(CN(01), AN((1)),)".toList =
      some [.leaf ⟨.level, 1⟩, .operator .subtract, .operator .maximum, .leaf ⟨.constant, 1⟩,
        .leaf ⟨.auxiliary, 1⟩] := by
    decide +kernel
  have hok : (({} : Drafts).read (World.run {} gapSession) (fun kind => some (gapTables kind))
      (.text "(LN)((0x1)) - MAX(CN(01), AN((1)),)")).toOption.isSome = true := by
    decide +kernel
  cases hread : ({} : Drafts).read (World.run {} gapSession) (fun kind => some (gapTables kind))
      (.text "(LN)((0x1)) - MAX(CN(01), AN((1)),)") with
  | error e =>
      rw [hread] at hok
      cases hok
  | ok x =>
      rcases x with ⟨d', t⟩
      rcases read_symbols htables hread with ⟨f, ss, htree, _, hss, hleaves, hoperators, _⟩
      rw [hsymbols] at hss
      cases hss
      exact ⟨htables, d', t, f, rfl, htree, hsymbols, hleaves, hoperators⟩

end Drafts
end StockFlow
