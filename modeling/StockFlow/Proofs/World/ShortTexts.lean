import StockFlow.Proofs.Drafts
import StockFlow.Proofs.Formula.Mapping
import StockFlow.Proofs.Formula.Reading
import StockFlow.Proofs.World.Numbers
import StockFlow.World.Operation

/-!
# Short texts are read back

A formula over numbered nodes is written with references to them.  Read with the
inverted numbers, the text gives the formula back, leaf for leaf.

Main definitions:

- {lit}`World.IsNumbered`: a node that references can name.
- {lit}`World.reference`: the reference to a node.
- {lit}`World.numberedText`: how a node is written.

Main results:

- Theorem {lit}`World.shortTextOf_numberedText`: the short text is the formula's written form.
- Theorem {lit}`World.shortTextOf_eq`: the short text is made of the formula's pieces.
- Theorem {lit}`Drafts.read_shortTextOf`: the short text is read as the formula.
-/

namespace StockFlow

/-! ## References to nodes -/

namespace World

variable {w : World} {numbers : NumberTable} {n : NodeId} {f : Formula NodeId}

/-- Whether a node is an auxiliary, a constant or a level with a number among those of its kind. -/
def IsNumbered (w : World) (numbers : NumberTable) (n : NodeId) : Prop :=
  ∃ kind : ReferenceKind, w.kind? n = some kind.nodeKind ∧ n ∈ (numbers kind).map Prod.fst

/-- The reference to a node. -/
def reference (w : World) (numbers : NumberTable) (n : NodeId) : NodeReference :=
  let kind := ((w.kind? n).bind NodeKind.referenceKind?).getD default
  { kind, id := (((numbers kind).lookup n).getD 0).toNat }

/-- Whether a reference is of a node's kind and has its number. -/
def NumberedAs (w : World) (numbers : NumberTable) (n : NodeId) (r : NodeReference) : Prop :=
  w.kind? n = some r.kind.nodeKind ∧ (numbers r.kind).lookup n = some (r.id : Int)

/-- The reference to a numbered node is of the node's kind and has its number. -/
theorem IsNumbered.reference_spec (h : w.IsNumbered numbers n)
    (hfits : ∀ kind, (numbers kind).Fits) :
    w.NumberedAs numbers n (w.reference numbers n) := by
  rcases h with ⟨kind, hkind, hmem⟩
  rcases OrderedMap.exists_lookup hmem with ⟨k, hk⟩
  have hnonneg : 0 ≤ k := (hfits kind).nonneg (n, k) (OrderedMap.mem_of_lookup hk)
  have hreference : w.reference numbers n = { kind, id := k.toNat } := by
    simp [reference, hkind, hk]
  rw [hreference]
  refine ⟨hkind, ?_⟩
  rw [hk]
  exact congrArg some (Int.toNat_of_nonneg hnonneg).symm

/-- What is numbered may be a leaf. -/
theorem IsNumbered.isLeaf (h : w.IsNumbered numbers n) : w.isLeaf n = true := by
  rcases h with ⟨kind, hkind, _⟩
  rw [World.isLeaf, hkind]
  cases kind <;> rfl

theorem NumberedAs.isLeaf {r : NodeReference} (h : w.NumberedAs numbers n r) :
    w.isLeaf n = true := by
  rw [World.isLeaf, h.1]
  cases r.kind <;> rfl

/-- How a node is written: the letters of its kind, and its number in brackets. -/
def numberedText (w : World) (numbers : NumberTable) (n : NodeId) : List Char :=
  let kind := ((w.kind? n).bind NodeKind.referenceKind?).getD default
  kind.letters ++ '(' :: ((Text.decimal (((numbers kind).lookup n).getD 0)).toList ++ [')'])

/-- A numbered node is written as the letters of its kind and its number in brackets. -/
theorem numberedText_eq {kind : ReferenceKind} {k : Int} (hkind : w.kind? n = some kind.nodeKind)
    (hk : (numbers kind).lookup n = some k) :
    w.numberedText numbers n = kind.letters ++ '(' :: ((Text.decimal k).toList ++ [')']) := by
  simp [numberedText, hkind, hk]

/-- A numbered node has a kind and a number. -/
theorem IsNumbered.exists_number (h : w.IsNumbered numbers n) :
    ∃ (kind : ReferenceKind) (k : Int), w.kind? n = some kind.nodeKind ∧
      (numbers kind).lookup n = some k := by
  rcases h with ⟨kind, hkind, hmem⟩
  rcases OrderedMap.exists_lookup hmem with ⟨k, hk⟩
  exact ⟨kind, k, hkind, hk⟩

/-- A numbered node is written by its number. -/
theorem IsNumbered.shortEntity_eq (h : w.IsNumbered numbers n) :
    w.shortEntity numbers (.node n) = .ok (String.ofList (w.numberedText numbers n)) := by
  have hleaf : (Entity.node n).leaf w "to_short_string" = .ok n := by
    rw [Entity.leaf, if_pos h.isLeaf]
  rcases h.exists_number with ⟨kind, k, hkind, hk⟩
  have htext : String.ofList kind.letters ++ "(" ++ Text.decimal k ++ ")" =
      String.ofList (w.numberedText numbers n) := by
    rw [← String.toList_inj, numberedText_eq hkind hk]
    simp
  rw [shortEntity, hleaf, ← htext]
  simp only [bind, Except.bind, shortLeaf, hkind, Option.bind_some,
    ReferenceKind.referenceKind?_nodeKind, hk]

/-- The short text of a formula over numbered nodes is its written form. -/
theorem shortTextOf_numberedText (h : ∀ n ∈ f.leaves, w.IsNumbered numbers n) :
    w.shortTextOf numbers (Argument.ofFormula f) =
      .ok (String.ofList (f.map (w.numberedText numbers)).render) := by
  have hnames : (Argument.ofFormula f).mapExcept (w.shortEntity numbers) =
      .ok (f.map fun n => String.ofList (w.numberedText numbers n)) :=
    Formula.mapExcept_map fun n hn => (h n hn).shortEntity_eq
  rw [shortTextOf, Formula.textExcept, hnames]
  simp only [Except.map, Formula.text, Formula.map_map, id, String.toList_ofList]

theorem NumberedAs.isNumbered {r : NodeReference} (h : w.NumberedAs numbers n r) :
    w.IsNumbered numbers n :=
  ⟨r.kind, h.1, List.mem_map_of_mem (OrderedMap.mem_of_lookup h.2)⟩

/-- A node with a natural for a number is written as its reference. -/
theorem NumberedAs.numberedText_eq {r : NodeReference} (h : w.NumberedAs numbers n r) :
    w.numberedText numbers n = Reference.canonical r.kind r.id := by
  rw [World.numberedText_eq h.1 h.2, Text.toList_decimal, Reference.canonical]
  simp

/-- The short text of a formula over numbered nodes is made of the pieces of their references. -/
theorem shortTextOf_numberedAs {ref : NodeId → NodeReference}
    (h : ∀ n ∈ f.leaves, w.NumberedAs numbers n (ref n)) :
    w.shortTextOf numbers (Argument.ofFormula f) =
      .ok (String.ofList (Piece.textOf (f.map ref).pieces)) := by
  rw [shortTextOf_numberedText fun n hn => (h n hn).isNumbered, Formula.textOf_pieces,
    Formula.map_map, Formula.map_congr fun n hn => (h n hn).numberedText_eq]

/-- The short text of a formula is that of its pieces, over references. -/
theorem shortTextOf_eq (hfits : ∀ kind, (numbers kind).Fits)
    (hleaves : ∀ n ∈ f.leaves, w.IsNumbered numbers n) :
    w.shortTextOf numbers (Argument.ofFormula f) =
      .ok (String.ofList (Piece.textOf (f.map (w.reference numbers)).pieces)) :=
  shortTextOf_numberedAs fun n hn => (hleaves n hn).reference_spec hfits

end World

/-! ## Operands -/

/-- Trees over nodes that formulas read can be joined. -/
theorem Drafts.joinTrees_eq {w : World} {l r : Formula Term} (op : Operator)
    (h : ∀ t ∈ l.leaves ++ r.leaves, ∃ n, t = .node n ∧ w.isLeaf n = true) :
    joinTrees w op l r = .ok (.apply op l r) := by
  have hone : ∀ f : Formula Term, (∀ t ∈ f.leaves, ∃ n, t = .node n ∧ w.isLeaf n = true) →
      isAbsent f = false ∧ isOperand w f = true := by
    intro f hf
    cases f with
    | leaf t =>
        rcases hf t (List.mem_singleton_self t) with ⟨n, rfl, hn⟩
        exact ⟨rfl, hn⟩
    | apply op l r => exact ⟨rfl, rfl⟩
  rcases hone l fun t ht => h t (List.mem_append_left _ ht) with ⟨hl, hl'⟩
  rcases hone r fun t ht => h t (List.mem_append_right _ ht) with ⟨hr, hr'⟩
  rw [joinTrees, hl, hr, hl', hr']
  rfl

/-- A formula equals itself. -/
theorem Argument.equals_ofFormula_self (f : Formula NodeId) :
    (Argument.ofFormula f).equals (Argument.ofFormula f) = true := by
  have hself : ∀ f : Formula NodeId, Argument.equals (f.map .node) (f.map .node) = true := by
    intro f
    induction f with
    | leaf n => simp [Formula.map, equals]
    | apply op l r ihl ihr => simp [Formula.map, equals, ihl, ihr]
  exact hself f

/-! ## Reading short texts -/

namespace Drafts

variable {w : World} {numbers : NumberTable} {d : Drafts} {f : Formula NodeId}

/-- What a reference stands for when the inverted numbers are read. -/
def referent (numbers : NumberTable) (r : NodeReference) : Term :=
  (((numbers r.kind).inverse.lookup (r.id : Int)).map Term.node).getD default

/-- A reference is looked up as the node that it was made of. -/
theorem referent_reference (hfits : ∀ kind, (numbers kind).Fits) {n : NodeId}
    (h : w.IsNumbered numbers n) : referent numbers (w.reference numbers n) = .node n := by
  have hmem := OrderedMap.mem_of_lookup (h.reference_spec hfits).2
  rw [referent, Numbering.lookup_inverse (hfits _) hmem]
  rfl

/-- The text of a formula is read as a new term for it where tables give its nodes. -/
theorem read_textOf {tables : ReferenceKind → Option (List (Int × Term))}
    {ref : NodeId → NodeReference} {g : NodeReference → Term}
    (hsome : ∀ kind, (tables kind).isNone = false) (hg : ∀ n ∈ f.leaves, g (ref n) = .node n)
    (htable : ∀ n ∈ f.leaves, references (fun kind => (tables kind).getD []) (ref n).kind (ref n).id =
      some (.leaf (.node n)))
    (hisLeaf : ∀ n ∈ f.leaves, w.isLeaf n = true)
    (hids : ∀ n ∈ f.leaves, (Text.decimalDigits (ref n).id).length ≤ Text.digitLimit)
    (hdepth : f.depth ≤ Formula.allowedDepth)
    (hopen : Text.mostOpen (Piece.textOf (f.map ref).pieces) ≤ Lexer.bracketLimit) :
    d.read w tables (.text (String.ofList (Piece.textOf (f.map ref).pieces))) =
      .ok (d.place (f.map .node)) := by
  have hids' : ∀ r ∈ (f.map ref).leaves,
      (Text.decimalDigits r.id).length ≤ Text.digitLimit := by
    rwa [Formula.leaves_map, List.forall_mem_map]
  have htable' : ∀ r ∈ (f.map ref).leaves,
      references (fun kind => (tables kind).getD []) r.kind r.id = some (.leaf (g r)) := by
    rw [Formula.leaves_map, List.forall_mem_map]
    intro n hn
    rw [hg n hn]
    exact htable n hn
  have hdepth' : (f.map ref).depth ≤ Formula.allowedDepth := by
    rw [Formula.depth_map]
    exact hdepth
  have hjoin : ∀ (op : Operator) (l r : Formula NodeReference),
      (∀ a ∈ l.leaves ++ r.leaves, a ∈ (f.map ref).leaves) →
      joinTrees w op (l.map g) (r.map g) = .ok (.apply op (l.map g) (r.map g)) := by
    intro op l r h
    refine joinTrees_eq op fun t ht => ?_
    rw [Formula.leaves_map, Formula.leaves_map, ← List.map_append] at ht
    rcases List.mem_map.1 ht with ⟨a, ha, rfl⟩
    have hmem := h a ha
    rw [Formula.leaves_map] at hmem
    rcases List.mem_map.1 hmem with ⟨n, hn, rfl⟩
    exact ⟨n, hg n hn, hisLeaf n hn⟩
  have hnodes : (f.map ref).map g = f.map .node := by
    rw [Formula.map_map]
    exact Formula.map_congr hg
  have hany : ([ReferenceKind.auxiliary, .constant, .level].any fun kind =>
      (tables kind).isNone) = false := by
    simp [hsome]
  have hread := Formula.readWith_text Fault.refused hids' hdepth' hopen htable' hjoin
  rw [hnodes] at hread
  rw [read]
  simp only [hany, Bool.false_eq_true, if_false, hread]
  rfl

/-- The pieces of a formula over numbered nodes are read as a new term that stands for it. -/
theorem read_pieces (hfits : ∀ kind, (numbers kind).Fits)
    (hleaves : ∀ n ∈ f.leaves, w.IsNumbered numbers n) (hdepth : f.depth ≤ Formula.allowedDepth)
    (hopen : Text.mostOpen (Piece.textOf (f.map (w.reference numbers)).pieces) ≤ 199) :
    d.read w numbers.inverted
        (.text (String.ofList (Piece.textOf (f.map (w.reference numbers)).pieces))) =
      .ok (d.place (f.map .node)) := by
  have hmem : ∀ n ∈ f.leaves, (n, ((w.reference numbers n).id : Int)) ∈
      numbers (w.reference numbers n).kind := fun n hn =>
    OrderedMap.mem_of_lookup ((hleaves n hn).reference_spec hfits).2
  refine read_textOf (fun _ => rfl) (fun n hn => referent_reference hfits (hleaves n hn))
    (fun n hn => NumberTable.references_inverted (hfits _) (hmem n hn))
    (fun n hn => (hleaves n hn).isLeaf) (fun n hn => ?_) hdepth (Nat.le_trans hopen (by decide))
  exact (hfits _).length_le _ (hmem n hn)

/--
The short text of a formula that is nested at most 250 deep over numbered nodes, if it
opens at most 199 brackets at once, is read with the inverted numbers as a term that
stands for the same formula over the same nodes.  Numbers that are given in order serve
for all nodes that they are given to.
-/
theorem read_shortTextOf {t : Term} (ht : d.tree? t = some (Argument.ofFormula f))
    (hfits : ∀ kind, (numbers kind).Fits) (hleaves : ∀ n ∈ f.leaves, w.IsNumbered numbers n)
    (hdepth : f.depth ≤ 250) :
    (∃ s, w.shortTextOf numbers (d.argument t) = .ok s ∧
      (Text.mostOpen s.toList ≤ 199 →
        ∃ d' t', d.read w numbers.inverted (.text s) = .ok (d', t') ∧
          d'.tree? t' = some (Argument.ofFormula f) ∧ d'.areEqual t t' = true)) ∧
    ∀ nodes : List NodeId, Text.exceedsDigitLimit nodes.length = false →
      (Numbering.ofList nodes).Fits ∧
        ∀ n, n ∈ (Numbering.ofList nodes).map Prod.fst ↔ n ∈ nodes := by
  refine ⟨?_, fun nodes hnodes => ⟨Numbering.fits_ofList hnodes, fun n =>
    Numbering.mem_keys_ofList⟩⟩
  have hargument : d.argument t = Argument.ofFormula f := by
    rw [argument, ht]
    rfl
  rw [hargument]
  refine ⟨_, World.shortTextOf_eq hfits hleaves, fun hopen => ?_⟩
  rw [String.toList_ofList] at hopen
  have hplaced : (d.place (f.map .node)).1.tree? (d.place (f.map .node)).2 =
      some (Argument.ofFormula f) := by
    have hnodes : f.map Term.node = (Argument.ofFormula f).map .entity :=
      (Formula.map_map Term.entity Entity.node f).symm
    rw [hnodes]
    exact tree?_place d (Argument.ofFormula f)
  have hkept := (extends_place d (f.map .node)).tree? ht
  refine ⟨_, _, read_pieces hfits hleaves hdepth hopen, hplaced, ?_⟩
  rw [areEqual, argument, argument, hplaced, hkept]
  exact Argument.equals_ofFormula_self f

/-- A model with a level, a constant and an auxiliary. -/
def gapSession : List Operation :=
  let m : ModelId := ⟨0⟩
  [.newModel (.text "Tank"), .createLevel m (.text "Water") (.integer 8),
    .createConstant m (.text "Share") (.integer 2), .createAuxiliary m (.text "Inflow")]

/-- A formula that needs brackets on its right. -/
def gapFormula : Formula NodeId :=
  .apply .subtract (.leaf ⟨0⟩)
    (.apply .subtract (.leaf ⟨1⟩) (.apply .maximum (.leaf ⟨2⟩) (.leaf ⟨0⟩)))

/-- The nodes of the model are the first ones of their kinds. -/
theorem numberedAs_gapSession :
    (World.run {} gapSession).NumberedAs ((World.run {} gapSession).numbering ⟨0⟩)
        ⟨0⟩ ⟨.level, 1⟩ ∧
      (World.run {} gapSession).NumberedAs ((World.run {} gapSession).numbering ⟨0⟩)
        ⟨1⟩ ⟨.constant, 1⟩ ∧
      (World.run {} gapSession).NumberedAs ((World.run {} gapSession).numbering ⟨0⟩)
        ⟨2⟩ ⟨.auxiliary, 1⟩ := by
  simp only [World.NumberedAs]
  decide +kernel

theorem isNumbered_gapSession {n : NodeId} (hn : n ∈ [⟨0⟩, ⟨1⟩, (⟨2⟩ : NodeId)]) :
    (World.run {} gapSession).IsNumbered ((World.run {} gapSession).numbering ⟨0⟩) n := by
  obtain ⟨hlevel, hconstant, hauxiliary⟩ := numberedAs_gapSession
  simp only [List.mem_cons, List.not_mem_nil, or_false] at hn
  rcases hn with rfl | rfl | rfl
  · exact hlevel.isNumbered
  · exact hconstant.isNumbered
  · exact hauxiliary.isNumbered

/-- The formula of the gap is written shortly, and read as an equal one. -/
theorem read_shortTextOf_gap :
    ∃ d' t', (copy {} gapFormula).1.read (World.run {} gapSession)
        ((World.run {} gapSession).numbering ⟨0⟩).inverted
        (.text "LN(1) - (CN(1) - MAX(AN(1), LN(1)))") = .ok (d', t') ∧
      d'.tree? t' = some (Argument.ofFormula gapFormula) ∧
      d'.areEqual (copy {} gapFormula).2 t' = true := by
  have htree : (copy {} gapFormula).1.tree? (copy {} gapFormula).2 =
      some (Argument.ofFormula gapFormula) := rfl
  have hfits : ∀ kind, ((World.run {} gapSession).numbering ⟨0⟩ kind).Fits := by
    intro kind
    refine Numbering.fits_ofList ?_
    cases kind <;> decide +kernel
  have hleaves : ∀ n ∈ gapFormula.leaves,
      (World.run {} gapSession).IsNumbered ((World.run {} gapSession).numbering ⟨0⟩) n := by
    have hnodes : ∀ n ∈ gapFormula.leaves, n ∈ [⟨0⟩, ⟨1⟩, (⟨2⟩ : NodeId)] := by decide
    exact fun n hn => isNumbered_gapSession (hnodes n hn)
  have htext : (World.run {} gapSession).shortTextOf ((World.run {} gapSession).numbering ⟨0⟩)
      (Argument.ofFormula gapFormula) = .ok "LN(1) - (CN(1) - MAX(AN(1), LN(1)))" := by
    decide +kernel
  rcases (read_shortTextOf htree hfits hleaves (by decide)).1 with ⟨s, hs, hread⟩
  have hargument : (copy {} gapFormula).1.argument (copy {} gapFormula).2 =
      Argument.ofFormula gapFormula := rfl
  rw [hargument, htext] at hs
  cases hs
  exact hread (by decide)

end Drafts
end StockFlow
