import StockFlow.Proofs.Formula.Accepted
import StockFlow.Proofs.World.ShortTexts

/-!
# Which texts are accepted

Every text that writes a formula is accepted if it opens at most 200 brackets at once
and the formula is at most 250 deep, and stands for that formula then.  Whatever text is
accepted, the short text of what it stands for is accepted too and stands for the same.

Main definitions:

- {lit}`Drafts.entry`: what tables give for a reference.
- {lit}`World.HoldNodes`, {lit}`World.Inverts`: tables of nodes, and numbers that invert them.

Main results:

- Theorem {lit}`Drafts.read_laidOut`: which texts that lay out a formula are accepted.
- Theorem {lit}`Drafts.read_shortTextOf_read`: the short text of what was read is read as
  the same.
-/

namespace StockFlow

namespace World

/-- Whether tables give nodes of their own kind. -/
def HoldNodes (w : World) (tables : ReferenceKind → List (Int × Term)) : Prop :=
  ∀ kind, ∀ e ∈ tables kind, ∃ n, e.2 = .node n ∧ w.kind? n = some kind.nodeKind

/-- Whether tables give the leaves of a formula where numbers say. -/
def Inverts (w : World) (tables : ReferenceKind → List (Int × Term)) (numbers : NumberTable)
    (f : Formula NodeId) : Prop :=
  ∀ n ∈ f.leaves, ∃ r, w.NumberedAs numbers n r ∧
    (Text.decimalDigits r.id).length ≤ Text.digitLimit ∧
    Drafts.references tables r.kind r.id = some (.leaf (.node n))

/-- A node that is numbered as a reference is referred to by it. -/
theorem NumberedAs.reference_eq {w : World} {numbers : NumberTable} {n : NodeId}
    {r : NodeReference} (h : w.NumberedAs numbers n r) : w.reference numbers n = r := by
  rcases r with ⟨kind, id⟩
  rcases h with ⟨hkind, hlookup⟩
  simp only at hkind hlookup
  simp [reference, hkind, hlookup]

end World

namespace Drafts

variable {w : World} {d d' : Drafts} {t : Term} {tables : ReferenceKind → List (Int × Term)}

/-! ## What reading gives -/

/-- What tables give for a reference that they know. -/
def entry (tables : ReferenceKind → List (Int × Term)) (r : NodeReference) : Term :=
  ((tables r.kind).reverse.lookup (r.id : Int)).getD default

/-- What a reference stands for is an entry of its table. -/
theorem exists_of_references {kind : ReferenceKind} {n : Nat} {y : Formula Term}
    (h : references tables kind n = some y) :
    ∃ t, y = .leaf t ∧ ((n : Int), t) ∈ tables kind ∧ entry tables ⟨kind, n⟩ = t := by
  rw [references, Option.map_eq_some_iff] at h
  rcases h with ⟨t, ht, rfl⟩
  refine ⟨t, rfl, List.mem_reverse.1 (OrderedMap.mem_of_lookup ht), ?_⟩
  rw [entry, ht]
  rfl

/-- What a reference stands for is the entry that is looked up. -/
theorem eq_entry_of_references {kind : ReferenceKind} {n : Nat} {y : Formula Term}
    (h : references tables kind n = some y) : y = .leaf (entry tables ⟨kind, n⟩) := by
  rcases exists_of_references h with ⟨t, rfl, _, rfl⟩
  rfl

/-- Only joined trees are joined. -/
theorem eq_apply_of_joinTrees {op : Operator} {l r x : Formula Term}
    (h : joinTrees w op l r = .ok x) : x = .apply op l r := by
  rw [joinTrees] at h
  split at h
  · cases h
  · split at h
    · cases h
      rfl
    · cases h

/-- Reading a text into drafts is reading it as a tree, and placing the tree. -/
theorem read_eq (text : String) :
    d.read w (fun kind => some (tables kind)) (.text text) =
      (Formula.readWith .refused (references tables) (joinTrees w) text).map d.place := rfl

/-- What is read is placed for a formula over references that the tables know. -/
theorem exists_of_read {text : String}
    (hread : d.read w (fun kind => some (tables kind)) (.text text) = .ok (d', t)) :
    ∃ f : Formula NodeReference, Formula.expressionOf text = .ok f.expression ∧
      f.depth ≤ Formula.allowedDepth ∧ (d', t) = d.place (f.map (entry tables)) ∧
      ∀ r ∈ f.leaves, references tables r.kind r.id = some (.leaf (entry tables r)) := by
  rw [read_eq, Formula.readWith] at hread
  cases he : Formula.expressionOf text with
  | error err =>
      rw [he] at hread
      cases hread
  | ok e =>
      rw [he] at hread
      cases hx : Formula.ofExpression .refused (references tables) (joinTrees w)
          Formula.allowedDepth e with
      | error err =>
          simp only [hx] at hread
          cases hread
      | ok x =>
          simp only [hx, Except.map] at hread
          rcases Formula.exists_of_ofExpression (fun _ _ _ => eq_entry_of_references)
            (fun _ _ _ _ => eq_apply_of_joinTrees) hx with ⟨f, rfl, hdepth, rfl, hknown⟩
          exact ⟨f, rfl, hdepth, (Except.ok.inj hread).symm, hknown⟩

theorem exists_of_isSome_toOption {ε α β : Type} {x : Except ε (α × β)}
    (h : x.toOption.isSome = true) : ∃ a b, x = .ok (a, b) := by
  cases x with
  | error e => cases h
  | ok p => exact ⟨p.1, p.2, rfl⟩

/-- What was there is still there when a text has been read. -/
theorem extends_of_read {text : String}
    (hread : d.read w (fun kind => some (tables kind)) (.text text) = .ok (d', t)) :
    d.Extends d' := by
  rcases exists_of_read hread with ⟨f, _, _, hplace, _⟩
  have hextends := extends_place d (f.map (entry tables))
  rwa [← hplace] at hextends

/-- A placed formula is what its term stands for. -/
theorem tree?_place_nodes (d : Drafts) (f : Formula NodeId) :
    (d.place (f.map .node)).1.tree? (d.place (f.map .node)).2 = some (Argument.ofFormula f) := by
  have hnodes : f.map Term.node = (Argument.ofFormula f).map .entity :=
    (Formula.map_map Term.entity Entity.node f).symm
  rw [hnodes]
  exact tree?_place d (Argument.ofFormula f)

/-- Formulas over nodes that formulas read can be joined where tables give the nodes. -/
theorem joinTrees_map {f : Formula NodeReference} {node : NodeReference → NodeId}
    {g : NodeReference → Term}
    (hnode : ∀ r ∈ f.leaves, g r = .node (node r) ∧ w.isLeaf (node r) = true) (op : Operator)
    {l r : Formula NodeReference} (h : ∀ a ∈ l.leaves ++ r.leaves, a ∈ f.leaves) :
    joinTrees w op (l.map g) (r.map g) = .ok (.apply op (l.map g) (r.map g)) := by
  refine joinTrees_eq op fun t ht => ?_
  rw [Formula.leaves_map, Formula.leaves_map, ← List.map_append] at ht
  rcases List.mem_map.1 ht with ⟨a, ha, rfl⟩
  exact ⟨node a, hnode a (h a ha)⟩

/-! ## Texts that lay out a formula -/

/-- Whether tables give nodes that formulas read for the references of a formula. -/
def Knows (w : World) (tables : ReferenceKind → List (Int × Term)) (node : NodeReference → NodeId)
    (f : Formula NodeReference) : Prop :=
  ∀ r ∈ f.leaves, references tables r.kind r.id = some (.leaf (.node (node r))) ∧
    w.isLeaf (node r) = true

/-- Tables that know the leaves of a formula have their nodes as entries. -/
theorem Knows.entry_eq {f : Formula NodeReference} {node : NodeReference → NodeId}
    (h : Knows w tables node f) : ∀ r ∈ f.leaves, entry tables r = .node (node r) :=
  fun r hr => (Formula.leaf.inj (eq_entry_of_references (h r hr).1)).symm

/-- What reads a text as a formula over known references places the formula over their nodes. -/
theorem Knows.map_entry_eq {f : Formula NodeReference} {node : NodeReference → NodeId}
    (h : Knows w tables node f) : f.map (entry tables) = (f.map node).map .node := by
  rw [Formula.map_map]
  exact Formula.map_congr h.entry_eq

/-- A text that is not too deep and opens not too many brackets is accepted. -/
theorem Knows.read_of_laidOut {ts : List Token} {cs : List Char} {f : Formula NodeReference}
    {node : NodeReference → NodeId} (hknows : Knows w tables node f) (h : Derives .sum ts f)
    (hlaid : LaidOut ts cs) (hopen : Text.mostOpen cs ≤ Lexer.bracketLimit)
    (hdepth : f.depth ≤ Formula.allowedDepth) :
    d.read w (fun kind => some (tables kind)) (.text (String.ofList cs)) =
      .ok (d.place ((f.map node).map .node)) := by
  have htable : ∀ r ∈ f.leaves,
      references tables r.kind r.id = some (.leaf (entry tables r)) := by
    intro r hr
    rw [hknows.entry_eq r hr]
    exact (hknows r hr).1
  have hread := Formula.readWith_laidOut Fault.refused h hlaid hdepth hopen htable
    fun op l r hlr => joinTrees_map
      (fun a ha => ⟨hknows.entry_eq a ha, (hknows a ha).2⟩) op hlr
  rw [read_eq, hread, hknows.map_entry_eq]
  rfl

/--
A text that writes a formula over nodes of the tables, with any blanks between its tokens
and any leading zeros, is accepted exactly if it opens at most 200 brackets at once and
the formula is at most 250 deep.  It stands for the formula then, with the nodes that the
tables give for its references.
-/
theorem read_laidOut {ts : List Token} {cs : List Char} {f : Formula NodeReference}
    (h : Derives .sum ts f) (hlaid : LaidOut ts cs) {node : NodeReference → NodeId}
    (hknows : Knows w tables node f) :
    ((∃ d' t, d.read w (fun kind => some (tables kind)) (.text (String.ofList cs)) =
        .ok (d', t)) ↔ Text.mostOpen cs ≤ 200 ∧ f.depth ≤ 250) ∧
      ∀ d' t, d.read w (fun kind => some (tables kind)) (.text (String.ofList cs)) =
        .ok (d', t) → d'.tree? t = some (Argument.ofFormula (f.map node)) := by
  have hread : ∀ d' t, d.read w (fun kind => some (tables kind)) (.text (String.ofList cs)) =
      .ok (d', t) → Text.mostOpen cs ≤ 200 ∧ f.depth ≤ 250 := by
    intro d' t hread
    rcases exists_of_read hread with ⟨f', hf', hdepth, _⟩
    rcases Formula.eq_expression_of_expressionOf_laidOut h hlaid hf' with ⟨heq, hopen⟩
    rw [Formula.expression_injective heq] at hdepth
    exact ⟨hopen, hdepth⟩
  refine ⟨⟨fun ⟨d', t, h⟩ => hread d' t h, fun ⟨hopen, hdepth⟩ => ?_⟩, fun d' t hok => ?_⟩
  · exact ⟨_, _, hknows.read_of_laidOut h hlaid hopen hdepth⟩
  · rcases hread d' t hok with ⟨hopen, hdepth⟩
    rw [hknows.read_of_laidOut h hlaid hopen hdepth] at hok
    have htree := tree?_place_nodes d (f.map node)
    rwa [Except.ok.inj hok] at htree

/-- Tables that give the nodes of a model by their numbers. -/
def gapTables : ReferenceKind → List (Int × Term)
  | .level => [(1, .node ⟨0⟩)]
  | .constant => [(1, .node ⟨1⟩)]
  | .auxiliary => [(1, .node ⟨2⟩)]

/-- The nodes that such tables give. -/
def gapNode (r : NodeReference) : NodeId :=
  match r.kind with
  | .level => ⟨0⟩
  | .constant => ⟨1⟩
  | .auxiliary => ⟨2⟩

/-- The tables of the gap know all references with the number one. -/
theorem knows_gapTables {f : Formula NodeReference} (h : ∀ r ∈ f.leaves, r.id = 1) :
    Knows (World.run {} gapSession) gapTables gapNode f := by
  intro r hr
  rcases r with ⟨kind, id⟩
  have hid : id = 1 := h _ hr
  subst hid
  obtain ⟨hlevel, hconstant, hauxiliary⟩ := numberedAs_gapSession
  cases kind with
  | level => exact ⟨rfl, hlevel.isLeaf⟩
  | constant => exact ⟨rfl, hconstant.isLeaf⟩
  | auxiliary => exact ⟨rfl, hauxiliary.isLeaf⟩

/-- A text with tabs, blanks and leading zeros is read. -/
theorem read_laidOut_spread :
    ∃ d' t, ({} : Drafts).read (World.run {} gapSession) (fun kind => some (gapTables kind))
        (.text "LN(01)\t- CN( 1 )") = .ok (d', t) ∧
      d'.tree? t = some (Argument.ofFormula (.apply .subtract (.leaf ⟨0⟩) (.leaf ⟨1⟩))) := by
  have hlevel : (Token.name (String.ofList ['L', 'N'])).WrittenAs ['L', 'N'] :=
    String.toList_ofList.symm
  have hconstant : (Token.name (String.ofList ['C', 'N'])).WrittenAs ['C', 'N'] :=
    String.toList_ofList.symm
  have hpadded : (Token.literal (.integer 1)).WrittenAs ['0', '1'] :=
    ⟨by decide, List.all_eq_true.1 rfl, rfl, by decide⟩
  have hone : (Token.literal (.integer 1)).WrittenAs ['1'] :=
    ⟨by decide, List.all_eq_true.1 rfl, rfl, by decide⟩
  have hopening : Token.opening.WrittenAs ['('] := rfl
  have hclosing : Token.closing.WrittenAs [')'] := rfl
  have hminus : Token.minus.WrittenAs ['-'] := rfl
  have hderives : Derives .sum
      (NodeReference.tokens ⟨.level, 1⟩ ++ Operator.token .subtract ::
        NodeReference.tokens ⟨.constant, 1⟩)
      (.apply .subtract (.leaf ⟨.level, 1⟩) (.leaf ⟨.constant, 1⟩)) :=
    .addition rfl (.sum (.product (.reference _))) (.product (.reference _))
  have hlaid : LaidOut
      (NodeReference.tokens ⟨.level, 1⟩ ++ Operator.token .subtract ::
        NodeReference.tokens ⟨.constant, 1⟩)
      ['L', 'N', '(', '0', '1', ')', '\t', '-', ' ', 'C', 'N', '(', ' ', '1', ' ', ')'] :=
    .token hlevel <| .token hopening <| .token hpadded <| .token hclosing <| .blank rfl <|
      .token hminus <| .blank rfl <| .token hconstant <| .token hopening <| .blank rfl <|
      .token hone <| .blank rfl <| .token hclosing .nil
  have hknows := knows_gapTables
    (f := .apply .subtract (.leaf ⟨.level, 1⟩) (.leaf ⟨.constant, 1⟩)) (by decide)
  rcases read_laidOut (d := {}) hderives hlaid hknows with ⟨haccepted, htree⟩
  rcases haccepted.2 (by decide) with ⟨d', t, hread⟩
  exact ⟨d', t, hread, htree d' t hread⟩

/-! ## The limit of brackets -/

/-- A maximum of maxima, as many as given, down to a constant. -/
def nested : Nat → Formula NodeReference
  | 0 => .leaf ⟨.constant, 1⟩
  | n + 1 => .apply .maximum (nested n) (.leaf ⟨.constant, 1⟩)

/-- So many nested maxima are one level deeper than that. -/
theorem depth_nested (n : Nat) : (nested n).depth = n + 1 := by
  induction n with
  | zero => rfl
  | succ n ih =>
      rw [nested, Formula.depth, ih, Formula.depth]
      omega

theorem mem_leaves_nested {n : Nat} {r : NodeReference} (h : r ∈ (nested n).leaves) :
    r = ⟨.constant, 1⟩ := by
  induction n with
  | zero => exact List.mem_singleton.1 h
  | succ n ih => exact (List.mem_append.1 h).elim ih List.mem_singleton.1

/-- The text of nested maxima opens one pair of brackets for each and one for the constant. -/
theorem mostOpen_nested (n : Nat) : Text.mostOpen (Piece.textOf (nested n).pieces) = n + 1 := by
  have hids : ∀ r ∈ (nested n).leaves, (Text.decimalDigits r.id).length ≤ Text.digitLimit := by
    intro r hr
    rw [mem_leaves_nested hr]
    decide
  rw [Formula.mostOpen_pieces hids]
  clear hids
  induction n with
  | zero => rfl
  | succ n ih =>
      have hleaf : (Formula.leaf (⟨.constant, 1⟩ : NodeReference)).expression.mostOpen = 1 := rfl
      rw [nested, Formula.expression, Operator.expression_of_isFunction rfl, Expression.mostOpen,
        ih, hleaf]
      have hname : (Expression.name Operator.maximum.symbol).bracketed 3
        (Expression.name Operator.maximum.symbol).mostOpen = 0 := rfl
      rw [hname]
      omega

/-- Nested maxima are laid out by their own text. -/
theorem laidOut_nested (n : Nat) :
    LaidOut (Piece.tokensOf (nested n).pieces) (Piece.textOf (nested n).pieces) := by
  refine Piece.laidOut_textOf (Formula.readable_pieces fun r hr => ?_)
  rw [mem_leaves_nested hr]
  decide

theorem knows_nested (n : Nat) :
    Knows (World.run {} gapSession) gapTables gapNode (nested n) :=
  knows_gapTables fun r hr => by rw [mem_leaves_nested hr]

/-- Nested maxima are read back as long as their text keeps to the limit. -/
theorem read_nested {n : Nat} (hn : n ≤ 199) :
    d.read (World.run {} gapSession) (fun kind => some (gapTables kind))
        (.text (String.ofList (Piece.textOf (nested n).pieces))) =
      .ok (d.place (((nested n).map gapNode).map .node)) := by
  refine (knows_nested n).read_of_laidOut (Formula.written _).sum (laidOut_nested n) ?_ ?_
  · rw [mostOpen_nested]
    exact Nat.succ_le_succ hn
  · rw [depth_nested]
    exact Nat.le_trans (Nat.succ_le_succ hn) (by decide)

/-- A text with 200 brackets open at once is accepted. -/
theorem not_read_laidOut_iff_of_nested :
    Derives .sum (Piece.tokensOf (nested 199).pieces) (nested 199) ∧
      LaidOut (Piece.tokensOf (nested 199).pieces) (Piece.textOf (nested 199).pieces) ∧
      Knows (World.run {} gapSession) gapTables gapNode (nested 199) ∧
      ¬ ((∃ d' t, ({} : Drafts).read (World.run {} gapSession) (fun kind => some (gapTables kind))
          (.text (String.ofList (Piece.textOf (nested 199).pieces))) = .ok (d', t)) ↔
        Text.mostOpen (Piece.textOf (nested 199).pieces) ≤ 199 ∧ (nested 199).depth ≤ 250) := by
  refine ⟨(Formula.written _).sum, laidOut_nested 199, knows_nested 199, fun h => ?_⟩
  have hopen := (h.1 ⟨_, _, read_nested (Nat.le_refl 199)⟩).1
  rw [mostOpen_nested] at hopen
  omega

/-! ## Short texts of what was read -/

/-- Whether tables give nodes. -/
def GiveNodes (tables : ReferenceKind → List (Int × Term)) : Prop :=
  ∀ kind, ∀ e ∈ tables kind, ∃ n, e.2 = .node n

theorem giveNodes_of_holdNodes (h : w.HoldNodes tables) : GiveNodes tables := by
  intro kind e he
  rcases h kind e he with ⟨n, hn, _⟩
  exact ⟨n, hn⟩

/-- Tables that give nodes resolve each reference to one. -/
theorem GiveNodes.exists_node (htables : GiveNodes tables) {kind : ReferenceKind} {n : Nat}
    {y : Formula Term} (h : references tables kind n = some y) :
    ∃ node, y = .leaf (.node node) := by
  rcases exists_of_references h with ⟨t, rfl, hmem, _⟩
  rcases htables kind _ hmem with ⟨node, rfl⟩
  exact ⟨node, rfl⟩

/-- The node that tables of nodes give for a reference. -/
def nodeOf (tables : ReferenceKind → List (Int × Term)) (r : NodeReference) : NodeId :=
  match entry tables r with
  | .entity (.node n) => n
  | _ => default

theorem GiveNodes.entry_eq (htables : GiveNodes tables) {r : NodeReference}
    (h : references tables r.kind r.id = some (.leaf (entry tables r))) :
    entry tables r = .node (nodeOf tables r) := by
  rcases htables.exists_node h with ⟨node, hnode⟩
  have hentry : entry tables r = .node node := Formula.leaf.inj hnode
  rw [nodeOf, hentry]

/-- Tables of nodes give what was read the nodes of its references. -/
theorem GiveNodes.map_entry_eq (htables : GiveNodes tables) {f : Formula NodeReference}
    (hknown : ∀ r ∈ f.leaves, references tables r.kind r.id = some (.leaf (entry tables r))) :
    f.map (entry tables) = (f.map (nodeOf tables)).map .node := by
  rw [Formula.map_map]
  refine Formula.map_congr fun r hr => ?_
  rw [htables.entry_eq (hknown r hr)]

/-- Numbers that invert tables write a formula as a text that is read as the formula. -/
theorem read_textOf_of_inverts {numbers : NumberTable} {f : Formula NodeId}
    (hinverts : w.Inverts tables numbers f) (hdepth : f.depth ≤ Formula.allowedDepth)
    (hopen : Text.mostOpen (Piece.textOf (f.map (w.reference numbers)).pieces) ≤
      Lexer.bracketLimit) :
    d.read w (fun kind => some (tables kind))
        (.text (String.ofList (Piece.textOf (f.map (w.reference numbers)).pieces))) =
      .ok (d.place (f.map .node)) := by
  refine read_textOf (g := entry tables) (fun _ => rfl) (fun n hn => ?_) (fun n hn => ?_)
    (fun n hn => ?_) (fun n hn => ?_) hdepth hopen
  all_goals
    rcases hinverts n hn with ⟨r, hr, hdigits, hreferences⟩
  · rw [hr.reference_eq]
    exact (Formula.leaf.inj (eq_entry_of_references hreferences)).symm
  · rw [hr.reference_eq]
    exact hreferences
  · exact hr.isLeaf
  · rw [hr.reference_eq]
    exact hdigits

/--
Whatever text is accepted with tables of nodes of their own kind, the term stands for a
formula that is at most 250 deep.  With numbers that invert the tables on its nodes, the
formula has a short text, which opens at most 200 brackets at once and is accepted with
the same tables as an equal formula.
-/
theorem read_shortTextOf_read {text : String} (htables : w.HoldNodes tables)
    (hread : d.read w (fun kind => some (tables kind)) (.text text) = .ok (d', t)) :
    ∃ f : Formula NodeId, d'.tree? t = some (Argument.ofFormula f) ∧ f.depth ≤ 250 ∧
      ∀ numbers, w.Inverts tables numbers f → ∃ s, ∃ d'' t',
        w.shortTextOf numbers (d'.argument t) = .ok s ∧ Text.mostOpen s.toList ≤ 200 ∧
        d'.read w (fun kind => some (tables kind)) (.text s) = .ok (d'', t') ∧
        d''.tree? t' = some (Argument.ofFormula f) ∧ d''.areEqual t t' = true := by
  rcases exists_of_read hread with ⟨fr, hexpression, hdepth, hplace, hknown⟩
  rw [(giveNodes_of_holdNodes htables).map_entry_eq hknown] at hplace
  have htree : d'.tree? t = some (Argument.ofFormula (fr.map (nodeOf tables))) := by
    have hplaced := tree?_place_nodes d (fr.map (nodeOf tables))
    rwa [← hplace] at hplaced
  have hdepth' : (fr.map (nodeOf tables)).depth ≤ Formula.allowedDepth := by
    rwa [Formula.depth_map]
  refine ⟨_, htree, hdepth', fun numbers hinverts => ?_⟩
  have hshort : w.shortTextOf numbers (d'.argument t) = .ok (String.ofList (Piece.textOf
      ((fr.map (nodeOf tables)).map (w.reference numbers)).pieces)) := by
    rw [argument, htree]
    refine World.shortTextOf_numberedAs fun n hn => ?_
    rcases hinverts n hn with ⟨r, hr, _⟩
    rwa [hr.reference_eq]
  have hids : ∀ r ∈ (fr.map fun a => w.reference numbers (nodeOf tables a)).leaves,
      (Text.decimalDigits r.id).length ≤ Text.digitLimit := by
    rw [← Formula.map_map, Formula.leaves_map, List.forall_mem_map]
    intro n hn
    rcases hinverts n hn with ⟨r, hr, hdigits, _⟩
    rwa [hr.reference_eq]
  have hopen := Formula.mostOpen_pieces_le_of_expressionOf hexpression _ hids
  rw [← Formula.map_map] at hopen
  have hplaced := tree?_place_nodes d' (fr.map (nodeOf tables))
  have hkept := (extends_place d' ((fr.map (nodeOf tables)).map .node)).tree? htree
  refine ⟨_, _, _, hshort, ?_, read_textOf_of_inverts hinverts hdepth' hopen, hplaced, ?_⟩
  · rw [String.toList_ofList]
    exact hopen
  · rw [areEqual, argument, argument, hplaced, hkept]
    exact Argument.equals_ofFormula_self _

/-- The tables of the gap hold nodes that formulas may read. -/
theorem holdNodes_gapTables : (World.run {} gapSession).HoldNodes gapTables := by
  obtain ⟨hlevel, hconstant, hauxiliary⟩ := numberedAs_gapSession
  intro kind e he
  cases kind with
  | auxiliary =>
      rw [List.mem_singleton.1 he]
      exact ⟨_, rfl, hauxiliary.1⟩
  | constant =>
      rw [List.mem_singleton.1 he]
      exact ⟨_, rfl, hconstant.1⟩
  | level =>
      rw [List.mem_singleton.1 he]
      exact ⟨_, rfl, hlevel.1⟩

/-- The numbers of the model's nodes are those in the tables. -/
theorem inverts_gapTables {f : Formula NodeId} (h : ∀ n ∈ f.leaves, n.index < 3) :
    (World.run {} gapSession).Inverts gapTables ((World.run {} gapSession).numbering ⟨0⟩) f := by
  intro n hn
  rcases n with ⟨index⟩
  have hindex : index < 3 := h _ hn
  obtain ⟨hlevel, hconstant, hauxiliary⟩ := numberedAs_gapSession
  obtain rfl | rfl | rfl : index = 0 ∨ index = 1 ∨ index = 2 := by omega
  · exact ⟨_, hlevel, by decide, rfl⟩
  · exact ⟨_, hconstant, by decide, rfl⟩
  · exact ⟨_, hauxiliary, by decide, rfl⟩

/-- A text with brackets of its own and a spare comma is read, written shortly and read again. -/
theorem read_shortTextOf_read_spelled :
    ∃ d' t s d'' t',
      ({} : Drafts).read (World.run {} gapSession) (fun kind => some (gapTables kind))
        (.text "(LN)((0x1)) - MAX(CN(01), AN((1)),)") = .ok (d', t) ∧
      (World.run {} gapSession).shortTextOf ((World.run {} gapSession).numbering ⟨0⟩)
        (d'.argument t) = .ok s ∧
      d'.read (World.run {} gapSession) (fun kind => some (gapTables kind)) (.text s) =
        .ok (d'', t') ∧ d''.areEqual t t' = true := by
  have hleaves : (({} : Drafts).read (World.run {} gapSession) (fun kind => some (gapTables kind))
      (.text "(LN)((0x1)) - MAX(CN(01), AN((1)),)")).toOption.any (fun x =>
        (x.1.argument x.2).leaves.all fun e => e.node?.any fun n => n.index < 3) = true := by
    decide +kernel
  cases hread : ({} : Drafts).read (World.run {} gapSession) (fun kind => some (gapTables kind))
      (.text "(LN)((0x1)) - MAX(CN(01), AN((1)),)") with
  | error e =>
      rw [hread] at hleaves
      cases hleaves
  | ok x =>
      rcases x with ⟨d', t⟩
      rcases read_shortTextOf_read holdNodes_gapTables hread with ⟨f, htree, _, hshort⟩
      have hindex : ∀ n ∈ f.leaves, n.index < 3 := by
        intro n hn
        have hargument : d'.argument t = Argument.ofFormula f := by
          rw [argument, htree]
          rfl
        have hmem : Entity.node n ∈ (Argument.ofFormula f).leaves := by
          rw [Argument.ofFormula, Formula.leaves_map]
          exact List.mem_map_of_mem hn
        rw [hread] at hleaves
        simp only [Except.toOption, Option.any_some, hargument] at hleaves
        exact of_decide_eq_true (List.all_eq_true.1 hleaves _ hmem)
      rcases hshort _ (inverts_gapTables hindex) with ⟨s, d'', t', hs, _, hread', _, hequal⟩
      exact ⟨d', t, s, d'', t', rfl, hs, hread', hequal⟩

/-- The short text of an accepted formula can have 200 brackets open at once. -/
theorem not_mostOpen_shortTextOf_le_of_nested :
    (World.run {} gapSession).HoldNodes gapTables ∧
      ∃ d' t s,
        ({} : Drafts).read (World.run {} gapSession) (fun kind => some (gapTables kind))
          (.text (String.ofList (Piece.textOf (nested 199).pieces))) = .ok (d', t) ∧
        d'.tree? t = some (Argument.ofFormula ((nested 199).map gapNode)) ∧
        (World.run {} gapSession).Inverts gapTables ((World.run {} gapSession).numbering ⟨0⟩)
          ((nested 199).map gapNode) ∧
        (World.run {} gapSession).shortTextOf ((World.run {} gapSession).numbering ⟨0⟩)
          (d'.argument t) = .ok s ∧ ¬ Text.mostOpen s.toList ≤ 199 := by
  have hconstant := numberedAs_gapSession.2.1
  have hinverts : (World.run {} gapSession).Inverts gapTables
      ((World.run {} gapSession).numbering ⟨0⟩) ((nested 199).map gapNode) := by
    refine inverts_gapTables fun n hn => ?_
    rw [Formula.leaves_map] at hn
    rcases List.mem_map.1 hn with ⟨r, hr, rfl⟩
    rw [mem_leaves_nested hr]
    decide
  have hread := read_nested (d := {}) (Nat.le_refl 199)
  have htree := tree?_place_nodes {} ((nested 199).map gapNode)
  obtain ⟨d', t, hplace⟩ : ∃ d' t,
      ({} : Drafts).place (((nested 199).map gapNode).map .node) = (d', t) := ⟨_, _, rfl⟩
  rw [hplace] at hread htree
  have hback : ((nested 199).map gapNode).map (fun _ => (⟨.constant, 1⟩ : NodeReference)) =
      nested 199 := by
    rw [Formula.map_map]
    refine (Formula.map_congr fun r hr => ?_).trans (Formula.map_id _)
    exact (mem_leaves_nested hr).symm
  have hshort : (World.run {} gapSession).shortTextOf ((World.run {} gapSession).numbering ⟨0⟩)
      (Argument.ofFormula ((nested 199).map gapNode)) = .ok (String.ofList (Piece.textOf
        (((nested 199).map gapNode).map fun _ => (⟨.constant, 1⟩ : NodeReference)).pieces)) := by
    refine World.shortTextOf_numberedAs fun n hn => ?_
    rw [Formula.leaves_map] at hn
    rcases List.mem_map.1 hn with ⟨r, hr, rfl⟩
    rw [mem_leaves_nested hr]
    exact hconstant
  rw [hback] at hshort
  refine ⟨holdNodes_gapTables, d', t, String.ofList (Piece.textOf (nested 199).pieces), hread,
    htree, hinverts, ?_, ?_⟩
  · rw [argument, htree]
    exact hshort
  · rw [String.toList_ofList, mostOpen_nested]
    decide

end Drafts
end StockFlow
