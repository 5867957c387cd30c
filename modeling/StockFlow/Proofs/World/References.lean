import StockFlow.Proofs.World.Lifecycle

/-!
# References out of models

Operations accept nodes of other models, and nodes that were removed before, so a
formula or a flow can lead out of a model, and the rules of validation do not look for
that: such a model can be locked.  Removing nodes never leaves such references behind.
So each of them was made by an operation that was handed both nodes while the model did
not own the second one.

Main definitions:

- {lit}`World.MakesForeign`: an operation makes a reference to a node that a model does not own.
- {lit}`World.Complete`: no end, no formula and no auxiliary of an auxiliary is missing.

Main results:

- Theorem {lit}`World.Effect.keeps_owned`: no operation leaves a reference to what it removes.
- Theorem {lit}`World.makesForeign_or_owns`: where references out of a model come from.
- Theorem {lit}`World.lock_references`: what is known of the references of a model that was locked.
-/

namespace StockFlow
namespace World

variable {w w' : World} {m : ModelId} {n k : NodeId}

/-! ## Where references come from -/

/--
Whether an operation is handed two nodes and makes the first one refer to the second one,
which a model does not own at that time.
-/
def MakesForeign (m : ModelId) (n k : NodeId) (w : World) (op : Operation) : Prop :=
  k ∉ (w.model m).nodes ∧ ¬ w.RefersTo n k ∧ (w.step op).RefersTo n k ∧
    (∃ a ∈ op.arguments, n ∈ a.nodes) ∧ ∃ a ∈ op.arguments, k ∈ a.nodes

/-- Whether what one node may refer to belongs to the model, if the first node does. -/
def OwnsReference (m : ModelId) (n k : NodeId) (w : World) : Prop :=
  n ∈ (w.model m).nodes → w.RefersTo n k → k ∈ (w.model m).nodes

/-- What a node of a model still refers to after an operation has not left the model by it. -/
theorem Effect.keeps_owned {op : Operation} {outcome : Outcome} (h : w.Effect op outcome w')
    (hw : w.WellFormed) (hn : n ∈ (w'.model m).nodes) (href : w'.RefersTo n k)
    (hk : k ∈ (w.model m).nodes) : k ∈ (w'.model m).nodes :=
  (h.owned_or_unreferred hw hk).resolve_right fun hunreferred => hunreferred n hn href

/-- A reference that leads out of a model after an operation led there before, or is made by it. -/
theorem Effect.makesForeign_or_owns {op : Operation} {outcome : Outcome}
    (h : w.Effect op outcome (w.step op)) (hw : w.WellFormed) (hold : OwnsReference m n k w) :
    MakesForeign m n k w op ∨ OwnsReference m n k (w.step op) := by
  by_cases hbefore : w.RefersTo n k
  · -- the reference was there already, so the model owned its node already
    refine Or.inr fun hn href => ?_
    rcases h.mem_nodes_cases hn with hmem | rfl
    · exact h.keeps_owned hw hn href (hold hmem hbefore)
    · exact (hw.not_refersTo_nextNode hbefore).elim
  · by_cases hmade : k ∉ (w.model m).nodes ∧ (w.step op).RefersTo n k
    · have hhanded := (h.refersTo_cases hw.flows hmade.2).resolve_left hbefore
      exact Or.inl ⟨hmade.1, hbefore, hmade.2, hhanded⟩
    · refine Or.inr fun hn href => h.keeps_owned hw hn href ?_
      by_contra hk
      exact hmade ⟨hk, href⟩

/-- After any session a model's reference leads to its own node, or was made to a foreign one. -/
theorem makesForeign_or_owns (m : ModelId) (n k : NodeId) (ops : List Operation) :
    Occurs (MakesForeign m n k) {} ops ∨ OwnsReference m n k (World.run {} ops) := by
  refine Reachable.holds_or_occurs (fun w op h hold => ?_) ⟨[], rfl⟩ ?_ ops
  · rcases step_cases h.wellFormed.flows op with hsame | ⟨outcome, heffect⟩ | ⟨_, _, hvalues⟩
    · exact Or.inr (by rwa [hsame])
    · exact heffect.makesForeign_or_owns h.wellFormed hold
    · refine Or.inr fun hn href => ?_
      rw [hvalues.model] at hn ⊢
      exact hold hn (hvalues.sameLinks.refersTo_iff.1 href)
  · intro hn
    simp [model, model?, Model.nodes] at hn

/-! ## What locking looks for -/

/--
Whether every rate of a model has both ends, every rate and auxiliary has a formula, and
the auxiliaries that auxiliaries read belong to the model.
-/
structure Complete (w : World) (m : ModelId) : Prop where
  endpoint : ∀ r ∈ (w.model m).rates, ∀ side, ∃ e, w.endpoint? side r = some e
  formula : ∀ n ∈ (w.model m).formulaOwners, ∃ f, w.formula? n = some f
  auxiliary : ∀ a ∈ (w.model m).auxiliaries, ∀ k, w.RefersTo a k →
    w.kind? k = some .auxiliary → k ∈ (w.model m).auxiliaries

/-- Where no flow is missing, each rate has both ends. -/
theorem ends_of_flowViolations {content : Model} (h : w.flowViolations content = []) {r : NodeId}
    (hr : r ∈ content.rates) (side : Side) : ∃ e, w.endpoint? side r = some e := by
  rw [flowViolations, List.map_eq_nil_iff, List.filter_eq_nil_iff] at h
  have hconnected := h r hr
  rw [isUnconnected, Bool.or_eq_true, not_or, Option.isNone_iff_eq_none,
    Option.isNone_iff_eq_none] at hconnected
  rw [← Option.ne_none_iff_exists']
  cases side with
  | source => exact hconnected.1
  | sink => exact hconnected.2

/-- What an auxiliary refers to is read by its formula. -/
theorem WellFormed.mem_formulaReads_of_refersTo (hw : w.WellFormed)
    (hn : w.kind? n = some .auxiliary) (href : w.RefersTo n k) : k ∈ w.formulaReads n := by
  rw [mem_formulaReads]
  rcases href with hread | ⟨side, he | he⟩
  · exact hread
  · rw [kind?_of_endpoint? he] at hn
    cases hn
  · have hend := hw.flows.isEndpoint he
    rw [isEndpoint, hn] at hend
    cases hend

/-- Locking a model changes neither its nodes nor what nodes refer to. -/
theorem refersTo_of_lock (hrun : (Action.lock m).run w = .ok () w') :
    (w'.model m).nodes = (w.model m).nodes ∧ ∀ n k, w'.RefersTo n k ↔ w.RefersTo n k := by
  cases (Action.commits_lock m).of_ok hrun with
  | lock hc hvalid horder =>
      refine ⟨?_, fun _ _ => Iff.rfl⟩
      rw [model_updateModel hc, if_pos rfl]
      rfl

/-- A model that was just locked is complete. -/
theorem WellFormed.complete_of_lock (hw : w.WellFormed) (hrun : (Action.lock m).run w = .ok () w') :
    w'.Complete m := by
  cases (Action.commits_lock m).of_ok hrun with
  | lock hc hvalid horder =>
      rename_i order
      have hmodel := model_updateModel hc (fun model => { model with order, changeable := false }) m
      rw [if_pos rfl] at hmodel
      have hlocal := (firstProblem?_eq_none_iff.1 hvalid).1
      rw [localViolations, List.append_eq_nil_iff, List.append_eq_nil_iff] at hlocal
      have hkind : ∀ a ∈ (w.model m).auxiliaries, w.kind? a = some .auxiliary :=
        hw.members.kind m .auxiliary
      refine ⟨?_, ?_, ?_⟩
      · rw [hmodel]
        exact fun r hr => ends_of_flowViolations hlocal.1.2 hr
      · rw [hmodel]
        exact fun n hn => formulas_of_formulaViolations hlocal.2 hn
      · rw [hmodel]
        intro a ha k href hk
        have hread := hw.mem_formulaReads_of_refersTo (hkind a ha) href
        rw [evaluationOrder] at horder
        cases hsort : w.sortAuxiliaries (w.model m).auxiliaries with
        | error e => simp [hsort] at horder
        | ok sorted =>
            have hwithin := readsWithin_of_sortAuxiliaries hkind
              (hw.members.nodup m .auxiliary) hsort
            exact hwithin a ha k (mem_auxiliaryReads.2 ⟨hread, hk⟩)

/--
What is known of the references of a model that was locked, in whatever session.  Nothing
is missing, and whatever a node of the model reads or shares a flow with belongs to the
model, unless an operation of the session that was handed both nodes made the reference
while the model did not own what it leads to.
-/
theorem lock_references {ops : List Operation}
    (hrun : (Action.lock m).run (World.run {} ops) = .ok () w') :
    w'.Complete m ∧ ∀ n ∈ (w'.model m).nodes, ∀ k, w'.RefersTo n k →
      k ∈ (w'.model m).nodes ∨ Occurs (MakesForeign m n k) {} ops := by
  obtain ⟨hnodes, hrefers⟩ := refersTo_of_lock hrun
  refine ⟨(wellFormed_empty.run ops).complete_of_lock hrun, fun n hn k href => ?_⟩
  rw [hnodes] at hn ⊢
  exact (makesForeign_or_owns m n k ops).symm.imp_left fun howns => howns hn ((hrefers n k).1 href)

/-- A tank whose rate is made to read an auxiliary and a constant after the first was removed. -/
def revivedSession : List Operation :=
  let m : ModelId := ⟨0⟩
  let leaf (index : Nat) : Argument := .node ⟨index⟩
  [.newModel (.text "Tank"), .createLevel m (.text "Water") (.integer 8), .createSourceSink m,
    .createConstant m (.text "Share") (.integer 2), .createAuxiliary m (.text "Gap"),
    .createRate m (.text "Fill"), .setFormula m (leaf 3) (leaf 2),
    .addFlow m .sourceSinkToRate (leaf 1) (leaf 4), .addFlow m .rateToLevel (leaf 4) (leaf 0),
    .removeNode m (leaf 3), .setFormula m (leaf 4) (.apply .add (leaf 3) (leaf 2))]

theorem run_lock_revived : (Action.lock ⟨0⟩).run (World.run {} revivedSession) =
    .ok () (World.run {} (revivedSession ++ [.lock ⟨0⟩])) := by
  rw [run_append, run_cons, run_nil]
  exact (wellFormed_empty.run revivedSession).run_lock_of_locked (by decide +kernel)
    (by decide +kernel)

/-- A model is locked with a leaf that it lost before the formula was set. -/
theorem lock_references_revived :
    ∃ w', (Action.lock ⟨0⟩).run (World.run {} revivedSession) = .ok () w' ∧ w'.Complete ⟨0⟩ ∧
      Occurs (MakesForeign ⟨0⟩ ⟨4⟩ ⟨3⟩) {} revivedSession := by
  obtain ⟨hcomplete, hreferences⟩ := lock_references run_lock_revived
  have hformula : ∃ f ∈ (World.run {} (revivedSession ++ [.lock ⟨0⟩])).formula? ⟨4⟩,
      ⟨3⟩ ∈ f.leaves := by
    decide +kernel
  rcases hformula with ⟨f, hf, hleaf⟩
  have hforeign := hreferences ⟨4⟩ (by decide +kernel) ⟨3⟩ (Or.inl ⟨f, hf, hleaf⟩)
  exact ⟨_, run_lock_revived, hcomplete, hforeign.resolve_left (by decide +kernel)⟩

/-- A model can be locked while the formula of its rate has a leaf that it does not own. -/
theorem not_ownershipClosed_revived :
    ∃ w', (Action.lock ⟨0⟩).run (World.run {} revivedSession) = .ok () w' ∧
      ⟨4⟩ ∈ (w'.model ⟨0⟩).rates ∧
      (∃ f ∈ w'.formula? ⟨4⟩, ⟨3⟩ ∈ f.leaves ∧ ⟨3⟩ ∉ (w'.model ⟨0⟩).nodes) ∧
      ¬ w'.OwnershipClosed ⟨0⟩ :=
  ⟨_, run_lock_revived, by decide +kernel, by decide +kernel, by decide +kernel⟩

end World
end StockFlow
