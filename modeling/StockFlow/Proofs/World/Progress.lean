import StockFlow.Proofs.World.Rounds

/-!
# Rounds that succeed

A round reads nothing but formulas to find out whether it succeeds, and it changes
no formula.  So of several rounds one after the other, the first one decides: if it
succeeds, all of them do.

Main definitions:

- {lit}`World.Runnable`: a model is locked and no formula of its rounds is missing.

Main results:

- Theorem {lit}`World.WellFormed.computeRound_ok_iff`: exactly then a round succeeds.
- Theorem {lit}`World.SameLinks.runnable`: rounds do not change whether rounds succeed.
-/

namespace StockFlow

namespace Action

variable {w : World}

/-- A node advances exactly if it has a formula. -/
theorem advanceFormula_ok_iff {n : NodeId} :
    (∃ w', (advanceFormula n).run w = .ok () w') ↔ ∃ f, w.formula? n = some f := by
  constructor
  · rintro ⟨w', hrun⟩
    cases hf : w.formula? n with
    | some f => exact ⟨f, rfl⟩
    | none =>
        rw [run_advanceFormula_of_none hf] at hrun
        cases hrun
  · rintro ⟨f, hf⟩
    exact ⟨_, run_advanceFormula hf⟩

/-- Nodes can be computed one after the other if and only if all have formulas. -/
theorem advanceAll_ok_iff {ns : List NodeId} :
    (∃ w', (advanceAll ns).run w = .ok () w') ↔ ∀ n ∈ ns, ∃ f, w.formula? n = some f := by
  induction ns generalizing w with
  | nil => exact ⟨fun _ _ hn => by simp at hn, fun _ => ⟨w, rfl⟩⟩
  | cons n rest ih =>
      rw [List.forall_mem_cons, ← advanceFormula_ok_iff, advanceAll]
      cases hrun : (advanceFormula n).run w with
      | error e w₁ =>
          rw [run_bind_error hrun]
          constructor
          · rintro ⟨w', heq⟩
            cases heq
          · rintro ⟨⟨w', heq⟩, _⟩
            cases heq
      | ok a w₁ =>
          have hlinks := ((onlyValues_advanceFormula n).of_run hrun).sameLinks
          rw [run_bind_ok hrun, ih]
          simp only [hlinks.formula]
          exact ⟨fun hrest => ⟨⟨w₁, rfl⟩, hrest⟩, fun h => h.2⟩

/-- Nodes can be evaluated exactly if all of them have a formula. -/
theorem evaluateAll_ok_iff {ns : List NodeId} :
    (∃ values, evaluateAll w ns = .ok values) ↔ ∀ n ∈ ns, ∃ f, w.formula? n = some f := by
  constructor
  · intro h
    induction ns with
    | nil => simp
    | cons n rest ih =>
        rcases h with ⟨values, hvalues⟩
        rw [evaluateAll, evaluate] at hvalues
        cases hf : w.formula? n with
        | none =>
            rw [hf] at hvalues
            cases hvalues
        | some f =>
            rw [hf] at hvalues
            cases hrest : evaluateAll w rest with
            | error e =>
                rw [hrest] at hvalues
                cases hvalues
            | ok values' => exact List.forall_mem_cons.2 ⟨⟨f, hf⟩, ih ⟨values', hrest⟩⟩
  · intro h
    rcases evaluateAll_eq_ok h with ⟨values, hvalues, _⟩
    exact ⟨values, hvalues⟩

end Action

namespace World

variable {w w' : World} {m : ModelId}

/-- Whether a model is locked and no formula that its rounds compute is missing. -/
structure Runnable (w : World) (m : ModelId) : Prop where
  locked : w.isChangeable m = false
  order : ∀ n ∈ (w.model m).order, ∃ f, w.formula? n = some f
  rates : ∀ n ∈ (w.model m).rates, ∃ f, w.formula? n = some f

/-- Whether a model can run is up to the links. -/
theorem SameLinks.runnable (h : SameLinks w w') (hw : w.Runnable m) : w'.Runnable m where
  locked := by
    rw [h.isChangeable]
    exact hw.locked
  order n hn := by
    rw [h.model] at hn
    rw [h.formula]
    exact hw.order n hn
  rates n hn := by
    rw [h.model] at hn
    rw [h.formula]
    exact hw.rates n hn

/-- A round that succeeds needed nothing that was missing. -/
theorem runnable_of_computeRound (hrun : (Action.computeRound m).run w = .ok () w') :
    w.Runnable m := by
  unfold Action.computeRound at hrun
  rw [Action.run_get_bind] at hrun
  cases hc : w.isChangeable m with
  | true =>
      simp only [hc] at hrun
      cases hrun
  | false =>
      simp only [hc, Bool.false_eq_true, if_false] at hrun
      cases hfirst : (Action.advanceAll (w.model m).order).run w with
      | error e w₁ =>
          rw [Action.run_bind_error hfirst] at hrun
          cases hrun
      | ok a w₁ =>
          have hlinks := ((Action.onlyValues_advanceAll _).of_run hfirst).sameLinks
          rw [Action.run_bind_ok hfirst, Action.run_get_bind] at hrun
          refine ⟨hc, Action.advanceAll_ok_iff.1 ⟨w₁, hfirst⟩, ?_⟩
          cases hrates : Action.evaluateAll w₁ (w.model m).rates with
          | error e =>
              rw [hrates] at hrun
              cases hrun
          | ok values =>
              have hformula := Action.evaluateAll_ok_iff.1 ⟨values, hrates⟩
              simpa only [hlinks.formula] using hformula

/-- Where nothing is missing, a round succeeds. -/
theorem WellFormed.computeRound_ok (hw : w.WellFormed) (h : w.Runnable m) :
    ∃ w', (Action.computeRound m).run w = .ok () w' := by
  rcases Action.advanceAll_ok_iff.2 h.order with ⟨w₁, hrun₁⟩
  have hvalues := (Action.onlyValues_advanceAll _).of_run hrun₁
  have hlinks₁ := hvalues.sameLinks
  obtain ⟨w₂, hrun₂, hsame₂, _⟩ := Action.run_storeRates (w := w₁) (w.model m).levels
    (hw.members.nodup m .rate) fun r hr => by
      rw [hlinks₁.formula]
      exact h.rates r hr
  have hlinks₂ := SameUpToValues.sameLinks (SameUnder.trans hvalues hsame₂)
  obtain ⟨w₃, hrun₃, _⟩ := Action.run_advanceLevels (w := w₂) (hlinks₂.flowsMatch hw.flows)
    (hw.members.nodup m .level) fun l hl => by
      rw [hlinks₂.kind]
      exact hw.members.kind m .level l hl
  refine ⟨w₃, ?_⟩
  unfold Action.computeRound
  rw [Action.run_get_bind]
  simp only [h.locked, Bool.false_eq_true, if_false]
  rw [Action.run_bind_ok hrun₁]
  exact hrun₂.trans hrun₃

/-- A round succeeds if and only if its model is locked and no formula is missing. -/
theorem WellFormed.computeRound_ok_iff (hw : w.WellFormed) :
    (∃ w', (Action.computeRound m).run w = .ok () w') ↔ w.Runnable m :=
  ⟨fun ⟨_, hrun⟩ => runnable_of_computeRound hrun, hw.computeRound_ok⟩

/-- After a round that succeeded, the next one succeeds too. -/
theorem WellFormed.runnable_after (hw : w.WellFormed)
    (hrun : (Action.computeRound m).run w = .ok () w') : w'.WellFormed ∧ w'.Runnable m := by
  have hlinks := ((Action.onlyValues_computeRound m).of_run hrun).sameLinks
  exact ⟨hlinks.wellFormed hw, hlinks.runnable (runnable_of_computeRound hrun)⟩

end World
end StockFlow
