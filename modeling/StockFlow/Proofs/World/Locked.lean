import StockFlow.Proofs.World.Progress

/-!
# Locked models in any session

No operation changes what a locked model owns or the order that is stored with it.
Its formulas can still be set through another model that is not locked, so a model
stands as it was locked only while they are those of that moment; then it can be
stepped.  Rounds of one model do not touch the values of another one.

Main definitions:

- {lit}`World.StandsAsLocked`: a locked model with the formulas that it was locked with.
- {lit}`World.afterRounds`: the world after rounds of several models.

Main results:

- Theorem {lit}`World.model?_run_of_locked`: locked models keep their content.
- Theorem {lit}`World.StandsAsLocked.steppable`: models that stand as locked can be stepped.
- Theorem {lit}`World.Reachable.valueOf_step_computeRound`: a round touches the model's own nodes
  only.
- Theorem {lit}`World.afterRounds_induction`: what rounds of two models preserve, whatever other
  rounds come between them.
-/

namespace StockFlow
namespace World

variable {w w' : World} {m : ModelId} {n : NodeId}

/-! ## What locked models keep -/

theorem model_of_model? {content : Model} (hm : w.model? m = some content) :
    w.model m = content := by
  rw [model, hm, Option.getD_some]

/-- No operation changes the content of a locked model. -/
theorem Effect.model?_eq_of_locked {op : Operation} {outcome : Outcome}
    (h : w.Effect op outcome w') {content : Model} (hm : w.model? m = some content)
    (hlocked : content.changeable = false) : w'.model? m = some content := by
  have hother : ∀ {k}, w.isChangeable k = true → k ≠ m := by
    rintro k hc rfl
    rw [isChangeable, model_of_model? hm, hlocked] at hc
    simp at hc
  cases h with
  | newModel name =>
      have hne : m ≠ w.nextModel := by
        rintro rfl
        simp [model?, nextModel] at hm
      rw [model?_addModel, if_neg hne, hm]
  | create hcreates hc => rw [withNew, model?_updateModel, if_neg (hother hc), model?_addNode, hm]
  | renameModel hc hname => rw [model?_updateModel, if_neg (hother hc), hm]
  | addFlow hc ha hb hfree =>
      rw [model?, (sameUpToFlows_connect ..).models]
      exact hm
  | removeFlow hc ha hb hflow =>
      rw [model?, (sameUpToFlows_disconnect ..).models]
      exact hm
  | removeNode hc hn hkind hunread =>
      rw [model?_updateModel, if_neg (hother hc), model?, (sameUpToFlows_isolate w _).models]
      exact hm
  | lock hc hvalid horder => rw [model?_updateModel, if_neg (hother hc), hm]
  | _ => exact hm

/-- No session changes the content of a locked model. -/
theorem model?_run_of_locked (hw : w.WellFormed) (ops : List Operation) {content : Model}
    (hm : w.model? m = some content) (hlocked : content.changeable = false) :
    (w.run ops).model? m = some content := by
  refine hw.run_induction (P := fun w => w.model? m = some content)
    (fun _ _ _ _ _ heffect hm => ?_) (fun _ _ hvalues hm => ?_) ops hm
  · exact heffect.model?_eq_of_locked hm hlocked
  · rw [model?, hvalues.models]
    exact hm

/-- No session changes the content of a locked model. -/
theorem model_run_of_locked (hw : w.WellFormed) (ops : List Operation) {content : Model}
    (hm : w.model? m = some content) (hlocked : content.changeable = false) :
    (w.run ops).model m = w.model m := by
  rw [model_of_model? (model?_run_of_locked hw ops hm hlocked), model_of_model? hm]

/-- No session changes the kind of a node. -/
theorem WellFormed.kind?_run (hw : w.WellFormed) (ops : List Operation) {kind : NodeKind}
    (hn : w.kind? n = some kind) : (w.run ops).kind? n = some kind := by
  refine hw.run_induction (P := fun w => w.kind? n = some kind)
    (fun _ _ _ _ _ heffect hn => heffect.kind?_eq hn) (fun _ _ hvalues hn => ?_) ops hn
  exact (hvalues.sameLinks.kind n).trans hn

/-! ## Models that stand as they were locked -/

/-- Whether a model was locked in some session, and its formulas are still those of that moment. -/
def StandsAsLocked (w : World) (m : ModelId) : Prop :=
  ∃ w₀ w₁ ops, w₀.Reachable ∧ (Action.lock m).run w₀ = .ok () w₁ ∧ w = w₁.run ops ∧
    ∀ n ∈ (w.model m).formulaOwners, w.formula? n = w₁.formula? n

/-- Locking that succeeds is a step to the world it leaves. -/
theorem step_lock (hrun : (Action.lock m).run w = .ok () w') : w.step (.lock m) = w' := by
  have hperform : (Action.perform (.lock m)).run w = .ok .done w' := by
    rw [Action.perform, Action.run_map, hrun]
  exact step_of_ok hperform

/-- A model that stands as it was locked is in a world that sessions reach. -/
theorem StandsAsLocked.reachable (h : w.StandsAsLocked m) : w.Reachable := by
  rcases h with ⟨w₀, w₁, ops, ⟨ops₀, rfl⟩, hrun, rfl, _⟩
  refine ⟨ops₀ ++ .lock m :: ops, ?_⟩
  rw [run_append, run_cons, step_lock hrun]

/-- Locking succeeds on models that exist, and finds out all that rounds rely on. -/
theorem WellFormed.lock_ok (hw : w.WellFormed) (hrun : (Action.lock m).run w = .ok () w') :
    w'.WellFormed ∧ w'.Steppable m ∧
      ∃ content, w'.model? m = some content ∧ content.changeable = false := by
  have heffect := (Action.commits_lock m).of_ok hrun
  refine ⟨heffect.wellFormed hw, ?_⟩
  cases heffect with
  | lock hc hvalid horder =>
      refine ⟨steppable_lock hw hc hvalid horder, ?_⟩
      rw [model?_updateModel, if_pos rfl]
      cases hm : w.model? m with
      | none => simp [isChangeable, model, hm] at hc
      | some content => exact ⟨_, rfl, rfl⟩

/-- A model that stands as it was locked is there, and locked. -/
theorem StandsAsLocked.content (h : w.StandsAsLocked m) :
    ∃ content, w.model? m = some content ∧ content.changeable = false := by
  rcases h with ⟨w₀, w₁, ops, hreach, hrun, rfl, _⟩
  obtain ⟨hw, _, content, hm, hlocked⟩ := hreach.wellFormed.lock_ok hrun
  exact ⟨content, model?_run_of_locked hw ops hm hlocked, hlocked⟩

/-- A model that stands as it was locked is not changeable. -/
theorem StandsAsLocked.locked (h : w.StandsAsLocked m) : w.isChangeable m = false := by
  rcases h.content with ⟨content, hm, hlocked⟩
  rw [isChangeable, model_of_model? hm, hlocked]

/-- Models that stand as they were locked can be stepped. -/
theorem StandsAsLocked.steppable (h : w.StandsAsLocked m) : w.Steppable m := by
  rcases h with ⟨w₀, w₁, ops, hreach, hrun, rfl, hformula⟩
  obtain ⟨hw, hsteppable, content, hm, hlocked⟩ := hreach.wellFormed.lock_ok hrun
  have hmodel := model_run_of_locked hw ops hm hlocked
  refine hsteppable.congr hw.leaves hmodel (fun _ _ => hw.kind?_run ops) fun n hn => ?_
  rw [← hmodel] at hn
  exact hformula n hn

/-- Locking that succeeds leaves a model as it was locked. -/
theorem Reachable.standsAsLocked_step_lock (h : w.Reachable) (hc : w.isChangeable m = true)
    (hlocked : (w.step (.lock m)).isChangeable m = false) :
    (w.step (.lock m)).StandsAsLocked m := by
  rcases Action.commits_lock (w := w) m with ⟨e, hrun⟩ | ⟨_, w', hrun, _⟩
  · have hfail : (Action.perform (.lock m)).run w = .error e w := by
      rw [Action.perform, Action.run_map, hrun]
    rw [step_of_error hfail, hc] at hlocked
    simp at hlocked
  · rw [step_lock hrun]
    exact ⟨w, w', [], h, hrun, rfl, fun _ _ => rfl⟩

/-- What follows a lock leaves the model as it was locked if it keeps the model's formulas. -/
theorem StandsAsLocked.run_of_formula (h : w.StandsAsLocked m) (ops : List Operation)
    (hformula : ∀ n ∈ (w.model m).formulaOwners, (w.run ops).formula? n = w.formula? n) :
    (w.run ops).StandsAsLocked m := by
  rcases h.content with ⟨content, hm, hlocked⟩
  have hmodel := model_run_of_locked h.reachable.wellFormed ops hm hlocked
  rcases h with ⟨w₀, w₁, ops₁, hreach, hrun, rfl, hold⟩
  refine ⟨w₀, w₁, ops₁ ++ ops, hreach, hrun, (run_append w₁ ops₁ ops).symm, fun n hn => ?_⟩
  rw [hmodel] at hn
  rw [hformula n hn, hold n hn]

/-- A session that stays within models leaves every model as it was locked. -/
theorem StandsAsLocked.run (h : w.StandsAsLocked m) {ops : List Operation}
    (hops : w.AllStayWithin ops) : (w.run ops).StandsAsLocked m := by
  induction ops generalizing w with
  | nil => exact h
  | cons op rest ih =>
      have hw := h.reachable.wellFormed
      refine ih (h.run_of_formula [op] fun n hn => ?_) hops.2
      have hn' : n ∈ (w.model m).nodes := Model.mem_nodes_of_mem_formulaOwners hn
      rcases step_cases hw.flows op with hsame | ⟨outcome, heffect⟩ | ⟨k, _, hvalues⟩
      · rw [run_cons, run_nil, hsame]
      · exact heffect.formula?_eq_of_locked hw hops.1 h.locked hn'
      · exact hvalues.sameLinks.formula n

/-! ## Rounds of several models -/

/-- The world after rounds of models, one after the other, whether they failed or not. -/
def afterRounds (w : World) (ks : List ModelId) : World := w.run (ks.map .computeRound)

/-- Rounds change current values only. -/
theorem sameUpToValues_afterRounds (w : World) (ks : List ModelId) :
    SameUpToValues w (w.afterRounds ks) := by
  induction ks generalizing w with
  | nil => exact SameUnder.refl _ w
  | cons k rest ih => exact SameUnder.trans (step_computeRound k) (ih _)

/-- After rounds, a model stands as it was locked. -/
theorem StandsAsLocked.afterRounds (h : w.StandsAsLocked m) (ks : List ModelId) :
    (w.afterRounds ks).StandsAsLocked m :=
  h.run_of_formula _ fun n _ => (sameUpToValues_afterRounds w ks).sameLinks.formula n

end World

namespace Action

variable {α β : Type} {n : NodeId}

/-- An action that does not change the current value of a node, also if it fails. -/
def KeepsValue (n : NodeId) (x : Action α) : Prop :=
  ∀ w, (x.worldAfter w).valueOf n = w.valueOf n

/-- Two actions in turn keep a value if each of them does. -/
theorem keepsValue_bind {x : Action α} {f : α → Action β} (hx : KeepsValue n x)
    (hf : ∀ a, KeepsValue n (f a)) : KeepsValue n (x >>= f) := by
  intro w
  have hfirst := hx w
  unfold worldAfter at hfirst ⊢
  cases hrun : x.run w with
  | error e w₁ =>
      rw [run_bind_error hrun]
      rwa [hrun] at hfirst
  | ok a w₁ =>
      rw [run_bind_ok hrun]
      rw [hrun] at hfirst
      exact (hf a w₁).trans hfirst

/-- Another auxiliary that advances leaves a value alone. -/
theorem keepsValue_advanceFormula {k : NodeId} (hne : k ≠ n) :
    KeepsValue n (advanceFormula k) := by
  intro w
  unfold worldAfter advanceFormula
  rw [run_get_bind]
  cases evaluate w k with
  | error e => rfl
  | ok x => exact World.valueOf_setCurrent_of_ne hne x

/-- Another level that advances leaves a value alone. -/
theorem keepsValue_advanceLevel {k : NodeId} (hne : k ≠ n) : KeepsValue n (advanceLevel k) := by
  intro w
  unfold worldAfter advanceLevel
  rw [run_get_bind]
  cases nextLevelValue w k with
  | error e => rfl
  | ok x => exact World.valueOf_setCurrent_of_ne hne x

theorem keepsValue_advanceAll {ns : List NodeId} (hn : n ∉ ns) : KeepsValue n (advanceAll ns) := by
  induction ns with
  | nil => exact fun _ => rfl
  | cons k rest ih =>
      rw [List.mem_cons, not_or] at hn
      exact keepsValue_bind (keepsValue_advanceFormula (Ne.symm hn.1)) fun _ => ih hn.2

theorem keepsValue_advanceLevels {ns : List NodeId} (hn : n ∉ ns) :
    KeepsValue n (advanceLevels ns) := by
  induction ns with
  | nil => exact fun _ => rfl
  | cons k rest ih =>
      rw [List.mem_cons, not_or] at hn
      exact keepsValue_bind (keepsValue_advanceLevel (Ne.symm hn.1)) fun _ => ih hn.2

/-- Storing the values of rates and advancing levels leaves all other values alone. -/
theorem keepsValue_store {rates levels : List NodeId} (hrates : n ∉ rates) (hlevels : n ∉ levels) :
    KeepsValue n (do
      let w ← get
      let values ← ofExcept (evaluateAll w rates)
      set (storeAll w values)
      advanceLevels levels) := by
  intro w
  unfold worldAfter
  rw [run_get_bind]
  cases hvalues : evaluateAll w rates with
  | error e => rfl
  | ok values =>
      obtain ⟨_, hvalues', hkeys, _⟩ := evaluateAll_eq_ok (evaluateAll_ok_iff.1 ⟨values, hvalues⟩)
      obtain rfl := Except.ok.inj (hvalues.symm.trans hvalues')
      exact (keepsValue_advanceLevels hlevels _).trans
        (valueOf_storeAll_of_not_mem (hkeys ▸ hrates))

/-- A round writes the stored order's nodes, the rates and the levels of its model only. -/
theorem valueOf_computeRound {w : World} {k : ModelId} (horder : n ∉ (w.model k).order)
    (hrates : n ∉ (w.model k).rates) (hlevels : n ∉ (w.model k).levels) :
    ((computeRound k).worldAfter w).valueOf n = w.valueOf n := by
  unfold worldAfter computeRound
  rw [run_get_bind]
  cases hc : w.isChangeable k with
  | true => rfl
  | false =>
      exact keepsValue_bind (keepsValue_advanceAll horder)
        (fun _ => keepsValue_store hrates hlevels) w

end Action

namespace World

variable {w w' : World} {m : ModelId} {n : NodeId}

/-! ## Rounds touch their own model only -/

/-- Whether the orders of locked models hold exactly their auxiliaries. -/
def OrdersMatch (w : World) : Prop :=
  ∀ m, w.isChangeable m = false → ∀ n, n ∈ (w.model m).order ↔ n ∈ (w.model m).auxiliaries

/-- Evaluation orders are those of the locked models, after any operation. -/
theorem Effect.ordersMatch {op : Operation} {outcome : Outcome} (h : w.Effect op outcome w')
    (hw : w.WellFormed) (horders : w.OrdersMatch) : w'.OrdersMatch := by
  intro m hlocked
  rcases h.model_cases m with hmodel | hchangeable | rfl
  · rw [isChangeable, hmodel] at hlocked
    rw [hmodel]
    exact horders m hlocked
  · simp [hchangeable] at hlocked
  · cases h with
    | create hcreates hc => cases hcreates
    | lock hc hvalid horder => exact (steppable_lock hw hc hvalid horder).mem_order

/-- In sessions, evaluation orders are those of the locked models. -/
theorem Reachable.ordersMatch (h : w.Reachable) : w.OrdersMatch := by
  rcases h with ⟨ops, rfl⟩
  refine wellFormed_empty.run_induction (fun _ _ _ _ hw heffect horders => ?_)
    (fun _ _ hvalues horders m => ?_) ops fun m _ n => by simp [model, model?]
  · exact heffect.ordersMatch hw horders
  · rw [hvalues.sameLinks.isChangeable, hvalues.model]
    exact horders m

/-- A round leaves the same world as a step does. -/
theorem worldAfter_computeRound (w : World) (k : ModelId) :
    (Action.computeRound k).worldAfter w = w.step (.computeRound k) := by
  rw [step, Action.worldAfter, Action.worldAfter, Action.perform, Action.run_map]
  cases (Action.computeRound k).run w <;> rfl

/-- There is no round of a model that can be changed. -/
theorem step_computeRound_of_changeable (hc : w.isChangeable m = true) :
    w.step (.computeRound m) = w := by
  rw [← worldAfter_computeRound]
  unfold Action.worldAfter Action.computeRound
  rw [Action.run_get_bind]
  simp only [hc]
  rfl

/-- A round, whether it fails or not, does not touch the values of another model's nodes. -/
theorem Reachable.valueOf_step_computeRound (h : w.Reachable) {k : ModelId} (hne : k ≠ m)
    (hn : n ∈ (w.model m).nodes) : (w.step (.computeRound k)).valueOf n = w.valueOf n := by
  have hforeign : ∀ kind, n ∉ (w.model k).members kind := by
    intro kind hmem
    exact hne (h.wellFormed.members.owner_unique (Model.mem_nodes.2 ⟨kind, hmem⟩) hn)
  cases hc : w.isChangeable k with
  | true => rw [step_computeRound_of_changeable hc]
  | false =>
      rw [← worldAfter_computeRound]
      refine Action.valueOf_computeRound ?_ (hforeign .rate) (hforeign .level)
      rw [h.ordersMatch k hc]
      exact hforeign .auxiliary

/-- A round of a model that stands as it was locked succeeds and solves its equations. -/
theorem StandsAsLocked.round (h : w.StandsAsLocked m) :
    (∃ w', (Action.computeRound m).run w = .ok () w') ∧
      w.RoundEquations m (w.step (.computeRound m)) := by
  have hw := h.reachable.wellFormed
  rcases h.steppable.run_computeRound hw h.locked with ⟨w₁, w₂, w₃, hrun, hphases⟩
  refine ⟨⟨w₃, hrun⟩, ?_⟩
  rw [← worldAfter_computeRound, Action.worldAfter, hrun]
  exact hphases.roundEquations hw

/-! ## Two schedules of rounds -/

/--
What rounds of two models, each in its own world, preserve together is preserved by
schedules with equally many rounds of both, whatever other rounds these hold.
-/
theorem afterRounds_induction {m' : ModelId} {P : Nat → World → World → Prop}
    (hleft : ∀ i w w' k, k ≠ m → P i w w' → P i (w.step (.computeRound k)) w')
    (hright : ∀ i w w' k, k ≠ m' → P i w w' → P i w (w'.step (.computeRound k)))
    (hboth : ∀ i w w', P i w w' →
      P (i + 1) (w.step (.computeRound m)) (w'.step (.computeRound m')))
    {ks ks' : List ModelId} (hcount : ks.count m = ks'.count m') {i : Nat} (h : P i w w') :
    P (i + ks.count m) (w.afterRounds ks) (w'.afterRounds ks') := by
  induction ks generalizing w w' ks' i with
  | nil =>
      induction ks' generalizing w' with
      | nil => exact h
      | cons k' rest' ih' =>
          have hne : k' ≠ m' := by
            rintro rfl
            simp at hcount
          rw [List.count_cons_of_ne hne] at hcount
          exact ih' hcount (hright i w w' k' hne h)
  | cons k rest ih =>
      by_cases hk : k = m
      · subst hk
        -- the other schedule goes on to its next round of the other model
        induction ks' generalizing w' with
        | nil => simp at hcount
        | cons k' rest' ih' =>
            by_cases hk' : k' = m'
            · subst hk'
              rw [List.count_cons_self, List.count_cons_self, Nat.add_right_cancel_iff] at hcount
              rw [List.count_cons_self, ← Nat.add_assoc, Nat.add_right_comm]
              exact ih hcount (hboth i w w' h)
            · rw [List.count_cons_of_ne hk'] at hcount
              exact ih' (hright i w w' k' hk' h) hcount
      · rw [List.count_cons_of_ne hk] at hcount ⊢
        exact ih hcount (hleft i w w' k hk h)

end World
end StockFlow
