import StockFlow.Proofs.Validation.Violations

/-!
# Sessions that stay within models

Operations accept nodes of any model.  In a session that hands every operation
nodes of its own model only, nothing but rounds can change a locked model: what
locking has found out about its auxiliaries and formulas stays true for ever.

Main definitions:

- {lit}`World.StaysWithin`: an operation is handed nodes of its own model only.
- {lit}`World.ReachableWithin`: the worlds that such sessions lead to.
- {lit}`World.Steppable`: what rounds of a model rely on.

Main results:

- Theorem {lit}`World.Effect.steppable`: what is relied on stays true while a model is locked.
- Theorem {lit}`World.ReachableWithin.steppable`: every locked model can be stepped.
-/

namespace StockFlow

/-- The nodes in an argument: itself, or the leaves of a compound formula. -/
def Argument.nodes (a : Argument) : List NodeId := nodesOf a.leaves

namespace Operation

/-- The model that an operation is called on. -/
def model? : Operation → Option ModelId
  | .newModel _ => none
  | .createLevel m _ _ => some m
  | .createRate m _ => some m
  | .createConstant m _ _ => some m
  | .createAuxiliary m _ => some m
  | .createSourceSink m => some m
  | .setModelName m _ => some m
  | .setNodeName m _ _ => some m
  | .setStartValue m _ _ => some m
  | .setConstantValue m _ _ => some m
  | .setFormula m _ _ => some m
  | .addFlow m _ _ _ => some m
  | .removeFlow m _ _ _ => some m
  | .removeNode m _ => some m
  | .validate m => some m
  | .lock m => some m
  | .computeRound m => some m

/-- What is handed over beside plain values. -/
def arguments : Operation → List Argument
  | .setNodeName _ a _ => [a]
  | .setStartValue _ a _ => [a]
  | .setConstantValue _ a _ => [a]
  | .setFormula _ a b => [a, b]
  | .addFlow _ _ a b => [a, b]
  | .removeFlow _ _ a b => [a, b]
  | .removeNode _ a => [a]
  | _ => []

end Operation

namespace Model

variable {content : Model} {n : NodeId}

theorem mem_nodes_of_mem_members (kind : NodeKind) (h : n ∈ content.members kind) :
    n ∈ content.nodes :=
  mem_nodes.2 ⟨kind, h⟩

theorem mem_nodes_of_mem_formulaOwners (h : n ∈ content.formulaOwners) : n ∈ content.nodes := by
  rcases List.mem_append.1 h with h | h
  · exact mem_nodes_of_mem_members .rate h
  · exact mem_nodes_of_mem_members .auxiliary h

end Model

namespace World

variable {w w' : World} {m : ModelId}

/-- Whether an operation is handed only nodes that its model owns, in formulas too. -/
def StaysWithin (w : World) (op : Operation) : Prop :=
  ∀ m ∈ op.model?, ∀ a ∈ op.arguments, ∀ n ∈ a.nodes, n ∈ (w.model m).nodes

instance (w : World) (op : Operation) : Decidable (w.StaysWithin op) :=
  inferInstanceAs
    (Decidable (∀ m ∈ op.model?, ∀ a ∈ op.arguments, ∀ n ∈ a.nodes, n ∈ (w.model m).nodes))

/-- Whether all operations of a session stay within their models. -/
def AllStayWithin : World → List Operation → Prop
  | _, [] => True
  | w, op :: ops => w.StaysWithin op ∧ (w.step op).AllStayWithin ops

instance decidableAllStayWithin : (w : World) → (ops : List Operation) →
    Decidable (w.AllStayWithin ops)
  | _, [] => .isTrue trivial
  | w, op :: ops =>
      have := decidableAllStayWithin (w.step op) ops
      inferInstanceAs (Decidable (w.StaysWithin op ∧ (w.step op).AllStayWithin ops))

/-- The worlds that sessions lead to whose operations are handed nodes of their own model only. -/
inductive ReachableWithin : World → Prop
  | start : ReachableWithin {}
  | step {w : World} {op : Operation} (h : ReachableWithin w) (hop : w.StaysWithin op) :
      ReachableWithin (w.step op)

/-- Sessions within models are sessions. -/
theorem ReachableWithin.reachable (h : w.ReachableWithin) : w.Reachable := by
  induction h with
  | start => exact ⟨[], rfl⟩
  | step _ _ ih => exact ih.step _

/-- More operations within models lead to a world that sessions within models reach. -/
theorem ReachableWithin.run (h : w.ReachableWithin) {ops : List Operation}
    (hops : w.AllStayWithin ops) : (w.run ops).ReachableWithin := by
  induction ops generalizing w with
  | nil => exact h
  | cons op rest ih => exact ih (h.step hops.1) hops.2

theorem mem_nodes_of_node? {a : Argument} {n : NodeId} (h : a.node? = some n) : n ∈ a.nodes := by
  cases a with
  | leaf e => simpa [Argument.nodes, nodesOf, Argument.node?] using h
  | apply op l r => simp [Argument.node?] at h

/-! ## What rounds rely on -/

/--
What rounds of a model rely on: the stored order holds every auxiliary once, each
after the auxiliaries that it reads, and no formula is missing.
-/
structure Steppable (w : World) (m : ModelId) : Prop where
  nodup : (w.model m).order.Nodup
  inOrder : Dependency.InOrder w.auxiliaryReads [] (w.model m).order
  mem_order : ∀ n, n ∈ (w.model m).order ↔ n ∈ (w.model m).auxiliaries
  formula : ∀ n ∈ (w.model m).formulaOwners, ∃ f, w.formula? n = some f

/-- The auxiliaries that a node reads are up to its formula. -/
theorem auxiliaryReads_congr {n : NodeId} (hleaves : w.LeavesMatch)
    (hkind : ∀ k kind, w.kind? k = some kind → w'.kind? k = some kind)
    (hformula : w'.formula? n = w.formula? n) : w'.auxiliaryReads n = w.auxiliaryReads n := by
  cases hf : w.formula? n with
  | none =>
      rw [auxiliaryReads, auxiliaryReads, formulaReads_eq_nil hf,
        formulaReads_eq_nil (hformula.trans hf)]
      rfl
  | some f =>
      rw [auxiliaryReads, auxiliaryReads, formulaReads_eq hf, formulaReads_eq (hformula.trans hf)]
      refine List.filter_congr fun k hk => ?_
      -- what is read exists, so it has the same kind in both worlds
      have hleaf := hleaves n f hf k (Formula.mem_reads.1 hk)
      rw [isKind, isKind]
      cases hk' : w.kind? k with
      | none => simp [isLeaf, hk'] at hleaf
      | some kind => rw [hkind k kind hk']

/-- Whether nodes are in order is up to what they read. -/
theorem inOrder_congr {reads reads' : NodeId → List NodeId} {done order : List NodeId}
    (h : Dependency.InOrder reads done order) (hreads : ∀ n ∈ order, reads' n = reads n) :
    Dependency.InOrder reads' done order := by
  induction order generalizing done with
  | nil => trivial
  | cons n rest ih =>
      refine ⟨?_, ih h.2 fun k hk => hreads k (List.mem_cons_of_mem n hk)⟩
      rw [hreads n List.mem_cons_self]
      exact h.1

/-- What rounds rely on stays true if the model and its formulas do. -/
theorem Steppable.congr (h : w.Steppable m) (hleaves : w.LeavesMatch)
    (hmodel : w'.model m = w.model m)
    (hkind : ∀ k kind, w.kind? k = some kind → w'.kind? k = some kind)
    (hformula : ∀ n ∈ (w.model m).formulaOwners, w'.formula? n = w.formula? n) :
    w'.Steppable m where
  nodup := by
    rw [hmodel]
    exact h.nodup
  inOrder := by
    rw [hmodel]
    refine inOrder_congr h.inOrder fun n hn => auxiliaryReads_congr hleaves hkind ?_
    exact hformula n (List.mem_append_right _ ((h.mem_order n).1 hn))
  mem_order := by
    rw [hmodel]
    exact h.mem_order
  formula n hn := by
    rw [hmodel] at hn
    rw [hformula n hn]
    exact h.formula n hn

/-- Whether a model can step is up to the links. -/
theorem SameLinks.steppable (h : SameLinks w w') (hw : w.WellFormed) (hm : w.Steppable m) :
    w'.Steppable m :=
  hm.congr hw.leaves (h.model m) (fun k kind hk => by rwa [h.kind]) fun n _ => h.formula n

/-- Locking finds out all that rounds rely on. -/
theorem steppable_lock (hw : w.WellFormed) {order : List NodeId} (hc : w.isChangeable m = true)
    (hvalid : w.firstProblem? (w.model m) = none)
    (horder : w.evaluationOrder (w.model m).auxiliaries = .ok order) :
    (w.updateModel m fun model => { model with order, changeable := false }).Steppable m := by
  have hmodel := model_updateModel hc (fun model => { model with order, changeable := false }) m
  rw [if_pos rfl] at hmodel
  have hkind : ∀ n ∈ (w.model m).auxiliaries, w.kind? n = some .auxiliary :=
    fun n hn => hw.members.kind m .auxiliary n hn
  obtain ⟨hnodup, hinOrder, hmem⟩ :=
    evaluationOrder_eq_ok hkind (hw.members.nodup m .auxiliary) horder
  have hlocal := (firstProblem?_eq_none_iff.1 hvalid).1
  rw [localViolations, List.append_eq_nil_iff] at hlocal
  refine ⟨?_, ?_, ?_, ?_⟩
  · rw [hmodel]
    exact hnodup
  · rw [hmodel]
    exact hinOrder
  · rw [hmodel]
    exact hmem
  · intro n hn
    rw [hmodel] at hn
    exact formulas_of_formulaViolations hlocal.2 hn

/-! ## Locked models -/

/-- A model that is updated and can still be changed. -/
theorem model_cases_of_update {k : ModelId} {f : Model → Model} (hc : w.isChangeable k = true)
    (hf : ∀ content, (f content).changeable = content.changeable) (m : ModelId) :
    (w.updateModel k f).model m = w.model m ∨ (w.updateModel k f).isChangeable m = true := by
  rw [isChangeable, model_updateModel hc]
  by_cases hm : m = k
  · rw [if_pos hm, hf]
    exact Or.inr hc
  · rw [if_neg hm]
    exact Or.inl rfl

/-- A model keeps its content, can still be changed, or is being locked. -/
theorem Effect.model_cases {op : Operation} {outcome : Outcome} (h : w.Effect op outcome w')
    (m : ModelId) :
    w'.model m = w.model m ∨ w'.isChangeable m = true ∨ op = .lock m := by
  cases h with
  | newModel name =>
      rw [isChangeable, model_addModel]
      by_cases hm : m = w.nextModel
      · rw [if_pos hm]
        exact Or.inr (Or.inl rfl)
      · rw [if_neg hm]
        exact Or.inl rfl
  | create hcreates hc =>
      rw [← or_assoc]
      exact Or.inl (model_cases_of_update (w := w.addNode _) hc
        (Model.changeable_mapMembers _ _) m)
  | renameModel hc hname =>
      rw [← or_assoc]
      refine Or.inl (model_cases_of_update hc ?_ m)
      exact fun _ => rfl
  | addFlow hc ha hb hfree => exact Or.inl ((sameUpToFlows_connect ..).model m)
  | removeFlow hc ha hb hflow => exact Or.inl ((sameUpToFlows_disconnect ..).model m)
  | removeNode hc hn hkind hunread =>
      rename_i k a n kind
      have hsame := sameUpToFlows_isolate w n
      have hc' : (w.isolate n).isChangeable k = true := by rwa [isChangeable, hsame.model]
      rw [← or_assoc, ← hsame.model]
      exact Or.inl (model_cases_of_update hc' (Model.changeable_mapMembers _ _) m)
  | lock hc hvalid horder =>
      rw [model_updateModel hc]
      split
      · rename_i hm
        exact Or.inr (Or.inr (by rw [hm]))
      · exact Or.inl rfl
  | _ => exact Or.inl rfl

/-- No formula of a locked model is set in a session that stays within models. -/
theorem Effect.formula?_eq_of_locked {op : Operation} {outcome : Outcome}
    (h : w.Effect op outcome w') (hw : w.WellFormed) (hop : w.StaysWithin op)
    (hlocked : w.isChangeable m = false) {n : NodeId} (hn : n ∈ (w.model m).nodes) :
    w'.formula? n = w.formula? n := by
  rcases h.formula?_cases n with hsame | ⟨k, a, b, rfl, hc, ha, _⟩
  · exact hsame
  · have hn' : n ∈ (w.model k).nodes := hop k rfl a List.mem_cons_self n (mem_nodes_of_node? ha)
    have howner : m = k := hw.members.owner_unique hn hn'
    rw [← howner, hlocked] at hc
    simp at hc

/-- A locked model in a session that stays within models keeps what rounds rely on. -/
theorem Effect.steppable {op : Operation} {outcome : Outcome} (h : w.Effect op outcome w')
    (hw : w.WellFormed) (hop : w.StaysWithin op)
    (hold : w.isChangeable m = false → w.Steppable m) (hlocked : w'.isChangeable m = false) :
    w'.Steppable m := by
  rcases h.model_cases m with hmodel | hchangeable | rfl
  · have hlocked' : w.isChangeable m = false := by rwa [isChangeable, ← hmodel]
    refine (hold hlocked').congr hw.leaves hmodel (fun _ _ => h.kind?_eq) fun n hn => ?_
    exact h.formula?_eq_of_locked hw hop hlocked' (Model.mem_nodes_of_mem_formulaOwners hn)
  · simp [hchangeable] at hlocked
  · cases h with
    | create hcreates hc => cases hcreates
    | lock hc hvalid horder => exact steppable_lock hw hc hvalid horder

/-- Every locked model can be stepped, as long as sessions stay within models. -/
theorem ReachableWithin.steppable (h : w.ReachableWithin) (hlocked : w.isChangeable m = false) :
    w.Steppable m := by
  induction h with
  | start => exact ⟨by simp [model, model?], trivial, by simp [model, model?], nofun⟩
  | step hreach hop ih =>
      have hw := hreach.reachable.wellFormed
      rcases step_cases hw.flows _ with hsame | ⟨outcome, heffect⟩ | ⟨k, _, hvalues⟩
      · rw [hsame] at hlocked ⊢
        exact ih hlocked
      · exact heffect.steppable hw hop ih hlocked
      · rw [hvalues.sameLinks.isChangeable] at hlocked
        exact hvalues.sameLinks.steppable hw (ih hlocked)

end World
end StockFlow
