import StockFlow.Proofs.World.Lifecycle

/-!
# Locked models and operations on other models

Whether an operation may change anything is decided by the lock of the model that it is
called on, and not by those of the models whose nodes it is handed.  So the nodes of a
locked model are safe from an operation on another model only where that one leaves them
out: it writes the node that it is handed, both ends of the flow that it is handed, and
what shared a flow with the node that it removes.  Everything else about a locked model
stays, and so do its rounds, until a formula of it is taken away in this manner.

Main definitions:

- {lit}`World.footprint`: the nodes that an operation other than a round may write.
- {lit}`World.Meddles`, {lit}`World.TakesFormula`: what other models can do to a locked one.

Main results:

- Theorem {lit}`World.Effect.node?_eq`: what lies outside the footprint of an operation stays.
- Theorem {lit}`World.Reachable.isolated_since_lock`: what is left of a lock after any session.
-/

namespace StockFlow

/-- Both ends of a step along a path are among the two nodes of the path. -/
theorem FlowPath.ends_ne {path : FlowPath} {a b n : NodeId} (ha : a ≠ n) (hb : b ≠ n) :
    path.rateOf a b ≠ n ∧ path.endpointOf a b ≠ n := by
  unfold rateOf endpointOf
  cases path.side with
  | source => exact ⟨hb, ha⟩
  | sink => exact ⟨ha, hb⟩

theorem Action.eq_absent_of_formulaOf {w : World} {a : Argument} (h : formulaOf w a = .ok none) :
    a = .absent := by
  unfold formulaOf at h
  split at h
  · rfl
  · split at h <;> cases h
  · rename_i op l r
    cases hformula : Argument.formula w "clone" (.apply op l r) with
    | error e => simp [hformula, Except.map] at h
    | ok f => simp [hformula, Except.map] at h

namespace World

variable {w w' w₀ : World} {m : ModelId} {n : NodeId}

/-! ## Footprints -/

/-- The other ends of a node's flows. -/
def flowPartners (w : World) (n : NodeId) : List NodeId :=
  [Side.source, Side.sink].flatMap fun side => (w.endpoint? side n).toList ++ w.ratesAt side n

/--
The nodes that an operation other than a round may write: the one that it is handed, both
that it is handed for a flow, or both ends of each flow of a node that it removes.
-/
def footprint (w : World) : Operation → List NodeId
  | .setNodeName _ a _ | .setStartValue _ a _ | .setConstantValue _ a _ | .setFormula _ a _ =>
      a.node?.toList
  | .addFlow _ _ a b | .removeFlow _ _ a b => a.node?.toList ++ b.node?.toList
  | .removeNode _ a =>
      a.node?.toList.flatMap fun n => (w.flowPartners n).flatMap fun k => [n, k]
  | _ => []

theorem mem_flowPartners {k : NodeId} : k ∈ w.flowPartners n ↔
    ∃ side, w.endpoint? side n = some k ∨ k ∈ w.ratesAt side n := by
  simp only [flowPartners, List.mem_flatMap, List.mem_append, Option.mem_toList]
  constructor
  · rintro ⟨side, _, hk⟩
    exact ⟨side, hk⟩
  · rintro ⟨side, hk⟩
    refine ⟨side, ?_, hk⟩
    cases side <;> simp

/-- A node outside the footprint of a removal is at no end of a flow of the removed node. -/
theorem ne_of_not_mem_footprint {a : Argument} {k x : NodeId} (ha : a.node? = some k)
    (hn : n ∉ w.footprint (.removeNode m a)) (hx : x ∈ w.flowPartners k) : k ≠ n ∧ x ≠ n := by
  simp only [footprint, ha, Option.toList_some, List.flatMap_cons, List.flatMap_nil,
    List.append_nil, List.mem_flatMap, not_exists, not_and] at hn
  have hout := hn x hx
  simp only [List.mem_cons, List.not_mem_nil, or_false, not_or] at hout
  exact ⟨Ne.symm hout.1, Ne.symm hout.2⟩

/-! ### Flows -/

/-- Connecting a rate that had no endpoint writes both ends of the new flow only. -/
theorem node?_connect {side : Side} {r e : NodeId} (hfree : w.endpoint? side r = none)
    (hr : r ≠ n) (he : e ≠ n) : (w.connect side r e).node? n = w.node? n := by
  rw [connect, detachFromOther, hfree, noteEndpoint, node?_updateNode_of_ne _ hr, attach,
    node?_updateNode_of_ne _ he]

/-- Disconnecting a rate writes both ends of the flow that it had only. -/
theorem node?_disconnect {side : Side} {r : NodeId}
    (hends : ∀ e, w.endpoint? side r = some e → r ≠ n ∧ e ≠ n) :
    (w.disconnect side r).node? n = w.node? n := by
  cases hflow : w.endpoint? side r with
  | none => rw [Action.disconnect_eq_self hflow]
  | some e =>
      rcases hends e hflow with ⟨hr, he⟩
      rw [disconnect, hflow]
      simp only
      rw [noteEndpoint, node?_updateNode_of_ne _ hr, detach, node?_updateNode_of_ne _ he]

theorem node?_disconnectAll {side : Side} {rs : List NodeId}
    (hends : ∀ r ∈ rs, ∀ e, w.endpoint? side r = some e → r ≠ n ∧ e ≠ n) :
    (rs.foldl (fun w r => w.disconnect side r) w).node? n = w.node? n := by
  induction rs generalizing w with
  | nil => rfl
  | cons r rest ih =>
      rw [List.foldl_cons, ih, node?_disconnect (hends r List.mem_cons_self)]
      intro k hk e he
      exact hends k (List.mem_cons_of_mem r hk) e (endpoint?_of_disconnect he).1

/-- Taking all flows of an endpoint at a side away writes the ends of these flows only. -/
theorem FlowsMatch.node?_sever (h : w.FlowsMatch) {side : Side} {e : NodeId}
    (hends : ∀ r ∈ w.ratesAt side e, e ≠ n ∧ r ≠ n) : (w.sever side e).node? n = w.node? n := by
  refine node?_disconnectAll fun r hr x hx => ?_
  have hflow := (h.endpoint_iff side r e).2 hr
  rw [hx] at hflow
  obtain rfl := Option.some.inj hflow
  exact (hends r hr).symm

/-- Taking all flows of a node away writes the ends of these flows only. -/
theorem FlowsMatch.node?_isolate (h : w.FlowsMatch) {k : NodeId}
    (hends : ∀ x ∈ w.flowPartners k, k ≠ n ∧ x ≠ n) : (w.isolate k).node? n = w.node? n := by
  have hrate : ((w.disconnect .source k).disconnect .sink k).node? n = w.node? n := by
    rw [node?_disconnect, node?_disconnect]
    · exact fun e he => hends e (mem_flowPartners.2 ⟨.source, Or.inl he⟩)
    · intro e he
      exact hends e (mem_flowPartners.2 ⟨.sink, Or.inl (endpoint?_of_disconnect he).1⟩)
  have hendpoint : ((w.sever .sink k).sever .source k).node? n = w.node? n := by
    rw [(h.sever .sink k).node?_sever, h.node?_sever]
    · exact fun r hr => hends r (mem_flowPartners.2 ⟨.sink, Or.inr hr⟩)
    · intro r hr
      rw [h.ratesAt_sever, if_neg (by simp)] at hr
      exact hends r (mem_flowPartners.2 ⟨.source, Or.inr hr⟩)
  unfold World.isolate
  split
  · exact hrate
  · exact hendpoint
  · exact hendpoint
  · rfl

/-! ### Operations -/

theorem ne_of_not_mem_toList {a : Argument} {k : NodeId} (ha : a.node? = some k)
    (hn : n ∉ a.node?.toList) : k ≠ n := by
  rintro rfl
  exact hn (Option.mem_toList.2 ha)

/-- The ends of a flow that was handed over lie in the footprint. -/
theorem ends_ne_of_not_mem {path : FlowPath} {start finish : Argument} {a b : NodeId}
    (ha : Action.fill w path.startRole start = .ok a)
    (hb : Action.fill w path.finishRole finish = .ok b)
    (hn : n ∉ start.node?.toList ++ finish.node?.toList) :
    path.rateOf a b ≠ n ∧ path.endpointOf a b ≠ n := by
  rw [List.mem_append, not_or] at hn
  exact FlowPath.ends_ne (ne_of_not_mem_toList (Action.node?_of_fill ha).1 hn.1)
    (ne_of_not_mem_toList (Action.node?_of_fill hb).1 hn.2)

/-- Outside the footprint of an operation every node that there is stays as it is. -/
theorem Effect.node?_eq {op : Operation} {outcome : Outcome} (h : w.Effect op outcome w')
    (hw : w.FlowsMatch) (hold : n ≠ w.nextNode) (hn : n ∉ w.footprint op) :
    w'.node? n = w.node? n := by
  cases h with
  | create hcreates hc => rw [node?_withNew, if_neg hold]
  | rename hc ha hkind hname => exact node?_updateNode_of_ne w (ne_of_not_mem_toList ha hn) _
  | setStart hc ha hx =>
      exact node?_updateNode_of_ne w (ne_of_not_mem_toList (Action.node?_of_fill ha).1 hn) _
  | setValue hc ha hx =>
      exact node?_updateNode_of_ne w (ne_of_not_mem_toList (Action.node?_of_fill ha).1 hn) _
  | setFormula hc ha hf =>
      exact node?_updateNode_of_ne w (ne_of_not_mem_toList (Action.node?_of_fill ha).1 hn) _
  | addFlow hc ha hb hfree =>
      rcases ends_ne_of_not_mem ha hb hn with ⟨hr, he⟩
      exact node?_connect hfree hr he
  | removeFlow hc ha hb hflow =>
      refine node?_disconnect fun e he => ?_
      rw [hflow] at he
      obtain rfl := Option.some.inj he
      exact ends_ne_of_not_mem ha hb hn
  | removeNode hc ha hkind hunread =>
      rw [node?_updateModel]
      exact hw.node?_isolate fun x hx => ne_of_not_mem_footprint ha hn hx
  | _ => rfl

/-- Only operations on models that can be changed write nodes. -/
theorem Effect.isChangeable_of_footprint {op : Operation} {outcome : Outcome}
    (h : w.Effect op outcome w') (hn : n ∈ w.footprint op) :
    ∃ k ∈ op.model?, w.isChangeable k = true := by
  cases h with
  | newModel name => cases hn
  | validate hvalid => cases hn
  | create hcreates hc => cases hcreates <;> cases hn
  | renameModel hc hname => exact ⟨_, rfl, hc⟩
  | rename hc ha hkind hname => exact ⟨_, rfl, hc⟩
  | setStart hc ha hx => exact ⟨_, rfl, hc⟩
  | setValue hc ha hx => exact ⟨_, rfl, hc⟩
  | setFormula hc ha hf => exact ⟨_, rfl, hc⟩
  | addFlow hc ha hb hfree => exact ⟨_, rfl, hc⟩
  | keepFlow hc ha hb hold => exact ⟨_, rfl, hc⟩
  | removeFlow hc ha hb hflow => exact ⟨_, rfl, hc⟩
  | keepUnconnected hc ha hb hflow => exact ⟨_, rfl, hc⟩
  | removeNode hc ha hkind hunread => exact ⟨_, rfl, hc⟩
  | lock hc hvalid horder => cases hn

/-! ## What other models can do -/

/-- Whether an operation on another model, which can be changed, may write a node. -/
def Meddles (m : ModelId) (n : NodeId) (w : World) (op : Operation) : Prop :=
  (∃ k ∈ op.model?, k ≠ m ∧ w.isChangeable k = true) ∧ n ∈ w.footprint op

/-- Whether an operation on another model, which can be changed, takes a node's formula away. -/
def TakesFormula (m : ModelId) (n : NodeId) (w : World) (op : Operation) : Prop :=
  ∃ k a, op = .setFormula k a .absent ∧ k ≠ m ∧ w.isChangeable k = true ∧ a.node? = some n

theorem ne_nextNode_of_mem_nodes (h : w.MembersMatch) (hn : n ∈ (w.model m).nodes) :
    n ≠ w.nextNode := by
  rcases Model.mem_nodes.1 hn with ⟨kind, hmem⟩
  rintro rfl
  exact h.nextNode_not_mem m kind hmem

/-- A node of a locked model stays as it is, but for a round of its model and for meddling. -/
theorem Reachable.node?_step (h : w.Reachable) (hlocked : w.isChangeable m = false)
    (hn : n ∈ (w.model m).nodes) {op : Operation} (hop : op ≠ .computeRound m) :
    Meddles m n w op ∨ (w.step op).node? n = w.node? n := by
  rcases step_cases h.wellFormed.flows op with hsame | ⟨outcome, heffect⟩ | ⟨k, rfl, hvalues⟩
  · exact Or.inr (by rw [hsame])
  · by_cases hfoot : n ∈ w.footprint op
    · rcases heffect.isChangeable_of_footprint hfoot with ⟨k, hk, hc⟩
      refine Or.inl ⟨⟨k, hk, ?_, hc⟩, hfoot⟩
      rintro rfl
      rw [hlocked] at hc
      cases hc
    · have hold := ne_nextNode_of_mem_nodes h.wellFormed.members hn
      exact Or.inr (heffect.node?_eq h.wellFormed.flows hold hfoot)
  · refine Or.inr (hvalues.node?_eq (h.valueOf_step_computeRound ?_ hn))
    rintro rfl
    exact hop rfl

/-- A formula of a locked model stays, unless it is taken away through another model. -/
theorem Reachable.exists_formula?_step (h : w.Reachable) (hlocked : w.isChangeable m = false)
    (hformula : ∃ f, w.formula? n = some f) (op : Operation) :
    TakesFormula m n w op ∨ ∃ f, (w.step op).formula? n = some f := by
  rcases step_cases h.wellFormed.flows op with hsame | ⟨outcome, heffect⟩ | ⟨_, _, hvalues⟩
  · exact Or.inr (by rwa [hsame])
  · rcases heffect.formula?_cases n with hsame | ⟨k, a, b, hop, hc, ha, hset⟩
    · exact Or.inr (by rwa [hsame])
    · cases hf : (w.step op).formula? n with
      | some f => exact Or.inr ⟨f, rfl⟩
      | none =>
          rw [hf] at hset
          obtain rfl := Action.eq_absent_of_formulaOf hset
          refine Or.inl ⟨k, a, hop, ?_, hc, ha⟩
          rintro rfl
          rw [hlocked] at hc
          cases hc
  · exact Or.inr (by rwa [hvalues.sameLinks.formula])

/-! ## Sessions -/

/-- What holds of a locked model holds after a session too, unless some operation ends that. -/
theorem Reachable.holds_or_occurs_of_locked {P : World → Operation → Prop} {Q : World → Prop}
    {content : Model} (hlocked : content.changeable = false)
    (hstep : ∀ v op, v.Reachable → v.model? m = some content → Q v → P v op ∨ Q (v.step op))
    (h : w.Reachable) (hm : w.model? m = some content) (hold : Q w) (ops : List Operation) :
    Occurs P w ops ∨ Q (w.run ops) := by
  have hrun := h.holds_or_occurs (P := P) (Q := fun v => v.model? m = some content ∧ Q v) ?_
    ⟨hm, hold⟩ ops
  · exact hrun.imp_right And.right
  rintro v op hv ⟨hmodel, hkeep⟩
  refine (hstep v op hv hmodel hkeep).imp_right fun hnext => ⟨?_, hnext⟩
  exact model?_run_of_locked hv.wellFormed [op] hmodel hlocked

/-- But for current values, a node of a locked model is as it was, unless it was meddled with. -/
theorem Reachable.still_run (h : w.Reachable) {content : Model} (hm : w.model? m = some content)
    (hlocked : content.changeable = false) (hn : n ∈ content.nodes) (ops : List Operation) :
    Occurs (Meddles m n) w ops ∨
      ((w.run ops).node? n).map Node.still = (w.node? n).map Node.still := by
  refine h.holds_or_occurs_of_locked
    (Q := fun v => (v.node? n).map Node.still = (w.node? n).map Node.still)
    hlocked (fun v op hv hmodel hkeep => ?_) hm rfl ops
  rw [← model_of_model? hmodel] at hn hlocked
  by_cases hop : op = .computeRound m
  · rw [hop]
    exact Or.inr (((step_computeRound m).node n).trans hkeep)
  · refine (hv.node?_step hlocked hn hop).imp_right fun hsame => ?_
    rw [hsame, hkeep]

/-- A round of a locked model needs a formula of each node that it computes, and no more. -/
theorem Reachable.computeRound_ok_iff (h : w.Reachable) (hlocked : w.isChangeable m = false) :
    (∃ w', (Action.computeRound m).run w = .ok () w') ↔
      ∀ n ∈ (w.model m).formulaOwners, ∃ f, w.formula? n = some f := by
  have horder := h.ordersMatch m hlocked
  rw [h.wellFormed.computeRound_ok_iff]
  constructor
  · intro hrunnable n hn
    rcases List.mem_append.1 hn with hrate | hauxiliary
    · exact hrunnable.rates n hrate
    · exact hrunnable.order n ((horder n).2 hauxiliary)
  · intro hformula
    refine ⟨hlocked, fun n hn => ?_, fun n hn => ?_⟩
    · exact hformula n (List.mem_append_right _ ((horder n).1 hn))
    · exact hformula n (List.mem_append_left _ hn)

/-- What has a formula in a locked model has one after a session, unless this one took it away. -/
theorem Reachable.exists_formula?_run (h : w.Reachable) {content : Model}
    (hm : w.model? m = some content) (hlocked : content.changeable = false)
    (hformula : ∃ f, w.formula? n = some f) (ops : List Operation) :
    Occurs (TakesFormula m n) w ops ∨ ∃ f, (w.run ops).formula? n = some f := by
  refine h.holds_or_occurs_of_locked (Q := fun v => ∃ f, v.formula? n = some f) hlocked
    (fun v op hv hmodel hf => ?_) hm hformula ops
  rw [← model_of_model? hmodel] at hlocked
  exact hv.exists_formula?_step hlocked hf op

/--
What is left of a lock after any session.  A node of the model is as it was but for its
current value, unless an operation on another model that could be changed was handed it,
or removed what it shared a flow with; and the same is true of every operation to come,
which keeps the current value too if it is no round of the model.  A round succeeds,
unless another model was used to take a formula away.
-/
theorem Reachable.isolated_since_lock (h : w₀.Reachable)
    (hrun : (Action.lock m).run w₀ = .ok () w) (ops : List Operation) :
    (∀ n ∈ (w.model m).nodes,
      (Occurs (Meddles m n) w ops ∨
        ((w.run ops).node? n).map Node.still = (w.node? n).map Node.still) ∧
      ∀ op, op ≠ .computeRound m → Meddles m n (w.run ops) op ∨
        ((w.run ops).step op).node? n = (w.run ops).node? n) ∧
    ((∃ w', (Action.computeRound m).run (w.run ops) = .ok () w') ∨
      ∃ n ∈ (w.model m).formulaOwners, (w.run ops).formula? n = none ∧
        Occurs (TakesFormula m n) w ops) := by
  obtain ⟨hw, hsteppable, content, hm, hlocked⟩ := h.wellFormed.lock_ok hrun
  have hreach : w.Reachable := by
    rw [← step_lock hrun]
    exact h.step _
  have hsame := model_run_of_locked hw ops hm hlocked
  have hlocked' := hw.isChangeable_run_of_locked hm hlocked ops
  refine ⟨fun n hn => ⟨?_, fun op hop => ?_⟩, ?_⟩
  · rw [model_of_model? hm] at hn
    exact hreach.still_run hm hlocked hn ops
  · exact (hreach.run ops).node?_step hlocked' (by rwa [hsame]) hop
  · rw [(hreach.run ops).computeRound_ok_iff hlocked', hsame]
    by_cases hmissing : ∃ n ∈ (w.model m).formulaOwners, (w.run ops).formula? n = none
    · rcases hmissing with ⟨n, hn, hnone⟩
      refine Or.inr ⟨n, hn, hnone, ?_⟩
      refine (hreach.exists_formula?_run hm hlocked (hsteppable.formula n hn) ops).resolve_right ?_
      simp [hnone]
    · refine Or.inl fun n hn => ?_
      rw [← Option.ne_none_iff_exists']
      exact fun hnone => hmissing ⟨n, hn, hnone⟩

/-- Another model renames the level of a locked tank and takes the formula of its rate away. -/
def meddlingSession : List Operation :=
  let other : ModelId := ⟨1⟩
  [.newModel (.text "Other"), .setNodeName other (.node ⟨0⟩) (.text "Pond"),
    .setFormula other (.node ⟨5⟩) .absent]

/-- The tank right after it was locked. -/
def lockedTank : World := (World.run {} (tankSession.take 12)).step (.lock ⟨0⟩)

theorem run_lock_tank : (Action.lock ⟨0⟩).run (World.run {} (tankSession.take 12)) =
    .ok () lockedTank :=
  (wellFormed_empty.run (tankSession.take 12)).run_lock_of_locked (by decide +kernel)
    (by decide +kernel)

/-- Without a formula of its rate, the tank has no rounds. -/
theorem not_computeRound_meddled :
    ¬ ∃ w', (Action.computeRound ⟨0⟩).run (lockedTank.run meddlingSession) = .ok () w' := by
  have hreach : (lockedTank.run meddlingSession).Reachable :=
    (Reachable.step ⟨_, rfl⟩ _).run meddlingSession
  have hmissing : (lockedTank.run meddlingSession).formula? ⟨5⟩ = none := by decide +kernel
  rw [hreach.computeRound_ok_iff (by decide +kernel)]
  intro hformula
  obtain ⟨f, hf⟩ := hformula ⟨5⟩ (by decide +kernel)
  rw [hmissing] at hf
  cases hf

theorem isolated_since_lock_tank :
    (∃ n ∈ (lockedTank.model ⟨0⟩).formulaOwners,
      Occurs (TakesFormula ⟨0⟩ n) lockedTank meddlingSession) ∧
      ((lockedTank.run meddlingSession).step
        (.setNodeName ⟨1⟩ (.node ⟨0⟩) (.text "Sea"))).node? ⟨2⟩ =
          (lockedTank.run meddlingSession).node? ⟨2⟩ := by
  obtain ⟨hnodes, hround⟩ := Reachable.isolated_since_lock ⟨_, rfl⟩ run_lock_tank meddlingSession
  rcases hround.resolve_left not_computeRound_meddled with ⟨n, hn, _, htaken⟩
  refine ⟨⟨n, hn, htaken⟩, ((hnodes ⟨2⟩ (by decide +kernel)).2 _ (by simp)).resolve_left ?_⟩
  rintro ⟨_, hfoot⟩
  revert hfoot
  decide +kernel

/--
A locked model's node can be renamed through another model, and after its formula was
taken away in the same manner there are no rounds of the locked model any more.
-/
theorem not_isolated_meddled :
    lockedTank.isChangeable ⟨0⟩ = false ∧ ⟨0⟩ ∈ (lockedTank.model ⟨0⟩).nodes ∧
      (lockedTank.run (meddlingSession.take 1)).isChangeable ⟨1⟩ = true ∧
      (lockedTank.run (meddlingSession.take 2)).nameOf ⟨0⟩ ≠
        (lockedTank.run (meddlingSession.take 1)).nameOf ⟨0⟩ ∧
      ¬ ∃ w', (Action.computeRound ⟨0⟩).run (lockedTank.run meddlingSession) = .ok () w' :=
  ⟨by decide +kernel, by decide +kernel, by decide +kernel, by decide +kernel,
    not_computeRound_meddled⟩

end World
end StockFlow
