import StockFlow.Proofs.World.FlowChanges

/-!
# Laws of adding and removing flows

Adding a flow succeeds where the rate has no endpoint or has that very one, and changes
nothing otherwise; removing a flow undoes what adding it did, down to the order of lists.
Both touch the two ends of that one flow only.

Main definitions:

- {lit}`World.HasFlow`: a flow that both its ends keep.
- {lit}`World.SameButFlow`: worlds that differ at both ends of one flow at most.
- {lit}`World.AddsFlow`, {lit}`World.RemovesFlow`: how adding and removing a flow go.

Main results:

- Theorem {lit}`World.FlowsMatch.disconnect_connect`: taking a new flow away leaves no trace.
- Theorem {lit}`World.Reachable.flow_laws`: the laws hold in every world of a session.
-/

namespace StockFlow

namespace FlowPath

/-- The kind of the endpoint along a path. -/
def endpointKind : FlowPath → NodeKind
  | .levelToRate | .rateToLevel => .level
  | .sourceSinkToRate | .rateToSourceSink => .sourceSink

/-- Where the flow between a rate and an endpoint starts. -/
def startOf (p : FlowPath) (r e : NodeId) : NodeId :=
  match p.side with
  | .source => e
  | .sink => r

/-- Where the flow between a rate and an endpoint ends. -/
def finishOf (p : FlowPath) (r e : NodeId) : NodeId :=
  match p.side with
  | .source => r
  | .sink => e

/-- A path between a rate and an endpoint has this rate. -/
theorem rateOf_startOf (p : FlowPath) (r e : NodeId) :
    p.rateOf (p.startOf r e) (p.finishOf r e) = r := by
  unfold rateOf startOf finishOf
  cases p.side <;> rfl

/-- A path between a rate and an endpoint has this endpoint. -/
theorem endpointOf_startOf (p : FlowPath) (r e : NodeId) :
    p.endpointOf (p.startOf r e) (p.finishOf r e) = e := by
  unfold endpointOf startOf finishOf
  cases p.side <;> rfl

end FlowPath

namespace Operation

/-- Adding the flow between a rate and an endpoint along a path. -/
def adding (m : ModelId) (path : FlowPath) (r e : NodeId) : Operation :=
  .addFlow m path (.node (path.startOf r e)) (.node (path.finishOf r e))

/-- Removing the flow between a rate and an endpoint along a path. -/
def removing (m : ModelId) (path : FlowPath) (r e : NodeId) : Operation :=
  .removeFlow m path (.node (path.startOf r e)) (.node (path.finishOf r e))

end Operation

namespace World

variable {w v : World} {m : ModelId} {path : FlowPath} {side : Side} {r e : NodeId}

/-- Whether a path can join two nodes: a rate and an endpoint of the path's kind. -/
def Joins (w : World) (path : FlowPath) (r e : NodeId) : Prop :=
  w.kind? r = some .rate ∧ w.kind? e = some path.endpointKind

/-- Whether both the rate and the endpoint keep a flow. -/
def HasFlow (w : World) (side : Side) (r e : NodeId) : Prop :=
  w.endpoint? side r = some e ∧ r ∈ w.ratesAt side e

instance : Decidable (w.HasFlow side r e) := inferInstanceAs (Decidable (_ ∧ _))

/-- Whether worlds differ in the endpoint of one rate and the list of one endpoint at most. -/
structure SameButFlow (side : Side) (r e : NodeId) (w v : World) : Prop where
  rest : SameUpToFlows w v
  endpoint : ∀ s x, ¬(s = side ∧ x = r) → v.endpoint? s x = w.endpoint? s x
  listed : ∀ s x, ¬(s = side ∧ x = e) → v.listedAt s x = w.listedAt s x

/-- How adding a flow goes. -/
structure AddsFlow (w : World) (m : ModelId) (path : FlowPath) (r e : NodeId) : Prop where
  result : (Action.perform (.adding m path r e)).outcome w =
    .ok (.flag (w.endpoint? path.side r = none ∨ w.endpoint? path.side r = some e))
  taken : w.endpoint? path.side r ≠ none → w.step (.adding m path r e) = w
  added : w.endpoint? path.side r = none ∨ w.endpoint? path.side r = some e →
    (w.step (.adding m path r e)).HasFlow path.side r e
  others : SameButFlow path.side r e w (w.step (.adding m path r e))
  again : (w.step (.adding m path r e)).step (.adding m path r e) = w.step (.adding m path r e)
  resultAgain : (Action.perform (.adding m path r e)).outcome (w.step (.adding m path r e)) =
    (Action.perform (.adding m path r e)).outcome w

/-- How removing a flow goes. -/
structure RemovesFlow (w : World) (m : ModelId) (path : FlowPath) (r e : NodeId) : Prop where
  result : (Action.perform (.removing m path r e)).outcome w = .ok (.flag (w.HasFlow path.side r e))
  missing : ¬w.HasFlow path.side r e → w.step (.removing m path r e) = w
  endpoint : w.HasFlow path.side r e →
    (w.step (.removing m path r e)).endpoint? path.side r = none
  listed : w.HasFlow path.side r e → (w.step (.removing m path r e)).listedAt path.side e =
    ((w.ratesAt path.side e).filter (· != r)).map .node
  others : SameButFlow path.side r e w (w.step (.removing m path r e))
  undoes : w.endpoint? path.side r = none →
    (w.step (.adding m path r e)).step (.removing m path r e) = w

theorem Joins.isEndpoint (h : w.Joins path r e) : w.isEndpoint e = true := by
  rw [World.isEndpoint, h.2]
  cases path <;> rfl

/-- A path joins nodes that pass its checks, in a changeable model. -/
theorem Joins.checkAlong (h : w.Joins path r e) (hc : w.isChangeable m = true) :
    Action.checkAlong w m path (.node (path.startOf r e)) (.node (path.finishOf r e)) =
      .ok (path.startOf r e, path.finishOf r e) := by
  have hrate : Action.fill w .rate (.node r) = .ok r := Action.fill_node h.1 rfl
  have hend : Action.fill w path.endpointRole (.node e) = .ok e :=
    Action.fill_node h.2 (by cases path <;> rfl)
  rw [Action.checkAlong_eq_ok]
  refine ⟨hc, ?_⟩
  unfold FlowPath.startRole FlowPath.finishRole FlowPath.startOf FlowPath.finishOf
  cases path.side with
  | source => exact ⟨hend, hrate⟩
  | sink => exact ⟨hrate, hend⟩

/-- Adding a flow along a path makes the change that is due, and tells whether it was. -/
theorem Joins.run_adding (h : w.Joins path r e) (hw : w.FlowsMatch)
    (hc : w.isChangeable m = true) :
    (Action.perform (.adding m path r e)).run w =
      .ok (.flag (FlowChange.adding w path.side r e).2)
        ((FlowChange.adding w path.side r e).1.apply path.side w) := by
  have hside : (Operation.adding m path r e).flowSide? = some path.side := rfl
  rw [run_flowChange hw hside, Operation.adding, flowChange, h.checkAlong hc]
  simp only [Except.map, FlowPath.rateOf_startOf, FlowPath.endpointOf_startOf]

/-- Removing a flow along a path makes the change that is due, and tells whether it was. -/
theorem Joins.run_removing (h : w.Joins path r e) (hw : w.FlowsMatch)
    (hc : w.isChangeable m = true) :
    (Action.perform (.removing m path r e)).run w =
      .ok (.flag (FlowChange.removing w path.side r e).2)
        ((FlowChange.removing w path.side r e).1.apply path.side w) := by
  have hside : (Operation.removing m path r e).flowSide? = some path.side := rfl
  rw [run_flowChange hw hside, Operation.removing, flowChange, h.checkAlong hc]
  simp only [Except.map, FlowPath.rateOf_startOf, FlowPath.endpointOf_startOf]

/-- What a path joins is not up to the flows. -/
theorem Joins.of_sameUpToFlows (h : w.Joins path r e) (hsame : SameUpToFlows w v) :
    v.Joins path r e :=
  ⟨(hsame.kind r).trans h.1, (hsame.kind e).trans h.2⟩

/-- Where flows match, a flow is there as soon as its rate says so. -/
theorem FlowsMatch.hasFlow_iff (h : w.FlowsMatch) :
    w.HasFlow side r e ↔ w.endpoint? side r = some e :=
  ⟨And.left, fun he => ⟨he, (h.endpoint_iff side r e).1 he⟩⟩

theorem SameButFlow.refl (side : Side) (r e : NodeId) (w : World) : SameButFlow side r e w w :=
  ⟨SameUnder.refl .., fun _ _ _ => rfl, fun _ _ _ => rfl⟩

/-- Making a flow changes nothing but this flow. -/
theorem FlowsMatch.sameButFlow_connect (h : w.FlowsMatch) (hr : w.kind? r = some .rate)
    (he : w.isEndpoint e = true) (hfree : w.endpoint? side r = none) :
    SameButFlow side r e w (w.connect side r e) := by
  refine ⟨sameUpToFlows_connect .., fun s x hx => ?_, fun s x hx => ?_⟩
  · rw [endpoint?_connect hr, if_neg hx]
  · rw [listedAt_connect h he]
    split
    · rename_i hs
      subst hs
      rw [if_neg fun he => hx ⟨rfl, he⟩, h.eraseKey_listedAt (by simp [hfree])]
    · rfl

/-- Cutting a flow changes nothing but this flow. -/
theorem FlowsMatch.sameButFlow_disconnect (h : w.FlowsMatch) (hflow : w.endpoint? side r = some e) :
    SameButFlow side r e w (w.disconnect side r) := by
  refine ⟨sameUpToFlows_disconnect .., fun s x hx => ?_, fun s x hx => ?_⟩
  · rw [endpoint?_disconnect, if_neg hx]
  · rw [listedAt_disconnect h]
    split
    · rename_i hs
      subst hs
      refine h.eraseKey_listedAt fun hx' => hx ⟨rfl, ?_⟩
      exact (Option.some.inj (hflow.symm.trans hx')).symm
    · rfl

/-- A flow that is taken away right after it was added leaves no trace, in no list. -/
theorem FlowsMatch.disconnect_connect (h : w.FlowsMatch) (hr : w.kind? r = some .rate)
    (he : w.isEndpoint e = true) (hfree : w.endpoint? side r = none) :
    (w.connect side r e).disconnect side r = w := by
  have hunlisted : ∀ x, r ∉ w.ratesAt side x := fun x => h.not_mem_rates (by simp [hfree])
  refine SameUpToFlows.eq_of_flows
    ((sameUpToFlows_connect w side r e).trans (sameUpToFlows_disconnect ..)) ?_ ?_
  · intro s x
    rw [endpoint?_disconnect, endpoint?_connect hr]
    by_cases hx : s = side ∧ x = r
    · rw [if_pos hx, hx.1, hx.2, hfree]
    · rw [if_neg hx, if_neg hx]
  · intro s x
    rw [listedAt_disconnect (h.connect hr he side), listedAt_connect h he, h.listed_eq]
    by_cases hs : s = side
    · subst hs
      rw [if_pos rfl, if_pos rfl]
      split
      · rw [insertKey_map_node, eraseKey_map_node, insertNode, if_neg (hunlisted x),
          List.erase_append_right _ (hunlisted x), List.erase_cons_head, List.append_nil]
      · rw [eraseKey_map_node, eraseKey_map_node, List.erase_of_not_mem (hunlisted x),
          List.erase_of_not_mem (hunlisted x)]
    · rw [if_neg hs, if_neg hs]

/-- What a path joins is joined still after it was connected, and has the flow then. -/
theorem Joins.connect (h : w.Joins path r e) (hw : w.FlowsMatch) (hc : w.isChangeable m = true) :
    (w.connect path.side r e).Joins path r e ∧ (w.connect path.side r e).FlowsMatch ∧
      (w.connect path.side r e).isChangeable m = true ∧
        (w.connect path.side r e).endpoint? path.side r = some e := by
  have hsame := sameUpToFlows_connect w path.side r e
  refine ⟨h.of_sameUpToFlows hsame, hw.connect h.1 h.isEndpoint path.side, ?_, ?_⟩
  · rwa [isChangeable, hsame.model]
  · rw [FlowsMatch.endpoint?_connect h.1, if_pos ⟨rfl, rfl⟩]

/-- Adding a flow along a path has the results and the effects of an addition. -/
theorem Joins.addsFlow (h : w.Joins path r e) (hw : w.FlowsMatch)
    (hc : w.isChangeable m = true) : w.AddsFlow m path r e := by
  have hrun := h.run_adding hw hc
  cases hend : w.endpoint? path.side r with
  | none =>
      obtain ⟨hjoins, hmatch, hchangeable, hadded⟩ := h.connect hw hc
      have hagain := hjoins.run_adding hmatch hchangeable
      simp only [FlowChange.adding, hend, hadded, FlowChange.apply, decide_true] at hrun hagain
      have hstep := step_of_ok hrun
      refine ⟨?_, fun hne => (hne hend).elim, fun _ => ?_, ?_, ?_, ?_⟩
      · rw [Action.outcome, hrun, hend]
        simp
      · rw [hstep]
        exact hmatch.hasFlow_iff.2 hadded
      · rw [hstep]
        exact hw.sameButFlow_connect h.1 h.isEndpoint hend
      · rw [hstep, step_of_ok hagain]
      · rw [hstep, Action.outcome, Action.outcome, hrun, hagain]
  | some old =>
      simp only [FlowChange.adding, hend, FlowChange.apply] at hrun
      have hstep := step_of_ok hrun
      refine ⟨?_, fun _ => hstep, fun hflow => ?_, ?_, ?_, ?_⟩
      · rw [Action.outcome, hrun, hend]
        simp
      · rw [hstep]
        exact hw.hasFlow_iff.2 (hflow.resolve_left (by simp [hend]))
      · rw [hstep]
        exact .refl ..
      · rw [hstep, hstep]
      · rw [hstep]

/-- Removing a flow along a path has the results and the effects of a removal. -/
theorem Joins.removesFlow (h : w.Joins path r e) (hw : w.FlowsMatch)
    (hc : w.isChangeable m = true) : w.RemovesFlow m path r e := by
  have hrun := h.run_removing hw hc
  have hundoes : w.endpoint? path.side r = none →
      (w.step (.adding m path r e)).step (.removing m path r e) = w := by
    intro hfree
    have hadd := h.run_adding hw hc
    obtain ⟨hjoins, hmatch, hchangeable, hadded⟩ := h.connect hw hc
    have hremove := hjoins.run_removing hmatch hchangeable
    simp only [FlowChange.adding, FlowChange.removing, hfree, hadded, if_true,
      FlowChange.apply] at hadd hremove
    rw [step_of_ok hadd, step_of_ok hremove]
    exact hw.disconnect_connect h.1 h.isEndpoint hfree
  by_cases hflow : w.endpoint? path.side r = some e
  · have hhas := hw.hasFlow_iff.2 hflow
    simp only [FlowChange.removing, hflow, if_true, FlowChange.apply] at hrun
    have hstep := step_of_ok hrun
    refine ⟨?_, fun hmissing => (hmissing hhas).elim, fun _ => ?_, fun _ => ?_, ?_, hundoes⟩
    · rw [Action.outcome, hrun]
      simp [hhas]
    · rw [hstep, FlowsMatch.endpoint?_disconnect, if_pos ⟨rfl, rfl⟩]
    · rw [hstep, hw.listedAt_disconnect, if_pos rfl, hw.listed_eq, eraseKey_map_node,
        (hw.nodup path.side e).erase_eq_filter]
    · rw [hstep]
      exact hw.sameButFlow_disconnect hflow
  · have hmissing : ¬w.HasFlow path.side r e := fun hhas => hflow (hw.hasFlow_iff.1 hhas)
    simp only [FlowChange.removing, hflow, if_false, FlowChange.apply] at hrun
    have hstep := step_of_ok hrun
    refine ⟨?_, fun _ => hstep, fun hhas => (hmissing hhas).elim,
      fun hhas => (hmissing hhas).elim, ?_, hundoes⟩
    · rw [Action.outcome, hrun]
      simp [hmissing]
    · rw [hstep]
      exact .refl ..

/--
The laws of adding and removing flows in every world that a session led to, on every model
that is not locked: for each rate and each endpoint that a path can join, whoever owns them,
and for any two operations at different sides, whatever they are handed.
-/
theorem Reachable.flow_laws (h : w.Reachable) (hc : w.isChangeable m = true) :
    (∀ path r e, w.Joins path r e → w.AddsFlow m path r e ∧ w.RemovesFlow m path r e) ∧
      ∀ op op', op.flowSide? = some .source → op'.flowSide? = some .sink → w.Commute op op' := by
  have hw := h.wellFormed.flows
  refine ⟨fun path r e hjoins => ?_, fun op op' hop hop' => ?_⟩
  · exact ⟨hjoins.addsFlow hw hc, hjoins.removesFlow hw hc⟩
  · exact hw.commute hop hop' (by decide)

/-- A tank from which a pump leads to a pond; a second rate has no ends yet. -/
def pumpSession : List Operation :=
  let m : ModelId := ⟨0⟩
  [.newModel (.text "Ponds"), .createLevel m (.text "Tank") (.integer 8),
    .createLevel m (.text "Pond") (.integer 1), .createRate m (.text "Pump"),
    .createRate m (.text "Leak"), .adding m .levelToRate ⟨2⟩ ⟨0⟩, .adding m .rateToLevel ⟨2⟩ ⟨1⟩]

/-- A second rate from the tank comes and goes; in the meantime the pump may lose the pond. -/
theorem flow_laws_pump :
    let w := World.run {} pumpSession
    let add : Operation := .adding ⟨0⟩ .levelToRate ⟨3⟩ ⟨0⟩
    (w.step add).ratesAt .source ⟨0⟩ = [⟨2⟩, ⟨3⟩] ∧
      (w.step add).step (.removing ⟨0⟩ .levelToRate ⟨3⟩ ⟨0⟩) = w ∧
        w.Commute add (.removing ⟨0⟩ .rateToLevel ⟨2⟩ ⟨1⟩) := by
  have hreach : (World.run {} pumpSession).Reachable := ⟨pumpSession, rfl⟩
  have hlaws := hreach.flow_laws (m := ⟨0⟩) (by decide +kernel)
  have hjoins : (World.run {} pumpSession).Joins .levelToRate ⟨3⟩ ⟨0⟩ := by
    constructor <;> decide +kernel
  refine ⟨by decide +kernel, ?_, hlaws.2 _ _ rfl rfl⟩
  exact (hlaws.1 .levelToRate ⟨3⟩ ⟨0⟩ hjoins).2.undoes (by decide +kernel)

end World
end StockFlow
