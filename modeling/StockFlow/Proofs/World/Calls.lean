import StockFlow.Proofs.World.Faults
import StockFlow.Proofs.World.Integrity
import StockFlow.World.Wiring

/-!
# Flows through any calls

Callers can connect and disconnect single rates below the operations of models, in
any world and whoever owns the nodes.  A connected rate leaves the endpoint that it
had, so this keeps both halves of every flow together as operations do.

Main definitions:

- {lit}`Call`, {lit}`World.afterCalls`: operations and wirings in one session.
- {lit}`World.FlowsAgree`: what callers see of matching halves.

Main results:

- Theorem {lit}`Action.commits_wire`: everything that a wiring can do.
- Theorem {lit}`World.FlowsMatch.afterCall`: every call keeps both halves of flows together.
- Theorem {lit}`World.flowsAgree_afterCalls`: both halves agree after any calls, and no call
  finds a flow inconsistent.
-/

namespace StockFlow

/-- What callers can do: an operation of a model, or wiring one side of a rate. -/
inductive Call where
  | operation (op : Operation)
  | wiring (change : Wiring)

namespace Action

/-- A call as an action. -/
def call : Call → Action Outcome
  | .operation op => perform op
  | .wiring change => (fun _ => Outcome.done) <$> wire change

end Action

namespace World

/-- The world after a call, whether it failed or not. -/
def afterCall (w : World) (c : Call) : World := (Action.call c).worldAfter w

/-- The world after several calls. -/
def afterCalls (w : World) (calls : List Call) : World := calls.foldl afterCall w

end World

namespace Action

variable {w : World}

/-! ## Wirings -/

/-- An argument that is taken as an endpoint is one. -/
theorem isEndpoint_of_endpointOf {side : Side} {a : Argument} {n : NodeId}
    (h : endpointOf w side a = .ok n) : w.isEndpoint n = true := by
  unfold endpointOf at h
  split at h
  · simp at h
  · split at h
    · split at h
      · rename_i hendpoint
        obtain rfl := Except.ok.inj h
        exact hendpoint
      · simp at h
    · simp at h

/-- A wiring fails without a trace, connects a rate with an endpoint, or disconnects a rate. -/
theorem commits_wire (change : Wiring) :
    Commits (wire change) w fun _ w' =>
      (∃ side r e, w.kind? r = some .rate ∧ w.isEndpoint e = true ∧ w' = w.connect side r e) ∨
        ∃ side r, w' = w.disconnect side r := by
  cases change with
  | connect side rate endpoint =>
      refine commits_get (commits_ofExcept fun r hr => commits_ofExcept fun e he => ?_)
      rcases node?_of_withMember hr with ⟨_, kind, hkind, hallowed⟩
      rw [eq_of_beq hallowed] at hkind
      exact commits_of_run rfl (Or.inl ⟨side, r, e, hkind, isEndpoint_of_endpointOf he, rfl⟩)
  | disconnect side rate =>
      refine commits_get (commits_ofExcept fun r hr => ?_)
      exact commits_of_run rfl (Or.inr ⟨side, r, rfl⟩)

/-- An argument that is no endpoint is another fault. -/
theorem endpointOf_ne_inconsistent {side : Side} {a : Argument} :
    endpointOf w side a ≠ .error .inconsistentFlow := by
  unfold endpointOf
  split
  · simp
  · split
    · split <;> simp
    · simp

theorem avoids_wire (change : Wiring) : Avoids .inconsistentFlow (wire change) w := by
  cases change with
  | connect side rate endpoint =>
      refine avoids_get (avoids_check withMember_ne_inconsistent fun r _ => ?_)
      exact avoids_check endpointOf_ne_inconsistent fun e _ => avoids_of_ok rfl
  | disconnect side rate =>
      exact avoids_get (avoids_check withMember_ne_inconsistent fun r _ => avoids_of_ok rfl)

/-- Where both halves of every flow match, no call finds a flow inconsistent. -/
theorem call_avoids (h : w.FlowsMatch) (c : Call) : Avoids .inconsistentFlow (call c) w := by
  cases c with
  | operation op => exact perform_avoids h op
  | wiring change => exact avoids_map (avoids_wire change) _

end Action

namespace World

variable {w : World}

/-! ## Sessions of calls -/

/-- Both halves of all flows match after any operation. -/
theorem FlowsMatch.step (h : w.FlowsMatch) (op : Operation) : (w.step op).FlowsMatch := by
  rcases step_cases h op with hsame | ⟨outcome, heffect⟩ | ⟨m, _, hvalues⟩
  · rwa [hsame]
  · exact heffect.flowsMatch h
  · exact hvalues.sameLinks.flowsMatch h

/-- Every call keeps both halves of flows together. -/
theorem FlowsMatch.afterCall (h : w.FlowsMatch) (c : Call) : (w.afterCall c).FlowsMatch := by
  cases c with
  | operation op => exact h.step op
  | wiring change =>
      rw [World.afterCall, Action.call, Action.worldAfter, Action.run_map]
      rcases Action.commits_wire change with ⟨e, hrun⟩ | ⟨u, w', hrun, hwired⟩
      · rw [hrun]
        exact h
      · rw [hrun]
        rcases hwired with ⟨side, r, e, hr, he, rfl⟩ | ⟨side, r, rfl⟩
        · exact h.connect hr he side
        · exact h.disconnect side r

/-- Both halves of all flows match after any calls. -/
theorem FlowsMatch.afterCalls (h : w.FlowsMatch) (calls : List Call) :
    (w.afterCalls calls).FlowsMatch := by
  induction calls generalizing w with
  | nil => exact h
  | cons c rest ih => exact ih (h.afterCall c)

/--
What callers see of matching halves: a node is the source or sink of a rate if and
only if it lists the rate at that side, and rates are listed nowhere else.
-/
structure FlowsAgree (w : World) : Prop where
  endpoint_iff : ∀ side r e, w.endpoint? side r = some e ↔ .node r ∈ w.listedAt side e
  listed_rate : ∀ side e, ∀ k ∈ w.listedAt side e, ∃ r, k = .node r ∧ w.kind? r = some .rate
  nodup : ∀ side e, (w.listedAt side e).Nodup
  listed_once : ∀ side r e e', .node r ∈ w.listedAt side e → .node r ∈ w.listedAt side e' → e = e'

/-- Flows that match agree, and no list has a rate twice. -/
theorem FlowsMatch.flowsAgree (h : w.FlowsMatch) : w.FlowsAgree := by
  have hmem : ∀ side r e, w.endpoint? side r = some e ↔ .node r ∈ w.listedAt side e := by
    intro side r e
    rw [h.mem_listedAt_iff]
    exact ⟨fun hr => ⟨r, rfl, hr⟩, fun ⟨_, heq, hr⟩ => Entity.node.inj heq ▸ hr⟩
  refine ⟨hmem, fun side e k hk => ?_, fun side e => ?_, fun side r e e' he he' => ?_⟩
  · rcases h.mem_listedAt_iff.1 hk with ⟨r, rfl, hr⟩
    exact ⟨r, rfl, kind?_of_endpoint? hr⟩
  · rw [h.listed_eq, List.Nodup, List.pairwise_map]
    exact (h.nodup side e).imp fun hne heq => hne (Entity.node.inj heq)
  · have hflow := (hmem side r e).2 he
    rw [(hmem side r e').2 he'] at hflow
    exact (Option.some.inj hflow).symm

/--
After any operations on any models and any wirings, both halves of every flow agree,
and no further call fails because it finds a flow at one of its halves only.
-/
theorem flowsAgree_afterCalls (calls : List Call) :
    (World.afterCalls {} calls).FlowsAgree ∧
      ∀ c w', (Action.call c).run (World.afterCalls {} calls) ≠ .error .inconsistentFlow w' := by
  have hflows := wellFormed_empty.flows.afterCalls calls
  exact ⟨hflows.flowsAgree, fun c => Action.call_avoids hflows c⟩

end World
end StockFlow
