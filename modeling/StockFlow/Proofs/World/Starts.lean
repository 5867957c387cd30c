import StockFlow.Proofs.World.Locked
import StockFlow.Proofs.World.Ownership

/-!
# Models at their start

A level starts with its start value, and whatever is computed from a formula starts
with zero.  No operation but a round changes this, and rounds need a locked model,
so that every model is at its start when it is locked.

Main definitions:

- {lit}`World.AtStart`: a model has the values that it starts with.

Main results:

- Theorem {lit}`World.Effect.isAtStart`: operations leave nodes at their start.
- Theorem {lit}`World.Reachable.atStart`: models that can be changed are at their start.
- Theorem {lit}`World.Reachable.atStart_lock`: so are models that were just locked.
-/

namespace StockFlow

namespace Node

/-- The start value of a level. -/
def start? : Node → Option Float
  | .level l => some l.start
  | _ => none

/-- Whether a node has the current value that it starts with. -/
def isAtStart : Node → Bool
  | .level l => l.current = l.start
  | .rate r => r.current = 0.0
  | .auxiliary a => a.current = 0.0
  | _ => true

/-- Whether a level is at its start is not up to its flows. -/
@[simp] theorem isAtStart_unlinked (node : Node) : node.unlinked.isAtStart = node.isAtStart := by
  cases node <;> rfl

@[simp] theorem isAtStart_rename (name : String) (node : Node) :
    (node.rename name).isAtStart = node.isAtStart := by
  cases node <;> rfl

@[simp] theorem isAtStart_setFormula (f : Option (Formula NodeId)) (node : Node) :
    (node.setFormula f).isAtStart = node.isAtStart := by
  cases node <;> rfl

@[simp] theorem isAtStart_setValue (x : Float) (node : Node) :
    (node.setValue x).isAtStart = node.isAtStart := by
  cases node <;> rfl

/-- A new start value is taken as the current value at once. -/
theorem isAtStart_setStart (x : Float) {node : Node} (h : node.isAtStart = true) :
    (node.setStart x).isAtStart = true := by
  cases node with
  | level l => exact decide_eq_true rfl
  | _ => exact h

/-- Nodes that differ in nothing but current values are the same if these are too. -/
theorem eq_of_still {a b : Node} (hstill : a.still = b.still)
    (hcurrent : a.current?.getD 0.0 = b.current?.getD 0.0) : a = b := by
  cases a <;> cases b <;> simp_all [still, setCurrent, current?]
  · rename_i l l'
    cases l
    cases l'
    simp_all
  · rename_i r r'
    cases r
    cases r'
    simp_all
  · rename_i x x'
    cases x
    cases x'
    simp_all

end Node

/-- A level is created at its start. -/
theorem Operation.Creates.isAtStart {op : Operation} {m : ModelId} {node : Node}
    (h : op.Creates m node) : node.isAtStart = true := by
  cases h with
  | level hname hvalue => simp [Node.isAtStart]
  | rate hname => simp [Node.isAtStart]
  | constant hname hvalue => rfl
  | auxiliary hname => simp [Node.isAtStart]
  | sourceSink => rfl

namespace World

variable {w w' v : World} {m : ModelId} {n : NodeId}

/-- The start value of a level. -/
def start? (w : World) (n : NodeId) : Option Float := (w.node? n).bind Node.start?

/-- Whether a node has the current value that it starts with. -/
def isAtStart (w : World) (n : NodeId) : Bool := ((w.node? n).map Node.isAtStart).getD true

/-- Whether all nodes of a model have the current values that they start with. -/
def AtStart (w : World) (m : ModelId) : Prop := ∀ n ∈ (w.model m).nodes, w.isAtStart n = true

instance (w : World) (m : ModelId) : Decidable (w.AtStart m) :=
  inferInstanceAs (Decidable (∀ n ∈ (w.model m).nodes, w.isAtStart n = true))

/-- A node with the same value that differs in nothing but current values is the same. -/
theorem node?_eq_of_still (hstill : (v.node? n).map Node.still = (w.node? n).map Node.still)
    (hvalue : v.valueOf n = w.valueOf n) : v.node? n = w.node? n := by
  rw [valueOf, valueOf, current?, current?] at hvalue
  cases hv : v.node? n with
  | none =>
      rw [hv] at hstill
      exact (Option.map_eq_none_iff.1 hstill.symm).symm
  | some node =>
      cases hw : w.node? n with
      | none => simp [hv, hw] at hstill
      | some node' =>
          rw [hv, hw] at hstill hvalue
          rw [Node.eq_of_still (Option.some.inj hstill) hvalue]

/-- Where current values are the same too, nodes are. -/
theorem SameUpToValues.node?_eq (h : SameUpToValues w v) (hvalue : v.valueOf n = w.valueOf n) :
    v.node? n = w.node? n :=
  node?_eq_of_still (h.node n) hvalue

/-- Levels alone have a start value. -/
theorem start?_eq_none (hkind : w.kind? n ≠ some .level) : w.start? n = none := by
  rw [kind?] at hkind
  rw [start?]
  cases hnode : w.node? n with
  | none => rfl
  | some node =>
      rw [hnode] at hkind
      cases node with
      | level l => exact (hkind rfl).elim
      | _ => rfl

/-- At the start a level has its start value, and whatever is computed from a formula has zero. -/
theorem valueOf_of_isAtStart (h : w.isAtStart n = true) (hkind : w.kind? n ≠ some .constant) :
    w.valueOf n = (w.start? n).getD 0.0 := by
  rw [isAtStart] at h
  rw [kind?] at hkind
  rw [valueOf, current?, start?]
  cases hnode : w.node? n with
  | none => rfl
  | some node =>
      rw [hnode] at h hkind
      cases node with
      | level l => exact of_decide_eq_true h
      | rate r => exact of_decide_eq_true h
      | auxiliary a => exact of_decide_eq_true h
      | constant c => exact (hkind rfl).elim
      | sourceSink flows => rfl

theorem isAtStart_nextNode (w : World) : w.isAtStart w.nextNode = true := by
  rw [isAtStart, node?_nextNode]
  rfl

/-! ## What operations leave at the start -/

/-- Updates that keep a level at its start leave all levels there. -/
theorem isAtStart_updateNode {f : Node → Node}
    (hf : ∀ node : Node, node.isAtStart = true → (f node).isAtStart = true) (k : NodeId)
    (hn : w.isAtStart n = true) : (w.updateNode k f).isAtStart n = true := by
  rw [isAtStart] at hn ⊢
  rw [node?_updateNode]
  split
  · cases hnode : w.node? n with
    | none => rfl
    | some node =>
        rw [hnode] at hn
        exact hf node hn
  · exact hn

/-- Levels are at their start in worlds that differ in flows alone. -/
theorem SameUpToFlows.isAtStart_eq (h : SameUpToFlows w v) (n : NodeId) :
    v.isAtStart n = w.isAtStart n := by
  rw [isAtStart, isAtStart, h.map_eq Node.isAtStart Node.isAtStart_unlinked]

/-- Operations leave nodes at their start. -/
theorem Effect.isAtStart {op : Operation} {outcome : Outcome} (h : w.Effect op outcome w')
    (hn : w.isAtStart n = true) : w'.isAtStart n = true := by
  cases h with
  | create hcreates hc =>
      rw [World.isAtStart, node?_withNew]
      split
      · exact hcreates.isAtStart
      · exact hn
  | rename hc hk hkind hname =>
      exact isAtStart_updateNode (fun node h => by rwa [Node.isAtStart_rename]) _ hn
  | setStart hc hk hx => exact isAtStart_updateNode (fun _ => Node.isAtStart_setStart _) _ hn
  | setValue hc hk hx =>
      exact isAtStart_updateNode (fun node h => by rwa [Node.isAtStart_setValue]) _ hn
  | setFormula hc hk hf =>
      exact isAtStart_updateNode (fun node h => by rwa [Node.isAtStart_setFormula]) _ hn
  | addFlow hc ha hb hfree => rwa [(sameUpToFlows_connect ..).isAtStart_eq]
  | removeFlow hc ha hb hflow => rwa [(sameUpToFlows_disconnect ..).isAtStart_eq]
  | removeNode hc hx hkind hunread =>
      exact ((sameUpToFlows_isolate w _).isAtStart_eq n).trans hn
  | _ => exact hn

/-- A model that has nodes and may be changed could be changed before. -/
theorem Effect.isChangeable_of_mem_nodes {op : Operation} {outcome : Outcome}
    (h : w.Effect op outcome w') (hn : n ∈ (w.model m).nodes) (hc : w'.isChangeable m = true) :
    w.isChangeable m = true := by
  cases hm : w.model? m with
  | none => simp [model, hm, Model.nodes] at hn
  | some content =>
      cases hlocked : content.changeable with
      | true => rw [isChangeable, model_of_model? hm, hlocked]
      | false =>
          rw [isChangeable, model_of_model? (h.model?_eq_of_locked hm hlocked), hlocked] at hc
          simp at hc

/-- The levels of changeable models are at their start, after any operation. -/
theorem Effect.atStart {op : Operation} {outcome : Outcome} (h : w.Effect op outcome w')
    (hold : ∀ m, w.isChangeable m = true → w.AtStart m) (hc : w'.isChangeable m = true) :
    w'.AtStart m := by
  intro n hn
  refine h.isAtStart ?_
  rcases h.mem_nodes_cases hn with hn | rfl
  · exact hold m (h.isChangeable_of_mem_nodes hn hc) n hn
  · exact isAtStart_nextNode w

/-- The levels of changeable models are at their start, after a round as well. -/
theorem Reachable.atStart_step (h : w.Reachable) (op : Operation)
    (hold : ∀ m, w.isChangeable m = true → w.AtStart m)
    (hc : (w.step op).isChangeable m = true) : (w.step op).AtStart m := by
  rcases step_cases h.wellFormed.flows op with hsame | ⟨outcome, heffect⟩ | ⟨k, rfl, hvalues⟩
  · rw [hsame] at hc ⊢
    exact hold m hc
  · exact heffect.atStart hold hc
  · rw [hvalues.sameLinks.isChangeable] at hc
    intro n hn
    rw [hvalues.model] at hn
    have hkeep : (w.step (.computeRound k)).valueOf n = w.valueOf n := by
      by_cases hk : k = m
      · rw [hk, step_computeRound_of_changeable hc]
      · exact h.valueOf_step_computeRound hk hn
    rw [World.isAtStart, hvalues.node?_eq hkeep]
    exact hold m hc n hn

/-- The levels of changeable models are at their start, after any session. -/
theorem Reachable.atStart_run (h : w.Reachable) (ops : List Operation)
    (hold : ∀ m, w.isChangeable m = true → w.AtStart m)
    (hc : (w.run ops).isChangeable m = true) : (w.run ops).AtStart m := by
  induction ops generalizing w with
  | nil => exact hold m hc
  | cons op rest ih => exact ih (h.step op) (fun _ => h.atStart_step op hold) hc

/-- Models that can be changed are at their start. -/
theorem Reachable.atStart (h : w.Reachable) (hc : w.isChangeable m = true) : w.AtStart m := by
  rcases h with ⟨ops, rfl⟩
  refine Reachable.atStart_run ⟨[], rfl⟩ ops (fun m hnone => ?_) hc
  simp [isChangeable, model, model?] at hnone

/-- Models that were just locked are at their start. -/
theorem Reachable.atStart_lock (h : w.Reachable) (hrun : (Action.lock m).run w = .ok () w') :
    w'.AtStart m := by
  have heffect := (Action.commits_lock m).of_ok hrun
  have hc : w.isChangeable m = true := by
    cases heffect with
    | lock hc hvalid horder => exact hc
  intro n hn
  refine heffect.isAtStart ?_
  rcases heffect.mem_nodes_cases hn with hn | rfl
  · exact h.atStart hc n hn
  · exact isAtStart_nextNode w

end World
end StockFlow
