import StockFlow.Proofs.World.Integrity

/-!
# Changes of flows at one side

A world is determined by everything but its flows together with both halves of these.
Adding or removing a flow changes the halves at one side only, by what it does to the
endpoint of a rate and to the lists of endpoints; and which change an operation makes is
decided by kinds, locks and the endpoints at that side.  So operations on flows at
different sides commute.

Main definitions:

- {lit}`World.FlowChange`: what an operation does to the flows at its side.
- {lit}`World.flowChange`: the change that an operation makes, or why it fails.
- {lit}`World.Commute`: two operations in any order come to the same.

Main results:

- Theorem {lit}`World.SameUpToFlows.eq_of_flows`: a world is determined by its views.
- Theorem {lit}`World.run_flowChange`: an operation on flows makes its change at its side.
- Theorem {lit}`World.FlowsMatch.commute`: operations at different sides commute.
-/

namespace StockFlow

/-! ## Worlds and their flows -/

namespace Node

/-- A node with other flows. -/
def relink (endpoint : Side → Option NodeId) (listed : Side → List Entity) : Node → Node
  | .level l => .level { l with flows := { incoming := listed .sink, outgoing := listed .source } }
  | .rate r => .rate { r with source := endpoint .source, sink := endpoint .sink }
  | .sourceSink _ => .sourceSink { incoming := listed .sink, outgoing := listed .source }
  | node => node

/-- A node is made up of what it is without its flows, and of its flows. -/
theorem relink_unlinked (node : Node) :
    node.unlinked.relink (node.endpoint? ·) (node.listed ·) = node := by
  cases node <;> rfl

/-- Nodes that agree up to flows and have the same flows are the same. -/
theorem eq_of_flows {a b : Node} (hrest : b.unlinked = a.unlinked)
    (hendpoint : ∀ side, b.endpoint? side = a.endpoint? side)
    (hlisted : ∀ side, b.listed side = a.listed side) : b = a := by
  rw [← relink_unlinked a, ← relink_unlinked b, hrest, funext hendpoint, funext hlisted]

end Node

namespace World

variable {w v : World}

/-- Worlds that agree up to some reduction do so both ways. -/
theorem SameUnder.symm {reduce : Node → Node} (h : SameUnder reduce w v) :
    SameUnder reduce v w :=
  ⟨h.models.symm, fun n => (h.node n).symm⟩

/-- Worlds with the same models and the same nodes are the same. -/
theorem ext_node? (hmodels : v.models = w.models) (hnode : ∀ n, v.node? n = w.node? n) :
    v = w := by
  have hnodes : v.nodes = w.nodes := Array.ext_getElem? fun i => hnode ⟨i⟩
  cases v
  cases w
  simp only at hmodels hnodes
  rw [hmodels, hnodes]

/-- Worlds that differ in their flows at most are one world if these are the same. -/
theorem SameUpToFlows.eq_of_flows (h : SameUpToFlows w v)
    (hendpoint : ∀ side n, v.endpoint? side n = w.endpoint? side n)
    (hlisted : ∀ side n, v.listedAt side n = w.listedAt side n) : v = w := by
  refine ext_node? h.models fun n => ?_
  have hrest := h.node n
  have hendpoint' := fun side => hendpoint side n
  have hlisted' := fun side => hlisted side n
  simp only [endpoint?, listedAt] at hendpoint' hlisted'
  cases hw : w.node? n with
  | none => simpa [hw] using hrest
  | some a =>
      cases hv : v.node? n with
      | none => simp [hw, hv] at hrest
      | some b =>
          simp only [hw, hv, Option.map_some, Option.bind_some, Option.getD_some,
            Option.some.injEq] at hrest hendpoint' hlisted'
          rw [Node.eq_of_flows hrest hendpoint' hlisted']

/-! ## Changes at one side -/

/-- What an operation does to the flows at its side. -/
inductive FlowChange where
  | keep
  | connect (r e : NodeId)
  | disconnect (r : NodeId)

namespace FlowChange

/-- Makes a change at a side. -/
def apply (side : Side) (c : FlowChange) (w : World) : World :=
  match c with
  | keep => w
  | connect r e => w.connect side r e
  | disconnect r => w.disconnect side r

/-- Whether a change connects nothing but rates with endpoints. -/
def Fits (w : World) : FlowChange → Prop
  | connect r e => w.kind? r = some .rate ∧ w.isEndpoint e = true
  | _ => True

/-- What a change does to the endpoint of a rate. -/
def endpoint (c : FlowChange) (x : NodeId) (old : Option NodeId) : Option NodeId :=
  match c with
  | keep => old
  | connect r e => if x = r then some e else old
  | disconnect r => if x = r then none else old

/-- What a change does to the list of an endpoint. -/
def listed (c : FlowChange) (x : NodeId) (old : List Entity) : List Entity :=
  match c with
  | keep => old
  | connect r e => if x = e then insertKey (.node r) old else eraseKey (.node r) old
  | disconnect r => eraseKey (.node r) old

variable {c c' : FlowChange}

/-- A flow change changes flows only. -/
theorem sameUpToFlows_apply (side : Side) (c : FlowChange) (w : World) :
    SameUpToFlows w (c.apply side w) := by
  cases c with
  | keep => exact SameUnder.refl ..
  | connect r e => exact sameUpToFlows_connect ..
  | disconnect r => exact sameUpToFlows_disconnect ..

/-- Whether a flow change fits is not up to the flows. -/
theorem Fits.of_sameUpToFlows (h : c.Fits w) (hsame : SameUpToFlows w v) : c.Fits v := by
  cases c with
  | connect r e => exact ⟨(hsame.kind r).trans h.1, (hsame.isEndpoint e).trans h.2⟩
  | _ => trivial

/-- A flow change that fits keeps the halves of all flows matched. -/
theorem Fits.flowsMatch (h : c.Fits w) (hw : w.FlowsMatch) (side : Side) :
    (c.apply side w).FlowsMatch := by
  cases c with
  | keep => exact hw
  | connect r e => exact hw.connect h.1 h.2 side
  | disconnect r => exact hw.disconnect side r

/-- A flow change that fits says what becomes of the endpoints of its side. -/
theorem Fits.endpoint?_apply (h : c.Fits w) (side s : Side) (x : NodeId) :
    (c.apply side w).endpoint? s x =
      if s = side then c.endpoint x (w.endpoint? s x) else w.endpoint? s x := by
  cases c with
  | keep => simp [apply, endpoint]
  | connect r e =>
      rw [apply, FlowsMatch.endpoint?_connect h.1]
      by_cases hs : s = side <;> simp [hs, endpoint]
  | disconnect r =>
      rw [apply, FlowsMatch.endpoint?_disconnect]
      by_cases hs : s = side <;> simp [hs, endpoint]

/-- A flow change that fits says what becomes of the lists of its side. -/
theorem Fits.listedAt_apply (h : c.Fits w) (hw : w.FlowsMatch) (side s : Side) (x : NodeId) :
    (c.apply side w).listedAt s x =
      if s = side then c.listed x (w.listedAt s x) else w.listedAt s x := by
  cases c with
  | keep => simp [apply, listed]
  | connect r e =>
      rw [apply, hw.listedAt_connect h.2]
      by_cases hs : s = side <;> simp [hs, listed]
  | disconnect r =>
      rw [apply, hw.listedAt_disconnect]
      by_cases hs : s = side <;> simp [hs, listed]

/-- Changes at different sides commute. -/
theorem Fits.apply_comm (h : c.Fits w) (h' : c'.Fits w) (hw : w.FlowsMatch) {side' : Side}
    (hne : side' ≠ side) :
    c'.apply side' (c.apply side w) = c.apply side (c'.apply side' w) := by
  have hsame := sameUpToFlows_apply side c w
  have hsame' := sameUpToFlows_apply side' c' w
  have hfits := h.of_sameUpToFlows hsame'
  have hfits' := h'.of_sameUpToFlows hsame
  have hmatch := h.flowsMatch hw side
  have hmatch' := h'.flowsMatch hw side'
  refine SameUpToFlows.eq_of_flows (w := c.apply side (c'.apply side' w)) ?_ ?_ ?_
  · exact (hsame'.trans (sameUpToFlows_apply ..)).symm.trans
      (hsame.trans (sameUpToFlows_apply ..))
  · intro s x
    rw [hfits'.endpoint?_apply, h.endpoint?_apply, hfits.endpoint?_apply, h'.endpoint?_apply]
    by_cases hs : s = side
    · simp [hs, hne.symm]
    · simp [hs]
  · intro s x
    rw [hfits'.listedAt_apply hmatch, h.listedAt_apply hw, hfits.listedAt_apply hmatch',
      h'.listedAt_apply hw]
    by_cases hs : s = side
    · simp [hs, hne.symm]
    · simp [hs]

end FlowChange
end World

/-! ## Operations on flows -/

/-- The side of rates at which an operation on flows works. -/
def Operation.flowSide? : Operation → Option Side
  | .addFlow _ path _ _ | .removeFlow _ path _ _ => some path.side
  | _ => none

namespace Action

variable {α : Type} {w v : World} {m : ModelId}

/-- Whether an argument fills a role hangs on the kinds of nodes only. -/
theorem fill_congr (hkind : ∀ n, v.kind? n = w.kind? n) (role : Role) (a : Argument) :
    fill v role a = fill w role a := by
  unfold fill
  simp only [hkind]

/-- The two nodes along a path of a flow, or which check of a step along it fails. -/
def checkAlong (w : World) (m : ModelId) (path : FlowPath) (start finish : Argument) :
    Except Fault (NodeId × NodeId) :=
  if w.isChangeable m then do
    let a ← fill w path.startRole start
    let b ← fill w path.finishRole finish
    return (a, b)
  else .error .notChangeable

/-- A call along a path checks both its nodes before it changes anything. -/
theorem run_along (w : World) (m : ModelId) (path : FlowPath) (start finish : Argument)
    (change : NodeId → NodeId → Action α) : (do
      requireChangeable m
      let a ← require path.startRole start
      let b ← require path.finishRole finish
      change a b).run w =
        match checkAlong w m path start finish with
        | .ok (a, b) => (change a b).run w
        | .error e => .error e w := by
  have hrequire : ∀ role a, (require role a).run w = (ofExcept (fill w role a)).run w :=
    fun _ _ => rfl
  have hchangeable := run_requireChangeable w m
  unfold checkAlong
  by_cases hc : w.isChangeable m = true
  · rw [if_pos hc] at hchangeable ⊢
    rw [run_bind_ok hchangeable]
    have hstart := hrequire path.startRole start
    cases ha : fill w path.startRole start with
    | error e =>
        rw [ha] at hstart
        exact run_bind_error hstart _
    | ok a =>
        rw [ha] at hstart
        rw [run_bind_ok hstart]
        have hfinish := hrequire path.finishRole finish
        cases hb : fill w path.finishRole finish with
        | error e =>
            rw [hb] at hfinish
            exact run_bind_error hfinish _
        | ok b =>
            rw [hb] at hfinish
            exact run_bind_ok hfinish _
  · rw [if_neg hc] at hchangeable ⊢
    exact run_bind_error hchangeable _

/-- The checks along a path do not look at flows. -/
theorem checkAlong_congr (h : World.SameUpToFlows w v) (m : ModelId) (path : FlowPath)
    (start finish : Argument) :
    checkAlong v m path start finish = checkAlong w m path start finish := by
  have hc : v.isChangeable m = w.isChangeable m := by
    rw [World.isChangeable, World.isChangeable, h.model]
  simp only [checkAlong, hc, fill_congr h.kind]

/-- The checks along a path are the lock, then the role of either node. -/
theorem checkAlong_eq_ok {path : FlowPath} {start finish : Argument} {a b : NodeId} :
    checkAlong w m path start finish = .ok (a, b) ↔
      w.isChangeable m = true ∧ fill w path.startRole start = .ok a ∧
        fill w path.finishRole finish = .ok b := by
  unfold checkAlong
  by_cases hc : w.isChangeable m = true
  · rw [if_pos hc]
    cases ha : fill w path.startRole start with
    | error e => simp [bind, Except.bind]
    | ok a' =>
        cases hb : fill w path.finishRole finish with
        | error e => simp [bind, Except.bind]
        | ok b' => simp [bind, Except.bind, pure, Except.pure, hc]
  · simp [hc]

end Action

namespace World

variable {w v : World} {side : Side} {r e : NodeId}

/-- What adding a flow changes, and what it gives back. -/
def FlowChange.adding (w : World) (side : Side) (r e : NodeId) : FlowChange × Bool :=
  match w.endpoint? side r with
  | none => (.connect r e, true)
  | some old => (.keep, old = e)

/-- What removing a flow changes, and what it gives back. -/
def FlowChange.removing (w : World) (side : Side) (r e : NodeId) : FlowChange × Bool :=
  if w.endpoint? side r = some e then (.disconnect r, true) else (.keep, false)

/-- What an operation on flows changes and gives back, or why it fails. -/
def flowChange (w : World) : Operation → Except Fault (FlowChange × Bool)
  | .addFlow m path start finish =>
      (Action.checkAlong w m path start finish).map fun (a, b) =>
        FlowChange.adding w path.side (path.rateOf a b) (path.endpointOf a b)
  | .removeFlow m path start finish =>
      (Action.checkAlong w m path start finish).map fun (a, b) =>
        FlowChange.removing w path.side (path.rateOf a b) (path.endpointOf a b)
  | _ => .ok (.keep, false)

/-- Adding an end makes the change that is found to be due. -/
theorem run_addEnd_eq (w : World) (side : Side) (r e : NodeId) :
    (Action.addEnd side r e).run w =
      .ok (FlowChange.adding w side r e).2 ((FlowChange.adding w side r e).1.apply side w) := by
  rw [Action.addEnd, Action.run_get_bind, FlowChange.adding]
  cases w.endpoint? side r <;> rfl

/-- Removing an end makes the change that is found to be due. -/
theorem run_removeEnd_eq (h : w.FlowsMatch) (side : Side) (r e : NodeId) :
    (Action.removeEnd side r e).run w =
      .ok (FlowChange.removing w side r e).2 ((FlowChange.removing w side r e).1.apply side w) := by
  unfold FlowChange.removing
  split
  · rename_i hflow
    exact Action.run_removeEnd h hflow
  · rename_i hflow
    exact Action.run_removeEnd_of_ne h hflow

/-- An operation on flows makes its change at its side. -/
theorem run_flowChange (h : w.FlowsMatch) {op : Operation} (hop : op.flowSide? = some side) :
    (Action.perform op).run w =
      match w.flowChange op with
      | .ok (c, flag) => .ok (.flag flag) (c.apply side w)
      | .error fault => .error fault w := by
  cases op with
  | addFlow m path start finish =>
      obtain rfl := Option.some.inj hop
      rw [Action.perform, Action.run_map, Action.addFlow, Action.run_along, flowChange]
      cases Action.checkAlong w m path start finish with
      | error fault => rfl
      | ok ends => simp only [run_addEnd_eq, Except.map]
  | removeFlow m path start finish =>
      obtain rfl := Option.some.inj hop
      rw [Action.perform, Action.run_map, Action.removeFlow, Action.run_along, flowChange]
      cases Action.checkAlong w m path start finish with
      | error fault => rfl
      | ok ends => simp only [run_removeEnd_eq h, Except.map]
  | _ => cases hop

/-- The change hangs on kinds, locks and the endpoints at one side only. -/
theorem flowChange_congr (h : SameUpToFlows w v) {op : Operation} (hop : op.flowSide? = some side)
    (hside : ∀ x, v.endpoint? side x = w.endpoint? side x) :
    v.flowChange op = w.flowChange op := by
  cases op with
  | addFlow m path start finish =>
      obtain rfl := Option.some.inj hop
      simp only [flowChange, Action.checkAlong_congr h, FlowChange.adding, hside]
  | removeFlow m path start finish =>
      obtain rfl := Option.some.inj hop
      simp only [flowChange, Action.checkAlong_congr h, FlowChange.removing, hside]
  | _ => cases hop

/-- What is due for an end that is added fits a rate and an endpoint. -/
theorem fits_adding (hr : w.kind? r = some .rate) (he : w.isEndpoint e = true) (side : Side) :
    (FlowChange.adding w side r e).1.Fits w := by
  unfold FlowChange.adding
  cases w.endpoint? side r with
  | none => exact ⟨hr, he⟩
  | some old => trivial

theorem fits_removing (w : World) (side : Side) (r e : NodeId) :
    (FlowChange.removing w side r e).1.Fits w := by
  unfold FlowChange.removing
  split <;> trivial

/-- What is due for any operation on flows fits. -/
theorem fits_of_flowChange {op : Operation} {c : FlowChange} {flag : Bool}
    (h : w.flowChange op = .ok (c, flag)) : c.Fits w := by
  cases op with
  | addFlow m path start finish =>
      rw [flowChange] at h
      cases hcheck : Action.checkAlong w m path start finish with
      | error fault => simp [hcheck, Except.map] at h
      | ok ends =>
          obtain ⟨a, b⟩ := ends
          obtain ⟨-, ha, hb⟩ := Action.checkAlong_eq_ok.1 hcheck
          have hends := ends_of_path ha hb
          have hfits := fits_adding hends.1 hends.2 path.side
          rw [hcheck] at h
          rwa [show FlowChange.adding _ _ _ _ = _ from Except.ok.inj h] at hfits
  | removeFlow m path start finish =>
      rw [flowChange] at h
      cases hcheck : Action.checkAlong w m path start finish with
      | error fault => simp [hcheck, Except.map] at h
      | ok ends =>
          obtain ⟨a, b⟩ := ends
          have hfits := fits_removing w path.side (path.rateOf a b) (path.endpointOf a b)
          rw [hcheck] at h
          rwa [show FlowChange.removing _ _ _ _ = _ from Except.ok.inj h] at hfits
  | _ =>
      obtain ⟨rfl, rfl⟩ := Prod.mk.inj (Except.ok.inj h)
      trivial

/-! ## Operations at different sides -/

/-- Whether two operations in any order lead to one world, each with the result it has alone. -/
structure Commute (w : World) (op op' : Operation) : Prop where
  state : (w.step op).step op' = (w.step op').step op
  first : (Action.perform op).outcome (w.step op') = (Action.perform op).outcome w
  second : (Action.perform op').outcome (w.step op) = (Action.perform op').outcome w

/-- What an operation on flows does depends on the flows of its own side alone. -/
theorem exists_flowChange (h : w.FlowsMatch) {op : Operation} (hop : op.flowSide? = some side) :
    ∃ c : FlowChange, c.Fits w ∧ ∀ v, v.FlowsMatch → SameUpToFlows w v →
      (∀ x, v.endpoint? side x = w.endpoint? side x) → v.step op = c.apply side v ∧
        (Action.perform op).outcome v = (Action.perform op).outcome w := by
  have hrun := run_flowChange h hop
  cases hchange : w.flowChange op with
  | error fault =>
      refine ⟨.keep, trivial, fun v hv hsame hside => ?_⟩
      have hrun' := run_flowChange hv hop
      rw [flowChange_congr hsame hop hside] at hrun'
      rw [hchange] at hrun hrun'
      rw [step, Action.worldAfter, Action.outcome, Action.outcome, hrun, hrun']
      exact ⟨rfl, rfl⟩
  | ok change =>
      obtain ⟨c, flag⟩ := change
      refine ⟨c, fits_of_flowChange hchange, fun v hv hsame hside => ?_⟩
      have hrun' := run_flowChange hv hop
      rw [flowChange_congr hsame hop hside] at hrun'
      rw [hchange] at hrun hrun'
      rw [step, Action.worldAfter, Action.outcome, Action.outcome, hrun, hrun']
      exact ⟨rfl, rfl⟩

/-- Operations on flows of different sides commute. -/
theorem FlowsMatch.commute (h : w.FlowsMatch) {op op' : Operation} {side' : Side}
    (hop : op.flowSide? = some side) (hop' : op'.flowSide? = some side') (hne : side' ≠ side) :
    w.Commute op op' := by
  rcases exists_flowChange h hop with ⟨c, hfits, hc⟩
  rcases exists_flowChange h hop' with ⟨c', hfits', hc'⟩
  have hstep := (hc w h (.refl ..) fun _ => rfl).1
  have hstep' := (hc' w h (.refl ..) fun _ => rfl).1
  have hsecond := hc' (c.apply side w) (hfits.flowsMatch h side)
    (FlowChange.sameUpToFlows_apply side c w)
    fun x => by rw [hfits.endpoint?_apply, if_neg hne]
  have hfirst := hc (c'.apply side' w) (hfits'.flowsMatch h side')
    (FlowChange.sameUpToFlows_apply side' c' w)
    fun x => by rw [hfits'.endpoint?_apply, if_neg hne.symm]
  refine ⟨?_, ?_, ?_⟩
  · rw [hstep, hstep', hfirst.1, hsecond.1]
    exact hfits.apply_comm hfits' h hne
  · rw [hstep', hfirst.2]
  · rw [hstep, hsecond.2]

end World
end StockFlow
