import StockFlow.World.Operation

/-!
# Wiring below the operations

The operations of a model rest on simpler steps at single nodes.  These steps are
open to callers too: they ask neither whether a model is locked nor who owns the
nodes.  Connecting and disconnecting keep both halves of a flow together; listing
a rate at an endpoint touches one half only, and anything that can be looked up
can be listed in the place of a rate.

Main definitions:

- {lit}`Wiring`: connecting and disconnecting one side of a rate.
- {lit}`NodeStep`: every other step at a single node.
- {lit}`Action.wire`, {lit}`Action.stepNode`: both as actions.
-/

namespace StockFlow

/-- A change of one side of a rate, at both ends of the flow. -/
inductive Wiring where
  | connect (side : Side) (rate endpoint : Argument)
  | disconnect (side : Side) (rate : Argument)

/-- A step at a single node that is no wiring. -/
inductive NodeStep where
  | rename (node : Argument) (name : Value)
  | advance (node : Argument)
  /-- Lists a rate at an endpoint without telling the rate. -/
  | list (side : Side) (endpoint rate : Argument)
  /-- Takes a rate from an endpoint's list without telling the rate. -/
  | unlist (side : Side) (endpoint rate : Argument)

namespace Side

/-- The member of a rate that connects a side. -/
def connectMember : Side → String
  | .source => "_set_flow_source"
  | .sink => "_set_flow_sink"

/-- The member of a rate that disconnects a side. -/
def disconnectMember : Side → String
  | .source => "_remove_flow_source"
  | .sink => "_remove_flow_sink"

/-- The member of an endpoint that lists a rate. -/
def listMember : Side → String
  | .source => "_add_outgoing_flow"
  | .sink => "_add_incoming_flow"

/-- The member of an endpoint that takes a rate from its list. -/
def unlistMember : Side → String
  | .source => "_remove_outgoing_flow"
  | .sink => "_remove_incoming_flow"

end Side

namespace Action

/-! ## Wiring -/

/-- The endpoint that an argument stands for. -/
def endpointOf (w : World) (side : Side) (a : Argument) : Except Fault NodeId :=
  if a.isAbsent then .error (.endpointAbsent side)
  else
    match a.node? with
    | some n =>
        if ((w.kind? n).map NodeKind.isEndpoint).getD false then .ok n
        else .error (.notAnEndpoint side)
    | none => .error (.notAnEndpoint side)

/-- Gives a rate an endpoint in place of the one that it has. -/
def connectRate (side : Side) (rate endpoint : Argument) : Action Unit := do
  let w ← get
  let r ← ofExcept (withMember w (· == .rate) side.connectMember rate)
  let e ← ofExcept (endpointOf w side endpoint)
  set (w.connect side r e)

/-- Takes the endpoint of a rate away, if it has one. -/
def disconnectRate (side : Side) (rate : Argument) : Action Unit := do
  let w ← get
  let r ← ofExcept (withMember w (· == .rate) side.disconnectMember rate)
  set (w.disconnect side r)

/-- A wiring as an action. -/
def wire : Wiring → Action Unit
  | .connect side rate endpoint => connectRate side rate endpoint
  | .disconnect side rate => disconnectRate side rate

/-! ## Other steps at single nodes -/

/-- Moves a node on: formulas are computed, levels take in their flows, all else stays. -/
def advance (node : Argument) : Action Unit := do
  let w ← get
  let n ← ofExcept (withMember w (fun _ => true) "_compute_next_value" node)
  match w.kind? n with
  | some .rate => advanceFormula n
  | some .auxiliary => advanceFormula n
  | some .level => advanceLevel n
  | _ => pure ()

/-- Lists what is handed over at an endpoint; any key will do. -/
def listRate (side : Side) (endpoint rate : Argument) : Action Unit := do
  let w ← get
  let e ← ofExcept (withMember w NodeKind.isEndpoint side.listMember endpoint)
  let k ← ofExcept (rate.key w)
  set (w.attach side e k)

/--
Takes what is handed over from the list of an endpoint; nothing is looked up in an empty
list.
-/
def unlistRate (side : Side) (endpoint rate : Argument) : Action Unit := do
  let w ← get
  let e ← ofExcept (withMember w NodeKind.isEndpoint side.unlistMember endpoint)
  if (w.listedAt side e).isEmpty then pure ()
  else
    let k ← ofExcept (rate.key w)
    set (w.detach side e k)

/-- A step at a single node as an action. -/
def stepNode : NodeStep → Action Unit
  | .rename node name => renameNode node name
  | .advance node => advance node
  | .list side endpoint rate => listRate side endpoint rate
  | .unlist side endpoint rate => unlistRate side endpoint rate

end Action
end StockFlow
