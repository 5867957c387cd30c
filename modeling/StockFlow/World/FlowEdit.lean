import StockFlow.World.Action
import StockFlow.World.Flow

/-!
# Adding and removing flows

A flow is added along a path from an endpoint to a rate or from a rate to an
endpoint.  A rate keeps one endpoint at each side, so adding a second one changes
nothing, and neither does removing a flow that is not there.

Main definitions:

- {lit}`FlowPath`: the four directions of flows, each with its side of the rate.
- {lit}`Action.addEnd`, {lit}`Action.removeEnd`: one side of a rate.
- {lit}`Action.addFlow`, {lit}`Action.removeFlow`: the same after all checks.
-/

namespace StockFlow

/-- Between which kinds of node a flow is added or removed, in its direction. -/
inductive FlowPath where
  | levelToRate
  | rateToLevel
  | sourceSinkToRate
  | rateToSourceSink
  deriving DecidableEq, Repr

namespace FlowPath

/-- The side of the rate that the path ends at. -/
def side : FlowPath → Side
  | .levelToRate | .sourceSinkToRate => .source
  | .rateToLevel | .rateToSourceSink => .sink

/-- The role of the endpoint. -/
def endpointRole : FlowPath → Role
  | .levelToRate | .rateToLevel => .level
  | .sourceSinkToRate | .rateToSourceSink => .sourceSink

/-- The role of the node where the flow starts. -/
def startRole (p : FlowPath) : Role :=
  match p.side with
  | .source => p.endpointRole
  | .sink => .rate

/-- The role of the node where the flow ends. -/
def finishRole (p : FlowPath) : Role :=
  match p.side with
  | .source => .rate
  | .sink => p.endpointRole

/-- The rate among the two nodes of the path. -/
def rateOf (p : FlowPath) (start finish : NodeId) : NodeId :=
  match p.side with
  | .source => finish
  | .sink => start

/-- The endpoint among the two nodes of the path. -/
def endpointOf (p : FlowPath) (start finish : NodeId) : NodeId :=
  match p.side with
  | .source => start
  | .sink => finish

end FlowPath

namespace Action

/-! ## Flows -/

/-- Connects a rate with an endpoint; false, and no change, if the rate has another one. -/
def addEnd (side : Side) (r e : NodeId) : Action Bool := do
  let w ← get
  match w.endpoint? side r with
  | none => do
      set (w.connect side r e)
      return true
  | some old => return old = e

/-- Takes a flow away; false, and no change, if there is no such flow. -/
def removeEnd (side : Side) (r e : NodeId) : Action Bool := do
  let w ← get
  let atRate := w.endpoint? side r = some e
  let atEndpoint := r ∈ w.ratesAt side e
  if atRate ∧ atEndpoint then do
    set (w.disconnect side r)
    return true
  else if ¬ atRate ∧ ¬ atEndpoint then return false
  else throw .inconsistentFlow

/-- Adds a flow. -/
def addFlow (m : ModelId) (path : FlowPath) (start finish : Argument) : Action Bool := do
  requireChangeable m
  let a ← require path.startRole start
  let b ← require path.finishRole finish
  addEnd path.side (path.rateOf a b) (path.endpointOf a b)

/-- Removes a flow. -/
def removeFlow (m : ModelId) (path : FlowPath) (start finish : Argument) : Action Bool := do
  requireChangeable m
  let a ← require path.startRole start
  let b ← require path.finishRole finish
  removeEnd path.side (path.rateOf a b) (path.endpointOf a b)

end Action
end StockFlow
