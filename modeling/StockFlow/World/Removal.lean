import StockFlow.World.FlowEdit

/-!
# Removing nodes

A node that a formula of the model still reads cannot be removed.  Any other node
loses its flows one by one and then its place in the model; it stays in the world.

Main definitions:

- {lit}`Action.checkUnread`: whether a formula still reads a node.
- {lit}`Action.severRate`, {lit}`Action.severEndpoint`: taking flows away.
- {lit}`Action.removeNode`: the whole removal.
-/

namespace StockFlow

/-- The member of a rate that tells its endpoint at a side. -/
def Side.endMember : Side → String
  | .source => "get_flow_source"
  | .sink => "get_flow_sink"

namespace Action

/-- The first of some nodes, other than the given one, whose formula reads it. -/
def firstReader? (w : World) (owners : List NodeId) (n : NodeId) : Option NodeId :=
  owners.find? fun k => k != n && (w.formulaReads k).contains n

/-- Fails if a formula of the model reads the argument, or if it cannot be looked up. -/
def checkUnread (w : World) (owners : List NodeId) (node : Argument) : Except Fault Unit :=
  match node.node? with
  | some n =>
      match firstReader? w owners n with
      | some k => .error (.readByFormula k)
      | none => .ok ()
  | none =>
      if node.isKey || owners.isEmpty then .ok () else .error (.notAKey (node.typeWord w))

/-- Takes away the flow at a side of a rate, if there is one. -/
def severRate (side : Side) (r : NodeId) : Action Unit := do
  match (← get).endpoint? side r with
  | some e => do
      let _ ← removeEnd side r e
  | none => pure ()

/-- Takes away the flow of a listed key that has the endpoint at a side; only rates have ends. -/
def severListed (side : Side) (e : NodeId) (k : Entity) : Action Unit := do
  let r ← ofExcept (withMember (← get) (· == .rate) side.endMember (.leaf k))
  let _ ← removeEnd side r e

/-- Takes away the flows of listed keys that have the endpoint at a side. -/
def severAll (side : Side) (e : NodeId) : List Entity → Action Unit
  | [] => pure ()
  | k :: rest => do
      severListed side e k
      severAll side e rest

/-- Takes away all flows of an endpoint at a side. -/
def severEndpoint (side : Side) (e : NodeId) : Action Unit := do
  severAll side e ((← get).listedAt side e)

/-- Takes a node from a model's list of its kind. -/
def disown (m : ModelId) (kind : NodeKind) (n : NodeId) : Action Unit :=
  modify fun w => w.updateModel m (Model.mapMembers kind (List.erase · n))

/-- Takes away a node with its flows. -/
def removeKnown (m : ModelId) (n : NodeId) : Action Unit := do
  match (← get).kind? n with
  | some .rate => do
      severRate .source n
      severRate .sink n
      disown m .rate n
  | some .level => do
      severEndpoint .sink n
      severEndpoint .source n
      disown m .level n
  | some .sourceSink => do
      severEndpoint .sink n
      severEndpoint .source n
      disown m .sourceSink n
  | some kind => disown m kind n
  | none => throw (.unknownNodeType "object")

/-- Removes a node and all its flows, unless another formula of the model reads it. -/
def removeNode (m : ModelId) (node : Argument) : Action Unit := do
  requireChangeable m
  if node.isAbsent then throw (.argumentAbsent .node)
  let w ← get
  ofExcept (checkUnread w (w.model m).formulaOwners node)
  match node.node? with
  | some n => removeKnown m n
  | none => throw (.unknownNodeType (node.typeWord w))

end Action
end StockFlow
