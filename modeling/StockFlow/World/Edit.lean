import StockFlow.World.Action

/-!
# Creating and changing nodes

Each of these actions first checks that the model may be changed, then its
arguments in order, and changes the world only after its last check.

Main definitions:

- {lit}`Action.newModel`, {lit}`Action.createLevel` and its companions: new models and nodes.
- {lit}`Action.setNodeName`, {lit}`Action.setStartValue`, {lit}`Action.setConstantValue`: properties.
- {lit}`Action.formulaOf`, {lit}`Action.setFormula`: formulas of rates and auxiliaries.
-/

namespace StockFlow
namespace Action

/-! ## Creation -/

/-- Adds a model. -/
def newModel (name : Value) : Action ModelId := do
  let w ← get
  set (w.addModel { name })
  return w.nextModel

/-- Adds a node to the world and to a model. -/
def own (m : ModelId) (node : Node) : Action NodeId := do
  let w ← get
  let n := w.nextNode
  set ((w.addNode node).updateModel m (Model.mapMembers node.kind (· ++ [n])))
  return n

/-- Creates a level. -/
def createLevel (m : ModelId) (name value : Value) : Action NodeId := do
  requireChangeable m
  let name ← ofExcept (checkName name)
  let start ← ofExcept (checkNumber value)
  own m (.level { name, start, current := start })

/-- Creates a rate. -/
def createRate (m : ModelId) (name : Value) : Action NodeId := do
  requireChangeable m
  let name ← ofExcept (checkName name)
  own m (.rate { name })

/-- Creates a constant. -/
def createConstant (m : ModelId) (name value : Value) : Action NodeId := do
  requireChangeable m
  let name ← ofExcept (checkName name)
  let value ← ofExcept (checkNumber value)
  own m (.constant { name, value })

/-- Creates an auxiliary. -/
def createAuxiliary (m : ModelId) (name : Value) : Action NodeId := do
  requireChangeable m
  let name ← ofExcept (checkName name)
  own m (.auxiliary { name })

/-- Creates a source/sink. -/
def createSourceSink (m : ModelId) : Action NodeId := do
  requireChangeable m
  own m (.sourceSink {})

/-! ## Properties -/

/-- Renames a model; any value but the absent one is a name. -/
def setModelName (m : ModelId) (name : Value) : Action Unit := do
  requireChangeable m
  match name with
  | .absent => throw (.argumentAbsent .modelName)
  | name => modify fun w => w.updateModel m fun model => { model with name }

/-- Renames a node if it can have a name. -/
def renameNode (node : Argument) (name : Value) : Action Unit := do
  let w ← get
  let n ← ofExcept (withMember w (fun _ => true) "_set_node_name" node)
  if w.isKind .sourceSink n then throw .noName
  let name ← ofExcept (checkName name)
  modify fun w => w.updateNode n (Node.rename name)

/-- Renames a node. -/
def setNodeName (m : ModelId) (node : Argument) (name : Value) : Action Unit := do
  requireChangeable m
  if node.isAbsent then throw (.argumentAbsent .node)
  renameNode node name

/-- Sets the start value of a level, and its current value with it. -/
def setStartValue (m : ModelId) (level : Argument) (value : Value) : Action Unit := do
  requireChangeable m
  let n ← require .level level
  let x ← ofExcept (checkNumber value)
  modify fun w => w.updateNode n (Node.setStart x)

/-- Sets the value of a constant. -/
def setConstantValue (m : ModelId) (constant : Argument) (value : Value) : Action Unit := do
  requireChangeable m
  let n ← require .constant constant
  let x ← ofExcept (checkNumber value)
  modify fun w => w.updateNode n (Node.setValue x)

/-- The formula that is set by an argument: nothing takes it away, a compound one is copied. -/
def formulaOf (w : World) : Argument → Except Fault (Option (Formula NodeId))
  | .leaf (.plain .absent) => .ok none
  | .leaf e =>
      match e.leaf w "clone" with
      | .ok n => .ok (some (.leaf n))
      | .error _ => .error .notAFormula
  | .apply op l r => (Argument.formula w "clone" (.apply op l r)).map some

/-- Sets the formula of a rate or an auxiliary, or takes it away. -/
def setFormula (m : ModelId) (node formula : Argument) : Action Unit := do
  requireChangeable m
  let n ← require .formulaOwner node
  let f ← ofExcept (formulaOf (← get) formula)
  modify fun w => w.updateNode n (Node.setFormula f)

end Action
end StockFlow
