import StockFlow.Formula.Reader
import StockFlow.Service.Schema
import StockFlow.World.Numbering
import StockFlow.World.Operation

/-!
# Models from model data

The elements of a drawn model become nodes in their order, its connections become
flows, and the formula texts of rates and auxiliaries become formulas that name
other elements by kind and id.  Data that makes no model is refused with the
element that is to blame.

Main definitions:

- {lit}`Refusal`, {lit}`BuildFailure`: why data makes no model.
- {lit}`Built`: a model under construction, with the element of each node.
- {lit}`ModelData.build`: the model of model data.
-/

namespace StockFlow

/-- Why model data is refused. -/
inductive Refusal where
  | duplicateId (id : Int)
  | unknownType (type : String) (id : Int)
  | unnamed (id : Int)
  | valueOutOfRange (name : String) (id : Int)
  | unknownConnectionType (type : String)
  | unknownElement (connection element : Int)
  /-- A connection that does not join a rate with an endpoint. -/
  | badConnection (connection : Int) (source target : ElementData)
  /-- A rate that has another endpoint at the side already. -/
  | sideTaken (side : Side) (rate : ElementData)
  | badFormula (name : String) (error : ReadError) (id : Int)

namespace Refusal

/-- The wording of a refusal. -/
def message : Refusal → String
  | .duplicateId id => "Duplicate element id " ++ Text.decimal id
  | .unknownType type _ => "Unknown element type '" ++ type ++ "'"
  | .unnamed id => "Element " ++ Text.decimal id ++ " has no name"
  | .valueOutOfRange name _ => "Value of '" ++ name ++ "' must lie between -1e+09 and 1e+09"
  | .unknownConnectionType type => "Unknown connection type '" ++ type ++ "'"
  | .unknownElement connection element =>
      "Connection " ++ Text.decimal connection ++ " refers to unknown element " ++
        Text.decimal element
  | .badConnection connection source target =>
      "Connection " ++ Text.decimal connection ++
        " must join a rate with a level or source/sink (" ++ source.type ++ " -> " ++
        target.type ++ ")"
  | .sideTaken side rate =>
      "Rate '" ++ rate.name.getD "" ++ "' already has a flow " ++ side.word
  | .badFormula name error _ => "Formula of '" ++ name ++ "': " ++ error.message

/-- The element that is to blame. -/
def element? : Refusal → Option Int
  | .duplicateId id => some id
  | .unknownType _ id => some id
  | .unnamed id => some id
  | .valueOutOfRange _ id => some id
  | .unknownConnectionType _ => none
  | .unknownElement _ element => some element
  | .badConnection _ source _ => some source.id
  | .sideTaken _ rate => some rate.id
  | .badFormula _ _ id => some id

end Refusal

/-- Why building a model failed: the data is refused, or a fault of another family arose. -/
inductive BuildFailure where
  | refused (refusal : Refusal)
  | failed (fault : Fault)

/-- An element that was built, with its kind and node. -/
structure BuiltElement where
  element : ElementData
  kind : NodeKind
  node : NodeId

/-- A model under construction. -/
structure Built where
  world : World
  model : ModelId
  elements : List BuiltElement := []

namespace Built

/-- The built element with an id. -/
def find? (b : Built) (id : Int) : Option BuiltElement := b.elements.find? (·.element.id == id)

/-- The id of the element that a node was built from. -/
def elementId? (b : Built) (n : NodeId) : Option Int :=
  (b.elements.find? (·.node == n)).map (·.element.id)

/-- What references in formula texts stand for. -/
def table (b : Built) : Formula.Table NodeId := fun kind id =>
  (b.elements.find? fun e => e.kind == kind.nodeKind && e.element.id == (id : Int)).map (·.node)

/-- An action that is not expected to be refused. -/
def perform {α : Type} (b : Built) (x : Action α) : Except BuildFailure (α × Built) :=
  match x.run b.world with
  | .ok a world => .ok (a, { b with world })
  | .error fault _ => .error (.failed fault)

/-! ## Elements -/

/-- The value of an element; nothing and zeros of either sign stand for zero. -/
def valueOf (e : ElementData) : Float :=
  match e.value with
  | some x => if x == 0.0 then 0.0 else x
  | none => 0.0

/-- The action that creates the node of an element. -/
def creation (m : ModelId) (kind : NodeKind) (e : ElementData) (name : String) : Action NodeId :=
  match kind with
  | .level => Action.createLevel m (.text name) (.real (valueOf e))
  | .constant => Action.createConstant m (.text name) (.real (valueOf e))
  | .rate => Action.createRate m (.text name)
  | .auxiliary => Action.createAuxiliary m (.text name)
  | .sourceSink => Action.createSourceSink m

/-- Adds the node of an element. -/
def addElement (b : Built) (e : ElementData) : Except BuildFailure Built :=
  if (b.find? e.id).isSome then .error (.refused (.duplicateId e.id))
  else
    match NodeKind.ofLabel? e.type with
    | none => .error (.refused (.unknownType e.type e.id))
    | some kind =>
        let name := e.name.getD ""
        if kind != .sourceSink && name.isEmpty then .error (.refused (.unnamed e.id))
        else
          match (creation b.model kind e name).run b.world with
          | .ok node world =>
              .ok { b with world, elements := b.elements ++ [{ element := e, kind, node }] }
          | .error (.outOfRange _ _) _ => .error (.refused (.valueOutOfRange name e.id))
          | .error fault _ => .error (.failed fault)

/-! ## Connections -/

/-- The path that a connection between two kinds of node stands for. -/
def path? : NodeKind → NodeKind → Option FlowPath
  | .level, .rate => some .levelToRate
  | .rate, .level => some .rateToLevel
  | .sourceSink, .rate => some .sourceSinkToRate
  | .rate, .sourceSink => some .rateToSourceSink
  | _, _ => none

/-- Adds the flow between two elements. -/
def addFlow (b : Built) (connection : Int) (source target : BuiltElement) :
    Except BuildFailure Built :=
  match path? source.kind target.kind with
  | none => .error (.refused (.badConnection connection source.element target.element))
  | some path => do
      let (added, b) ←
        b.perform (Action.addFlow b.model path (.node source.node) (.node target.node))
      if added then return b
      else
        let rate := match path.side with
          | .source => target
          | .sink => source
        throw (.refused (.sideTaken path.side rate.element))

/-- Adds the flow of a connection; connections that only show a dependency add none. -/
def addConnection (b : Built) (c : ConnectionData) : Except BuildFailure Built :=
  if c.type == "dependency" then .ok b
  else if c.type != "flow" then .error (.refused (.unknownConnectionType c.type))
  else
    match b.find? c.source, b.find? c.target with
    | none, _ => .error (.refused (.unknownElement c.id c.source))
    | some _, none => .error (.refused (.unknownElement c.id c.target))
    | some source, some target => b.addFlow c.id source target

/-! ## Formulas -/

/-- Sets the formula that the text of an element writes; without a text nothing is set. -/
def addFormula (b : Built) (e : BuiltElement) : Except BuildFailure Built :=
  let text := e.element.formula.getD ""
  if !e.kind.hasFormula || text.isEmpty then .ok b
  else
    match Formula.ofText b.table text with
    | .error error =>
        if error.isBreakdown then .error (.failed (.refused error))
        else .error (.refused (.badFormula (e.element.name.getD "") error e.element.id))
    | .ok f => do
        let (_, b) ← b.perform (Action.setFormula b.model (.node e.node) (.ofFormula f))
        return b

/-- Does one thing after the other until one fails. -/
def addAll {α : Type} (add : Built → α → Except BuildFailure Built) :
    Built → List α → Except BuildFailure Built
  | b, [] => .ok b
  | b, a :: rest => do
      let next ← add b a
      addAll add next rest

/-- Adding nothing leaves a build as it is. -/
@[simp] theorem addAll_nil {α : Type} (add : Built → α → Except BuildFailure Built) (b : Built) :
    addAll add b [] = .ok b := rfl

/-- Items are added in turn, up to the first that fails. -/
theorem addAll_cons {α : Type} (add : Built → α → Except BuildFailure Built) (b : Built) (a : α)
    (rest : List α) :
    addAll add b (a :: rest) = (add b a).bind fun next => addAll add next rest := rfl

end Built

/-- A name of model data as a value. -/
def nameValue : Option String → Value
  | some s => .text s
  | none => .absent

/-- The model of model data, in a world of its own. -/
def ModelData.build (data : ModelData) : Except BuildFailure Built := do
  let empty : World := {}
  let start : Built :=
    { world := empty.addModel { name := nameValue data.name }, model := empty.nextModel }
  let withNodes ← Built.addAll Built.addElement start data.elements
  let withFlows ← Built.addAll Built.addConnection withNodes data.connections
  Built.addAll Built.addFormula withFlows withFlows.elements

end StockFlow
