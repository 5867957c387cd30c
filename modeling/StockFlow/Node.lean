import StockFlow.Entity
import StockFlow.Formula.Render

/-!
# Nodes of stock-and-flow models

A level is a stock with a start value; a rate moves quantity from its source to
its sink; a constant keeps its value; an auxiliary is computed from its formula;
a source/sink stands for what lies beyond the model's boundary.  Levels and
sources/sinks are endpoints: they list the rates flowing in and out, in the order
in which the flows were added.

A flow is stored twice, at the rate and at the endpoint.  {lit}`Side` names the
two ends of a rate, so that one definition serves both.

Main definitions:

- {lit}`NodeKind`, {lit}`Node`: kinds and contents.
- {lit}`Side`, {lit}`Flows.listed`, {lit}`Node.endpoint?`: the two ends of a flow.
- {lit}`Flows.rates`, {lit}`Node.rates`: the rates that have an endpoint at a side.
- {lit}`Node.current?`, {lit}`Node.formula?`: what formulas read and what they define.
-/

namespace StockFlow

/-- The five kinds of node. -/
inductive NodeKind where
  | level
  | rate
  | constant
  | auxiliary
  | sourceSink
  deriving DecidableEq, Repr, Inhabited

namespace NodeKind

/-- The word for a kind in reports and graphs. -/
def label : NodeKind → String
  | .level => "level"
  | .rate => "rate"
  | .constant => "constant"
  | .auxiliary => "auxiliary"
  | .sourceSink => "source_sink"

/-- Every kind, in the order in which a model lists its nodes. -/
def all : List NodeKind := [.level, .rate, .constant, .auxiliary, .sourceSink]

/-- The kind with a given word. -/
def ofLabel? (s : String) : Option NodeKind := all.find? (·.label == s)

/-- How messages name the type of a node of a kind. -/
def typeWord : NodeKind → String
  | .level => "LevelNode"
  | .rate => "RateNode"
  | .constant => "ConstantNode"
  | .auxiliary => "AuxiliaryNode"
  | .sourceSink => "SourceSinkNode"

/-- The letters behind the name of a formula leaf; sources and sinks are no leaves. -/
def leafLetters : NodeKind → String
  | .level => "LN"
  | .rate => "RN"
  | .constant => "CN"
  | .auxiliary => "AN"
  | .sourceSink => ""

/-- Whether a node of the kind can be read by a formula. -/
def isLeaf : NodeKind → Bool
  | .sourceSink => false
  | _ => true

/-- Whether flows can start and end at a node of the kind. -/
def isEndpoint : NodeKind → Bool
  | .level | .sourceSink => true
  | _ => false

/-- Whether a node of the kind has a formula. -/
def hasFormula : NodeKind → Bool
  | .rate | .auxiliary => true
  | _ => false

end NodeKind

/-- The two ends of a rate. -/
inductive Side where
  | source
  | sink
  deriving DecidableEq, Repr, Inhabited

namespace Side

/-- The other end. -/
def other : Side → Side
  | .source => .sink
  | .sink => .source

/-- The word for an end in messages. -/
def word : Side → String
  | .source => "source"
  | .sink => "sink"

/-- The other side of the other side is the side itself. -/
@[simp] theorem other_other (side : Side) : side.other.other = side := by
  cases side <;> rfl

/-- A side that differs from another is the other one. -/
theorem eq_other_of_ne {side side' : Side} (h : side' ≠ side) : side' = side.other := by
  cases side <;> cases side' <;> first | rfl | exact absurd rfl h

end Side

/--
What is listed at an endpoint, in the order in which it was added.  Operations of
models list rates only; single steps at a node may list any key.
-/
structure Flows where
  incoming : List Entity := []
  outgoing : List Entity := []
  deriving Inhabited

namespace Flows

/-- What is listed at a side: the endpoint is the source of what flows out. -/
def listed (flows : Flows) : Side → List Entity
  | .source => flows.outgoing
  | .sink => flows.incoming

/-- The nodes that are listed at a side. -/
def rates (flows : Flows) (side : Side) : List NodeId := nodesOf (flows.listed side)

/-- Changes the list of one side. -/
def mapSide (side : Side) (f : List Entity → List Entity) (flows : Flows) : Flows :=
  match side with
  | .source => { flows with outgoing := f flows.outgoing }
  | .sink => { flows with incoming := f flows.incoming }

/-- A change to the rates of one side is made to these rates. -/
@[simp] theorem listed_mapSide (side : Side) (f : List Entity → List Entity) (flows : Flows) :
    (flows.mapSide side f).listed side = f (flows.listed side) := by
  cases side <;> rfl

/-- A change to the rates of one side leaves the other side alone. -/
@[simp] theorem listed_mapSide_other (side : Side) (f : List Entity → List Entity)
    (flows : Flows) : (flows.mapSide side f).listed side.other = flows.listed side.other := by
  cases side <;> rfl

@[simp] theorem rates_mapSide_other (side : Side) (f : List Entity → List Entity)
    (flows : Flows) : (flows.mapSide side f).rates side.other = flows.rates side.other := by
  cases side <;> rfl

/-- Flows are told by the rates of both sides. -/
@[ext] theorem ext_listed {a b : Flows} (h : ∀ side, a.listed side = b.listed side) : a = b := by
  cases a
  cases b
  have h₁ := h .source
  have h₂ := h .sink
  simp only [listed] at h₁ h₂
  simp [h₁, h₂]

/-- Listing a rate at a side. -/
@[simp] theorem rates_mapSide_insertKey (side : Side) (r : NodeId) (flows : Flows) :
    (flows.mapSide side (insertKey (.node r))).rates side = insertNode r (flows.rates side) := by
  simp [rates]

/-- Taking a rate from the list of a side. -/
@[simp] theorem rates_mapSide_eraseKey (side : Side) (r : NodeId) (flows : Flows) :
    (flows.mapSide side (eraseKey (.node r))).rates side = (flows.rates side).erase r := by
  simp [rates]

/-- Whether nothing is listed. -/
def isEmpty (flows : Flows) : Bool := flows.incoming.isEmpty && flows.outgoing.isEmpty

end Flows

/-- A stock. -/
structure Level where
  name : String
  start : Float
  current : Float
  flows : Flows := {}

/-- A flow between two endpoints. -/
structure Rate where
  name : String
  current : Float := 0.0
  formula : Option (Formula NodeId) := none
  source : Option NodeId := none
  sink : Option NodeId := none

namespace Rate

/-- The endpoint at a side. -/
def endpoint (r : Rate) : Side → Option NodeId
  | .source => r.source
  | .sink => r.sink

/-- Replaces the endpoint at a side. -/
def withEndpoint (side : Side) (e : Option NodeId) (r : Rate) : Rate :=
  match side with
  | .source => { r with source := e }
  | .sink => { r with sink := e }

/-- A rate has the endpoint that it is given. -/
@[simp] theorem endpoint_withEndpoint (side : Side) (e : Option NodeId) (r : Rate) :
    (r.withEndpoint side e).endpoint side = e := by
  cases side <;> rfl

/-- A rate that is given an endpoint keeps the one on the other side. -/
@[simp] theorem endpoint_withEndpoint_other (side : Side) (e : Option NodeId) (r : Rate) :
    (r.withEndpoint side e).endpoint side.other = r.endpoint side.other := by
  cases side <;> rfl

@[simp] theorem endpoint_other_withEndpoint (side : Side) (e : Option NodeId) (r : Rate) :
    (r.withEndpoint side.other e).endpoint side = r.endpoint side := by
  cases side <;> rfl

end Rate

/-- A fixed value. -/
structure Constant where
  name : String
  value : Float

/-- A value computed from its formula in every round. -/
structure Auxiliary where
  name : String
  current : Float := 0.0
  formula : Option (Formula NodeId) := none

/-- A node with its content. -/
inductive Node where
  | level (content : Level)
  | rate (content : Rate)
  | constant (content : Constant)
  | auxiliary (content : Auxiliary)
  | sourceSink (flows : Flows)

namespace Node

/-! ## Views -/

/-- The kind of a node. -/
def kind : Node → NodeKind
  | .level _ => .level
  | .rate _ => .rate
  | .constant _ => .constant
  | .auxiliary _ => .auxiliary
  | .sourceSink _ => .sourceSink

/-- The name; sources and sinks have none. -/
def name? : Node → Option String
  | .level l => some l.name
  | .rate r => some r.name
  | .constant c => some c.name
  | .auxiliary a => some a.name
  | .sourceSink _ => none

/-- The current value; sources and sinks have none. -/
def current? : Node → Option Float
  | .level l => some l.current
  | .rate r => some r.current
  | .constant c => some c.value
  | .auxiliary a => some a.current
  | .sourceSink _ => none

/-- The formula of a rate or an auxiliary, if one is set. -/
def formula? : Node → Option (Formula NodeId)
  | .rate r => r.formula
  | .auxiliary a => a.formula
  | _ => none

/-- The flows of an endpoint. -/
def flows? : Node → Option Flows
  | .level l => some l.flows
  | .sourceSink flows => some flows
  | _ => none

/-- The endpoint at a side of a rate. -/
def endpoint? (side : Side) : Node → Option NodeId
  | .rate r => r.endpoint side
  | _ => none

/-- What is listed at a side of an endpoint. -/
def listed (side : Side) : Node → List Entity
  | .level l => l.flows.listed side
  | .sourceSink flows => flows.listed side
  | _ => []

/-- The nodes that are listed at a side of an endpoint. -/
def rates (side : Side) (node : Node) : List NodeId := nodesOf (node.listed side)

/-- The nodes that the formula reads, in the order of their first appearance. -/
def formulaReads (node : Node) : List NodeId :=
  match node.formula? with
  | some f => f.reads
  | none => []

/-- The node as messages show it. -/
def shown (node : Node) : String :=
  match node.name? with
  | some name => node.kind.typeWord ++ "(" ++ Text.quoted name ++ ")"
  | none => node.kind.typeWord ++ "(at 0x?)"

/-- The node as a leaf of a written formula. -/
def leafText (node : Node) : String :=
  node.name?.getD "" ++ "(" ++ node.kind.leafLetters ++ ")"

/-! ## Changes -/

/-- Gives a node another name. -/
def rename (name : String) : Node → Node
  | .level l => .level { l with name }
  | .rate r => .rate { r with name }
  | .constant c => .constant { c with name }
  | .auxiliary a => .auxiliary { a with name }
  | .sourceSink flows => .sourceSink flows

/-- Replaces the formula of a rate or an auxiliary. -/
def setFormula (f : Option (Formula NodeId)) : Node → Node
  | .rate r => .rate { r with formula := f }
  | .auxiliary a => .auxiliary { a with formula := f }
  | node => node

/-- Replaces the current value of a level, a rate or an auxiliary. -/
def setCurrent (x : Float) : Node → Node
  | .level l => .level { l with current := x }
  | .rate r => .rate { r with current := x }
  | .auxiliary a => .auxiliary { a with current := x }
  | node => node

/-- Replaces the start value of a level, and with it the current value. -/
def setStart (x : Float) : Node → Node
  | .level l => .level { l with start := x, current := x }
  | node => node

/-- Replaces the value of a constant. -/
def setValue (x : Float) : Node → Node
  | .constant c => .constant { c with value := x }
  | node => node

/-- Changes the list at one side of an endpoint. -/
def mapListed (side : Side) (f : List Entity → List Entity) : Node → Node
  | .level l => .level { l with flows := l.flows.mapSide side f }
  | .sourceSink flows => .sourceSink (flows.mapSide side f)
  | node => node

/-- Replaces the endpoint at one side of a rate. -/
def setEndpoint (side : Side) (e : Option NodeId) : Node → Node
  | .rate r => .rate (r.withEndpoint side e)
  | node => node

end Node
end StockFlow
