import StockFlow.Node

/-!
# Worlds

A world holds every node and every model that was ever created.  A model lists
the nodes that it owns; a node that was removed from its model stays in the
world, so that whoever still knows it can go on using it, and nothing but the
lists says to whom a node belongs.

Main definitions:

- {lit}`Model`: name, lock flag, stored evaluation order and the lists of owned nodes.
- {lit}`World`, {lit}`World.node?`, {lit}`World.model?`: the state and its views.
- {lit}`World.updateNode`, {lit}`World.updateModel`, {lit}`World.addNode`: the only ways to change it.

Main results:

- {lit}`World.node?_updateNode`, {lit}`World.node?_addNode` and their companions say
  what each change does to each view.
-/

namespace StockFlow

/-- A model: the nodes it owns, and whether it may still be changed. -/
structure Model where
  name : Value := .absent
  changeable : Bool := true
  /-- The order in which the auxiliaries are computed, fixed when the model is locked. -/
  order : List NodeId := []
  levels : List NodeId := []
  rates : List NodeId := []
  constants : List NodeId := []
  auxiliaries : List NodeId := []
  sourceSinks : List NodeId := []
  deriving Inhabited

namespace Model

/-- The owned nodes of a kind, in the order of their creation. -/
def members (m : Model) : NodeKind → List NodeId
  | .level => m.levels
  | .rate => m.rates
  | .constant => m.constants
  | .auxiliary => m.auxiliaries
  | .sourceSink => m.sourceSinks

/-- Changes the list of owned nodes of a kind. -/
def mapMembers (kind : NodeKind) (f : List NodeId → List NodeId) (m : Model) : Model :=
  match kind with
  | .level => { m with levels := f m.levels }
  | .rate => { m with rates := f m.rates }
  | .constant => { m with constants := f m.constants }
  | .auxiliary => { m with auxiliaries := f m.auxiliaries }
  | .sourceSink => { m with sourceSinks := f m.sourceSinks }

/-- All owned nodes: levels, rates, constants, auxiliaries, sources and sinks. -/
def nodes (m : Model) : List NodeId :=
  m.levels ++ m.rates ++ m.constants ++ m.auxiliaries ++ m.sourceSinks

/-- The owned nodes with formulas, rates first. -/
def formulaOwners (m : Model) : List NodeId := m.rates ++ m.auxiliaries

/-- A change to the nodes of one kind is made to these nodes. -/
@[simp] theorem members_mapMembers (kind : NodeKind) (f : List NodeId → List NodeId) (m : Model) :
    (m.mapMembers kind f).members kind = f (m.members kind) := by
  cases kind <;> rfl

/-- A change to the nodes of one kind leaves the nodes of other kinds alone. -/
theorem members_mapMembers_of_ne {kind kind' : NodeKind} (h : kind' ≠ kind)
    (f : List NodeId → List NodeId) (m : Model) :
    (m.mapMembers kind f).members kind' = m.members kind' := by
  cases kind <;> cases kind' <;> simp_all [mapMembers, members]

/-- A change to the nodes of a model does not lock or unlock it. -/
@[simp] theorem changeable_mapMembers (kind : NodeKind) (f : List NodeId → List NodeId)
    (m : Model) : (m.mapMembers kind f).changeable = m.changeable := by
  cases kind <;> rfl

/-- A change to the nodes of a model leaves its evaluation order alone. -/
@[simp] theorem order_mapMembers (kind : NodeKind) (f : List NodeId → List NodeId) (m : Model) :
    (m.mapMembers kind f).order = m.order := by
  cases kind <;> rfl

@[simp] theorem name_mapMembers (kind : NodeKind) (f : List NodeId → List NodeId) (m : Model) :
    (m.mapMembers kind f).name = m.name := by
  cases kind <;> rfl

/-- A node is owned if it is among the members of some kind. -/
theorem mem_nodes {m : Model} {n : NodeId} : n ∈ m.nodes ↔ ∃ kind, n ∈ m.members kind := by
  simp only [nodes, List.mem_append]
  constructor
  · rintro ((((h | h) | h) | h) | h)
    · exact ⟨.level, h⟩
    · exact ⟨.rate, h⟩
    · exact ⟨.constant, h⟩
    · exact ⟨.auxiliary, h⟩
    · exact ⟨.sourceSink, h⟩
  · rintro ⟨kind, h⟩
    cases kind <;> simp_all [members]

end Model

/-- All nodes and models. -/
structure World where
  nodes : Array Node := #[]
  models : Array Model := #[]
  deriving Inhabited

namespace World

/-! ## Views -/

/-- The content of a node. -/
def node? (w : World) (n : NodeId) : Option Node := w.nodes[n.index]?

/-- The content of a model. -/
def model? (w : World) (m : ModelId) : Option Model := w.models[m.index]?

/-- The content of a model; one that does not exist is empty and locked. -/
def model (w : World) (m : ModelId) : Model :=
  (w.model? m).getD { changeable := false }

/-- Whether a model exists and is not locked. -/
def isChangeable (w : World) (m : ModelId) : Bool := (w.model m).changeable

/-- The kind of a node. -/
def kind? (w : World) (n : NodeId) : Option NodeKind := (w.node? n).map Node.kind

/-- The name of a node; empty for a node without a name. -/
def nameOf (w : World) (n : NodeId) : String := ((w.node? n).bind Node.name?).getD ""

/-- The formula of a node. -/
def formula? (w : World) (n : NodeId) : Option (Formula NodeId) := (w.node? n).bind Node.formula?

/-- The current value of a node that has one. -/
def current? (w : World) (n : NodeId) : Option Float := (w.node? n).bind Node.current?

/-- The current value of a node as formulas read it. -/
def valueOf (w : World) (n : NodeId) : Float := (w.current? n).getD 0.0

/-- The endpoint at a side of a rate. -/
def endpoint? (w : World) (side : Side) (n : NodeId) : Option NodeId :=
  (w.node? n).bind (Node.endpoint? side)

/-- What is listed at a side of a node. -/
def listedAt (w : World) (side : Side) (n : NodeId) : List Entity :=
  ((w.node? n).map (Node.listed side)).getD []

/-- The nodes that are listed at a side of a node: the rates that have it there. -/
def ratesAt (w : World) (side : Side) (n : NodeId) : List NodeId := nodesOf (w.listedAt side n)

/-- The nodes that a node's formula reads, in the order of their first appearance. -/
def formulaReads (w : World) (n : NodeId) : List NodeId :=
  ((w.node? n).map Node.formulaReads).getD []

/-- A node as a leaf of a written formula. -/
def leafText (w : World) (n : NodeId) : String := ((w.node? n).map Node.leafText).getD ""

/-- A formula written with the names of its nodes. -/
def formulaText (w : World) (f : Formula NodeId) : String := f.text w.leafText

/-- A model as messages show it. -/
def shownModel (w : World) (m : ModelId) : String :=
  let model := w.model m
  let count := fun (ns : List NodeId) => Text.decimal ns.length
  "Model(" ++ model.name.shown ++ ", levels=" ++ count model.levels ++ ", rates=" ++
    count model.rates ++ ", constants=" ++ count model.constants ++ ", auxiliaries=" ++
    count model.auxiliaries ++ ", source_sinks=" ++ count model.sourceSinks ++ ")"

/-- Whether a node is of a kind. -/
def isKind (w : World) (kind : NodeKind) (n : NodeId) : Bool := w.kind? n == some kind

/-! ## Changes -/

/-- Changes the content of a node. -/
def updateNode (w : World) (n : NodeId) (f : Node → Node) : World :=
  { w with nodes := w.nodes.modify n.index f }

/-- Changes the content of a model. -/
def updateModel (w : World) (m : ModelId) (f : Model → Model) : World :=
  { w with models := w.models.modify m.index f }

/-- The identity that the next node gets. -/
def nextNode (w : World) : NodeId := ⟨w.nodes.size⟩

/-- The identity that the next model gets. -/
def nextModel (w : World) : ModelId := ⟨w.models.size⟩

/-- Adds a node; its identity is {lit}`nextNode`. -/
def addNode (w : World) (node : Node) : World := { w with nodes := w.nodes.push node }

/-- Adds a model; its identity is {lit}`nextModel`. -/
def addModel (w : World) (model : Model) : World := { w with models := w.models.push model }

/-! ## What the changes do to the views -/

/-- Nodes are told apart by their numbers. -/
theorem index_injective {a b : NodeId} : a.index = b.index ↔ a = b := by
  cases a
  cases b
  simp

/-- Models are told apart by their numbers. -/
theorem modelIndex_injective {a b : ModelId} : a.index = b.index ↔ a = b := by
  cases a
  cases b
  simp

/-- An update is made to the node with its number and to no other. -/
theorem node?_updateNode (w : World) (n k : NodeId) (f : Node → Node) :
    (w.updateNode n f).node? k = if n = k then (w.node? k).map f else w.node? k := by
  simp only [updateNode, node?, Array.getElem?_modify, index_injective]

@[simp] theorem node?_updateNode_self (w : World) (n : NodeId) (f : Node → Node) :
    (w.updateNode n f).node? n = (w.node? n).map f := by
  simp [node?_updateNode]

theorem node?_updateNode_of_ne (w : World) {n k : NodeId} (h : n ≠ k) (f : Node → Node) :
    (w.updateNode n f).node? k = w.node? k := by
  simp [node?_updateNode, h]

/-- An update of a node touches no model. -/
@[simp] theorem model?_updateNode (w : World) (n : NodeId) (f : Node → Node) (m : ModelId) :
    (w.updateNode n f).model? m = w.model? m := rfl

@[simp] theorem model_updateNode (w : World) (n : NodeId) (f : Node → Node) (m : ModelId) :
    (w.updateNode n f).model m = w.model m := rfl

/-- An update of a model touches no node. -/
@[simp] theorem node?_updateModel (w : World) (m : ModelId) (f : Model → Model) (n : NodeId) :
    (w.updateModel m f).node? n = w.node? n := rfl

/-- An update is made to the model with its number and to no other. -/
theorem model?_updateModel (w : World) (m k : ModelId) (f : Model → Model) :
    (w.updateModel m f).model? k = if m = k then (w.model? k).map f else w.model? k := by
  simp only [updateModel, model?, Array.getElem?_modify, modelIndex_injective]

/-- A new node gets the next number, and all others keep theirs. -/
theorem node?_addNode (w : World) (node : Node) (n : NodeId) :
    (w.addNode node).node? n = if n = w.nextNode then some node else w.node? n := by
  simp only [addNode, node?, nextNode, Array.getElem?_push]
  congr 1
  cases n
  simp

/-- The next number is free. -/
@[simp] theorem node?_nextNode (w : World) : w.node? w.nextNode = none := by
  simp [node?, nextNode]

/-- A new node is in no model yet. -/
@[simp] theorem model?_addNode (w : World) (node : Node) (m : ModelId) :
    (w.addNode node).model? m = w.model? m := rfl

/-- A new model has no node. -/
@[simp] theorem node?_addModel (w : World) (model : Model) (n : NodeId) :
    (w.addModel model).node? n = w.node? n := rfl

/-- A new model gets the next number, and all others keep theirs. -/
theorem model?_addModel (w : World) (model : Model) (m : ModelId) :
    (w.addModel model).model? m = if m = w.nextModel then some model else w.model? m := by
  simp only [addModel, model?, nextModel, Array.getElem?_push]
  congr 1
  cases m
  simp

end World
end StockFlow
