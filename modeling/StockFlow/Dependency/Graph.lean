import StockFlow.World.Action

/-!
# Dependency graphs

The dependency graph of a model has its nodes, an edge from every formula leaf to
the node with the formula, and edges along every flow from the source through the
rate to the sink.  There is one edge for an ordered pair; a flow takes the place
of a formula edge.  An end that the model does not own is a node of the graph
without kind and label.

Main definitions:

- {lit}`DependencyGraph.addNode`, {lit}`DependencyGraph.addEdge`: the two ways to grow a graph.
- {lit}`World.dependencyGraph`: the graph of a model.
-/

namespace StockFlow

/-- What an edge stands for. -/
inductive EdgeKind where
  | formula
  | flow
  deriving DecidableEq, Repr

/-- The word for an edge. -/
def EdgeKind.label : EdgeKind → String
  | .formula => "formula"
  | .flow => "flow"

/-- A directed graph with at most one edge for an ordered pair, in the order of insertion. -/
structure DependencyGraph where
  nodes : List (NodeId × Option (NodeKind × String)) := []
  edges : List ((NodeId × NodeId) × EdgeKind) := []

namespace DependencyGraph

/-- Whether a node is in the graph. -/
def hasNode (g : DependencyGraph) (n : NodeId) : Bool := g.nodes.any (·.1 == n)

/-- Whether there is an edge for an ordered pair. -/
def hasEdge (g : DependencyGraph) (x y : NodeId) : Bool := g.edges.any (·.1 == (x, y))

/-- Adds a node with kind and label. -/
def addNode (g : DependencyGraph) (n : NodeId) (kind : NodeKind) (label : String) :
    DependencyGraph :=
  if g.hasNode n then
    { g with nodes := g.nodes.map fun entry => if entry.1 = n then (n, some (kind, label)) else entry }
  else { g with nodes := g.nodes ++ [(n, some (kind, label))] }

/-- Adds a node without kind and label unless it is there. -/
def touchNode (g : DependencyGraph) (n : NodeId) : DependencyGraph :=
  if g.hasNode n then g else { g with nodes := g.nodes ++ [(n, none)] }

/-- Adds an edge and its ends; an edge that is there takes the new kind. -/
def addEdge (g : DependencyGraph) (x y : NodeId) (kind : EdgeKind) : DependencyGraph :=
  let g := (g.touchNode x).touchNode y
  if g.hasEdge x y then
    { g with edges := g.edges.map fun entry => if entry.1 = (x, y) then ((x, y), kind) else entry }
  else { g with edges := g.edges ++ [((x, y), kind)] }

end DependencyGraph

namespace World

/-- The text at a node of a graph. -/
def graphLabel (w : World) (n : NodeId) : String :=
  if w.isKind .sourceSink n then "source/sink" else w.nameOf n

/-- The owned nodes with kinds and labels. -/
def graphNodes (w : World) (m : Model) : List (NodeId × NodeKind × String) :=
  NodeKind.all.flatMap fun kind => (m.members kind).map fun n => (n, kind, w.graphLabel n)

/-- The edges from formula leaves to the nodes whose formulas read them. -/
def formulaEdges (w : World) (m : Model) : List (NodeId × NodeId) :=
  m.formulaOwners.flatMap fun y => (w.formulaReads y).map fun x => (x, y)

/-- The edges along flows: from each source to its rate and from the rate to its sink. -/
def flowEdges (w : World) (m : Model) : List (NodeId × NodeId) :=
  m.rates.flatMap fun r =>
    (w.endpoint? .source r).toList.map (fun e => (e, r)) ++
      (w.endpoint? .sink r).toList.map (fun e => (r, e))

/-- The dependency graph of a model. -/
def dependencyGraph (w : World) (m : Model) : DependencyGraph :=
  let withNodes := (w.graphNodes m).foldl (fun g entry => g.addNode entry.1 entry.2.1 entry.2.2) {}
  let withFormulas := (w.formulaEdges m).foldl (fun g e => g.addEdge e.1 e.2 .formula) withNodes
  (w.flowEdges m).foldl (fun g e => g.addEdge e.1 e.2 .flow) withFormulas

end World
end StockFlow
