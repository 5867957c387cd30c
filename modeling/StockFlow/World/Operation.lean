import StockFlow.World.Edit
import StockFlow.World.Removal
import StockFlow.World.Round

/-!
# Operations on models

The public operations as data, so that sessions are lists of operations.  An
operation that fails leaves a world behind too, and the session goes on with it.

Main definitions:

- {lit}`Operation`, {lit}`Outcome`: what can be asked for, and what comes back.
- {lit}`Action.perform`: an operation as an action.
- {lit}`World.step`, {lit}`World.run`: one operation and a whole session.
- {lit}`World.Reachable`: the worlds that sessions lead to.
-/

namespace StockFlow

/-- A public operation with its arguments. -/
inductive Operation where
  | newModel (name : Value)
  | createLevel (m : ModelId) (name value : Value)
  | createRate (m : ModelId) (name : Value)
  | createConstant (m : ModelId) (name value : Value)
  | createAuxiliary (m : ModelId) (name : Value)
  | createSourceSink (m : ModelId)
  | setModelName (m : ModelId) (name : Value)
  | setNodeName (m : ModelId) (node : Argument) (name : Value)
  | setStartValue (m : ModelId) (level : Argument) (value : Value)
  | setConstantValue (m : ModelId) (constant : Argument) (value : Value)
  | setFormula (m : ModelId) (node formula : Argument)
  | addFlow (m : ModelId) (path : FlowPath) (start finish : Argument)
  | removeFlow (m : ModelId) (path : FlowPath) (start finish : Argument)
  | removeNode (m : ModelId) (node : Argument)
  | validate (m : ModelId)
  | lock (m : ModelId)
  | computeRound (m : ModelId)

/-- What an operation gives back. -/
inductive Outcome where
  | done
  | model (m : ModelId)
  | node (n : NodeId)
  | flag (b : Bool)
  deriving DecidableEq, Repr

namespace Action

/-- An operation as an action. -/
def perform : Operation → Action Outcome
  | .newModel name => Outcome.model <$> newModel name
  | .createLevel m name value => Outcome.node <$> createLevel m name value
  | .createRate m name => Outcome.node <$> createRate m name
  | .createConstant m name value => Outcome.node <$> createConstant m name value
  | .createAuxiliary m name => Outcome.node <$> createAuxiliary m name
  | .createSourceSink m => Outcome.node <$> createSourceSink m
  | .setModelName m name => (fun _ => Outcome.done) <$> setModelName m name
  | .setNodeName m node name => (fun _ => Outcome.done) <$> setNodeName m node name
  | .setStartValue m level value => (fun _ => Outcome.done) <$> setStartValue m level value
  | .setConstantValue m constant value =>
      (fun _ => Outcome.done) <$> setConstantValue m constant value
  | .setFormula m node formula => (fun _ => Outcome.done) <$> setFormula m node formula
  | .addFlow m path start finish => Outcome.flag <$> addFlow m path start finish
  | .removeFlow m path start finish => Outcome.flag <$> removeFlow m path start finish
  | .removeNode m node => (fun _ => Outcome.done) <$> removeNode m node
  | .validate m => (fun _ => Outcome.done) <$> validate m
  | .lock m => (fun _ => Outcome.done) <$> lock m
  | .computeRound m => (fun _ => Outcome.done) <$> computeRound m

end Action

namespace World

/-- The world after an operation, whether it failed or not. -/
def step (w : World) (op : Operation) : World := (Action.perform op).worldAfter w

/-- The world after a session. -/
def run (w : World) (ops : List Operation) : World := ops.foldl step w

@[simp] theorem run_nil (w : World) : w.run [] = w := rfl

/-- A session runs its first operation, and then the rest. -/
@[simp] theorem run_cons (w : World) (op : Operation) (ops : List Operation) :
    w.run (op :: ops) = (w.step op).run ops := rfl

/-- A session goes on where the one before it ended. -/
theorem run_append (w : World) (ops ops' : List Operation) :
    w.run (ops ++ ops') = (w.run ops).run ops' := by
  simp [run, List.foldl_append]

/-- Whether a world can be reached from the empty one by a session. -/
def Reachable (w : World) : Prop := ∃ ops, w = World.run {} ops

end World
end StockFlow
