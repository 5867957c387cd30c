import StockFlow.Validation.Check

/-!
# Locking and stepping models

A model is locked once it is valid; the order of its auxiliaries is fixed then.  A
locked model is stepped by rounds, in which nodes are computed one by one.

Main definitions:

- {lit}`Action.validate`, {lit}`Action.lock`: the way to a locked model.
- {lit}`Action.evaluate`, {lit}`Action.nextLevelValue`: the next value of a node.
- {lit}`Action.computeRound`: one round.
-/

namespace StockFlow
namespace Action

/-! ## Validation and locking -/

/-- Fails with the first violation of the model, if there is one. -/
def validate (m : ModelId) : Action Unit := do
  let w ← get
  match w.firstProblem? (w.model m) with
  | some e => throw e
  | none => pure ()

/-- Validates a model and locks it with the evaluation order of its auxiliaries. -/
def lock (m : ModelId) : Action Unit := do
  requireChangeable m
  validate m
  let w ← get
  let order ← ofExcept (w.evaluationOrder (w.model m).auxiliaries)
  set (w.updateModel m fun model => { model with order, changeable := false })

/-! ## Rounds -/

/-- The value of a node's formula. -/
def evaluate (w : World) (n : NodeId) : Except Fault Float :=
  match w.formula? n with
  | some f => .ok (f.eval w.valueOf)
  | none => .error .formulaAbsent

/-- Computes a node's formula and stores the value. -/
def advanceFormula (n : NodeId) : Action Unit := do
  let x ← ofExcept (evaluate (← get) n)
  modify fun w => w.updateNode n (Node.setCurrent x)

/-- Computes nodes one after the other. -/
def advanceAll : List NodeId → Action Unit
  | [] => pure ()
  | n :: rest => do
      advanceFormula n
      advanceAll rest

/-- The values of several formulas in one and the same world. -/
def evaluateAll (w : World) : List NodeId → Except Fault (List (NodeId × Float))
  | [] => .ok []
  | n :: rest => do
      let x ← evaluate w n
      let values ← evaluateAll w rest
      return (n, x) :: values

/-- Stores values. -/
def storeAll (w : World) (values : List (NodeId × Float)) : World :=
  values.foldl (fun w entry => w.updateNode entry.1 (Node.setCurrent entry.2)) w

/-- The current value of what is listed at an endpoint; only nodes have one. -/
def currentOf (w : World) : Entity → Except Fault Float
  | .node n =>
      match w.current? n with
      | some x => .ok x
      | none => .error .noValue
  | e => .error (.lacksMember (e.typeWord w) "get_current_value")

/-- Joins the current values of what is listed to a value, from the left. -/
def accumulate (w : World) (join : Float → Float → Float) :
    Float → List Entity → Except Fault Float
  | x, [] => .ok x
  | x, e :: rest => do
      let y ← currentOf w e
      accumulate w join (join x y) rest

/-- The next value of a level: what flows in is added, then what flows out is taken away. -/
def nextLevelValue (w : World) (n : NodeId) : Except Fault Float := do
  let x ← accumulate w (· + ·) (w.valueOf n) (w.listedAt .sink n)
  accumulate w (· - ·) x (w.listedAt .source n)

/-- Moves a level on by one round. -/
def advanceLevel (n : NodeId) : Action Unit := do
  let x ← ofExcept (nextLevelValue (← get) n)
  modify fun w => w.updateNode n (Node.setCurrent x)

/-- Moves levels on one after the other. -/
def advanceLevels : List NodeId → Action Unit
  | [] => pure ()
  | n :: rest => do
      advanceLevel n
      advanceLevels rest

/--
One round: the auxiliaries in their stored order, then all rates from the values
that stand at that point, then the levels.
-/
def computeRound (m : ModelId) : Action Unit := do
  let w ← get
  let model := w.model m
  if w.isChangeable m then throw .stillChangeable
  advanceAll model.order
  let afterAuxiliaries ← get
  let values ← ofExcept (evaluateAll afterAuxiliaries model.rates)
  set (storeAll afterAuxiliaries values)
  advanceLevels model.levels

end Action
end StockFlow
