import StockFlow.Node

/-!
# Violations of a model's structure

Each structural rule of a model has one way of being broken; all but two name
the node that breaks it.
-/

namespace StockFlow

/-- How a model breaks a structural rule. -/
inductive Violation where
  /-- There is no level at all. -/
  | noLevel
  /-- A rate lacks its source or its sink. -/
  | unconnectedRate (rate : NodeId)
  /-- A rate or an auxiliary has no formula. -/
  | missingFormula (node : NodeId)
  /-- The formulas of the auxiliaries read each other in a circle. -/
  | auxiliaryCycle
  /-- A constant, an auxiliary or a source/sink influences no level. -/
  | uselessNode (node : NodeId)
  deriving DecidableEq, Repr

namespace Violation

/-- The node that breaks the rule, if the rule is about a single node. -/
def node? : Violation → Option NodeId
  | .noLevel => none
  | .unconnectedRate n => some n
  | .missingFormula n => some n
  | .auxiliaryCycle => none
  | .uselessNode n => some n

/-- The wording of a violation by a rate without an end. -/
def unconnectedMessage : String := "A rate node has no incoming or no outgoing flow."

/-- The wording of a violation. -/
def message : Violation → String
  | .noLevel => "The System Dynamics model has no level node."
  | .unconnectedRate _ => unconnectedMessage
  | .missingFormula _ => "A rate node or an auxiliary node has no formula."
  | .auxiliaryCycle => "The model's auxiliary nodes have a cycle dependency."
  | .uselessNode _ => "There is a useless node in the model."

end Violation
end StockFlow
