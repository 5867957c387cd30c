import StockFlow.Validation.Check

/-!
# Validation reports

A report lists every violation of a model as an issue with a category, a
suggestion and a description of the node, and after them a warning for every
level that no flow ever changes.

Main definitions:

- {lit}`Issue`, {lit}`Report`: one finding, and all findings in order.
- {lit}`World.report`: the report on a model.
-/

namespace StockFlow

/-- How serious an issue is. -/
inductive Severity where
  | warning
  | error
  deriving DecidableEq, Repr

namespace Severity

/-- The word for a severity. -/
def label : Severity → String
  | .warning => "warning"
  | .error => "error"

/-- Every severity. -/
def all : List Severity := [.warning, .error]

end Severity

/-- The rule that an issue is about. -/
inductive Category where
  | composition
  | flowCompatibility
  | missingFormula
  | circularDependency
  | parameterUsage
  deriving DecidableEq, Repr

namespace Category

/-- The word for a category. -/
def label : Category → String
  | .composition => "structure"
  | .flowCompatibility => "flow_compatibility"
  | .missingFormula => "missing_formula"
  | .circularDependency => "circular_dependency"
  | .parameterUsage => "parameter_usage"

/-- Every category. -/
def all : List Category :=
  [.composition, .flowCompatibility, .missingFormula, .circularDependency, .parameterUsage]

end Category

/-- One finding about a model. -/
structure Issue where
  severity : Severity
  category : Category
  message : String
  suggestion : String
  /-- The family of the fault that validation would fail with. -/
  faultKind : Option FaultKind := none
  elementName : Option String := none
  elementKind : Option NodeKind := none
  node : Option NodeId := none
  deriving DecidableEq

/-- All findings about a model, in order. -/
structure Report where
  issues : List Issue := []
  deriving DecidableEq

namespace Report

/-- The issues of a severity. -/
def withSeverity (r : Report) (s : Severity) : List Issue :=
  r.issues.filter fun i => i.severity = s

/-- The issues of a category. -/
def withCategory (r : Report) (c : Category) : List Issue :=
  r.issues.filter fun i => i.category = c

/-- The errors. -/
def errors (r : Report) : List Issue := r.withSeverity .error

/-- The warnings. -/
def warnings (r : Report) : List Issue := r.withSeverity .warning

/-- Whether there is no error. -/
def isValid (r : Report) : Bool := r.errors.isEmpty

end Report

namespace Violation

/-- The rule that a violation breaks. -/
def category : Violation → Category
  | .noLevel => .composition
  | .unconnectedRate _ => .flowCompatibility
  | .missingFormula _ => .missingFormula
  | .auxiliaryCycle => .circularDependency
  | .uselessNode _ => .parameterUsage

/-- How a violation can be mended. -/
def suggestion : Violation → String
  | .noLevel => "Add at least one level node"
  | .unconnectedRate _ => "Connect the rate node to a flow source and a flow sink"
  | .missingFormula _ => "Define a formula for the node"
  | .auxiliaryCycle => "Break the cycle between the auxiliary nodes' formulas"
  | .uselessNode _ => "Use the node in a formula or flow that affects a level node, or remove it"

end Violation

namespace World

/-- A violation as an error. -/
def issueOf (w : World) (v : Violation) : Issue :=
  { severity := .error
    category := v.category
    message := v.message
    suggestion := v.suggestion
    faultKind := some v.faultKind
    elementName := v.node?.bind fun n => (w.node? n).bind Node.name?
    elementKind := v.node?.bind w.kind?
    node := v.node? }

/-- Whether nothing is listed to flow into or out of a level. -/
def isIdle (w : World) (n : NodeId) : Bool :=
  (w.listedAt .sink n).isEmpty && (w.listedAt .source n).isEmpty

/-- The warning about a level without flows. -/
def idleIssue (w : World) (n : NodeId) : Issue :=
  { severity := .warning
    category := .flowCompatibility
    message := "Level node '" ++ w.nameOf n ++ "' has no flows and never changes."
    suggestion := "Connect the level node to a rate node"
    elementName := some (w.nameOf n)
    elementKind := some .level
    node := some n }

/-- The warnings about a model. -/
def idleIssues (w : World) (m : Model) : List Issue :=
  (m.levels.filter w.isIdle).map w.idleIssue

/-- The report on a model; it fails if the search for circles does. -/
def report (w : World) (m : Model) : Except Fault Report :=
  (w.violations m).map fun vs => { issues := vs.map w.issueOf ++ w.idleIssues m }

end World
end StockFlow
