import StockFlow.Service.Answer

/-!
# Checking model data

Model data is checked by building its model and reporting every problem found.
Data that makes no model is answered with its refusal as the only problem.

Main definitions:

- {lit}`Issue.description`: how the answer describes an issue.
- {lit}`checkModel`: the answer of a check.
-/

namespace StockFlow

/-- How an issue names its element: by its kind, and by its name if there is one. -/
def Issue.elementText? (i : Issue) : Option String :=
  i.elementKind.map fun kind =>
    match i.elementName with
    | some name => if name.isEmpty then kind.label else kind.label ++ " '" ++ name ++ "'"
    | none => kind.label

/-- How the answer of a check describes an issue. -/
def Issue.description (i : Issue) : String :=
  match i.elementText? with
  | some element => i.message ++ " (" ++ element ++ ")"
  | none => i.message

/-- The answer about refused data. -/
def Refusal.checkResult (r : Refusal) : CheckResult :=
  { valid := false
    errors := [r.message]
    warnings := []
    findings := [{ severity := .error, message := r.message, element := r.element? }] }

/-- The answer about a report. -/
def Report.checkResult (b : Built) (r : Report) : CheckResult :=
  { valid := r.isValid
    errors := r.errors.map Issue.description
    warnings := r.warnings.map Issue.description
    findings := r.issues.map fun i =>
      { severity := i.severity
        message := i.message
        element := i.node.bind b.elementId?
        issue := some i } }

/-- Builds a model and reports every problem found. -/
def checkModel (data : ModelData) : Answer :=
  match data.build with
  | .error (.refused r) => .checked r.checkResult
  | .error (.failed _) => .crashed
  | .ok b =>
      match b.world.report (b.world.model b.model) with
      | .ok r => .checked (r.checkResult b)
      | .error _ => .crashed

end StockFlow
