import StockFlow.Service.Build
import StockFlow.Validation.Report

/-!
# Answers of the service

Every request gets an answer: what was asked for, a list of schema problems, a
refusal with the element to blame, or, if a fault of no expected family arises,
an answer without content.

Main definitions:

- {lit}`ErrorDetail`, {lit}`RefusalDetail`: why a request is refused.
- {lit}`Simulation`, {lit}`CheckResult`: the two answers about a model.
- {lit}`Answer`: what comes back.
-/

namespace StockFlow

/-- Why a model is not simulated. -/
structure ErrorDetail where
  message : String
  /-- The name of the family of the fault. -/
  family : String
  element : Option Int := none

/-- Why a request is refused. -/
inductive RefusalDetail where
  | text (message : String)
  | error (detail : ErrorDetail)

/-- A series of values in which those that are not finite are left out. -/
abbrev Series := List (String × List (Option Float))

/-- The answer of a simulation. -/
structure Simulation where
  time : List Nat
  levels : Series
  rates : Series
  auxiliaries : Series
  message : String

/-- A finding in the answer of a check; a refusal is known by message and element only. -/
structure Finding where
  severity : Severity
  message : String
  element : Option Int
  issue : Option Issue := none

/-- The answer of a check. -/
structure CheckResult where
  valid : Bool
  errors : List String
  warnings : List String
  findings : List Finding

/-- What comes back. -/
inductive Answer where
  | greeting
  | savedModels (ids : List String)
  | saved (id : String)
  | loaded (data : ModelData)
  | noSuchModel
  /-- The address names nothing. -/
  | noSuchResource
  /-- The address names what cannot be fetched. -/
  | cannotBeFetched
  | schemaProblems (problems : List SchemaProblem)
  | simulated (result : Simulation)
  | checked (result : CheckResult)
  | refused (detail : RefusalDetail)
  | crashed

end StockFlow
