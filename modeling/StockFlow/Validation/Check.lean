import StockFlow.Dependency.Influence
import StockFlow.Dependency.Order

/-!
# Structural validation

A model is valid if it has a level, every rate has both ends, every rate and
auxiliary has a formula, the auxiliaries do not read each other in a circle, and
every constant, auxiliary and source/sink influences some level.  Violations come
in this order, within a rule in the order of creation, rates before auxiliaries.

Looking for a circle fails if a formula reads an auxiliary that the model does
not own.  Validation stops at the first violation, so it only fails in this way
if no earlier rule is broken; a full list of violations fails whenever the search
does.

Main definitions:

- {lit}`World.localViolations`, {lit}`World.cycleViolations`, {lit}`World.uselessViolations`.
- {lit}`World.violations`: all violations of a model in order.
- {lit}`World.firstProblem?`: what validation fails with.
-/

namespace StockFlow
namespace World

/-- The levels are missing. -/
def levelViolations (m : Model) : List Violation :=
  if m.levels.isEmpty then [.noLevel] else []

/-- Whether a rate lacks an end. -/
def isUnconnected (w : World) (r : NodeId) : Bool :=
  (w.endpoint? .source r).isNone || (w.endpoint? .sink r).isNone

/-- The rates that lack an end. -/
def flowViolations (w : World) (m : Model) : List Violation :=
  (m.rates.filter w.isUnconnected).map .unconnectedRate

/-- The rates, then the auxiliaries, without a formula. -/
def formulaViolations (w : World) (m : Model) : List Violation :=
  (m.formulaOwners.filter fun n => (w.formula? n).isNone).map .missingFormula

/-- The violations of the rules that look at one node at a time. -/
def localViolations (w : World) (m : Model) : List Violation :=
  levelViolations m ++ w.flowViolations m ++ w.formulaViolations m

/-- A circle of auxiliaries, unless the search for it fails. -/
def cycleViolations (w : World) (m : Model) : Except Fault (List Violation) :=
  (w.hasAuxiliaryCycle m.auxiliaries).map fun found => if found then [.auxiliaryCycle] else []

/-- The nodes that must influence a level: constants, auxiliaries, sources and sinks. -/
def nodesToBeUsed (m : Model) : List NodeId := m.constants ++ m.auxiliaries ++ m.sourceSinks

/-- The nodes that influence no level. -/
def uselessViolations (w : World) (m : Model) : List Violation :=
  let used := w.influencing m.levels
  ((nodesToBeUsed m).filter fun n => !used.contains n).map .uselessNode

/-- All violations of a model. -/
def violations (w : World) (m : Model) : Except Fault (List Violation) :=
  match w.cycleViolations m with
  | .ok cycle => .ok (w.localViolations m ++ cycle ++ w.uselessViolations m)
  | .error e => .error e

/-- The first violation of a list as a fault. -/
def firstInvalid? (violations : List Violation) : Option Fault :=
  violations.head?.map .invalid

/-- What keeps a model from being valid, found in the order of the rules. -/
def firstProblem? (w : World) (m : Model) : Option Fault :=
  match firstInvalid? (w.localViolations m) with
  | some e => some e
  | none =>
      match w.cycleViolations m with
      | .error e => some e
      | .ok cycle =>
          match firstInvalid? cycle with
          | some e => some e
          | none => firstInvalid? (w.uselessViolations m)

end World
end StockFlow
