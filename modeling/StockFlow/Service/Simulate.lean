import StockFlow.Execution.Run
import StockFlow.Service.Answer

/-!
# Simulating model data

Model data is simulated by building, locking and running its model.  The number of
rounds is checked before anything is built.

Main definitions:

- {lit}`ModelData.rounds?`: the number of rounds that model data asks for.
- {lit}`simulate`: the answer of a simulation.
-/

namespace StockFlow

/-- The settings of the service. -/
def serviceSettings : Settings := Settings.standard

/-- The rounds that a simulation runs if its data does not ask for a number. -/
def usualRounds : Value := serviceSettings.defaultRounds.value

/-- The number of rounds that model data asks for, if it can be simulated. -/
def ModelData.rounds? (data : ModelData) : Option Nat :=
  match (data.parameters.lookup "rounds").getD usualRounds with
  | .integer n =>
      if 1 ≤ n ∧ serviceSettings.maxRounds.isBelow (.whole n) = false then some n.toNat else none
  | _ => none

/-- The refusal of a number of rounds. -/
def roundsRefusal : Answer :=
  .refused (.text ("'rounds' must be an integer between 1 and " ++
    serviceSettings.maxRounds.value.display))

/-- The detail about a refusal of model data. -/
def Refusal.detail (r : Refusal) : ErrorDetail :=
  { message := r.message, family := "ModelBuildError", element := r.element? }

/-- The detail about a fault. -/
def faultDetail (element : Option Int) (fault : Fault) : ErrorDetail :=
  { message := fault.message, family := fault.kind.word, element }

/-- Columns without the values that are not finite. -/
def finiteSeries (columns : Columns) : Series :=
  columns.map fun entry =>
    (entry.1, entry.2.map fun x => if Double.isFinite x then some x else none)

/-- Runs a locked model. -/
def simulateLocked (w : World) (m : ModelId) (rounds : Nat) : Answer :=
  match Execution.start w m serviceSettings with
  | .error fault => .refused (.error (faultDetail none fault))
  | .ok x =>
      let outcome := x.run w (.integer rounds)
      match outcome.fault with
      | some fault => .refused (.error (faultDetail none fault))
      | none =>
          let results := outcome.execution.results
          .simulated
            { time := results.time
              levels := finiteSeries results.levels
              rates := finiteSeries results.rates
              auxiliaries := finiteSeries results.auxiliaries
              message := "Simulation of " ++ Text.decimal rounds ++
                " rounds completed successfully" }

/-- Builds, locks and runs a model. -/
def simulate (data : ModelData) : Answer :=
  match data.rounds? with
  | none => roundsRefusal
  | some rounds =>
      match data.build with
      | .error (.refused r) => .refused (.error r.detail)
      | .error (.failed _) => .crashed
      | .ok b =>
          match (Action.lock b.model).run b.world with
          | .ok _ w => simulateLocked w b.model rounds
          | .error (.invalid v) _ =>
              .refused (.error (faultDetail (v.node?.bind b.elementId?) (.invalid v)))
          | .error _ _ => .crashed

end StockFlow
