import StockFlow.Execution.Basic

/-!
# Runs of executions

A run steps the model a number of rounds.  It reports progress at every multiple
of the interval, and it warns once about levels whose values are not finite.  If
a round fails, the run ends there and what was recorded stays.

Main definitions:

- {lit}`Execution.askedRounds`, {lit}`Execution.roundCount`: the number of rounds that is asked for.
- {lit}`RunState`, {lit}`RunState.advance`: a run between two rounds.
- {lit}`Execution.run`: a whole run.
-/

namespace StockFlow

/-- A run between two rounds. -/
structure RunState where
  world : World
  execution : Execution
  warnings : List String := []
  /-- Whether the warning about values that are not finite was given. -/
  warned : Bool := false
  /-- Each report of progress, the latest first: the round, and the round of the results then. -/
  progress : List (Nat × Nat) := []
  fault : Option Fault := none

/-- What a run leaves behind. -/
structure RunOutcome where
  world : World
  execution : Execution
  warnings : List String := []
  /-- Each report of progress: the round, and the round of the results then. -/
  progress : List (Nat × Nat) := []
  /-- The printed lines. -/
  output : String := ""
  fault : Option Fault := none

namespace Execution

/-- The rounds that are asked for; nothing stands for the setting. -/
def askedRounds (settings : Settings) : Value → Value
  | .absent => settings.defaultRounds.value
  | v => v

/-- The number of rounds that is asked for. -/
def roundCount (settings : Settings) (rounds : Value) : Except Fault Nat :=
  match askedRounds settings rounds with
  | .integer n =>
      if n < 1 then .error .tooFewRounds
      else if settings.maxRounds.isBelow (.whole n) then
        .error (.tooManyRounds settings.maxRounds)
      else .ok n.toNat
  | _ => .error .roundsNotInteger

/-- The labels of the levels whose values are not finite. -/
def nonFiniteLevels (w : World) (x : Execution) : List String :=
  ((x.levels.labels.zip x.levels.nodes).filter fun entry =>
    !Double.isFinite (w.valueOf entry.2)).map (·.1)

/-- The warning about levels whose values are not finite. -/
def nonFiniteWarning (round : Nat) (labels : List String) : String :=
  "Round " ++ Text.decimal round ++ ": non-finite values in level nodes " ++
    (Value.list (labels.map .text)).shown

end Execution

namespace RunState

/-- Warns about values that are not finite, at most once. -/
def checkFinite (s : RunState) : RunState :=
  let labels := s.execution.nonFiniteLevels s.world
  if s.execution.settings.warns && !s.warned && !labels.isEmpty then
    { s with
      warnings := s.warnings ++ [Execution.nonFiniteWarning s.execution.round labels]
      warned := true }
  else s

/-- Reports progress at multiples of the interval. -/
def reportProgress (s : RunState) : RunState :=
  if s.execution.settings.progressInterval.divides s.execution.round then
    { s with progress := (s.execution.round, s.execution.results.rounds) :: s.progress }
  else s

/-- One round. -/
def advance (s : RunState) : RunState :=
  match (Action.computeRound s.execution.model).run s.world with
  | .ok _ world =>
      let execution := { s.execution with round := s.execution.round + 1 }.record world
      ({ s with world, execution }.checkFinite).reportProgress
  | .error fault world => { s with world, fault := some fault }

/-- A number of rounds, or as many of them as succeed. -/
def advanceTimes : Nat → RunState → RunState
  | 0, s => s
  | n + 1, s =>
      let next := s.advance
      if next.fault.isSome then next else advanceTimes n next

@[simp] theorem advanceTimes_zero (s : RunState) : advanceTimes 0 s = s := rfl

/-- Rounds are advanced one by one, up to the first that fails. -/
theorem advanceTimes_succ (n : Nat) (s : RunState) :
    advanceTimes (n + 1) s = if s.advance.fault.isSome then s.advance else advanceTimes n s.advance :=
  rfl

/-- What every round keeps, whether it succeeds or not, is kept by any number of them. -/
theorem advanceTimes_induction {P : RunState → Prop} (hstep : ∀ s, P s → P s.advance)
    {s : RunState} (h : P s) (n : Nat) : P (advanceTimes n s) := by
  induction n generalizing s with
  | zero => exact h
  | succ n ih =>
      rw [advanceTimes_succ]
      split
      · exact hstep s h
      · exact ih (hstep s h)

/-- The check for values that are not finite changes no execution. -/
@[simp] theorem execution_checkFinite (s : RunState) : s.checkFinite.execution = s.execution := by
  simp only [checkFinite]
  split <;> rfl

/-- The check for values that are not finite changes no world. -/
@[simp] theorem world_checkFinite (s : RunState) : s.checkFinite.world = s.world := by
  simp only [checkFinite]
  split <;> rfl

/-- A report of progress changes no execution. -/
@[simp] theorem execution_reportProgress (s : RunState) :
    s.reportProgress.execution = s.execution := by
  unfold reportProgress
  split <;> rfl

@[simp] theorem world_reportProgress (s : RunState) : s.reportProgress.world = s.world := by
  unfold reportProgress
  split <;> rfl

end RunState

namespace Execution

/-- How a run calls the model. -/
def modelTitle (w : World) (x : Execution) : String :=
  (w.model x.model).name.displayOr "unnamed"

/-- Runs a number of rounds and renews the results. -/
def run (w : World) (x : Execution) (rounds : Value) : RunOutcome :=
  match roundCount x.settings rounds with
  | .error fault => { world := w, execution := x, fault := some fault }
  | .ok n =>
      let opening := "Executing model '" ++ x.modelTitle w ++ "' for " ++ Text.decimal n ++
        " rounds...\n"
      let s := RunState.advanceTimes n { world := w, execution := x }
      match s.fault with
      | some fault =>
          { world := s.world
            execution := s.execution
            warnings := s.warnings
            progress := s.progress.reverse
            output := opening
            fault := some fault }
      | none =>
          { world := s.world
            execution := s.execution.refresh s.world
            warnings := s.warnings
            progress := s.progress.reverse
            output := opening ++ "Execution finished after round " ++
              Text.decimal s.execution.round ++ "\n" }

end Execution
end StockFlow
