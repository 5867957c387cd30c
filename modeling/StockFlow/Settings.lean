import StockFlow.Fault
import StockFlow.Text.Integer
import StockFlow.Value.Order

/-!
# Settings

How many rounds an execution runs, how often it reports progress, whether it
warns about values that are not finite, and which origins a server answers to.
The counts may be any numbers that stand in the right order; they are compared
when settings are made, so every value of {lit}`Settings` can be used as it is.

Main definitions:

- {lit}`Settings`, {lit}`Settings.make`: checked settings.
- {lit}`Settings.warns`: whether values that are not finite are reported.
- {lit}`Settings.ofValue`, {lit}`Settings.ofVariables`: settings from plain values and from named
  variables.
-/

namespace StockFlow

/-- Settings of executions and of a server. -/
structure Settings where
  defaultRounds : Quantity := .whole 50
  maxRounds : Quantity := .whole 100000
  /-- How many rounds lie between two reports of progress. -/
  progressInterval : Quantity := .whole 100
  warnOnNonFinite : Value := .truth true
  origins : Value := .list [.text "http://localhost:3000"]
  one_le_defaultRounds : defaultRounds.isBelow (.whole 1) = false := by decide
  defaultRounds_le_maxRounds : maxRounds.isBelow defaultRounds = false := by decide
  one_le_progressInterval : progressInterval.isBelow (.whole 1) = false := by decide

namespace Settings

/-- The settings that hold where none are given. -/
def standard : Settings := {}

/-- Whether nothing deviates from the standard. -/
def isStandard (s : Settings) : Bool :=
  s.defaultRounds.value.equals standard.defaultRounds.value &&
    s.maxRounds.value.equals standard.maxRounds.value &&
    s.progressInterval.value.equals standard.progressInterval.value &&
    s.warnOnNonFinite.equals standard.warnOnNonFinite && s.origins.equals standard.origins

/-- Whether values that are not finite are reported. -/
def warns (s : Settings) : Bool := s.warnOnNonFinite.isGiven

/--
The number that a setting is; it is compared with a bound, beside which other values have no
order.
-/
def beside (bound : Quantity) (v : Value) : Except Fault Quantity :=
  match v.quantity? with
  | some q => .ok q
  | none => .error (.noOrder "<" v.typeWord bound.value.typeWord)

/-- Settings with given values, each of which must make sense beside the others. -/
def make (defaultRounds maxRounds progressInterval warnOnNonFinite origins : Value) :
    Except Fault Settings := do
  let usual ← beside (.whole 1) defaultRounds
  if h₁ : usual.isBelow (.whole 1) = false then
    let most ← beside usual maxRounds
    if h₂ : most.isBelow usual = false then
      let interval ← beside (.whole 1) progressInterval
      if h₃ : interval.isBelow (.whole 1) = false then
        return {
          defaultRounds := usual
          maxRounds := most
          progressInterval := interval
          warnOnNonFinite
          origins
          one_le_defaultRounds := h₁
          defaultRounds_le_maxRounds := h₂
          one_le_progressInterval := h₃ }
      else throw (.badSetting .intervalTooSmall)
    else throw (.badSetting .limitBelowDefault)
  else throw (.badSetting .defaultRoundsTooSmall)

/-! ## Plain values -/

/-- The names of the settings. -/
def names : List String :=
  ["default_rounds", "max_rounds", "progress_interval", "warn_on_non_finite", "cors_origins"]

/-- What is wrong with the name of a setting; the settings under construction have a name too. -/
def nameProblem? (name : String) : Option SettingProblem :=
  if names.contains name then none
  else if name == "self" then some .givenTwice
  else some (.unknown name)

/--
Settings from the fields of a record; what is not given is as usual, and nothing else may be
given.
-/
def ofFields (fields : List (String × Value)) : Except Fault Settings :=
  match fields.findSome? fun field => nameProblem? field.1 with
  | some problem => .error (.badSetting problem)
  | none =>
      let setting := fun (name : String) (usual : Value) => (fields.lookup name).getD usual
      make (setting "default_rounds" standard.defaultRounds.value)
        (setting "max_rounds" standard.maxRounds.value)
        (setting "progress_interval" standard.progressInterval.value)
        (setting "warn_on_non_finite" standard.warnOnNonFinite)
        (setting "cors_origins" standard.origins)

/-- Settings from a plain value; none stand for the standard. -/
def ofValue : Value → Except Fault Settings
  | .absent => .ok standard
  | .record fields => ofFields fields
  | v => .error (.badSetting (.notARecord v.typeWord))

/-! ## Variables -/

/-- A variable that holds a whole number; the usual one if it is not set. -/
def integerVariable (bindings : List (String × Value)) (name : String) (usual : Quantity) :
    Except Fault Value :=
  match bindings.lookup name with
  | none => .ok usual.value
  | some v =>
      let refusal := Except.error (.badSetting (.notAnInteger name v.display))
      match v, v.quantity? with
      | .text s, _ => ((Text.integer? s).map fun n => .ok (.integer n)).getD refusal
      | _, none => .error (.neverWhole v.typeWord)
      | _, some q =>
          match q.wholePart? with
          | some n => .ok (.integer n)
          | none => if q.parts = .nan then refusal else .error .infiniteWhole

/-- A variable that holds a text; what is read from it, or the usual value if it is not set. -/
def textVariable (bindings : List (String × Value)) (name member : String)
    (read : String → Value) (usual : Value) : Except Fault Value :=
  match bindings.lookup name with
  | none => .ok usual
  | some (.text s) => .ok (read s)
  | some v => .error (.lacksMember v.typeWord member)

/-- Words that switch a setting on; no letter beyond ASCII has one of theirs as its small form. -/
def isSwitchedOn (text : String) : Bool :=
  ["1", "true", "yes", "on"].contains ((Text.stripped text).map Char.toLower)

/-- The entries of a list with commas, without blanks around them and without empty ones. -/
def entries (text : String) : List String :=
  ((text.splitOn ",").map Text.stripped).filter (· != "")

/-- Settings from named variables; what is not set is as usual. -/
def ofVariables (bindings : List (String × Value)) : Except Fault Settings := do
  let defaultRounds ← integerVariable bindings "SD_DEFAULT_ROUNDS" standard.defaultRounds
  let maxRounds ← integerVariable bindings "SD_MAX_ROUNDS" standard.maxRounds
  let interval ← integerVariable bindings "SD_PROGRESS_INTERVAL" standard.progressInterval
  let warn ← textVariable bindings "SD_WARN_NON_FINITE" "strip"
    (fun s => .truth (isSwitchedOn s)) standard.warnOnNonFinite
  let origins ← textVariable bindings "SD_CORS_ORIGINS" "split"
    (fun s => .list ((entries s).map .text)) standard.origins
  make defaultRounds maxRounds interval warn origins

end Settings
end StockFlow
