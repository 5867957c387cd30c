import StockFlow.OrderedMap
import StockFlow.Settings
import StockFlow.World.Operation

/-!
# Executions

An execution steps a locked model and records the value of every level, rate and
auxiliary after each round.  Each recorded node has a label; nodes of one name
get numbered labels.  The results are a picture of the records that is renewed
when a run ends.

Main definitions:

- {lit}`uniqueLabels`: the labels of named columns.
- {lit}`Track`: nodes of one kind with their labels and recorded values.
- {lit}`Execution`, {lit}`Execution.start`: an execution and its beginning.
- {lit}`Results`, {lit}`Execution.results`: the labelled columns.
- {lit}`Execution.history`: the recorded values of a node.
-/

namespace StockFlow

/-! ## Labels -/

/-- Labels of names that follow names seen before. -/
def labelsAfter (seen : List String) : List String → List String
  | [] => []
  | name :: rest =>
      let count := seen.count name + 1
      let label := if count = 1 then name else name ++ " [" ++ Text.decimal count ++ "]"
      label :: labelsAfter (name :: seen) rest

/-- Names as labels; from its second occurrence on, a name is followed by their number. -/
def uniqueLabels (names : List String) : List String := labelsAfter [] names

/-- There is one label for each name, whatever was seen before. -/
theorem length_labelsAfter (seen names : List String) :
    (labelsAfter seen names).length = names.length := by
  induction names generalizing seen with
  | nil => rfl
  | cons name rest ih => simp [labelsAfter, ih]

/-- There is one label for each name. -/
@[simp] theorem length_uniqueLabels (names : List String) :
    (uniqueLabels names).length = names.length := length_labelsAfter [] names

/-! ## Tracks -/

/-- Labelled columns; each holds one value for every recorded round. -/
abbrev Columns := OrderedMap String (List Float)

/-- Nodes whose values are recorded, with their labels. -/
structure Track where
  nodes : List NodeId
  labels : List String
  /-- The values of the nodes after each round and at the start, the latest first. -/
  rows : List (List Float) := []
  deriving Inhabited

namespace Track

/-- A track of some nodes before anything is recorded. -/
def ofNodes (w : World) (nodes : List NodeId) : Track :=
  { nodes, labels := uniqueLabels (nodes.map w.nameOf) }

/-- Records the values that the nodes have. -/
def record (w : World) (t : Track) : Track := { t with rows := t.nodes.map w.valueOf :: t.rows }

/-- The recorded values at a place of the track. -/
def column (t : Track) (i : Nat) : List Float := t.rows.reverse.map fun row => row[i]?.getD 0.0

/-- The recorded values of a node. -/
def history? (t : Track) (n : NodeId) : Option (List Float) :=
  (t.nodes.idxOf? n).map t.column

/-- The columns under their labels; columns with one label share the first one's place. -/
def columns (t : Track) : Columns :=
  t.labels.zipIdx.foldl (fun columns entry =>
    OrderedMap.put columns entry.1 (t.column entry.2)) []

/-- Recording a world adds no node to a track. -/
@[simp] theorem nodes_record (w : World) (t : Track) : (t.record w).nodes = t.nodes := rfl

/-- Recording a world changes no label. -/
@[simp] theorem labels_record (w : World) (t : Track) : (t.record w).labels = t.labels := rfl

/-- Recording a world puts one row in front of the others. -/
@[simp] theorem rows_record (w : World) (t : Track) :
    (t.record w).rows = t.nodes.map w.valueOf :: t.rows := rfl

end Track

/-! ## Executions -/

/-- The labelled columns of an execution at the end of a run. -/
structure Results where
  modelName : Value := .absent
  rounds : Nat := 0
  levels : Columns := []
  rates : Columns := []
  auxiliaries : Columns := []
  deriving Inhabited

namespace Results

/-- The rounds for which there are values. -/
def time (r : Results) : List Nat := List.range (r.rounds + 1)

end Results

/-- A locked model that is stepped round by round, with everything recorded. -/
structure Execution where
  model : ModelId
  settings : Settings
  round : Nat
  /-- The levels are ordered by their names. -/
  levels : Track
  rates : Track
  auxiliaries : Track
  results : Results

namespace Execution

/-- Records the values after a round. -/
def record (w : World) (x : Execution) : Execution :=
  { x with
    levels := x.levels.record w
    rates := x.rates.record w
    auxiliaries := x.auxiliaries.record w }

/-- Renews the results from the records. -/
def refresh (w : World) (x : Execution) : Execution :=
  { x with
    results :=
      { modelName := (w.model x.model).name
        rounds := x.round
        levels := x.levels.columns
        rates := x.rates.columns
        auxiliaries := x.auxiliaries.columns } }

/-- Levels ordered by name; levels of one name keep their order. -/
def sortedByName (w : World) (nodes : List NodeId) : List NodeId :=
  nodes.mergeSort fun a b => decide (w.nameOf a ≤ w.nameOf b)

/-- An execution of a locked model at its start. -/
def start (w : World) (m : ModelId) (settings : Settings) : Except Fault Execution :=
  let model := w.model m
  if model.changeable then .error .stillChangeable
  else
    let bare : Execution :=
      { model := m
        settings
        round := 0
        levels := Track.ofNodes w (sortedByName w model.levels)
        rates := Track.ofNodes w model.rates
        auxiliaries := Track.ofNodes w model.auxiliaries
        results := {} }
    .ok ((bare.record w).refresh w)

/-- An execution of what is handed over as a model. -/
def startFor (w : World) (target : Argument) (settings : Settings) : Except Fault Execution :=
  match target with
  | .leaf (.model m) => start w m settings
  | a =>
      if a.isAbsent then .error (.argumentAbsent .model)
      else .error (.lacksMember (a.typeWord w) "is_changeable")

/-- The warnings at the start of an execution. -/
def startWarnings (x : Execution) : List String :=
  if x.rates.nodes.isEmpty then ["Model has no rate nodes; level values will not change."] else []

/-! ## Histories -/

/-- The recorded values of a node that the execution records. -/
def history? (x : Execution) (n : NodeId) : Option (List Float) :=
  (x.levels.history? n).or ((x.rates.history? n).or (x.auxiliaries.history? n))

/-- The recorded values of what is handed over. -/
def history (w : World) (x : Execution) (node : Argument) : Except Fault (List Float) :=
  match node.node?.bind x.history? with
  | some values => .ok values
  | none => .error (.notRecorded (node.shown w))

/-- Whether what is handed over is a level. -/
def isLevel (w : World) (node : Argument) : Bool :=
  (node.node?.map (w.isKind .level)).getD false

/-- The recorded values of a level. -/
def levelHistory (w : World) (x : Execution) (node : Argument) : Except Fault (List Float) :=
  if isLevel w node then x.history w node else .error .notALevel

end Execution
end StockFlow
