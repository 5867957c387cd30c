import StockFlow.Execution.Basic
import StockFlow.Number.Sum

/-!
# Printed summaries and charts

A summary prints what each column came to, with four places behind the point.  A
chart draws the columns of some levels over the rounds.

Main definitions:

- {lit}`Execution.summary`: the printed summary.
- {lit}`Chart`, {lit}`Execution.chart`: a chart, as the lines that it draws.
-/

namespace StockFlow

namespace Execution

/-- The title that summaries and charts give a model. -/
def modelHeading (w : World) (x : Execution) : String :=
  (w.model x.model).name.displayOr "unnamed model"

/-! ## Summaries -/

/-- Values are printed with four places behind the point. -/
def amount (x : Float) : String := Double.fixedText 4 x

/-- The first value of a column. -/
def firstOf (values : List Float) : Float := values.head?.getD 0.0

/-- The last value of a column. -/
def lastOf (values : List Float) : Float := values.getLast?.getD 0.0

/-- The least value of a column; none is less than NaN. -/
def leastOf (values : List Float) : Float := values.tail.foldl Double.smaller (firstOf values)

/-- The greatest value of a column; none is greater than NaN. -/
def greatestOf (values : List Float) : Float := values.tail.foldl Double.larger (firstOf values)

/-- The line about a level. -/
def levelLine (entry : String × List Float) : String :=
  "  " ++ entry.1 ++ ": start=" ++ amount (firstOf entry.2) ++ " current=" ++
    amount (lastOf entry.2) ++ " min=" ++ amount (leastOf entry.2) ++ " max=" ++
    amount (greatestOf entry.2)

/-- The line about a rate; the total leaves the start out. -/
def rateLine (entry : String × List Float) : String :=
  "  " ++ entry.1 ++ ": current=" ++ amount (lastOf entry.2) ++ " total=" ++
    amount (Double.total entry.2.tail)

/-- The line about an auxiliary. -/
def auxiliaryLine (entry : String × List Float) : String :=
  "  " ++ entry.1 ++ ": current=" ++ amount (lastOf entry.2)

/-- The headline of a part of a summary. -/
def partTitle (title : String) (t : Track) : String :=
  title ++ " (" ++ Text.decimal t.nodes.length ++ "):"

/-- The lines of a summary. -/
def summaryLines (w : World) (x : Execution) : List String :=
  let rule := String.ofList (List.replicate 60 '=')
  ["", rule, "EXECUTION SUMMARY: " ++ x.modelHeading w, rule,
    "Rounds: " ++ Text.decimal x.round] ++
  "" :: partTitle "Levels" x.levels :: x.results.levels.map levelLine ++
  "" :: partTitle "Rates" x.rates :: x.results.rates.map rateLine ++
  (if x.auxiliaries.nodes.isEmpty then []
    else "" :: partTitle "Auxiliaries" x.auxiliaries :: x.results.auxiliaries.map auxiliaryLine)

/-- The printed summary. -/
def summary (w : World) (x : Execution) : String :=
  String.join ((x.summaryLines w).map (· ++ "\n"))

end Execution

/-! ## Charts -/

/-- A line chart over the rounds. -/
structure Chart where
  title : String
  xLabel : String := "Round"
  yLabel : String := "Level Value"
  /-- Each line with its label; labels may repeat. -/
  lines : List (String × List Float)
  time : List Nat

/-- A chart without lines has no legend. -/
def Chart.hasLegend (c : Chart) : Bool := !c.lines.isEmpty

namespace Execution

/-- The label of the column that a level, or a label itself, selects. -/
def selectLabel (w : World) (x : Execution) (selection : Argument) : Except Fault String :=
  let byLabel : Except Fault String :=
    if !selection.isKey then .error (.notAKey (selection.typeWord w))
    else
      match selection with
      | .plain (.text label) =>
          if x.results.levels.any (·.1 == label) then .ok label else .error (.unknownLevel label)
      | other => (other.display w).bind fun label => .error (.unknownLevel label)
  match selection with
  | .node n =>
      if w.isKind .level n then
        match (x.levels.nodes.zip x.levels.labels).lookup n with
        | some label => .ok label
        | none => .error (.foreignLevel (selection.shown w))
      else byLabel
  | _ => byLabel

/-- The label of a line of a chart; one without a text is called after its place. -/
def lineLabel (label : String) (i : Nat) : String :=
  if label.isEmpty then "_child" ++ Text.decimal i else label

/-- The chart of the selected levels, or of all. -/
def chart (w : World) (x : Execution) (selections : Option (List Argument)) :
    Except Fault Chart := do
  let labels ←
    match selections with
    | none => pure x.levels.labels
    | some chosen => chosen.mapM (x.selectLabel w)
  let lines := labels.zipIdx.map fun entry =>
    (lineLabel entry.1 entry.2, (x.results.levels.lookup entry.1).getD [])
  let title := "Level Values Over Time: " ++ x.modelHeading w
  return { title, lines, time := x.results.time }

end Execution
end StockFlow
