import StockFlow.Service.FieldText
import StockFlow.Value

/-!
# Model data and its schema

Clients send models as plain data.  The schema says which fields there are, which
of them may be missing or absent, and which values stand for a number or a text.
Every violation is reported with the place where it lies and with what was found
there, in the order of the fields.

Main definitions:

- {lit}`ModelData`, {lit}`ElementData`, {lit}`ConnectionData`: models as data.
- {lit}`SchemaProblem`: a violated rule and its place.
- {lit}`ModelData.decode`: a model from plain data, or all problems.
-/

namespace StockFlow

/-! ## Model data -/

/-- An element of a drawn model. -/
structure ElementData where
  id : Int
  type : String
  name : Option String := none
  /-- The start value of a level, or the value of a constant. -/
  value : Option Float := none
  formula : Option String := none
  x : Option Float := none
  y : Option Float := none

/-- A connection between two elements. -/
structure ConnectionData where
  id : Int
  source : Int
  target : Int
  type : String := "flow"

/-- A drawn model. -/
structure ModelData where
  name : Option String := none
  elements : List ElementData := []
  connections : List ConnectionData := []
  parameters : List (String × Value) := []

/-! ## Problems -/

/-- The rules that data can violate. -/
inductive SchemaRule where
  | missing
  | integerType
  | integerText
  | integerSize
  | integerFraction
  | finiteNumber
  | numberType
  | numberText
  | textType
  | listType
  | recordType
  | fieldsType
  deriving DecidableEq, Repr

/-- The word for a rule. -/
def SchemaRule.word : SchemaRule → String
  | .missing => "missing"
  | .integerType => "int_type"
  | .integerText => "int_parsing"
  | .integerSize => "int_parsing_size"
  | .integerFraction => "int_from_float"
  | .finiteNumber => "finite_number"
  | .numberType => "float_type"
  | .numberText => "float_parsing"
  | .textType => "string_type"
  | .listType => "list_type"
  | .recordType => "dict_type"
  | .fieldsType => "model_attributes_type"

/-- A step on the way to a place in data. -/
inductive PathStep where
  | field (name : String)
  | index (i : Nat)
  deriving DecidableEq, Repr

/-- A violated rule and its place. -/
structure SchemaProblem where
  rule : SchemaRule
  place : List PathStep
  /-- What was found; where something is missing, the record in which it should be. -/
  found : Option Value := none

/-- Whether a problem can be told: what was found is told too, and must be finite. -/
def SchemaProblem.canBeTold (p : SchemaProblem) : Bool := (p.found.map Value.isFinite).getD true

/-- A result, or all problems on the way to it. -/
abbrev Checked (α : Type) := Except (List SchemaProblem) α

namespace Checked

/-- A single problem. -/
def problem {α : Type} (rule : SchemaRule) (place : List PathStep) (found : Value) : Checked α :=
  .error [{ rule, place, found := some found }]

/-- Two results together; the problems of both are reported. -/
def both {α β : Type} : Checked α → Checked β → Checked (α × β)
  | .ok a, .ok b => .ok (a, b)
  | .ok _, .error e => .error e
  | .error e, .ok _ => .error e
  | .error e, .error e' => .error (e ++ e')

/-- All results of a list; the problems of all items are reported. -/
def all {α : Type} : List (Checked α) → Checked (List α)
  | [] => .ok []
  | x :: rest => (both x (all rest)).map fun p => p.1 :: p.2

/-- Two fields that pass do so together. -/
@[simp] theorem both_ok {α β : Type} (a : α) (b : β) :
    both (.ok a) (.ok b) = (.ok (a, b) : Checked (α × β)) := rfl

/-- Two results are there together if and only if each is there. -/
theorem both_eq_ok_iff {α β : Type} {x : Checked α} {y : Checked β} {p : α × β} :
    both x y = .ok p ↔ x = .ok p.1 ∧ y = .ok p.2 := by
  cases x <;> cases y <;> simp [both, Prod.ext_iff]

end Checked

/-! ## Plain values as fields -/

namespace Schema

/-- A place below another one. -/
def below (place : List PathStep) (name : String) : List PathStep := place ++ [.field name]

/-- A text. -/
def text (place : List PathStep) : Value → Checked String
  | .text s => .ok s
  | v => Checked.problem .textType place v

/-- The whole number that a double is. -/
def integerOfDouble? (x : Float) : Option Int :=
  match Double.parts x with
  | .finite negative mantissa exponent =>
      let unit := twoTo (-exponent).toNat
      if mantissa % unit = 0 then
        let n : Int := (mantissa / unit * twoTo exponent.toNat : Nat)
        some (if negative then -n else n)
      else none
  | _ => none

/-- Doubles that stand for whole numbers are smaller than this. -/
def wholeDoubleLimit : Nat := twoTo 63

/-- The whole number that a double is, or the rule that it breaks. -/
def integerOfDouble (x : Float) : Except SchemaRule Int :=
  if !Double.isFinite x then .error .finiteNumber
  else
    match integerOfDouble? x with
    | none => .error .integerFraction
    | some n => if n.natAbs < wholeDoubleLimit then .ok n else .error .integerSize

/-- The whole number that a text writes, or the rule that it breaks. -/
def integerOfText (s : String) : Except SchemaRule Int :=
  match FieldText.whole s with
  | .value n => .ok n
  | .tooLong _ => .error .integerSize
  | .malformed => .error .integerText

/-- A whole number: an integer, a double without a fraction, a truth value or a text of digits. -/
def integer (place : List PathStep) (v : Value) : Checked Int :=
  let whole : Except SchemaRule Int :=
    match v with
    | .integer n => .ok n
    | .truth b => .ok (if b then 1 else 0)
    | .real x => integerOfDouble x
    | .text s => integerOfText s
    | _ => .error .integerType
  match whole with
  | .ok n => .ok n
  | .error rule => Checked.problem rule place v

/-- A number: a double, an integer, a truth value or a text. -/
def number (place : List PathStep) (v : Value) : Checked Float :=
  match v with
  | .real x => .ok x
  | .truth b => .ok (if b then 1.0 else 0.0)
  | .integer n =>
      match Double.ofInt? n with
      | some x => .ok x
      | none => Checked.problem .numberType place v
  | .text s =>
      match FieldText.real? s with
      | some x => .ok x
      | none => Checked.problem .numberText place v
  | _ => Checked.problem .numberType place v

/-- A record with any fields. -/
def record (place : List PathStep) : Value → Checked (List (String × Value))
  | .record fields => .ok fields
  | v => Checked.problem .recordType place v

/-- A list whose items are checked one by one. -/
def list {α : Type} (item : List PathStep → Value → Checked α) (place : List PathStep) :
    Value → Checked (List α)
  | .list items =>
      Checked.all (items.zipIdx.map fun entry => item (place ++ [.index entry.2]) entry.1)
  | v => Checked.problem .listType place v

/-- The fields of a record with fixed fields. -/
def fieldsOf (place : List PathStep) : Value → Checked (List (String × Value))
  | .record fields => .ok fields
  | v => Checked.problem .fieldsType place v

/-- A field that must be there. -/
def required {α : Type} (check : List PathStep → Value → Checked α) (place : List PathStep)
    (fields : List (String × Value)) (name : String) : Checked α :=
  match fields.lookup name with
  | some v => check (below place name) v
  | none => Checked.problem .missing (below place name) (.record fields)

/-- A field with a usual content. -/
def withDefault {α : Type} (usual : α) (check : List PathStep → Value → Checked α)
    (place : List PathStep) (fields : List (String × Value)) (name : String) : Checked α :=
  match fields.lookup name with
  | some v => check (below place name) v
  | none => .ok usual

/-- A field that may be missing or absent. -/
def optional {α : Type} (check : List PathStep → Value → Checked α) (place : List PathStep)
    (fields : List (String × Value)) (name : String) : Checked (Option α) :=
  match fields.lookup name with
  | none => .ok none
  | some .absent => .ok none
  | some v => (check (below place name) v).map some

end Schema

/-! ## Models as fields -/

/-- An element from plain data. -/
def ElementData.decode (place : List PathStep) (v : Value) : Checked ElementData := do
  let fields ← Schema.fieldsOf place v
  let parts ←
    Checked.both (Schema.required Schema.integer place fields "id")
      (Checked.both (Schema.required Schema.text place fields "type")
        (Checked.both (Schema.optional Schema.text place fields "name")
          (Checked.both (Schema.optional Schema.number place fields "value")
            (Checked.both (Schema.optional Schema.text place fields "formula")
              (Checked.both (Schema.optional Schema.number place fields "x")
                (Schema.optional Schema.number place fields "y"))))))
  let (id, type, name, value, formula, x, y) := parts
  return { id, type, name, value, formula, x, y }

/-- A connection from plain data. -/
def ConnectionData.decode (place : List PathStep) (v : Value) : Checked ConnectionData := do
  let fields ← Schema.fieldsOf place v
  let parts ←
    Checked.both (Schema.required Schema.integer place fields "id")
      (Checked.both (Schema.required Schema.integer place fields "from_element_id")
        (Checked.both (Schema.required Schema.integer place fields "to_element_id")
          (Schema.withDefault "flow" Schema.text place fields "connection_type")))
  let (id, source, target, type) := parts
  return { id, source, target, type }

namespace ModelData

/-- The number of rounds that is simulated unless the data says otherwise. -/
def usualParameters (rounds : Value) : List (String × Value) := [("rounds", rounds)]

/--
A model from plain data; the rounds are those to be simulated if the data names no
parameters.
-/
def decode (rounds : Value) (place : List PathStep) (v : Value) : Checked ModelData := do
  let fields ← Schema.fieldsOf place v
  let parts ←
    Checked.both (Schema.optional Schema.text place fields "name")
      (Checked.both (Schema.required (Schema.list ElementData.decode) place fields "elements")
        (Checked.both
          (Schema.withDefault [] (Schema.list ConnectionData.decode) place fields "connections")
          (Schema.withDefault (usualParameters rounds) Schema.record place fields
            "simulation_params")))
  let (name, elements, connections, parameters) := parts
  return { name, elements, connections, parameters }

end ModelData
end StockFlow
