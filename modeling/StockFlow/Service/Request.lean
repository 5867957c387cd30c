import StockFlow.OrderedMap
import StockFlow.Service.Address
import StockFlow.Service.Check
import StockFlow.Service.Simulate

/-!
# Requests to the service

A service checks and simulates models, and keeps models for later under the name
that they were saved with and the time of saving.  What it keeps is fetched by its
address.

Main definitions:

- {lit}`Request`: what can be asked.
- {lit}`Service`, {lit}`Service.answer`: the saved models, and the answer to a request.
-/

namespace StockFlow

/-- What can be asked; bodies are plain data. -/
inductive Request where
  | fetch (address : String)
  | simulate (body : Value)
  | check (body : Value)
  | save (name : Option String) (body : Value)

/-- The models that were saved, under their ids. -/
structure Service where
  saved : OrderedMap String ModelData := []

namespace Service

/-! ## Reading bodies -/

/-- Model data from the body of a request. -/
def modelOf (place : List PathStep) (v : Value) : Checked ModelData :=
  ModelData.decode usualRounds place v

/-- The answer about schema problems, unless one of them cannot be told. -/
def refusal (problems : List SchemaProblem) : Answer :=
  if problems.all SchemaProblem.canBeTold then .schemaProblems problems else .crashed

/-- The answer to a question about model data. -/
def withModel (data : Checked ModelData) (f : ModelData → Answer) : Answer :=
  match data with
  | .ok d => f d
  | .error problems => refusal problems

/-- The model data of a request to simulate. -/
def simulated (body : Value) : Checked ModelData := do
  let fields ← Schema.fieldsOf [.field "body"] body
  Schema.required modelOf [.field "body"] fields "model"

/-- The name that a model is saved under. -/
def nameOf : Option String → Checked String
  | some name => .ok name
  | none =>
      .error [{ rule := .missing, place := [.field "query", .field "model_name"] }]

/-! ## Sending models -/

/-- Whether a number can be sent. -/
def isSendable : Option Float → Bool
  | some x => Double.isFinite x
  | none => true

/-- Whether model data can be sent; numbers that are not finite cannot. -/
def canSend (data : ModelData) : Bool :=
  (data.elements.all fun e => isSendable e.value && isSendable e.x && isSendable e.y) &&
    Value.haveFinite data.parameters

/-- The saved model with an id. -/
def load (s : Service) (id : String) : Answer :=
  match s.saved.lookup id with
  | some data => if canSend data then .loaded data else .crashed
  | none => .noSuchModel

/-- What stands at an address. -/
def fetch (s : Service) (address : String) : Answer :=
  match Address.resolve address with
  | some .root => .greeting
  | some .models => .savedModels (s.saved.map (·.1))
  | some (.model id) => s.load id
  | some .receiver => .cannotBeFetched
  | none => .noSuchResource

/-! ## Answers -/

/-- The answer to a request, and the service after it; `time` is the present, as ids show it. -/
def answer (time : String) (s : Service) : Request → Answer × Service
  | .fetch address => (s.fetch address, s)
  | .simulate body => (withModel (simulated body) simulate, s)
  | .check body => (withModel (modelOf [.field "body"] body) checkModel, s)
  | .save name body =>
      match Checked.both (nameOf name) (modelOf [.field "body"] body) with
      | .error problems => (refusal problems, s)
      | .ok (name, data) =>
          let id := name ++ "_" ++ time
          (.saved id, { s with saved := OrderedMap.put s.saved id data })

end Service
end StockFlow
