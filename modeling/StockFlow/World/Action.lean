import StockFlow.World.Argument

/-!
# Actions

An action runs on a world and either gives a result or fails with a fault; the
world is there after a failure too, so that an action could leave traces of what
it did before it failed.

Main definitions:

- {lit}`Action`: a state transformer on worlds that may fail.
- {lit}`Action.requireChangeable`, {lit}`Action.require`: the checks of operations.
- {lit}`Action.withMember`: the check of steps that only some kinds of node offer.
- {lit}`checkName`, {lit}`checkNumber`: the checks of names and values.
-/

namespace StockFlow

/-! ## Actions -/

/-- A state transformer on worlds that may fail; a failure keeps the world reached. -/
abbrev Action := EStateM Fault World

namespace Action

/-- The world after an action, whether it failed or not. -/
def worldAfter {α : Type} (x : Action α) (w : World) : World :=
  match x.run w with
  | .ok _ w' => w'
  | .error _ w' => w'

/-- The result of an action, or why it failed. -/
def outcome {α : Type} (x : Action α) (w : World) : Except Fault α :=
  match x.run w with
  | .ok a _ => .ok a
  | .error e _ => .error e

/-- Fails or goes on with a value. -/
def ofExcept {α : Type} : Except Fault α → Action α
  | .ok a => pure a
  | .error e => throw e

/-- A check that succeeds gives its result and leaves the world. -/
@[simp] theorem run_ofExcept_ok {α : Type} (a : α) (w : World) :
    (ofExcept (.ok a)).run w = .ok a w := rfl

/-- A check that fails leaves the world. -/
@[simp] theorem run_ofExcept_error {α : Type} (e : Fault) (w : World) :
    (ofExcept (.error e) : Action α).run w = .error e w := rfl

/-- Fails if the model is locked. -/
def requireChangeable (m : ModelId) : Action Unit := do
  if (← get).isChangeable m then pure () else throw .notChangeable

/-- The node that fills a role in a world, or why the argument does not. -/
def fill (w : World) (role : Role) (a : Argument) : Except Fault NodeId :=
  if a.isAbsent then .error (.argumentAbsent role)
  else
    match a.node? with
    | some n =>
        if ((w.kind? n).map role.accepts).getD false then .ok n else .error (.wrongArgument role)
    | none => .error (.wrongArgument role)

/-- The node that fills a role. -/
def require (role : Role) (a : Argument) : Action NodeId := do
  ofExcept (fill (← get) role a)

/-- The node that an argument stands for if it is of an allowed kind; others lack the member. -/
def withMember (w : World) (allowed : NodeKind → Bool) (member : String) (a : Argument) :
    Except Fault NodeId :=
  match a.node? with
  | some n =>
      if ((w.kind? n).map allowed).getD false then .ok n
      else .error (.lacksMember (a.typeWord w) member)
  | none => .error (.lacksMember (a.typeWord w) member)

end Action

/-! ## Names and values -/

/-- A name of a node. -/
def checkName : Value → Except Fault String
  | .absent => .error .nameAbsent
  | .text s => .ok s
  | _ => .error .nameNotText

/-- The least value of a constant and the least start value of a level. -/
def lowestValue : Float := -1e9

/-- The greatest value of a constant and the greatest start value of a level. -/
def highestValue : Float := 1e9

/-- A double within the bounds of node values; NaN lies outside. -/
def checkBounds (x : Float) : Except Fault Float :=
  if lowestValue ≤ x ∧ x ≤ highestValue then .ok x
  else .error (.outOfRange lowestValue highestValue)

/--
A value of a constant, or a start value of a level: a number within the bounds, and no truth
value.
-/
def checkNumber : Value → Except Fault Float
  | .absent => .error .numberAbsent
  | .integer n =>
      match Double.ofInt? n with
      | some x => checkBounds x
      | none => .error .integerTooLarge
  | .real x => checkBounds x
  | _ => .error .notANumber

end StockFlow
