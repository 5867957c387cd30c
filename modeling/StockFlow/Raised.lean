import StockFlow.Text.Real
import StockFlow.World.Argument

/-!
# Faults raised by callers

Callers may raise faults of the engine's families themselves.  A family checks
what it is given: bounds must be in order, and a node must be one that the family
can be about.  A fault about a rate takes whatever is given for the rate, and a
fault about formula text takes any number of arguments.

Main definitions:

- {lit}`Raised`: a fault with its family, wording, bounds and subject.
- {lit}`Raised.make`: a fault of a family, made from arguments.
-/

namespace StockFlow

/-- A fault as callers see it. -/
structure Raised where
  kind : FaultKind
  message : String
  range : Option (Float × Float) := none
  /-- What the fault is about, if it carries anything. -/
  subject : Option Argument := none

namespace FaultKind

/-- The families that callers can raise. -/
def raisable : List FaultKind :=
  [.valueOutOfRange, .modelNotChangeable, .modelStillChangeable, .formulaDependency,
    .invalidModel, .noLevel, .unconnectedRate, .missingFormula, .auxiliaryCycle, .uselessNode,
    .formulaSyntax, .formulaToken]

/-- The raisable family with a name. -/
def ofWord? (s : String) : Option FaultKind := raisable.find? (·.word == s)

/-- The names of the arguments that a family needs. -/
def neededArguments : FaultKind → List String
  | .valueOutOfRange => ["min_value", "max_value"]
  | .formulaDependency => ["node"]
  | .missingFormula => ["node"]
  | .uselessNode => ["node"]
  | .unconnectedRate => ["rate_node"]
  | _ => []

/-- The most arguments that a family takes; nothing stands for any number. -/
def mostArguments? : FaultKind → Option Nat
  | .formulaSyntax => none
  | .formulaToken => none
  | .invalidModel => some 1
  | .noLevel => some 1
  | .auxiliaryCycle => some 1
  | kind => some kind.neededArguments.length

end FaultKind

namespace Raised

/-- What callers see of a fault of the engine. -/
def ofFault (e : Fault) : Raised :=
  { kind := e.kind, message := e.message, range := e.range?, subject := e.node?.map .node }

/-! ## Bounds -/

/-- The double that a plain value stands for. -/
def numberOf : Value → Except Fault Float
  | .real x => .ok x
  | .truth b => .ok (if b then 1.0 else 0.0)
  | .integer n =>
      match Double.ofInt? n with
      | some x => .ok x
      | none => .error .integerTooLarge
  | .text s =>
      match Text.strictReal? s with
      | some x => .ok x
      | none => .error (.notNumeric (Text.quoted s))
  | v => .error (.neverNumeric v.typeWord)

/-- Fails unless the first bound is less than the second one, or NaN is among them. -/
def checkBounds (w : World) (low high : Argument) : Except Fault (Value × Value) :=
  match low, high with
  | .plain a, .plain b =>
      match a.reaches b with
      | .ok false => .ok (a, b)
      | .ok true => .error .boundsOutOfOrder
      | .error (x, y) => .error (.noOrder ">=" x.typeWord y.typeWord)
  | _, _ => .error (.noOrder ">=" (low.typeWord w) (high.typeWord w))

/-- A fault about the bounds of values. -/
def makeRange (w : World) (low high : Argument) : Except Fault Raised := do
  let (a, b) ← checkBounds w low high
  let least ← numberOf a
  let greatest ← numberOf b
  return ofFault (.outOfRange least greatest)

/-! ## Subjects and messages -/

/-- A node of an allowed kind. -/
def nodeOf (w : World) (role : Role) (allowed : NodeKind → Bool) (refusal : Fault)
    (a : Argument) : Except Fault NodeId :=
  if a.isAbsent then .error (.argumentAbsent role)
  else
    match a.node? with
    | some n => if ((w.kind? n).map allowed).getD false then .ok n else .error refusal
    | none => .error refusal

/-- A fault about a rate without an end; what is given for the rate is not looked at. -/
def makeUnconnected (a : Argument) : Except Fault Raised :=
  if a.isAbsent then .error (.argumentAbsent .rate)
  else
    .ok { kind := .unconnectedRate, message := Violation.unconnectedMessage, subject := some a }

/-- The given message, or the usual one of the family. -/
def messageOr (w : World) (usual : String) (arguments : List Argument) : Except Fault String :=
  match arguments.head? with
  | none => .ok usual
  | some (.plain v) => .ok (v.displayOr usual)
  | some a => a.display w

/--
The message of a fault that keeps all its arguments: one stands for itself, several in
brackets.
-/
def messageOf (w : World) : List Argument → Except Fault String
  | [] => .ok ""
  | [a] => a.display w
  | arguments => .ok ("(" ++ ", ".intercalate (arguments.map (Argument.shown w)) ++ ")")

/-! ## Faults -/

/-- Fails unless a family takes this many arguments; the fault itself counts as one. -/
def checkCount (kind : FaultKind) (given : Nat) : Except Fault Unit :=
  let missing := kind.neededArguments.drop given
  if !missing.isEmpty then .error (.tooFewArguments kind missing)
  else
    match kind.mostArguments? with
    | none => .ok ()
    | some most =>
        if given ≤ most then .ok ()
        else
          .error (.tooManyArguments kind (kind.neededArguments.length + 1) (most + 1) (given + 1))

/-- A fault of a family, made from arguments. -/
def make (w : World) (kind : FaultKind) (arguments : List Argument) : Except Fault Raised := do
  checkCount kind arguments.length
  let first := arguments.head?.getD .absent
  let second := arguments.tail.head?.getD .absent
  match kind with
  | .valueOutOfRange => makeRange w first second
  | .modelNotChangeable => return ofFault .notChangeable
  | .modelStillChangeable => return ofFault .stillChangeable
  | .formulaDependency => do
      let n ← nodeOf w .node NodeKind.hasFormula .notAFormulaOwner first
      return ofFault (.readByFormula n)
  | .missingFormula => do
      let n ← nodeOf w .node NodeKind.hasFormula .notAFormulaOwner first
      return ofFault (.invalid (.missingFormula n))
  | .uselessNode => do
      let canBeUseless : NodeKind → Bool := fun k =>
        k == .constant || k == .auxiliary || k == .sourceSink
      let n ← nodeOf w .node canBeUseless .neverUseless first
      return ofFault (.invalid (.uselessNode n))
  | .unconnectedRate => makeUnconnected first
  | .noLevel => return { kind, message := ← messageOr w Violation.noLevel.message arguments }
  | .auxiliaryCycle =>
      return { kind, message := ← messageOr w Violation.auxiliaryCycle.message arguments }
  | .invalidModel =>
      return { kind, message := ← messageOr w "The System Dynamics model is not valid." arguments }
  | _ => return { kind, message := ← messageOf w arguments }

end Raised
end StockFlow
