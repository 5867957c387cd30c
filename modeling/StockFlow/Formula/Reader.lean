import StockFlow.Expression.Parser
import StockFlow.Expression.Printer
import StockFlow.Formula.Reference

/-!
# Reading formulas

Formula text is checked for its characters, its references are brought into
canonical form, and the result is read as a general expression.  An expression is
a formula if it consists of the four signs, the three functions and references
to existing nodes; the first part that is none of them, from the outside to the
inside and from the left to the right, is the reason for a refusal.

Main definitions:

- {lit}`Formula.allowedDepth`: the deepest nesting of a formula that is read.
- {lit}`Formula.ofExpression`: the formula that an expression stands for.
- {lit}`Formula.readWith`: the formula that a text stands for, joined by a given function.
- {lit}`Formula.ofText`: the formula that a text stands for.
-/

namespace StockFlow
namespace Formula

/-- What numbered references stand for. -/
abbrev Table (α : Type) := ReferenceKind → Nat → Option α

/-- The deepest nesting of a formula that is read. -/
def allowedDepth : Nat := 250

/-! ## Expressions as formulas -/

/--
How far down a part is written that stands where no further level is allowed.  The bound is
a safe one: it holds where reading is called from the service, and a caller that has fewer
calls of its own on the stack has room for a part that goes deeper.
-/
def quotingRoom : Nat := 710

/--
A refusal that quotes an expression.  Where further levels are allowed, there is
room for a deeper one.
-/
def refuse {ε α : Type} (lift : ReadError → ε) (reason : String → ReadError) (levels : Nat)
    (e : Expression) : Except ε α :=
  .error (lift (
    if quotingRoom + levels ≤ e.writingSteps then .tooDeepToQuote
    else if e.hasLongInteger then .numberTooLong
    else reason e.text))

/-- The operator of a binary sign. -/
def operatorOf? : BinarySign → Option Operator
  | .add => some .add
  | .subtract => some .subtract
  | .multiply => some .multiply
  | .divide => some .divide
  | _ => none

/-- The operator of a function name. -/
def functionOf? (name : String) : Option Operator :=
  [Operator.maximum, .minimum, .round].find? (·.symbol == name)

/-- What a reference with the given arguments stands for. -/
def resolve {ε α : Type} (lift : ReadError → ε) (table : Table α) (kind : ReferenceKind)
    (levels : Nat) (e : Expression) (arguments : List Expression) : Except ε α :=
  match arguments with
  | [.literal (.integer id)] =>
      match table kind id with
      | some a => .ok a
      | none =>
          if Text.exceedsDigitLimit id then .error (lift .numberTooLong)
          else .error (lift (.unknownNode kind id))
  | [_] => refuse lift .malformedReference levels e
  | _ => .error (lift (.notOneId kind))

/--
The formula that an expression stands for, with at most the given depth.  The
table gives what stands for a reference, `join` builds an operator element and
may refuse its operands, and `lift` places refusals among other failures.
-/
def ofExpression {ε α : Type} (lift : ReadError → ε) (table : Table α)
    (join : Operator → α → α → Except ε α) : Nat → Expression → Except ε α
  | 0, _ => .error (lift .tooDeep)
  | depth + 1, e =>
      match e with
      | .binary sign l r =>
          match operatorOf? sign with
          | none => refuse lift .unsupportedOperator (depth + 1) e
          | some op => do
              let left ← ofExpression lift table join depth l
              let right ← ofExpression lift table join depth r
              join op left right
      | .call (.name name) arguments keywords =>
          if keywords.isEmpty then
            match ReferenceKind.ofName? name with
            | some kind => resolve lift table kind (depth + 1) e arguments
            | none =>
                match functionOf? name with
                | none => .error (lift (.unknownFunction name))
                | some op =>
                    match arguments with
                    | [l, r] => do
                        let left ← ofExpression lift table join depth l
                        let right ← ofExpression lift table join depth r
                        join op left right
                    | _ => .error (lift (.notTwoArguments op))
          else refuse lift .keywordArguments (depth + 1) e
      | _ => refuse lift .unexpectedElement (depth + 1) e

/-! ## Texts as formulas -/

/-- Characters that formula text may hold. -/
def isAllowed (c : Char) : Bool :=
  Lexer.isWordPart c || Text.isBlank c || ['.', '(', ')', '+', '-', '*', '/', ','].contains c

/-- The deepest nesting of an expression that is looked at, formula or not. -/
def allowedNesting : Nat := 2970

/-- How many steps of reading may be unfinished at once. -/
def readingRoom : Nat := 6000

/-- The expression that formula text writes. -/
def expressionOf (text : String) : Except ReadError Expression :=
  let cs := text.toList
  match cs.find? (!isAllowed ·) with
  | some c => .error (.unexpectedCharacter c)
  | none => do
      let normalized ← Reference.normalize cs
      let reading := Expression.ofText (Text.strip normalized)
      if readingRoom < reading.steps then .error .outOfRoom
      else
        match reading.outcome with
        | .found e => if e.nesting ≤ allowedNesting then .ok e else .error .tooDeep
        | _ => .error (.notAnExpression text)

/-- What a text stands for when leaves and operator elements are built by the caller. -/
def readWith {ε α : Type} (lift : ReadError → ε) (table : Table α)
    (join : Operator → α → α → Except ε α) (text : String) : Except ε α :=
  match expressionOf text with
  | .error e => .error (lift e)
  | .ok e => ofExpression lift table join allowedDepth e

/-- The formula that a text stands for. -/
def ofText {α : Type} (table : Table α) (text : String) : Except ReadError (Formula α) :=
  readWith id (fun kind n => (table kind n).map .leaf) (fun op l r => .ok (.apply op l r)) text

end Formula
end StockFlow
