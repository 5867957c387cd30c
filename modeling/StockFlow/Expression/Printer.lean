import StockFlow.Expression.Basic
import StockFlow.Number.Text

/-!
# Written expressions

The canonical text of an expression, used to quote it in messages.  Every place
in the text has a binding level; a part is bracketed if its own level is lower.
The operands of a connective are placed at ever higher levels from the left to
the right, up to the level of an atom.

Main definitions:

- {lit}`Expression.Binding`: the levels.
- {lit}`Expression.write`: the text of an expression at a level.
- {lit}`Expression.text`: the text of an expression on its own.
- {lit}`Expression.writingSteps`: how far down an expression is written.
-/

namespace StockFlow
namespace Expression

/-! ## Binding levels -/

namespace Binding

/-- Unbracketed tuples. -/
def tuple : Nat := 2
/-- Yields. -/
def yielded : Nat := 3
/-- Conditionals, and every place without a level of its own. -/
def test : Nat := 4
/-- Disjunctions. -/
def disjunction : Nat := 5
/-- Conjunctions. -/
def conjunction : Nat := 6
/-- Negations. -/
def negation : Nat := 7
/-- Comparisons. -/
def comparison : Nat := 8
/-- What may be starred. -/
def operand : Nat := 9
/-- Sums. -/
def sum : Nat := 13
/-- Products. -/
def product : Nat := 14
/-- Signed factors. -/
def factor : Nat := 15
/-- Powers. -/
def power : Nat := 16
/-- Awaited values. -/
def awaited : Nat := 17
/-- What is never split. -/
def atom : Nat := 18

/-- The next tighter level; there is none beyond an atom. -/
def next (level : Nat) : Nat := min (level + 1) atom

end Binding

/-- The sign of a binary expression, its level, and the levels of its two operands. -/
def binaryForm : BinarySign → String × Nat × Nat × Nat
  | .add => ("+", Binding.sum, Binding.sum, Binding.product)
  | .subtract => ("-", Binding.sum, Binding.sum, Binding.product)
  | .multiply => ("*", Binding.product, Binding.product, Binding.factor)
  | .divide => ("/", Binding.product, Binding.product, Binding.factor)
  | .floorDivide => ("//", Binding.product, Binding.product, Binding.factor)
  | .power => ("**", Binding.power, Binding.awaited, Binding.power)

/-- The words of a comparison. -/
def comparisonWords : Comparison → String
  | .member => "in"
  | .notMember => "not in"
  | .same => "is"
  | .notSame => "is not"

/-- The word of a connective and its level. -/
def connectiveForm : Connective → String × Nat
  | .conjunction => ("and", Binding.conjunction)
  | .disjunction => ("or", Binding.disjunction)

/-! ## Literals -/

/-- Reals in full, an infinite one as a decimal beyond the range. -/
def realStyle : Double.Style := { infinity := "1e309" }

/-- Imaginary numbers leave out the fraction of a whole number. -/
def imaginaryStyle : Double.Style := { infinity := "1e309", wholeEnd := "" }

/-- The text of a literal. -/
def literalText : Literal → String
  | .none => "None"
  | .truth true => "True"
  | .truth false => "False"
  | .ellipsis => "..."
  | .integer n => String.ofList (Text.decimalDigits n)
  | .real x => Double.text realStyle x
  | .imaginary x => Double.text imaginaryStyle x ++ "j"

/-- Literals that need a blank in front of a point. -/
def isWholeLiteral : Expression → Bool
  | .literal (.integer _) => true
  | .literal (.truth _) => true
  | _ => false

/-! ## Texts -/

/-- Text in brackets if a place needs a tighter level than the part has. -/
def enclose (place own : Nat) (s : String) : String :=
  if own < place then "(" ++ s ++ ")" else s

mutual

/-- The text of an expression in a place of a given level. -/
def write (place : Nat) : Expression → String
  | .name id => id
  | .literal value => literalText value
  | .unary .plus e => enclose place Binding.factor ("+" ++ write Binding.factor e)
  | .unary .minus e => enclose place Binding.factor ("-" ++ write Binding.factor e)
  | .unary .negation e => enclose place Binding.negation ("not " ++ write Binding.negation e)
  | .binary sign l r =>
      let (symbol, own, left, right) := binaryForm sign
      enclose place own (write left l ++ " " ++ symbol ++ " " ++ write right r)
  | .connected word es =>
      let (symbol, own) := connectiveForm word
      enclose place own ((" " ++ symbol ++ " ").intercalate (writeOperands own es))
  | .compared first rest =>
      enclose place Binding.comparison (write Binding.operand first ++ writeComparisons rest)
  | .conditional t b o =>
      enclose place Binding.test
        (write Binding.disjunction b ++ " if " ++ write Binding.disjunction t ++ " else " ++
          write Binding.test o)
  | .selection e field =>
      write Binding.atom e ++ (if isWholeLiteral e then " ." else ".") ++ field
  | .call f args kws =>
      write Binding.atom f ++ "(" ++
        ", ".intercalate (writeEach Binding.test args ++ writeKeywords kws) ++ ")"
  | .tuple es =>
      let items := writeEach Binding.test es
      let body := match items with
        | [item] => item ++ ","
        | _ => ", ".intercalate items
      if es.isEmpty then "()" else enclose place Binding.tuple body
  | .starred e => "*" ++ write Binding.operand e
  | .generator e cs => "(" ++ write Binding.test e ++ writeClauses cs ++ ")"
  | .awaited e => enclose place Binding.awaited ("await " ++ write Binding.atom e)
  | .yielded (some e) => enclose place Binding.yielded ("yield " ++ write Binding.atom e)
  | .yielded none => enclose place Binding.yielded "yield"
  | .yieldedFrom e => enclose place Binding.yielded ("yield from " ++ write Binding.atom e)

/-- The texts of expressions that all stand in places of one level. -/
def writeEach (place : Nat) : List Expression → List String
  | [] => []
  | e :: rest => write place e :: writeEach place rest

/-- The texts of the operands of a connective, each in a tighter place than the one before. -/
def writeOperands (place : Nat) : List Expression → List String
  | [] => []
  | e :: rest => write (Binding.next place) e :: writeOperands (Binding.next place) rest

/-- The texts of doubly starred arguments. -/
def writeKeywords : List Expression → List String
  | [] => []
  | e :: rest => ("**" ++ write Binding.test e) :: writeKeywords rest

/-- The text of what follows the first operand of a comparison. -/
def writeComparisons : List (Comparison × Expression) → String
  | [] => ""
  | (c, e) :: rest =>
      " " ++ comparisonWords c ++ " " ++ write Binding.operand e ++ writeComparisons rest

/-- The text of the loops of a generator. -/
def writeClauses : List Clause → String
  | [] => ""
  | .loop asynchronous target source conditions :: rest =>
      (if asynchronous then " async for " else " for ") ++ write Binding.tuple target ++ " in " ++
        write Binding.disjunction source ++ writeConditions conditions ++ writeClauses rest

/-- The text of the conditions of a loop. -/
def writeConditions : List Expression → String
  | [] => ""
  | e :: rest => " if " ++ write Binding.disjunction e ++ writeConditions rest

end

/-- The text of an expression on its own. -/
def text (e : Expression) : String := write Binding.test e

/-- Whether an integer of an expression is too long to be written. -/
def hasLongInteger (e : Expression) : Bool := e.integers.any Text.exceedsDigitLimit

/-- How many steps writing a part takes down; the items of a tuple and of a connective take more. -/
def writingWeights : Weights := { part := 3, connected := 5, single := 4, several := 5, holder := 3 }

/-- How many steps writing an expression takes down to its deepest part. -/
def writingSteps (e : Expression) : Nat := e.depth writingWeights

end Expression
end StockFlow
