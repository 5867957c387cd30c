/-!
# Expressions

The general expression syntax in which formulas are written.  It is much larger
than what a formula may contain: an expression is read as a whole first, and
only then is it decided whether each of its parts may stand in a formula, so
that a refusal can quote the offending part.

Main definitions:

- {lit}`Literal`, {lit}`Expression`, {lit}`Clause`: the syntax trees.
- {lit}`Expression.integers`: the integer literals of a tree.
- {lit}`Expression.depth`: how deep a tree is, where the kinds of its parts have weights.
- {lit}`Expression.nesting`: how deeply a tree is nested.
-/

namespace StockFlow

/-- Constants that can be written without naming anything. -/
inductive Literal where
  | none
  | truth (b : Bool)
  | ellipsis
  | integer (n : Nat)
  | real (x : Float)
  | imaginary (x : Float)
  deriving Inhabited

/-- Signs and words in front of one operand. -/
inductive UnarySign where
  | plus
  | minus
  | negation
  deriving DecidableEq, Repr, Inhabited

/-- Signs between two operands. -/
inductive BinarySign where
  | add
  | subtract
  | multiply
  | divide
  | floorDivide
  | power
  deriving DecidableEq, Repr, Inhabited

/-- The two words that join truth values. -/
inductive Connective where
  | conjunction
  | disjunction
  deriving DecidableEq, Repr, Inhabited

/-- Comparisons that are written with words. -/
inductive Comparison where
  | member
  | notMember
  | same
  | notSame
  deriving DecidableEq, Repr, Inhabited

mutual

/-- A syntax tree. -/
inductive Expression where
  | name (id : String)
  | literal (value : Literal)
  | unary (sign : UnarySign) (operand : Expression)
  | binary (sign : BinarySign) (left right : Expression)
  | connected (word : Connective) (operands : List Expression)
  | compared (first : Expression) (rest : List (Comparison × Expression))
  | conditional (test body otherwise : Expression)
  | selection (value : Expression) (field : String)
  | call (callee : Expression) (arguments keywords : List Expression)
  | tuple (items : List Expression)
  | starred (value : Expression)
  | generator (item : Expression) (clauses : List Clause)
  | awaited (value : Expression)
  | yielded (value : Option Expression)
  | yieldedFrom (value : Expression)

/-- One loop of a generator: what it binds, what it runs over, and its conditions. -/
inductive Clause where
  | loop (asynchronous : Bool) (target source : Expression) (conditions : List Expression)

end

namespace Expression

mutual

/-- The integer literals of a tree, from left to right. -/
def integers : Expression → List Nat
  | .name _ => []
  | .literal (.integer n) => [n]
  | .literal _ => []
  | .unary _ e => e.integers
  | .binary _ l r => l.integers ++ r.integers
  | .connected _ es => integersOfList es
  | .compared e rest => e.integers ++ integersOfComparisons rest
  | .conditional t b o => b.integers ++ t.integers ++ o.integers
  | .selection e _ => e.integers
  | .call f args kws => f.integers ++ integersOfList args ++ integersOfList kws
  | .tuple es => integersOfList es
  | .starred e => e.integers
  | .generator e cs => e.integers ++ integersOfClauses cs
  | .awaited e => e.integers
  | .yielded (some e) => e.integers
  | .yielded none => []
  | .yieldedFrom e => e.integers

/-- The integer literals of a list of trees. -/
def integersOfList : List Expression → List Nat
  | [] => []
  | e :: rest => e.integers ++ integersOfList rest

/-- The integer literals of the right sides of comparisons. -/
def integersOfComparisons : List (Comparison × Expression) → List Nat
  | [] => []
  | (_, e) :: rest => e.integers ++ integersOfComparisons rest

/-- The integer literals of the loops of a generator. -/
def integersOfClauses : List Clause → List Nat
  | [] => []
  | .loop _ t s cs :: rest =>
      t.integers ++ s.integers ++ integersOfList cs ++ integersOfClauses rest

end

/-! ## Depth -/

/-- What the levels of a tree count: each kind of part, and what holds a keyword or a loop. -/
structure Weights where
  part : Nat
  connected : Nat
  single : Nat
  several : Nat
  holder : Nat

mutual

/-- How deep a tree is where its levels have weights; a name or a literal alone has no depth. -/
def depth (w : Weights) : Expression → Nat
  | .name _ => 0
  | .literal _ => 0
  | .unary _ e => e.depth w + w.part
  | .binary _ l r => max (l.depth w) (r.depth w) + w.part
  | .connected _ es => depthOfList w es + w.connected
  | .compared e rest => max (e.depth w) (depthOfComparisons w rest) + w.part
  | .conditional t b o => max (t.depth w) (max (b.depth w) (o.depth w)) + w.part
  | .selection e _ => e.depth w + w.part
  | .call f args kws =>
      max (f.depth w) (max (depthOfList w args) (depthOfHeld w kws)) + w.part
  | .tuple [] => 0
  | .tuple [e] => e.depth w + w.single
  | .tuple (e :: es) => max (e.depth w) (depthOfList w es) + w.several
  | .starred e => e.depth w + w.part
  | .generator e cs => max (e.depth w) (depthOfClauses w cs) + w.part
  | .awaited e => e.depth w + w.part
  | .yielded (some e) => e.depth w + w.part
  | .yielded none => 0
  | .yieldedFrom e => e.depth w + w.part

/-- The greatest depth in a list of trees. -/
def depthOfList (w : Weights) : List Expression → Nat
  | [] => 0
  | e :: rest => max (e.depth w) (depthOfList w rest)

/-- The greatest depth in a list of trees that each have a holder. -/
def depthOfHeld (w : Weights) : List Expression → Nat
  | [] => 0
  | e :: rest => max (e.depth w + w.holder) (depthOfHeld w rest)

/-- The greatest depth in the right sides of comparisons. -/
def depthOfComparisons (w : Weights) : List (Comparison × Expression) → Nat
  | [] => 0
  | (_, e) :: rest => max (e.depth w) (depthOfComparisons w rest)

/-- The greatest depth in the loops of a generator. -/
def depthOfClauses (w : Weights) : List Clause → Nat
  | [] => 0
  | .loop _ t s cs :: rest =>
      max (max (t.depth w) (max (s.depth w) (depthOfList w cs)) + w.holder)
        (depthOfClauses w rest)

end

/-- How deeply a tree is nested; a name or a literal alone has nesting one. -/
def nesting (e : Expression) : Nat :=
  e.depth { part := 1, connected := 1, single := 1, several := 1, holder := 1 } + 1

end Expression
end StockFlow
