import StockFlow.Expression.Lexer
import StockFlow.Expression.Reading

/-!
# Reading expressions

A recursive descent over the binding levels, loosest first: conditionals,
disjunction, conjunction, negation, comparison, sums, products, signs, powers,
awaiting, and the attributes and calls that follow an atom.  Every call takes one
unit of fuel; {lit}`Expression.fuelFor` gives enough for any text of a length,
because between two tokens only the levels are passed once.

Each reader says how many steps further down the readers that it calls begin.  There
are more steps than readers: the levels of signs that the alphabet of formulas lacks
are passed as well, and brackets are tried as a tuple before anything else.  A text that
is refused is read once more in search of what is wrong with it, with further steps on
the way; what this search would try behind the refused token is counted as far as an
operand stands there.  So the steps of a text that is refused can be a few off, and
bounds on texts leave room for that; those of a text that is read are counted one by one.

Main definitions:

- {lit}`Expression.readExpression`: one expression at the start of a token list.
- {lit}`Expression.ofTokens`: a token list that is one expression, or several with commas.
- {lit}`Expression.ofText`: a text that is one expression, with a second reading of it.
-/

namespace StockFlow

/-- The first reading of a text, and the one that looks for what is wrong with it. -/
inductive Pass where
  | first
  | second
  deriving DecidableEq, Repr, Inhabited

/-- How many steps more the second reading takes to an expression, and again to an item. -/
def Pass.extra : Pass → Nat
  | .first => 0
  | .second => 1

/-- What only the second reading looks for, whatever comes of it. -/
def Pass.further {α : Type} (pass : Pass) (x : Reading α) : Reading Unit :=
  match pass with
  | .first => pure ()
  | .second => x.attempt

/-- The word between the operands. -/
def Connective.keyword : Connective → Keyword
  | .conjunction => .conjunction
  | .disjunction => .disjunction

namespace Expression

mutual

/-- Whether an expression without the enclosing star may be bound by a loop. -/
def isTarget : Expression → Bool
  | .name _ => true
  | .selection _ _ => true
  | .tuple items => areTargets items
  | _ => false

/-- Whether the items of a tuple may be bound by a loop; an item may be starred. -/
def areTargets : List Expression → Bool
  | [] => true
  | .starred e :: rest => isTarget e && areTargets rest
  | e :: rest => isTarget e && areTargets rest

end

/-- A comparison at the start of a token list. -/
def comparison? : List Token → Option (Comparison × List Token)
  | .keyword .membership :: ts => some (.member, ts)
  | .keyword .negation :: .keyword .membership :: ts => some (.notMember, ts)
  | .keyword .identity :: .keyword .negation :: ts => some (.notSame, ts)
  | .keyword .identity :: ts => some (.same, ts)
  | _ => none

mutual

/--
A conditional, or what binds tighter.  The second reading looks whether one more
expression follows, for which a sign would be missing.
-/
def readExpression (pass : Pass) : Nat → List Token → Reading (Expression × List Token)
  | 0, _ => .refuse
  | n + 1, ts => do
      let (body, ts) ← (readConnected pass .disjunction n ts).deeper (1 + pass.extra) ts
      pass.further ((readExpression .first n ts).deeper 2 ts)
      match ts with
      | .keyword .condition :: ts =>
          let (test, ts) ← (readConnected pass .disjunction n ts).deeper (1 + pass.extra) ts
          match ts with
          | .keyword .alternative :: ts =>
              let (otherwise, ts) ← (readExpression pass n ts).deeper 1 ts
              pure (.conditional test body otherwise, ts)
          | _ => .refuse
      | ts => pure (body, ts)

/-- Operands joined by a word, or a single one. -/
def readConnected (pass : Pass) (word : Connective) :
    Nat → List Token → Reading (Expression × List Token)
  | 0, _ => .refuse
  | n + 1, ts => do
      let (first, ts) ← (readOperand pass word n ts).deeper 1 ts
      let (rest, ts) ← readOperands pass word n ts
      pure (if rest.isEmpty then first else .connected word (first :: rest), ts)

/-- What a word joins: conjunctions are the operands of a disjunction. -/
def readOperand (pass : Pass) (word : Connective) :
    Nat → List Token → Reading (Expression × List Token)
  | 0, _ => .refuse
  | n + 1, ts =>
      match word with
      | .disjunction => readConnected pass .conjunction n ts
      | .conjunction => readInversion pass n ts

/-- Further operands behind a word. -/
def readOperands (pass : Pass) (word : Connective) :
    Nat → List Token → Reading (List Expression × List Token)
  | 0, _ => .refuse
  | n + 1, ts =>
      match ts with
      | .keyword k :: after =>
          if k = word.keyword then do
            let (next, ts) ← (readOperand pass word n after).deeper 3 after
            let (rest, ts) ← readOperands pass word n ts
            pure (next :: rest, ts)
          else pure ([], .keyword k :: after)
      | ts => pure ([], ts)

/-- A negated truth value, or a comparison. -/
def readInversion (pass : Pass) : Nat → List Token → Reading (Expression × List Token)
  | 0, _ => .refuse
  | n + 1, ts =>
      match ts with
      | .keyword .negation :: ts => do
          let (operand, ts) ← (readInversion pass n ts).deeper 1 ts
          pure (.unary .negation operand, ts)
      | ts => do
          let (first, ts) ← (readSum pass n ts).deeper 10 ts
          let (rest, ts) ← readComparisons pass n ts
          pure (if rest.isEmpty then first else .compared first rest, ts)

/-- The comparisons that follow a first operand. -/
def readComparisons (pass : Pass) :
    Nat → List Token → Reading (List (Comparison × Expression) × List Token)
  | 0, _ => .refuse
  | n + 1, ts =>
      match ts with
      | [.keyword .negation] => ⟨.cut, 0⟩
      | ts =>
          match comparison? ts with
          | some (comparison, ts) => do
              let (next, ts) ← (readSum pass n ts).deeper 13 ts
              let (rest, ts) ← readComparisons pass n ts
              pure ((comparison, next) :: rest, ts)
          | none => pure ([], ts)

/-- Terms joined by plus and minus, from the left. -/
def readSum (pass : Pass) : Nat → List Token → Reading (Expression × List Token)
  | 0, _ => .refuse
  | n + 1, ts => do
      let (first, ts) ← (readTerm pass n ts).deeper 2 ts
      readSumTail pass n first ts

/-- Further terms of a sum, joined to what stands to their left. -/
def readSumTail (pass : Pass) : Nat → Expression → List Token → Reading (Expression × List Token)
  | 0, _, _ => .refuse
  | n + 1, left, ts =>
      match ts with
      | .plus :: ts => do
          let (right, ts) ← (readTerm pass n ts).deeper 2 ts
          readSumTail pass n (.binary .add left right) ts
      | .minus :: ts => do
          let (right, ts) ← (readTerm pass n ts).deeper 2 ts
          readSumTail pass n (.binary .subtract left right) ts
      | ts => pure (left, ts)

/-- Factors joined by multiplication and the two divisions, from the left. -/
def readTerm (pass : Pass) : Nat → List Token → Reading (Expression × List Token)
  | 0, _ => .refuse
  | n + 1, ts => do
      let (first, ts) ← (readFactor pass n ts).deeper 2 ts
      readTermTail pass n first ts

/-- Further factors of a term, joined to what stands to their left. -/
def readTermTail (pass : Pass) : Nat → Expression → List Token → Reading (Expression × List Token)
  | 0, _, _ => .refuse
  | n + 1, left, ts =>
      match ts with
      | .star :: ts => do
          let (right, ts) ← (readFactor pass n ts).deeper 2 ts
          readTermTail pass n (.binary .multiply left right) ts
      | .slash :: ts => do
          let (right, ts) ← (readFactor pass n ts).deeper 2 ts
          readTermTail pass n (.binary .divide left right) ts
      | .doubleSlash :: ts => do
          let (right, ts) ← (readFactor pass n ts).deeper 2 ts
          readTermTail pass n (.binary .floorDivide left right) ts
      | ts => pure (left, ts)

/-- A signed factor, or a power. -/
def readFactor (pass : Pass) : Nat → List Token → Reading (Expression × List Token)
  | 0, _ => .refuse
  | n + 1, ts =>
      match ts with
      | .plus :: ts => do
          let (operand, ts) ← (readFactor pass n ts).deeper 1 ts
          pure (.unary .plus operand, ts)
      | .minus :: ts => do
          let (operand, ts) ← (readFactor pass n ts).deeper 1 ts
          pure (.unary .minus operand, ts)
      | ts => do
          let (base, ts) ← (readAwaited pass n ts).deeper 2 ts
          match ts with
          | .doubleStar :: ts =>
              let (exponent, ts) ← (readFactor pass n ts).deeper 2 ts
              pure (.binary .power base exponent, ts)
          | ts => pure (base, ts)

/-- An awaited value, or an atom with its attributes and calls. -/
def readAwaited (pass : Pass) : Nat → List Token → Reading (Expression × List Token)
  | 0, _ => .refuse
  | n + 1, ts =>
      match ts with
      | .keyword .awaiting :: ts => do
          let (value, ts) ← (readPrimary pass n ts).deeper 1 ts
          pure (.awaited value, ts)
      | ts => (readPrimary pass n ts).deeper 1 ts

/-- An atom with its attributes and calls. -/
def readPrimary (pass : Pass) : Nat → List Token → Reading (Expression × List Token)
  | 0, _ => .refuse
  | n + 1, ts => do
      let (first, ts) ← (readAtom pass n ts).deeper 2 ts
      readTrailers pass n first ts

/--
Attributes and calls of what stands to their left.  Whether one more follows is only
known by the next token.
-/
def readTrailers (pass : Pass) : Nat → Expression → List Token → Reading (Expression × List Token)
  | 0, _, _ => .refuse
  | n + 1, left, ts =>
      match ts with
      | .dot :: .name field :: ts => readTrailers pass n (.selection left field) ts
      | .dot :: ts => Reading.refuse.deeper (4 * pass.extra) ts
      | [.opening] => ⟨.cut, 4⟩
      | .opening :: ts => do
          let ((arguments, keywords), ts) ← (readArguments pass n ts).deeper 2 ts
          readTrailers pass n (.call left arguments keywords) ts
      | ts => (pure (left, ts) : Reading _).deeper (4 * pass.extra) ts

/--
The arguments of a call up to its closing bracket; a lone generator needs no brackets of
its own.  An expression is looked for whatever stands there.
-/
def readArguments (pass : Pass) :
    Nat → List Token → Reading ((List Expression × List Expression) × List Token)
  | 0, _ => .refuse
  | n + 1, ts =>
      let first := (readExpression pass n ts).deeper 2 ts
      match ts with
      | .closing :: ts => do
          first.attempt
          pure (([], []), ts)
      | .star :: _ => do
          first.attempt
          readPlainArguments pass (5 - 2 * pass.extra, 6) n ts
      | .doubleStar :: _ => do
          first.attempt
          let (keywords, ts) ← readKeywords pass (5, 6) n ts
          pure (([], keywords), ts)
      | _ => do
          Reading.ahead 2 ts
          let (first, after) ← first
          match after with
          | .keyword .iteration :: _ | .keyword .asynchronous :: _ =>
              let (clauses, after) ← (readClauses pass n after).deeper 1 after
              match after with
              | .closing :: after => pure (([.generator first clauses], []), after)
              | _ => .refuse
          | after =>
              let ((arguments, keywords), after) ← readMoreArguments pass n after
              pure ((first :: arguments, keywords), after)

/--
Plain and starred arguments separated by commas, then doubly starred ones.  The steps are
those to the first expression, and to one behind a comma.
-/
def readPlainArguments (pass : Pass) (steps : Nat × Nat) :
    Nat → List Token → Reading ((List Expression × List Expression) × List Token)
  | 0, _ => .refuse
  | n + 1, ts =>
      match ts with
      | .doubleStar :: _ => do
          ((readExpression pass n ts).deeper steps.1 ts).attempt
          let (keywords, ts) ← readKeywords pass steps n ts
          pure (([], keywords), ts)
      | .star :: ts => do
          let (value, ts) ← ((readExpression pass n ts).deeper steps.1 ts).required
          let ((arguments, keywords), ts) ← readMoreArguments pass n ts
          pure ((.starred value :: arguments, keywords), ts)
      | ts => do
          Reading.ahead steps.1 ts
          let (value, ts) ← (readExpression pass n ts).deeper steps.1 ts
          let ((arguments, keywords), ts) ← readMoreArguments pass n ts
          pure ((value :: arguments, keywords), ts)

/-- What follows an argument: the closing bracket, or a comma and perhaps more arguments. -/
def readMoreArguments (pass : Pass) :
    Nat → List Token → Reading ((List Expression × List Expression) × List Token)
  | 0, _ => .refuse
  | n + 1, ts =>
      match ts with
      | .closing :: ts => pure (([], []), ts)
      | .comma :: .closing :: ts => do
          ((readExpression pass n (.closing :: ts)).deeper 6 (.closing :: ts)).attempt
          pure (([], []), ts)
      | .comma :: ts => readPlainArguments pass (6, 7) n ts
      | _ => .refuse

/-- Doubly starred arguments up to the closing bracket. -/
def readKeywords (pass : Pass) (steps : Nat × Nat) :
    Nat → List Token → Reading (List Expression × List Token)
  | 0, _ => .refuse
  | n + 1, ts =>
      match ts with
      | .doubleStar :: ts => do
          let (value, ts) ← (readExpression pass n ts).deeper steps.1 ts
          match ts with
          | .closing :: ts => pure ([value], ts)
          | .comma :: .closing :: ts => pure ([value], ts)
          | .comma :: ts =>
              let (rest, ts) ← (readKeywords pass (steps.2, steps.2) n ts).deeper 0 ts
              pure (value :: rest, ts)
          | _ => .refuse
      | _ => .refuse

/-- A name, a constant, or something in brackets. -/
def readAtom (pass : Pass) : Nat → List Token → Reading (Expression × List Token)
  | 0, _ => .refuse
  | n + 1, ts =>
      match ts with
      | .name id :: ts => pure (.name id, ts)
      | .literal value :: ts => pure (.literal value, ts)
      | .opening :: ts => readBracketed pass n ts
      | _ => .refuse

/--
What stands in brackets that are no call: nothing, a group, a tuple, a generator or a
yield.  An item of a tuple is looked for whatever stands there.
-/
def readBracketed (pass : Pass) : Nat → List Token → Reading (Expression × List Token)
  | 0, _ => .refuse
  | n + 1, ts =>
      let first := (readExpression pass n ts).deeper (6 + pass.extra) ts
      match ts with
      | [] => ⟨.cut, 4⟩
      | [.star] => ⟨.cut, 5⟩
      | .closing :: ts => do
          first.attempt
          pure (.tuple [], ts)
      | .keyword .yielding :: ts => do
          first.attempt
          let (value, ts) ← readYield pass n ts
          match ts with
          | .closing :: ts => pure (value, ts)
          | _ => .refuse
      | .star :: after => do
          let (value, after) ← ((readSum pass n after).deeper 13 after).otherwise first
          match after with
          | .comma :: after =>
              let (rest, after) ← readItems pass 8 n after
              pure (.tuple (.starred value :: rest), after)
          | _ => Reading.refuse.otherwise ((readExpression pass n ts).deeper (5 + pass.extra) ts)
      | .doubleStar :: after => do
          first.attempt
          pass.further ((readExpression pass n after).deeper 4 after)
          .refuse
      | _ => do
          Reading.ahead 6 ts
          let (first, ts) ← first
          match ts with
          | .closing :: ts => pure (first, ts)
          | .comma :: ts =>
              let (rest, ts) ← readItems pass 8 n ts
              pure (.tuple (first :: rest), ts)
          | .keyword .iteration :: _ | .keyword .asynchronous :: _ =>
              let (clauses, ts) ← (readClauses pass n ts).deeper 3 ts
              match ts with
              | .closing :: ts => pure (.generator first clauses, ts)
              | _ => .refuse
          | _ => .refuse

/-- Further items of a tuple after a comma, up to the closing bracket. -/
def readItems (pass : Pass) (k : Nat) : Nat → List Token → Reading (List Expression × List Token)
  | 0, _ => .refuse
  | n + 1, ts =>
      match ts with
      | .closing :: after => do
          ((readExpression pass n ts).deeper (k + pass.extra) ts).attempt
          pure ([], after)
      | ts => do
          Reading.ahead k ts
          let (item, ts) ← readItem pass (k + pass.extra, k + 7) n ts
          match ts with
          | .closing :: ts => pure ([item], ts)
          | .comma :: ts =>
              let (rest, ts) ← readItems pass 9 n ts
              pure (item :: rest, ts)
          | _ => .refuse

/-- An item that may be starred.  The steps are those to an expression, and to a starred sum. -/
def readItem (pass : Pass) (steps : Nat × Nat) :
    Nat → List Token → Reading (Expression × List Token)
  | 0, _ => .refuse
  | n + 1, ts =>
      match ts with
      | .star :: after => do
          let (value, after) ← ((readSum pass n after).deeper steps.2 after).otherwise
            ((readExpression pass n ts).deeper steps.1 ts)
          pure (.starred value, after)
      | ts => (readExpression pass n ts).deeper steps.1 ts

/-- What a yield gives: nothing, what something else yields, one item, or a tuple of items. -/
def readYield (pass : Pass) : Nat → List Token → Reading (Expression × List Token)
  | 0, _ => .refuse
  | n + 1, ts =>
      match ts with
      | .keyword .origin :: ts => do
          let (value, ts) ← (readExpression pass n ts).deeper 5 ts
          pure (.yieldedFrom value, ts)
      | .closing :: _ => do
          ((readExpression pass n ts).deeper 7 ts).attempt
          pure (.yielded none, ts)
      | ts => do
          let (first, ts) ← readItem pass (7, 15) n ts
          match ts with
          | .comma :: ts =>
              let (rest, ts) ← readYieldedRest pass n ts
              pure (.yielded (some (.tuple (first :: rest))), ts)
          | ts => pure (.yielded (some first), ts)

/-- Further items of an unbracketed tuple; the closing bracket stays. -/
def readYieldedRest (pass : Pass) : Nat → List Token → Reading (List Expression × List Token)
  | 0, _ => .refuse
  | n + 1, ts =>
      match ts with
      | .closing :: _ => do
          ((readExpression pass n ts).deeper 9 ts).attempt
          pure ([], ts)
      | ts => do
          let (item, ts) ← readItem pass (9, 17) n ts
          match ts with
          | .comma :: ts =>
              let (rest, ts) ← readYieldedRest pass n ts
              pure (item :: rest, ts)
          | ts => pure ([item], ts)

/-- The loops of a generator, at least one. -/
def readClauses (pass : Pass) : Nat → List Token → Reading (List Clause × List Token)
  | 0, _ => .refuse
  | n + 1, ts => do
      let (first, ts) ← (readClause pass n ts).deeper 2 ts
      match ts with
      | .keyword .iteration :: _ | .keyword .asynchronous :: _ =>
          let (rest, ts) ← readClauses pass n ts
          pure (first :: rest, ts)
      | ts => pure ([first], ts)

/-- One loop of a generator with its conditions. -/
def readClause (pass : Pass) : Nat → List Token → Reading (Clause × List Token)
  | 0, _ => .refuse
  | n + 1, ts =>
      match ts with
      | [.keyword .asynchronous] => ⟨.cut, 0⟩
      | .keyword .asynchronous :: .keyword .iteration :: ts => readLoop pass true n ts
      | .keyword .iteration :: ts => readLoop pass false n ts
      | _ => .refuse

/--
What a loop binds, what it runs over, and its conditions.  Where nothing can be bound, the
second reading tries an expression, of which the first two tokens are followed.
-/
def readLoop (pass : Pass) (asynchronous : Bool) : Nat → List Token → Reading (Clause × List Token)
  | 0, _ => .refuse
  | n + 1, ts => do
      let other := pass.further ((readExpression pass n (ts.take 2)).deeper 4 ts)
      let (target, ts) ← ((readTargets pass n ts).deeper 1 ts).otherwise other
      match ts with
      | .keyword .membership :: ts =>
          let (source, ts) ← (readConnected pass .disjunction n ts).deeper 1 ts
          let (conditions, ts) ← readConditions pass n ts
          pure (.loop asynchronous target source conditions, ts)
      | _ => Reading.refuse.otherwise other

/-- The conditions of a loop. -/
def readConditions (pass : Pass) : Nat → List Token → Reading (List Expression × List Token)
  | 0, _ => .refuse
  | n + 1, ts =>
      match ts with
      | .keyword .condition :: ts => do
          let (first, ts) ← (readConnected pass .disjunction n ts).deeper 3 ts
          let (rest, ts) ← readConditions pass n ts
          pure (first :: rest, ts)
      | ts => pure ([], ts)

/-- What a loop binds: one target, or several with commas. -/
def readTargets (pass : Pass) : Nat → List Token → Reading (Expression × List Token)
  | 0, _ => .refuse
  | n + 1, ts => do
      let (first, ts) ← (readTarget pass n ts).deeper 1 ts
      match ts with
      | .comma :: ts =>
          let (rest, ts) ← readTargetRest pass n ts
          pure (.tuple (first :: rest), ts)
      | ts => pure (first, ts)

/-- Further targets after a comma. -/
def readTargetRest (pass : Pass) : Nat → List Token → Reading (List Expression × List Token)
  | 0, _ => .refuse
  | n + 1, ts =>
      match ts with
      | .keyword .membership :: _ => pure ([], ts)
      | ts => do
          let (target, ts) ← (readTarget pass n ts).deeper 3 ts
          match ts with
          | .comma :: ts =>
              let (rest, ts) ← readTargetRest pass n ts
              pure (target :: rest, ts)
          | ts => pure ([target], ts)

/-- One target, perhaps starred. -/
def readTarget (pass : Pass) : Nat → List Token → Reading (Expression × List Token)
  | 0, _ => .refuse
  | n + 1, ts =>
      match ts with
      | .star :: ts => do
          let (target, ts) ← (readPrimary pass n ts).deeper 4 ts
          if isTarget target then pure (.starred target, ts) else .refuse
      | ts => do
          let (target, ts) ← (readPrimary pass n ts).deeper 2 ts
          if isTarget target then pure (target, ts) else .refuse

end

/-- Further expressions after a comma, up to the end of the line. -/
def readAll (pass : Pass) (fuel : Nat) : Nat → List Token → Reading (List Expression)
  | 0, _ => .refuse
  | _ + 1, [.lineEnd] => do
      ((readExpression pass fuel [.lineEnd]).deeper 5 [.lineEnd]).attempt
      pure []
  | n + 1, ts => do
      let (next, ts) ← (readExpression pass fuel ts).deeper 5 ts
      match ts with
      | [.lineEnd] => pure [next]
      | .comma :: ts =>
          let rest ← readAll pass fuel n ts
          pure (next :: rest)
      | _ => .refuse

/--
Fuel for any list of so many tokens: the binding levels are passed at most once between
two of them.
-/
def fuelFor (length : Nat) : Nat := 32 * (length + 1)

/-- The expression that a whole line writes; a comma outside brackets makes a tuple. -/
def ofTokens (pass : Pass) (ts : List Token) : Reading Expression := do
  let (first, rest) ← (readExpression pass (fuelFor ts.length) ts).deeper 3 ts
  match rest with
  | [.lineEnd] => pure first
  | .comma :: rest =>
      let others ← readAll pass (fuelFor ts.length) (ts.length + 1) rest
      pure (.tuple (first :: others))
  | _ => .refuse

/-- The expression that a text writes.  A text that is refused is read twice. -/
def ofText (cs : List Char) : Reading Expression :=
  match ofTokens .first (Lexer.tokens cs) with
  | ⟨.refused, n⟩ => ⟨.refused, max n (ofTokens .second (Lexer.tokens cs)).steps⟩
  | first => first

end Expression
end StockFlow
