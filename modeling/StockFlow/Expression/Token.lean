import StockFlow.Expression.Basic

/-!
# Tokens of expressions

The words and signs from which expressions are read.  Words that have a meaning
of their own in the syntax are keywords; all other reserved words fit nowhere in
an expression and share one token.
-/

namespace StockFlow

/-- Words with a place in the syntax of expressions. -/
inductive Keyword where
  | conjunction
  | disjunction
  | negation
  | membership
  | identity
  | condition
  | alternative
  | iteration
  | asynchronous
  | awaiting
  | yielding
  | origin
  deriving DecidableEq, Repr, Inhabited

/-- A word, a number or a sign, or the end of a line. -/
inductive Token where
  | name (id : String)
  | keyword (word : Keyword)
  | reserved
  | literal (value : Literal)
  | plus
  | minus
  | star
  | doubleStar
  | slash
  | doubleSlash
  | opening
  | closing
  | comma
  | dot
  | lineEnd
  deriving Inhabited

namespace Token

/-- The keywords as they are spelled. -/
def keywords : List (String × Keyword) :=
  [("and", .conjunction), ("or", .disjunction), ("not", .negation), ("in", .membership),
   ("is", .identity), ("if", .condition), ("else", .alternative), ("for", .iteration),
   ("async", .asynchronous), ("await", .awaiting), ("yield", .yielding), ("from", .origin)]

/-- Words that name a constant. -/
def constants : List (String × Literal) :=
  [("None", .none), ("True", .truth true), ("False", .truth false)]

/-- Reserved words that no expression of this alphabet can hold. -/
def reservedWords : List String :=
  ["as", "assert", "break", "class", "continue", "def", "del", "elif", "except", "finally",
   "global", "import", "lambda", "nonlocal", "pass", "raise", "return", "try", "while", "with"]

/-- Whether every bracket is closed, and none that is not open, where so many are open already. -/
def closeAll : Nat → List Token → Bool
  | n, [] => n == 0
  | n, .opening :: ts => closeAll (n + 1) ts
  | n, .closing :: ts => n != 0 && closeAll (n - 1) ts
  | n, _ :: ts => closeAll n ts

/-- The tokens in front of the first bracket that closes none, where so many are open already. -/
def untilUnmatched : Nat → List Token → List Token
  | _, [] => []
  | n, .opening :: ts => .opening :: untilUnmatched (n + 1) ts
  | 0, .closing :: _ => []
  | n + 1, .closing :: ts => .closing :: untilUnmatched n ts
  | n, t :: ts => t :: untilUnmatched n ts

/-- What a word stands for. -/
def ofWord (w : String) : Token :=
  match keywords.lookup w with
  | some k => .keyword k
  | none =>
      match constants.lookup w with
      | some value => .literal value
      | none => if reservedWords.contains w then .reserved else .name w

end Token
end StockFlow
