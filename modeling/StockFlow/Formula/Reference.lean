import StockFlow.Text.Basic
import StockFlow.Expression.Lexer
import StockFlow.Formula.Basic

/-!
# Numbered references

Formula text names a node by its kind and a number, {lit}`AN(3)`.  References
are brought into their canonical form before the text is read as an expression:
blanks inside them go, and so do leading zeros of the number.  A reference is
recognised where no word character precedes it and no further bracket stands
inside; what is hidden behind further brackets is left as it is.

Main definitions:

- {lit}`ReferenceKind`, {lit}`Reference`: the three kinds, and a kind with a number.
- {lit}`Reference.normalize`: the text with all its references in canonical form.
- {lit}`ReadError`: every way in which formula text can be refused.
-/

namespace StockFlow

/-- The kinds of node that formula text can name. -/
inductive ReferenceKind where
  | auxiliary
  | constant
  | level
  deriving DecidableEq, Repr, Inhabited

namespace ReferenceKind

/-- The letters in front of the number. -/
def letters : ReferenceKind → List Char
  | .auxiliary => ['A', 'N']
  | .constant => ['C', 'N']
  | .level => ['L', 'N']

/-- The word for the kind in messages. -/
def word : ReferenceKind → String
  | .auxiliary => "Auxiliary"
  | .constant => "Constant"
  | .level => "Level"

/-- The kind that a name stands for. -/
def ofName? (s : String) : Option ReferenceKind :=
  [ReferenceKind.auxiliary, .constant, .level].find? fun kind => String.ofList kind.letters == s

end ReferenceKind

/-- Why formula text was refused. -/
inductive ReadError where
  /-- A character that no formula can hold. -/
  | unexpectedCharacter (c : Char)
  /-- A reference whose number is not a row of digits. -/
  | malformedId (id reference : String)
  /-- A reference whose number has more digits than can be read. -/
  | tooManyDigits (count : Nat)
  /-- The text is no expression at all. -/
  | notAnExpression (formula : String)
  /-- Operators or leaves below the depth limit. -/
  | tooDeep
  /-- A binary sign that formulas do not have. -/
  | unsupportedOperator (expression : String)
  /-- A call with doubly starred arguments. -/
  | keywordArguments (expression : String)
  /-- A reference with no argument or several. -/
  | notOneId (kind : ReferenceKind)
  /-- A reference whose argument is not a whole number. -/
  | malformedReference (expression : String)
  /-- A number that no node of the kind has. -/
  | unknownNode (kind : ReferenceKind) (id : Nat)
  /-- A function without exactly two arguments. -/
  | notTwoArguments (op : Operator)
  /-- A call of something that is neither a reference nor a function. -/
  | unknownFunction (name : String)
  /-- Any other expression that is no formula. -/
  | unexpectedElement (expression : String)
  /-- A message would have to quote a number that is too long to be written. -/
  | numberTooLong
  /-- A message would have to quote a part that is too deep to be written. -/
  | tooDeepToQuote
  /-- More of the text stays unfinished at once than can be held. -/
  | outOfRoom
  deriving DecidableEq, Repr

namespace ReadError

/-- The wording of a refusal; the syntax reader adds no words of its own. -/
def message : ReadError → String
  | .unexpectedCharacter c => "Unexpected character '" ++ c.toString ++ "' in formula."
  | .malformedId id reference => "Malformed node id '" ++ id ++ "' in '" ++ reference ++ "'."
  | .tooManyDigits n =>
      "Exceeds the limit (4300 digits) for integer string conversion: value has " ++
        Text.decimal n ++ " digits; use sys.set_int_max_str_digits() to increase the limit"
  | .notAnExpression formula => "Invalid formula '" ++ formula ++ "': <syntax>"
  | .tooDeep => "Formula is too deeply nested."
  | .unsupportedOperator e => "Operator in '" ++ e ++ "' is not supported."
  | .keywordArguments e => "Keyword arguments are not supported: '" ++ e ++ "'."
  | .notOneId kind => String.ofList kind.letters ++ " takes exactly one node id."
  | .malformedReference e => "Malformed node id in '" ++ e ++ "'."
  | .unknownNode kind id =>
      kind.word ++ " node with Id " ++ Text.decimal id ++ " does not exist."
  | .notTwoArguments op => op.symbol ++ " takes exactly two arguments."
  | .unknownFunction name => "Unknown function '" ++ name ++ "'."
  | .unexpectedElement e => "Unexpected element '" ++ e ++ "' in formula."
  | .numberTooLong =>
      "Exceeds the limit (4300 digits) for integer string conversion; " ++
        "use sys.set_int_max_str_digits() to increase the limit"
  | .tooDeepToQuote => "maximum recursion depth exceeded while calling a Python object"
  | .outOfRoom => ""

/-- Refusals of a malformed number. -/
def isTokenError : ReadError → Bool
  | .malformedId _ _ => true
  | .malformedReference _ => true
  | _ => false

/-- Refusals that concern the length of a number and not the grammar of formulas. -/
def isLengthError : ReadError → Bool
  | .tooManyDigits _ => true
  | .numberTooLong => true
  | _ => false

/-- Refusals that say nothing about the grammar of formulas: reading stopped at a bound. -/
def isBreakdown : ReadError → Bool
  | .tooDeepToQuote => true
  | .outOfRoom => true
  | e => e.isLengthError

end ReadError

namespace Reference

/-- A reference found at the start of a text. -/
structure Match where
  kind : ReferenceKind
  /-- The blanks in front of the bracket. -/
  gap : List Char
  /-- What stands between the brackets. -/
  body : List Char
  /-- What follows the closing bracket. -/
  rest : List Char

/-- The text of a reference in which the body stands as it is. -/
def Match.source (m : Match) : List Char :=
  m.kind.letters ++ m.gap ++ '(' :: m.body ++ [')']

/-- Whether a character may stand inside a reference. -/
def isInside (c : Char) : Bool := c != '(' && c != ')'

/-- What follows the letters of a reference: blanks and one pair of brackets. -/
def bracketed? (kind : ReferenceKind) (cs : List Char) : Option Match :=
  match cs.dropWhile Text.isBlank with
  | '(' :: inner =>
      match inner.dropWhile isInside with
      | ')' :: rest =>
          some { kind, gap := cs.takeWhile Text.isBlank, body := inner.takeWhile isInside, rest }
      | _ => none
  | _ => none

/-- A reference at the start of a text. -/
def match? (cs : List Char) : Option Match :=
  match cs with
  | 'A' :: 'N' :: rest => bracketed? .auxiliary rest
  | 'C' :: 'N' :: rest => bracketed? .constant rest
  | 'L' :: 'N' :: rest => bracketed? .level rest
  | _ => none

/-- A reference in brackets takes at least one character. -/
theorem bracketed?_length {kind : ReferenceKind} {cs : List Char} {m : Match}
    (h : bracketed? kind cs = some m) : m.rest.length < cs.length := by
  unfold bracketed? at h
  split at h
  · rename_i inner houter
    split at h
    · rename_i rest hinner
      simp only [Option.some.injEq] at h
      have h₁ := (List.dropWhile_suffix (l := cs) Text.isBlank).length_le
      have h₂ := (List.dropWhile_suffix (l := inner) isInside).length_le
      rw [houter, List.length_cons] at h₁
      rw [hinner, List.length_cons] at h₂
      simp only [← h]
      omega
    · simp at h
  · simp at h

/-- A reference takes at least one character. -/
theorem match?_length {cs : List Char} {m : Match} (h : match? cs = some m) :
    m.rest.length < cs.length := by
  unfold match? at h
  split at h
  · exact Nat.lt_succ_of_lt (Nat.lt_succ_of_lt (bracketed?_length h))
  · exact Nat.lt_succ_of_lt (Nat.lt_succ_of_lt (bracketed?_length h))
  · exact Nat.lt_succ_of_lt (Nat.lt_succ_of_lt (bracketed?_length h))
  · simp at h

/-- The canonical text of a reference. -/
def canonical (kind : ReferenceKind) (id : Nat) : List Char :=
  kind.letters ++ '(' :: Text.decimalDigits id ++ [')']

/-- The number between the brackets of a reference. -/
def Match.id (m : Match) : Except ReadError Nat :=
  let digits := Text.strip m.body
  if digits.isEmpty || !digits.all Text.isAsciiDigit then
    .error (.malformedId (String.ofList digits) (String.ofList m.source))
  else if Text.digitLimit < digits.length then .error (.tooManyDigits digits.length)
  else .ok (Text.decimalValue digits)

/-- The rest of a text in canonical form, after a character that is or is not part of a word. -/
def normalizeAfter (afterWord : Bool) (cs : List Char) : Except ReadError (List Char) :=
  match cs with
  | [] => .ok []
  | c :: rest =>
      match h : if afterWord then none else match? (c :: rest) with
      | some m =>
          have : m.rest.length < rest.length + 1 := by
            split at h
            · simp at h
            · exact match?_length h
          match m.id with
          | .error e => .error e
          | .ok id => (normalizeAfter false m.rest).map (canonical m.kind id ++ ·)
      | none => (normalizeAfter (Lexer.isWordPart c) rest).map (c :: ·)
termination_by cs.length

/-- A text with all its references in canonical form. -/
def normalize (cs : List Char) : Except ReadError (List Char) := normalizeAfter false cs

end Reference
end StockFlow
