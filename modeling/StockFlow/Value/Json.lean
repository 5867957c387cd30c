import StockFlow.OrderedMap
import StockFlow.Text.Real
import StockFlow.Value

/-!
# Plain values as JSON text

Clients send and receive plain values as JSON.  A number is an integer if it has
neither a point nor an exponent; the words {lit}`Infinity` and {lit}`NaN` write the
doubles that are not finite.  A field that is given twice keeps its first place
and its last value.

Main definitions:

- {lit}`Value.ofJson?`: the value that a text writes.
- {lit}`Value.json`: the text of a value.
-/

namespace StockFlow
namespace Value

/-! ## Reading -/

namespace Json

/-- The blanks between the parts of a JSON text. -/
def isGap (c : Char) : Bool := c == ' ' || c == '\t' || c == '\n' || c == '\r'

/-- The code unit that four hexadecimal digits write. -/
def unit? (a b c d : Char) : Option Nat := do
  let a ← Text.hexValue? a
  let b ← Text.hexValue? b
  let c ← Text.hexValue? c
  let d ← Text.hexValue? d
  return ((a * 16 + b) * 16 + c) * 16 + d

/-- The character that a letter behind a backslash stands for. -/
def escape? (c : Char) : Option Nat :=
  match c with
  | '"' | '\\' | '/' => some c.toNat
  | 'b' => some 8
  | 'f' => some 12
  | 'n' => some 10
  | 'r' => some 13
  | 't' => some 9
  | _ => none

/-- The code units of a text up to its closing quote, and what follows. -/
def units? : List Char → Option (List Nat × List Char)
  | [] => none
  | '"' :: rest => some ([], rest)
  | '\\' :: 'u' :: a :: b :: c :: d :: rest => do
      let u ← unit? a b c d
      let (us, rest) ← units? rest
      return (u :: us, rest)
  | '\\' :: c :: rest => do
      let u ← escape? c
      let (us, rest) ← units? rest
      return (u :: us, rest)
  | c :: rest => do
      let (us, rest) ← units? rest
      return (c.toNat :: us, rest)

/-- Characters from code units; two halves of a pair make one character. -/
def joinUnits : List Nat → List Char
  | [] => []
  | [u] => [Char.ofNat u]
  | u :: v :: rest =>
      if 0xD800 ≤ u && u < 0xDC00 && 0xDC00 ≤ v && v < 0xE000 then
        Char.ofNat (0x10000 + (u - 0xD800) * 0x400 + (v - 0xDC00)) :: joinUnits rest
      else Char.ofNat u :: joinUnits (v :: rest)

/-- A text behind its opening quote. -/
def text? (cs : List Char) : Option (String × List Char) :=
  (units? cs).map fun found => (String.ofList (joinUnits found.1), found.2)

/-- Characters that numbers consist of. -/
def isNumberPart (c : Char) : Bool :=
  Text.isAsciiDigit c || c == '-' || c == '+' || c == '.' || c == 'e' || c == 'E'

/-- The number that characters write. -/
def number? (cs : List Char) : Option Value :=
  if cs.any fun c => c == '.' || c == 'e' || c == 'E' then (Text.real? cs).map .real
  else
    match cs with
    | '-' :: digits => (Text.wholeDigits? digits).map fun n => .integer (-(n : Int))
    | digits => (Text.wholeDigits? digits).map fun n => .integer n

/-- What follows a word. -/
def afterWord? (word : String) (cs : List Char) : Option (List Char) :=
  if word.toList.isPrefixOf cs then some (cs.drop word.length) else none

mutual

/-- A value and what follows it; no part of it nests deeper than the fuel. -/
def value? : Nat → List Char → Option (Value × List Char)
  | 0, _ => none
  | fuel + 1, cs =>
      match cs.dropWhile isGap with
      | [] => none
      | '"' :: rest => (text? rest).map fun found => (.text found.1, found.2)
      | '[' :: rest => (items? fuel rest).map fun found => (.list found.1, found.2)
      | '\x7b' :: rest => (fields? fuel [] rest).map fun found => (.record found.1, found.2)
      | 't' :: rest => (afterWord? "rue" rest).map fun rest => (.truth true, rest)
      | 'f' :: rest => (afterWord? "alse" rest).map fun rest => (.truth false, rest)
      | 'n' :: rest => (afterWord? "ull" rest).map fun rest => (.absent, rest)
      | 'N' :: rest => (afterWord? "aN" rest).map fun rest => (.real (0.0 / 0.0), rest)
      | 'I' :: rest => (afterWord? "nfinity" rest).map fun rest => (.real (1.0 / 0.0), rest)
      | '-' :: 'I' :: rest =>
          (afterWord? "nfinity" rest).map fun rest => (.real (-1.0 / 0.0), rest)
      | rest =>
          (number? (rest.takeWhile isNumberPart)).map fun v => (v, rest.dropWhile isNumberPart)

/-- The items of a list up to its closing bracket, and what follows. -/
def items? : Nat → List Char → Option (List Value × List Char)
  | 0, _ => none
  | fuel + 1, cs =>
      match cs.dropWhile isGap with
      | ']' :: rest => some ([], rest)
      | ',' :: rest => items? fuel rest
      | rest => do
          let (v, rest) ← value? fuel rest
          let (vs, rest) ← items? fuel rest
          return (v :: vs, rest)

/-- The fields of a record up to its closing bracket, behind given ones, and what follows. -/
def fields? : Nat → List (String × Value) → List Char →
    Option (List (String × Value) × List Char)
  | 0, _, _ => none
  | fuel + 1, fields, cs =>
      match cs.dropWhile isGap with
      | '\x7d' :: rest => some (fields, rest)
      | ',' :: rest => fields? fuel fields rest
      | '"' :: rest => do
          let (key, rest) ← text? rest
          match rest.dropWhile isGap with
          | ':' :: rest =>
              let (v, rest) ← value? fuel rest
              fields? fuel (OrderedMap.put fields key v) rest
          | _ => none
      | _ => none

end

end Json

/-- The value that a text writes; every step takes a character, which bounds the search. -/
def ofJson? (s : String) : Option Value :=
  let cs := s.toList
  (Json.value? (2 * cs.length + 2) cs).map (·.1)

/-! ## Writing -/

namespace Json

/-- A character inside the quotes of a text. -/
def escaped (c : Char) : String :=
  if c == '"' then "\\\""
  else if c == '\\' then "\\\\"
  else if c.toNat < 32 || c.toNat == 127 then "\\u" ++ String.ofList (Text.hex 4 c.toNat)
  else c.toString

/-- A text in quotes. -/
def quoted (s : String) : String := s.toList.foldl (fun out c => out ++ escaped c) "\"" ++ "\""

/-- Reals that JSON has no digits for are written with the words that are read for them. -/
def realStyle : Double.Style := { infinity := "Infinity", notANumber := "NaN" }

end Json

mutual

/-- The JSON text of a value. -/
def json : Value → String
  | .absent => "null"
  | .truth b => if b then "true" else "false"
  | .integer n => Text.decimal n
  | .real x => Double.text Json.realStyle x
  | .text s => Json.quoted s
  | .list items => "[" ++ ",".intercalate (jsonItems items) ++ "]"
  | .record fields => "\x7b" ++ ",".intercalate (jsonFields fields) ++ "\x7d"

/-- The JSON texts of items. -/
def jsonItems : List Value → List String
  | [] => []
  | v :: rest => json v :: jsonItems rest

/-- The JSON texts of fields. -/
def jsonFields : List (String × Value) → List String
  | [] => []
  | (key, v) :: rest => (Json.quoted key ++ ":" ++ json v) :: jsonFields rest

end

end Value
end StockFlow
