import StockFlow.Number.Double
import StockFlow.Number.Text
import StockFlow.Text.Quoted

/-!
# Plain values

The data that callers hand over where the engine expects a name, a number or a
count: what a client's message can hold.  An engine operation decides itself
which of them it accepts, so every operation is total on plain values.

Main definitions:

- {lit}`Value`: absent, a truth value, an integer, a double, text, a list or a record.
- {lit}`Value.typeWord`: the word messages use for the type of a value.
- {lit}`Value.shown` and {lit}`Value.display`: a value inside a list, and a value in running text.
-/

namespace StockFlow

/-- Plain data of a caller. -/
inductive Value where
  | absent
  | truth (b : Bool)
  | integer (n : Int)
  | real (x : Float)
  | text (s : String)
  | list (items : List Value)
  | record (fields : List (String × Value))
  deriving Inhabited

namespace Value

/-- How messages name the type of a value. -/
def typeWord : Value → String
  | .absent => "NoneType"
  | .truth _ => "bool"
  | .integer _ => "int"
  | .real _ => "float"
  | .text _ => "str"
  | .list _ => "list"
  | .record _ => "dict"

/-- Whether a value can be looked up in a set: lists and records cannot. -/
def isKey : Value → Bool
  | .list _ => false
  | .record _ => false
  | _ => true

/-- Whether a value counts as given: the absent value, zeros and everything empty do not. -/
def isGiven : Value → Bool
  | .absent => false
  | .truth b => b
  | .integer n => n != 0
  | .real x => x != 0.0
  | .text s => !s.isEmpty
  | .list items => !items.isEmpty
  | .record fields => !fields.isEmpty

mutual

/-- A value as part of another one: text is quoted. -/
def shown : Value → String
  | .absent => "None"
  | .truth b => if b then "True" else "False"
  | .integer n => Text.decimal n
  | .real x => Double.text {} x
  | .text s => Text.quoted s
  | .list items => "[" ++ ", ".intercalate (shownItems items) ++ "]"
  | .record fields => "\x7b" ++ ", ".intercalate (shownFields fields) ++ "\x7d"

/-- The items of a list. -/
def shownItems : List Value → List String
  | [] => []
  | v :: rest => shown v :: shownItems rest

/-- The fields of a record. -/
def shownFields : List (String × Value) → List String
  | [] => []
  | (key, v) :: rest => (Text.quoted key ++ ": " ++ shown v) :: shownFields rest

end

mutual

/-- Whether every number in a value is finite. -/
def isFinite : Value → Bool
  | .real x => Double.isFinite x
  | .list items => areFinite items
  | .record fields => haveFinite fields
  | _ => true

/-- Whether every number in the items of a list is finite. -/
def areFinite : List Value → Bool
  | [] => true
  | v :: rest => isFinite v && areFinite rest

/-- Whether every number in the fields of a record is finite. -/
def haveFinite : List (String × Value) → Bool
  | [] => true
  | (_, v) :: rest => isFinite v && haveFinite rest

end

/-- What a value consists of: the items of a list, the names of fields, the characters of a text. -/
def items? : Value → Option (List Value)
  | .list items => some items
  | .record fields => some (fields.map fun field => .text field.1)
  | .text s => some (s.toList.map fun c => .text c.toString)
  | _ => none

/-- A value in running text: text stands for itself. -/
def display : Value → String
  | .text s => s
  | v => shown v

/-- A value if it counts as given, and a word for it otherwise. -/
def displayOr (v : Value) (word : String) : String :=
  if v.isGiven then v.display else word

/-- A text is displayed as itself. -/
@[simp] theorem display_text (s : String) : (Value.text s).display = s := rfl

end Value
end StockFlow
