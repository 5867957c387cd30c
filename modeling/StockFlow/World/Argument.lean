import StockFlow.Fault
import StockFlow.World.Basic

/-!
# Arguments of operations

An argument is whatever a caller hands over: an entity, or a compound formula, the
leaves of which may be any entities too.  Operations that need a formula go
through the leaves from left to right and fail at the first one that no formula
can read.

Main definitions:

- {lit}`Argument`: a formula over entities.
- {lit}`Entity.typeWord`, {lit}`Entity.shown`, {lit}`Entity.display`: entities in messages.
- {lit}`Argument.formula`: the formula that an argument is.
- {lit}`Argument.elements`: what an argument consists of.
-/

namespace StockFlow

/-- Whether a node can be read by a formula. -/
def World.isLeaf (w : World) (n : NodeId) : Bool := ((w.kind? n).map NodeKind.isLeaf).getD false

namespace Entity

/-! ## Entities in messages -/

/-- How messages name the type of an entity. -/
def typeWord (w : World) : Entity → String
  | .node n => ((w.kind? n).map NodeKind.typeWord).getD "object"
  | .model _ => "Model"
  | .execution _ => "ModelExecution"
  | .plain v => v.typeWord

/-- An entity as part of a message: text is quoted. -/
def shown (w : World) : Entity → String
  | .node n => ((w.node? n).map Node.shown).getD ""
  | .model m => w.shownModel m
  | .execution _ => "<sd_simulation.ModelExecution object at 0x?>"
  | .plain v => v.shown

/-- An entity in running text: formula leaves are written, and text stands for itself. -/
def display (w : World) : Entity → String
  | .node n => if w.isLeaf n then w.leafText n else shown w (.node n)
  | .plain v => v.display
  | e => e.shown w

/-- The node that a leaf of a formula is; every other entity lacks the member. -/
def leaf (w : World) (member : String) (e : Entity) : Except Fault NodeId :=
  match e with
  | .node n => if w.isLeaf n then .ok n else .error (.lacksMember (e.typeWord w) member)
  | _ => .error (.lacksMember (e.typeWord w) member)

end Entity

/-- What a caller hands over: an entity or a compound formula. -/
abbrev Argument := Formula Entity

namespace Argument

/-- A node as an argument. -/
@[match_pattern] abbrev node (n : NodeId) : Argument := .leaf (.node n)

/-- A plain value as an argument. -/
@[match_pattern] abbrev plain (v : Value) : Argument := .leaf (.plain v)

/-- Nothing handed over. -/
def absent : Argument := plain .absent

/-- Whether nothing was handed over. -/
def isAbsent : Argument → Bool
  | .leaf e => e.isAbsent
  | .apply _ _ _ => false

/-- A formula as an argument. -/
def ofFormula (f : Formula NodeId) : Argument := f.map .node

/-- The node that was handed over. -/
def node? : Argument → Option NodeId
  | .leaf e => e.node?
  | .apply _ _ _ => none

/-! ## Arguments in messages -/

/-- How messages name the type of an argument. -/
def typeWord (w : World) : Argument → String
  | .leaf e => e.typeWord w
  | .apply op _ _ => op.elementWord

/-- An argument as part of a message. -/
def shown (w : World) : Argument → String
  | .leaf e => e.shown w
  | .apply op l r => op.elementWord ++ "(" ++ shown w l ++ ", " ++ shown w r ++ ")"

/-- Whether an argument can be looked up; compound formulas cannot. -/
def isKey : Argument → Bool
  | .leaf e => e.isKey
  | .apply _ _ _ => false

/-- The key that an argument is. -/
def key (w : World) (a : Argument) : Except Fault Entity :=
  match a with
  | .leaf e => if e.isKey then .ok e else .error (.notAKey (typeWord w a))
  | .apply _ _ _ => .error (.notAKey (typeWord w a))

/-! ## Arguments as formulas -/

/-- The formula that an argument is; the first leaf from the left that is none lacks the member. -/
def formula (w : World) (member : String) (a : Argument) : Except Fault (Formula NodeId) :=
  a.mapExcept (Entity.leaf w member)

/-- An argument in running text: formulas are written, and text stands for itself. -/
def display (w : World) : Argument → Except Fault String
  | .leaf e => .ok (e.display w)
  | .apply op l r => (formula w "to_string" (.apply op l r)).map w.formulaText

/--
The parts of an argument: all elements of a formula, the items of a list, the characters of
a text.
-/
def elements (w : World) (a : Argument) : Except Fault (List Argument) :=
  match a with
  | .leaf (.plain v) =>
      match v.items? with
      | some items => .ok (items.map plain)
      | none => .error (.notIterable (typeWord w a))
  | .leaf e =>
      if (e.node?.map w.isLeaf).getD false then .ok [a] else .error (.notIterable (typeWord w a))
  | .apply _ _ _ => (formula w "clone" a).map fun f => f.elements.map ofFormula

/-- Whether two arguments are equal: equal entities, or one operator with equal operands. -/
def equals : Argument → Argument → Bool
  | .leaf a, .leaf b => a == b
  | .apply op l r, .apply op' l' r' => op == op' && equals l l' && equals r r'
  | _, _ => false

end Argument
end StockFlow
