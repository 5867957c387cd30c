import StockFlow.OrderedMap
import StockFlow.World.Action

/-!
# Numbered nodes and short formulas

A formula is written shortly with numbered references to its nodes.  Numbers are
given per kind of reference; rates have no references.  Numbering a list counts
from one, and a key that is listed repeatedly keeps its last number at its first
place.

Main definitions:

- {lit}`Numbering`, {lit}`Numbering.ofList`, {lit}`Numbering.inverse`: numbers of nodes.
- {lit}`World.shortText`, {lit}`World.shortTextOf`: a formula written with numbered references.
-/

namespace StockFlow

/-- The reference that names nodes of a kind. -/
def NodeKind.referenceKind? : NodeKind → Option ReferenceKind
  | .level => some .level
  | .constant => some .constant
  | .auxiliary => some .auxiliary
  | _ => none

/-- The kind of node that a reference names. -/
def ReferenceKind.nodeKind : ReferenceKind → NodeKind
  | .auxiliary => .auxiliary
  | .constant => .constant
  | .level => .level

/-- Kinds of references are told by the kinds of nodes they refer to. -/
@[simp] theorem ReferenceKind.referenceKind?_nodeKind (kind : ReferenceKind) :
    kind.nodeKind.referenceKind? = some kind := by
  cases kind <;> rfl

/-- Keys, mostly nodes, with their numbers. -/
abbrev Numbering (α : Type) := OrderedMap α Int

namespace Numbering

variable {α : Type}

/-- Numbers keys in their order, from one. -/
def ofList [BEq α] (keys : List α) : Numbering α :=
  (keys.zipIdx 1).foldl (fun numbering entry => OrderedMap.put numbering entry.1 entry.2) []

/-- The key of each number; of keys with one number the last counts, at the first one's place. -/
def inverse (numbering : Numbering α) : OrderedMap Int α :=
  numbering.foldl (fun keys entry => OrderedMap.put keys entry.2 entry.1) []

end Numbering

/-- Numbers of nodes for each kind of reference. -/
abbrev NumberTable := ReferenceKind → Numbering NodeId

namespace World

/-- The numbered reference to a node. -/
def shortLeaf (w : World) (numbers : NumberTable) (n : NodeId) : Except Fault String :=
  match (w.kind? n).bind NodeKind.referenceKind? with
  | none => .error (.noReference ((Entity.node n).typeWord w))
  | some kind =>
      match (numbers kind).lookup n with
      | none => .error (.noNumber (w.nameOf n))
      | some k => .ok (String.ofList kind.letters ++ "(" ++ Text.decimal k ++ ")")

/-- A formula written with numbered references. -/
def shortText (w : World) (numbers : NumberTable) (f : Formula NodeId) : Except Fault String :=
  f.textExcept (w.shortLeaf numbers)

/-- The numbered reference to a leaf of what was handed over. -/
def shortEntity (w : World) (numbers : NumberTable) (e : Entity) : Except Fault String := do
  w.shortLeaf numbers (← e.leaf w "to_short_string")

/-- The short text of what was handed over; the first leaf without a reference decides. -/
def shortTextOf (w : World) (numbers : NumberTable) (a : Argument) : Except Fault String :=
  a.textExcept (w.shortEntity numbers)

/-- The nodes of a model, numbered per kind. -/
def numbering (w : World) (m : ModelId) : NumberTable := fun kind =>
  Numbering.ofList ((w.model m).members kind.nodeKind)

end World
end StockFlow
