import StockFlow.Formula.Reader
import StockFlow.World.Action

/-!
# Drafts of formulas

Outside of nodes, formulas are built up from elements that can be shared: one
element may be an operand of several others, and overwriting an operand of it
shows wherever it is used.  A node that is given a formula keeps a copy, so drafts
never reach into a world.

Main definitions:

- {lit}`Term`: an entity or a drafted element.
- {lit}`Drafts`, {lit}`Drafts.tree?`: all elements, and what a term stands for.
- {lit}`Drafts.join`, {lit}`Drafts.copy`, {lit}`Drafts.overwrite`: building, copying and editing.
- {lit}`Drafts.read`: the term that a text stands for.
-/

namespace StockFlow

/-- The identity of a drafted element. -/
structure ElementId where
  index : Nat
  deriving DecidableEq, Repr

/-- What can be handed over in place of a formula. -/
inductive Term where
  | entity (e : Entity)
  | element (e : ElementId)
  deriving Inhabited

namespace Term

/-- A node as a term. -/
@[match_pattern] abbrev node (n : NodeId) : Term := .entity (.node n)

/-- A plain value as a term. -/
@[match_pattern] abbrev plain (v : Value) : Term := .entity (.plain v)

/-- Whether nothing was handed over. -/
def isAbsent : Term → Bool
  | .entity e => e.isAbsent
  | .element _ => false

/-- Whether two terms are one and the same thing; values that came separately mostly are not. -/
def isSame : Term → Term → Bool
  | .plain v, .plain w => v.isSameThing w
  | .entity a, .entity b => a == b
  | .element a, .element b => a == b
  | _, _ => false

/-- Whether a term can be an operand: a drafted element, or a node that formulas read. -/
def isOperand (w : World) : Term → Bool
  | .entity e => (e.node?.map w.isLeaf).getD false
  | .element _ => true

end Term

/-- One of the two operands of an element. -/
inductive Branch where
  | left
  | right
  deriving DecidableEq, Repr

namespace Branch

/-- The member of an element that tells the operand at a branch. -/
def readMember : Branch → String
  | .left => "get_left_element"
  | .right => "get_right_element"

/-- The member of an element that keeps the operand at a branch. -/
def storedMember : Branch → String
  | .left => "_left_element"
  | .right => "_right_element"

end Branch

/-- An operator with its operands. -/
structure Element where
  op : Operator
  left : Term
  right : Term

namespace Element

/-- The operand at a branch. -/
def operand (x : Element) : Branch → Term
  | .left => x.left
  | .right => x.right

/-- Replaces the operand at a branch. -/
def withOperand (branch : Branch) (t : Term) (x : Element) : Element :=
  match branch with
  | .left => { x with left := t }
  | .right => { x with right := t }

end Element

/-- All elements that were ever drafted. -/
structure Drafts where
  elements : Array Element := #[]
  deriving Inhabited

namespace Drafts

/-! ## Views -/

/-- The content of an element. -/
def element? (d : Drafts) (e : ElementId) : Option Element := d.elements[e.index]?

/-- What a term that nests elements at most to the given depth stands for. -/
def treeWithin (d : Drafts) : Nat → Term → Option Argument
  | _, .entity e => some (.leaf e)
  | 0, .element _ => none
  | depth + 1, .element e => do
      let x ← d.element? e
      let l ← treeWithin d depth x.left
      let r ← treeWithin d depth x.right
      return .apply x.op l r

/-- What a term stands for; an element within itself stands for nothing. -/
def tree? (d : Drafts) (t : Term) : Option Argument := d.treeWithin d.elements.size t

/-- How messages name the type of a term. -/
def typeWord (d : Drafts) (w : World) : Term → String
  | .entity e => e.typeWord w
  | .element e => ((d.element? e).map fun x => x.op.elementWord).getD "object"

/-- A term as an argument of an operation, which sees no more than its tree. -/
def argument (d : Drafts) (t : Term) : Argument := (d.tree? t).getD .absent

/-- Whether two terms are the same or stand for equal trees. -/
def areEqual (d : Drafts) (a b : Term) : Bool := (d.argument a).equals (d.argument b)

/-! ## Growth -/

/-- Adds an element. -/
def add (d : Drafts) (x : Element) : Drafts × Term :=
  ({ d with elements := d.elements.push x }, .element ⟨d.elements.size⟩)

/-- A new element is found under the next number. -/
@[simp] theorem element?_add (d : Drafts) (x : Element) :
    (d.add x).1.element? ⟨d.elements.size⟩ = some x := by
  simp [add, element?]

/-- Adding an element changes none of the others. -/
theorem element?_add_of_ne (d : Drafts) (x : Element) {e : ElementId}
    (h : e.index ≠ d.elements.size) : (d.add x).1.element? e = d.element? e := by
  simp [add, element?, Array.getElem?_push, h]

/-- Adds the elements of a tree over terms, operands first. -/
def place (d : Drafts) : Formula Term → Drafts × Term
  | .leaf t => (d, t)
  | .apply op l r =>
      let left := d.place l
      let right := left.1.place r
      right.1.add { op, left := left.2, right := right.2 }

/-- Whether a tree over terms is nothing at all. -/
def isAbsent : Formula Term → Bool
  | .leaf t => t.isAbsent
  | .apply _ _ _ => false

/-- Whether a tree over terms can be an operand. -/
def isOperand (w : World) : Formula Term → Bool
  | .leaf t => t.isOperand w
  | .apply _ _ _ => true

/-- Joins two operands under an operator, unless one of them is none. -/
def joinTrees (w : World) (op : Operator) (l r : Formula Term) : Except Fault (Formula Term) :=
  if isAbsent l || isAbsent r then .error .operandAbsent
  else if isOperand w l && isOperand w r then .ok (.apply op l r)
  else .error .operandNotAFormula

/-- Joins two operands to an element. -/
def join (d : Drafts) (w : World) (op : Operator) (l r : Term) : Except Fault (Drafts × Term) :=
  (joinTrees w op (.leaf l) (.leaf r)).map d.place

/-- A copy of a formula that shares nothing but nodes. -/
def copy (d : Drafts) (f : Formula NodeId) : Drafts × Term := d.place (f.map .node)

/-! ## Editing -/

/-- The term that is reached along branches. -/
def follow (d : Drafts) (w : World) : Term → List Branch → Except Fault Term
  | t, [] => .ok t
  | .element e, branch :: rest =>
      match d.element? e with
      | some x => follow d w (x.operand branch) rest
      | none => .error .operandAbsent
  | t, branch :: _ => .error (.lacksMember (d.typeWord w t) branch.readMember)

/--
Overwrites an operand of what is reached along branches.  A node, a model or an
execution takes the operand too, but nothing ever shows it; a plain value refuses it.
-/
def overwrite (d : Drafts) (w : World) (t : Term) (path : List Branch) (branch : Branch)
    (operand : Term) : Except Fault Drafts := do
  match ← d.follow w t path with
  | .element e =>
      return { d with elements := d.elements.modify e.index (Element.withOperand branch operand) }
  | .plain v => throw (.lacksMember v.typeWord branch.storedMember)
  | .entity _ => return d

/-! ## Reading -/

/-- What tables give for numbered references; the last entry of a number counts. -/
def references (tables : ReferenceKind → List (Int × Term)) : Formula.Table (Formula Term) :=
  fun kind n => ((tables kind).reverse.lookup (n : Int)).map .leaf

/-- The term that a text stands for under tables of references, which must all be there. -/
def read (d : Drafts) (w : World) (tables : ReferenceKind → Option (List (Int × Term)))
    (text : Value) : Except Fault (Drafts × Term) :=
  match text with
  | .absent => .error .textAbsent
  | text =>
      if [ReferenceKind.auxiliary, .constant, .level].any fun kind => (tables kind).isNone then
        .error .tableAbsent
      else
        match text with
        | .text s =>
            let table := references fun kind => (tables kind).getD []
            (Formula.readWith .refused table (joinTrees w) s).map d.place
        | other => .error (.notText other.typeWord)

end Drafts
end StockFlow
