import StockFlow.World.Action

/-!
# Evaluation order of auxiliaries

Auxiliaries are ordered so that each comes after all that its formula reads.
The order is found by counting: a node is ready when none of its reads is
outstanding, and computing it settles one outstanding read of each node that
reads it.  Nodes that never become ready lie on a circle of reads, or behind one.

Main definitions:

- {lit}`Dependency.sortBy`: ready nodes in order, and the nodes that stay blocked.
- {lit}`World.sortAuxiliaries`: the same for nodes of a world.
- {lit}`World.hasAuxiliaryCycle`, {lit}`World.evaluationOrder`: what validation and locking need.

Main results:

- Theorem {lit}`Dependency.outstanding_settleAll`: settling makes at most as many nodes
  ready as leave the outstanding ones, which bounds the whole computation.
-/

namespace StockFlow
namespace Dependency

/-- How many reads of each node are outstanding. -/
abbrev Counts := List (NodeId × Int)

/-- The nodes of a list that read a node. -/
def readers (reads : NodeId → List NodeId) (nodes : List NodeId) (n : NodeId) : List NodeId :=
  nodes.filter fun k => n ∈ reads k

namespace Counts

/-- The outstanding reads of a node; none for a node without an entry. -/
def get (counts : Counts) (n : NodeId) : Int := (counts.lookup n).getD 0

/-- One read of a node fewer. -/
def decrement (counts : Counts) (n : NodeId) : Counts :=
  counts.map fun entry => if entry.1 = n then (entry.1, entry.2 - 1) else entry

/-- How many nodes have outstanding reads. -/
def outstanding (counts : Counts) : Nat := counts.countP fun entry => 0 < entry.2

/-- Counting down leaves no more outstanding than before. -/
theorem outstanding_decrement_le (counts : Counts) (n : NodeId) :
    (counts.decrement n).outstanding ≤ counts.outstanding := by
  induction counts with
  | nil => exact Nat.le_refl _
  | cons entry rest ih =>
      simp only [decrement, outstanding, List.map_cons, List.countP_cons] at *
      by_cases h : entry.1 = n
      · simp only [h, if_true]
        by_cases h₁ : 0 < entry.2 - 1
        · have : 0 < entry.2 := by omega
          simp only [h₁, this, decide_true, if_true]
          omega
        · simp only [h₁, decide_false]
          simp only [Bool.false_eq_true, if_false]
          omega
      · simp only [h, if_false]
        omega

/-- Settling the last outstanding read of a node leaves one outstanding node fewer. -/
theorem outstanding_decrement_lt (counts : Counts) (n : NodeId)
    (h : counts.lookup n = some 1) :
    (counts.decrement n).outstanding < counts.outstanding := by
  induction counts with
  | nil => simp at h
  | cons entry rest ih =>
      obtain ⟨k, v⟩ := entry
      have hrest := outstanding_decrement_le rest n
      simp only [decrement, outstanding, List.map_cons, List.countP_cons] at *
      by_cases hk : k = n
      · subst hk
        simp only [List.lookup_cons, BEq.rfl] at h
        simp only [Option.some.injEq] at h
        subst h
        have before : decide ((0 : Int) < 1) = true := rfl
        have after : decide ((0 : Int) < 1 - 1) = false := rfl
        simp only [if_true, before, after, Bool.false_eq_true, if_false]
        omega
      · have hne : (n == k) = false := by
          simp only [beq_eq_false_iff_ne, ne_eq]
          exact fun e => hk e.symm
        simp only [List.lookup_cons, hne] at h
        have := ih h
        simp only [hk, if_false]
        omega

end Counts

/-- Settles one read of each given node; the second part lists those that become ready. -/
def settleAll : Counts → List NodeId → Counts × List NodeId
  | counts, [] => (counts, [])
  | counts, n :: rest =>
      let after := settleAll (counts.decrement n) rest
      (after.1, if counts.lookup n = some 1 then n :: after.2 else after.2)

/-- Every node that becomes ready leaves the outstanding ones. -/
theorem outstanding_settleAll (counts : Counts) (nodes : List NodeId) :
    (settleAll counts nodes).1.outstanding + (settleAll counts nodes).2.length ≤
      counts.outstanding := by
  induction nodes generalizing counts with
  | nil => exact Nat.le_refl _
  | cons n rest ih =>
      have hrest := ih (counts.decrement n)
      simp only [settleAll]
      split
      · rename_i h
        have := Counts.outstanding_decrement_lt counts n h
        simp only [List.length_cons]
        omega
      · have := Counts.outstanding_decrement_le counts n
        omega

/--
Takes the ready nodes one after the other, settling the reads of their readers.
The result is the order in which they were taken and what is left outstanding.
-/
def drain (readersOf : NodeId → List NodeId) (counts : Counts) (ready : List NodeId) :
    List NodeId × Counts :=
  match ready with
  | [] => ([], counts)
  | n :: rest =>
      let settled := settleAll counts (readersOf n)
      let after := drain readersOf settled.1 (rest ++ settled.2)
      (n :: after.1, after.2)
termination_by counts.outstanding + ready.length
decreasing_by
  have := outstanding_settleAll counts (readersOf n)
  simp only [List.length_append, List.length_cons]
  omega

/-- Nodes in evaluation order, and the nodes that could not be ordered. -/
structure Sorted where
  ordered : List NodeId
  blocked : List NodeId
  deriving DecidableEq, Repr

/-- Orders nodes by what they read; a node listed twice is taken twice. -/
def sortBy (reads : NodeId → List NodeId) (nodes : List NodeId) : Sorted :=
  let keys := nodes.eraseDups
  let counts : Counts := keys.map fun k => (k, ((reads k).length : Int))
  let ready := nodes.filter fun n => (reads n).isEmpty
  let drained := drain (readers reads keys) counts ready
  { ordered := drained.1
    blocked := nodes.filter fun n => 0 < Counts.get drained.2 n }

end Dependency

namespace World

/-- The auxiliaries that a node's formula reads. -/
def auxiliaryReads (w : World) (n : NodeId) : List NodeId :=
  (w.formulaReads n).filter (w.isKind .auxiliary)

/-- Fails for nodes that never have a formula, and so no reads. -/
def checkReads (w : World) (n : NodeId) : Except Fault Unit :=
  (Action.withMember w NodeKind.hasFormula "_formula_dependencies" (.node n)).map fun _ => ()

/-- What keeps a node among others from being ordered. -/
def checkOrderable (w : World) (keys : List NodeId) (n : NodeId) : Except Fault Unit :=
  match w.checkReads n with
  | .error e => .error e
  | .ok () =>
      if (w.auxiliaryReads n).all (· ∈ keys) then .ok () else .error .unlistedAuxiliary

/-- Checks a list of nodes in turn; the first that cannot be ordered decides. -/
def checkAllOrderable (w : World) (keys : List NodeId) : List NodeId → Except Fault Unit
  | [] => .ok ()
  | n :: rest =>
      match w.checkOrderable keys n with
      | .ok () => w.checkAllOrderable keys rest
      | .error e => .error e

/-- The nodes that arguments are, for steps that need them to have formulas. -/
def nodesWithFormulas (w : World) (arguments : List Argument) : Except Fault (List NodeId) :=
  arguments.mapM (Action.withMember w NodeKind.hasFormula "_formula_dependencies")

/--
The nodes to be ordered among arguments.  All arguments are looked up before the
first one is asked for its reads, and the first that cannot be ordered decides.
-/
def nodesToOrder (w : World) (arguments : List Argument) : Except Fault (List NodeId) := do
  let keys ← arguments.mapM (Argument.key w)
  let nodes := nodesOf keys
  let unordered := keys.dropWhile fun k => (k.node?.map fun n =>
    (w.checkOrderable nodes n).toBool).getD false
  match unordered with
  | [] => .ok nodes
  | .node n :: _ => (w.checkOrderable nodes n).map fun _ => nodes
  | k :: _ => .error (.lacksMember (k.typeWord w) "_formula_dependencies")

/-- Each of the given nodes with those among them that read it. -/
def auxiliaryReaders (w : World) (nodes : List NodeId) :
    Except Fault (List (NodeId × List NodeId)) :=
  let keys := nodes.eraseDups
  match w.checkAllOrderable keys keys with
  | .ok () => .ok (keys.map fun k => (k, Dependency.readers w.auxiliaryReads keys k))
  | .error e => .error e

/-- Each of the given nodes with the number of auxiliaries that it reads. -/
def auxiliaryReadCounts (w : World) (nodes : List NodeId) : Except Fault (List (NodeId × Nat)) :=
  nodes.eraseDups.mapM fun k =>
    (w.checkReads k).map fun _ => (k, (w.auxiliaryReads k).length)

/-- Orders auxiliaries by what they read of each other. -/
def sortAuxiliaries (w : World) (nodes : List NodeId) : Except Fault Dependency.Sorted :=
  let keys := nodes.eraseDups
  match w.checkAllOrderable keys keys with
  | .ok () => .ok (Dependency.sortBy w.auxiliaryReads nodes)
  | .error e => .error e

/-- Whether auxiliaries read each other in a circle. -/
def hasAuxiliaryCycle (w : World) (nodes : List NodeId) : Except Fault Bool :=
  (w.sortAuxiliaries nodes).map fun sorted => !sorted.blocked.isEmpty

/--
The order in which auxiliaries are computed; there is none if they read each other in a
circle.
-/
def evaluationOrder (w : World) (nodes : List NodeId) : Except Fault (List NodeId) :=
  match w.sortAuxiliaries nodes with
  | .ok sorted =>
      if sorted.blocked.isEmpty then .ok sorted.ordered else .error (.invalid .auxiliaryCycle)
  | .error e => .error e

end World
end StockFlow
