import StockFlow.Proofs.World.Integrity

/-!
# Operations that fail

An operation other than a round that fails leaves the world exactly as it was: all
models with their lists, locks and stored orders, and all nodes with their names,
values, formulas and flows.  Removing a node and locking a model write in several
steps, but both halves of every flow match in every world that a session leads to,
and a model that is locked has its evaluation order before anything is written, so
none of these steps fails after the first.  A session therefore leads where it leads
without the operations that fail in it.

Main definitions:

- {lit}`Action.fault?`: what an action fails with.
- {lit}`World.effective`: a session without the operations that fail in it.

Main results:

- Theorem {lit}`World.Reachable.unchanged_of_fault`: an operation that fails changes nothing.
- Theorem {lit}`World.Reachable.run_effective`: what fails can be left out of a session.
-/

namespace StockFlow

namespace Action

variable {α : Type} {x : Action α} {w : World} {post : α → World → Prop}

/-- What an action fails with, if it fails. -/
def fault? (x : Action α) (w : World) : Option Fault :=
  match x.run w with
  | .ok _ _ => none
  | .error e _ => some e

/-- What leaves no trace when it fails is over before it writes. -/
theorem Commits.worldAfter_of_fault? (h : Commits x w post) {e : Fault}
    (hfail : x.fault? w = some e) : x.worldAfter w = w := by
  rcases h with ⟨e', hrun⟩ | ⟨a, v, hrun, _⟩
  · rw [worldAfter, hrun]
  · rw [fault?, hrun] at hfail
    cases hfail

end Action

namespace World

variable {w : World}

/-! ## One operation -/

theorem FlowsMatch.step_of_fault? (h : w.FlowsMatch) {op : Operation}
    (hop : ∀ m, op ≠ .computeRound m) {e : Fault} (hfail : (Action.perform op).fault? w = some e) :
    w.step op = w :=
  (Action.perform_commits h hop).worldAfter_of_fault? hfail

/--
In a world that some session led to, with any number of models, an operation that is
handed anything at all and fails leaves the whole world as it was, unless it is a round.
-/
theorem Reachable.unchanged_of_fault (h : w.Reachable) {op : Operation}
    (hop : ∀ m, op ≠ .computeRound m) {e : Fault} (hfail : (Action.perform op).fault? w = some e) :
    w.step op = w :=
  h.wellFormed.flows.step_of_fault? hop hfail

/-- A tank with a rate that reads an auxiliary, beside a model that is locked. -/
def guardedSession : List Operation :=
  let m : ModelId := ⟨0⟩
  let leaf (index : Nat) : Argument := .node ⟨index⟩
  [.newModel (.text "Tank"), .createLevel m (.text "Water") (.integer 8), .createSourceSink m,
    .createAuxiliary m (.text "Gap"), .createRate m (.text "Fill"), .setFormula m (leaf 2) (leaf 0),
    .setFormula m (leaf 3) (leaf 2), .addFlow m .sourceSinkToRate (leaf 1) (leaf 3),
    .newModel (.text "Pond"), .createLevel ⟨1⟩ (.text "Water") (.integer 1), .lock ⟨1⟩]

/-- Removing what is read, locking a rate that has no sink, and a value for a locked model. -/
theorem unchanged_of_fault_guarded :
    (World.run {} guardedSession).step (.removeNode ⟨0⟩ (.node ⟨2⟩)) =
        World.run {} guardedSession ∧
      (World.run {} guardedSession).step (.lock ⟨0⟩) = World.run {} guardedSession ∧
      (World.run {} guardedSession).step (.setStartValue ⟨1⟩ (.node ⟨4⟩) .absent) =
        World.run {} guardedSession := by
  have hreach : (World.run {} guardedSession).Reachable := ⟨guardedSession, rfl⟩
  refine ⟨hreach.unchanged_of_fault nofun (e := .readByFormula ⟨3⟩) ?_,
    hreach.unchanged_of_fault nofun (e := .invalid (.unconnectedRate ⟨3⟩)) ?_,
    hreach.unchanged_of_fault nofun (e := .notChangeable) ?_⟩
  · decide +kernel
  · decide +kernel
  · decide +kernel

/-! ## Whole sessions -/

/-- A session without the operations that fail in it; rounds stay. -/
def effective (w : World) : List Operation → List Operation
  | [] => []
  | .computeRound m :: rest => .computeRound m :: effective (w.step (.computeRound m)) rest
  | op :: rest =>
      match (Action.perform op).fault? w with
      | some _ => effective w rest
      | none => op :: effective (w.step op) rest

/-- A session leads where it leads without the operations that fail in it. -/
theorem Reachable.run_effective (h : w.Reachable) (ops : List Operation) :
    w.run (w.effective ops) = w.run ops := by
  fun_induction effective w ops with
  | case1 => rfl
  | case2 w m rest ih => exact ih (h.step _)
  | case3 w op rest hround e hfail ih =>
      rw [ih h, run_cons, h.wellFormed.flows.step_of_fault? hround hfail]
  | case4 w op rest hround hok ih => exact ih (h.step op)

end World
end StockFlow
