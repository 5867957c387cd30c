import StockFlow.Proofs.Formula.Mapping
import StockFlow.Proofs.World.Effects

/-!
# Faults that cannot come up

A flow that only one of its halves knows is a fault of removals alone, and removals
come upon it only where the halves do not match.  So where both halves of every
flow match, no operation fails with it: checks of other things have faults of their
own, and what removals do keeps the halves together.

Main definitions:

- {lit}`Action.Avoids`: an action cannot fail with a fault.

Main results:

- Theorems {lit}`Action.avoids_bind` and {lit}`Action.avoids_check`: steps and checks in turn.
- Theorem {lit}`Action.perform_avoids`: no operation finds a flow inconsistent.
-/

namespace StockFlow
namespace Action

variable {α β : Type} {w : World} {e : Fault}

/-- Whether an action cannot fail with a fault. -/
def Avoids (e : Fault) (x : Action α) (w : World) : Prop := ∀ w', x.run w ≠ .error e w'

/-! ## Rules -/

/-- An action that succeeds avoids every fault. -/
theorem avoids_of_ok {x : Action α} {a : α} {w' : World} (hrun : x.run w = .ok a w') :
    Avoids e x w := by
  intro w'' herror
  rw [hrun] at herror
  cases herror

/-- An action that fails with one fault avoids all others. -/
theorem avoids_of_error {x : Action α} {e' : Fault} {w' : World} (hrun : x.run w = .error e' w')
    (hne : e' ≠ e) : Avoids e x w := by
  intro w'' herror
  rw [hrun] at herror
  cases herror
  exact hne rfl

theorem avoids_pure (a : α) : Avoids e (pure a) w := avoids_of_ok rfl

theorem avoids_throw {e' : Fault} (hne : e' ≠ e) : Avoids e (throw e' : Action α) w :=
  avoids_of_error rfl hne

/-- Writing to the world cannot fail. -/
theorem avoids_modify (f : World → World) : Avoids e (modify f) w := avoids_of_ok rfl

/-- A step, and what comes after it in the world that the step leaves. -/
theorem avoids_bind {x : Action α} {f : α → Action β} (hx : Avoids e x w)
    (hf : ∀ a w', x.run w = .ok a w' → Avoids e (f a) w') : Avoids e (x >>= f) w := by
  intro w'' herror
  cases hrun : x.run w with
  | ok a w' =>
      rw [run_bind_ok hrun] at herror
      exact hf a w' hrun w'' herror
  | error e' w' =>
      rw [run_bind_error hrun] at herror
      cases herror
      exact hx _ hrun

/-- What is made of the result of an action adds no fault. -/
theorem avoids_map {x : Action α} (hx : Avoids e x w) (f : α → β) : Avoids e (f <$> x) w := by
  rw [map_eq_pure_bind]
  exact avoids_bind hx fun a _ _ => avoids_pure (f a)

/-- Reading the world. -/
theorem avoids_get {f : World → Action β} (h : Avoids e (f w) w) : Avoids e (get >>= f) w := h

/-- A check that has other faults, and what comes after it. -/
theorem avoids_check {x : Except Fault α} {f : α → Action β} (hx : x ≠ .error e)
    (hf : ∀ a, x = .ok a → Avoids e (f a) w) : Avoids e (ofExcept x >>= f) w := by
  cases x with
  | ok a => exact hf a rfl
  | error e' => exact avoids_of_error rfl fun heq => hx (congrArg Except.error heq)

/-- A test that stops the action with another fault. -/
theorem avoids_unless {b : Bool} {e' : Fault} {f : PUnit → Action β} (hne : e' ≠ e)
    (h : b = false → Avoids e (f ⟨⟩) w) :
    Avoids e (if b = true then throw e' >>= f else f ⟨⟩) w := by
  cases b with
  | true => exact avoids_of_error rfl hne
  | false => exact h rfl

end Action

/-! ## Faults of checks -/

/-- Two checks in turn have no fault that neither of them has. -/
theorem bind_ne_error {α β : Type} {e : Fault} {x : Except Fault α} {f : α → Except Fault β}
    (hx : x ≠ .error e) (hf : ∀ a, f a ≠ .error e) : (x >>= f) ≠ .error e := by
  cases x with
  | ok a => exact hf a
  | error e' => simpa [bind, Except.bind] using hx

/-- What is made of the result of a check adds no fault. -/
theorem map_ne_error {α β : Type} {e : Fault} {x : Except Fault α} (hx : x ≠ .error e) (f : α → β) :
    x.map f ≠ .error e := by
  cases x with
  | ok a => simp [Except.map]
  | error e' => simpa [Except.map] using hx

/-- A name fails its check for other reasons than a flow. -/
theorem checkName_ne_inconsistent {v : Value} : checkName v ≠ .error .inconsistentFlow := by
  cases v <;> simp [checkName]

/-- A number fails its check, the one of its bounds included, for other reasons. -/
theorem checkNumber_ne_inconsistent {v : Value} : checkNumber v ≠ .error .inconsistentFlow := by
  have hbounds : ∀ x, checkBounds x ≠ .error .inconsistentFlow := by
    intro x
    unfold checkBounds
    split <;> simp
  cases v with
  | integer n =>
      rw [checkNumber]
      split
      · exact hbounds _
      · simp
  | real x => exact hbounds x
  | _ => simp [checkNumber]

namespace Action

variable {w : World}

/-- An argument that is of the wrong kind for its role is another fault. -/
theorem fill_ne_inconsistent {role : Role} {a : Argument} :
    fill w role a ≠ .error .inconsistentFlow := by
  unfold fill
  split
  · simp
  · split
    · split <;> simp
    · simp

/-- A node that lacks a member is another fault. -/
theorem withMember_ne_inconsistent {allowed : NodeKind → Bool} {member : String} {a : Argument} :
    withMember w allowed member a ≠ .error .inconsistentFlow := by
  unfold withMember
  split
  · split <;> simp
  · simp

/-- A leaf of a formula that is no node is another fault. -/
theorem leaf_ne_inconsistent {member : String} {k : Entity} :
    k.leaf w member ≠ .error .inconsistentFlow := by
  unfold Entity.leaf
  split
  · split <;> simp
  · simp

/-- A formula whose leaves are looked up fails for what its leaves fail for. -/
theorem formulaOf_ne_inconsistent {a : Argument} : formulaOf w a ≠ .error .inconsistentFlow := by
  unfold formulaOf
  split
  · simp
  · split <;> simp
  · refine map_ne_error (fun herror => ?_) some
    rcases Formula.exists_of_mapExcept_error herror with ⟨k, _, hk⟩
    exact leaf_ne_inconsistent hk

/-- A node that formulas still read is another fault. -/
theorem checkUnread_ne_inconsistent {owners : List NodeId} {a : Argument} :
    checkUnread w owners a ≠ .error .inconsistentFlow := by
  unfold checkUnread
  split
  · split <;> simp
  · split <;> simp

/-- The formula of a node evaluates with faults of its own. -/
theorem evaluate_ne_inconsistent {n : NodeId} : evaluate w n ≠ .error .inconsistentFlow := by
  unfold evaluate
  split <;> simp

theorem evaluateAll_ne_inconsistent {ns : List NodeId} :
    evaluateAll w ns ≠ .error .inconsistentFlow := by
  induction ns with
  | nil => simp [evaluateAll]
  | cons n rest ih =>
      exact bind_ne_error evaluate_ne_inconsistent fun _ => bind_ne_error ih fun _ => nofun

theorem currentOf_ne_inconsistent {k : Entity} : currentOf w k ≠ .error .inconsistentFlow := by
  unfold currentOf
  split
  · split <;> simp
  · simp

/-- The flows of a level are added up with the faults of their current values alone. -/
theorem accumulate_ne_inconsistent {join : Float → Float → Float} {x : Float} {ks : List Entity} :
    accumulate w join x ks ≠ .error .inconsistentFlow := by
  induction ks generalizing x with
  | nil => simp [accumulate]
  | cons k rest ih => exact bind_ne_error currentOf_ne_inconsistent fun _ => ih

theorem nextLevelValue_ne_inconsistent {n : NodeId} :
    nextLevelValue w n ≠ .error .inconsistentFlow :=
  bind_ne_error accumulate_ne_inconsistent fun _ => accumulate_ne_inconsistent

end Action

namespace World

variable {w : World}

/-- An auxiliary that reads what is not its model's stops the ordering with another fault. -/
theorem checkOrderable_ne_inconsistent {keys : List NodeId} {n : NodeId} :
    w.checkOrderable keys n ≠ .error .inconsistentFlow := by
  have hreads : w.checkReads n ≠ .error .inconsistentFlow :=
    map_ne_error Action.withMember_ne_inconsistent _
  unfold checkOrderable
  split
  · rename_i e he
    rwa [he] at hreads
  · split <;> simp

theorem checkAllOrderable_ne_inconsistent {keys ns : List NodeId} :
    w.checkAllOrderable keys ns ≠ .error .inconsistentFlow := by
  induction ns with
  | nil => simp [checkAllOrderable]
  | cons n rest ih =>
      have hn : w.checkOrderable keys n ≠ .error .inconsistentFlow := checkOrderable_ne_inconsistent
      rw [checkAllOrderable]
      split
      · exact ih
      · rename_i e he
        rwa [he] at hn

/-- A cycle of auxiliaries is a result of the sorting, and what it reads outside is another fault.
-/
theorem sortAuxiliaries_ne_inconsistent {ns : List NodeId} :
    w.sortAuxiliaries ns ≠ .error .inconsistentFlow := by
  have hcheck : w.checkAllOrderable ns.eraseDups ns.eraseDups ≠ .error .inconsistentFlow :=
    checkAllOrderable_ne_inconsistent
  unfold sortAuxiliaries
  dsimp only
  split
  · simp
  · rename_i e he
    simpa [he] using hcheck

/-- An evaluation order that does not exist is another fault. -/
theorem evaluationOrder_ne_inconsistent {ns : List NodeId} :
    w.evaluationOrder ns ≠ .error .inconsistentFlow := by
  have hsort : w.sortAuxiliaries ns ≠ .error .inconsistentFlow := sortAuxiliaries_ne_inconsistent
  unfold evaluationOrder
  split
  · split <;> simp
  · rename_i e he
    simpa [he] using hsort

theorem cycleViolations_ne_inconsistent {content : Model} :
    w.cycleViolations content ≠ .error .inconsistentFlow :=
  map_ne_error (map_ne_error sortAuxiliaries_ne_inconsistent _) _

/-- The violations that validation finds have a fault of their own. -/
theorem firstInvalid?_ne_inconsistent {vs : List Violation} :
    firstInvalid? vs ≠ some .inconsistentFlow := by
  cases vs <;> simp [firstInvalid?]

/-- Validation fails with a violation or with what the ordering fails with. -/
theorem firstProblem?_ne_inconsistent {content : Model} :
    w.firstProblem? content ≠ some .inconsistentFlow := by
  have hcycle : w.cycleViolations content ≠ .error .inconsistentFlow :=
    cycleViolations_ne_inconsistent
  unfold firstProblem?
  split
  · rename_i e he
    exact he ▸ firstInvalid?_ne_inconsistent
  · split
    · rename_i e he
      simpa [he] using hcycle
    · split
      · rename_i e he
        exact he ▸ firstInvalid?_ne_inconsistent
      · exact firstInvalid?_ne_inconsistent

end World

/-! ## Operations -/

namespace Action

variable {β : Type} {w : World}

/-- The lock of a model is looked at first, and a locked model is another fault. -/
theorem avoids_changeable {f : Unit → Action β} (h : Avoids .inconsistentFlow (f ()) w)
    (m : ModelId) : Avoids .inconsistentFlow (requireChangeable m >>= f) w := by
  refine avoids_bind ?_ fun _ w' hrun => ?_
  · unfold requireChangeable
    refine avoids_get ?_
    split
    · exact avoids_pure ()
    · exact avoids_throw nofun
  · have hsame := run_requireChangeable w m
    rw [hrun] at hsame
    split at hsame
    · cases hsame
      exact h
    · cases hsame

/-- The role of an argument is looked at before the rest. -/
theorem avoids_require {role : Role} {a : Argument} {f : NodeId → Action β}
    (h : ∀ n, Avoids .inconsistentFlow (f n) w) :
    Avoids .inconsistentFlow (require role a >>= f) w := by
  have hcheck : Avoids .inconsistentFlow (ofExcept (fill w role a) >>= f) w :=
    avoids_check fill_ne_inconsistent fun n _ => h n
  exact hcheck

theorem avoids_own (m : ModelId) (node : Node) : Avoids .inconsistentFlow (own m node) w :=
  avoids_of_ok (run_own w m node)

theorem avoids_renameNode (a : Argument) (v : Value) :
    Avoids .inconsistentFlow (renameNode a v) w := by
  refine avoids_get (avoids_check withMember_ne_inconsistent fun n _ => ?_)
  refine avoids_unless nofun fun _ => avoids_check checkName_ne_inconsistent fun s _ => ?_
  exact avoids_modify _

theorem avoids_setModelName (m : ModelId) (v : Value) :
    Avoids .inconsistentFlow (setModelName m v) w := by
  refine avoids_changeable ?_ m
  cases v with
  | absent => exact avoids_throw nofun
  | _ => exact avoids_modify _

/-- A flow that is added is written to both halves, or to none. -/
theorem avoids_addFlow (m : ModelId) (path : FlowPath) (start finish : Argument) :
    Avoids .inconsistentFlow (addFlow m path start finish) w := by
  refine avoids_changeable (avoids_require fun a => avoids_require fun b => avoids_get ?_) m
  split
  · exact avoids_of_ok rfl
  · exact avoids_pure _

/-- Where both halves of every flow match, a removal finds none inconsistent. -/
theorem avoids_removeEnd (h : w.FlowsMatch) (side : Side) (r e : NodeId) :
    Avoids .inconsistentFlow (removeEnd side r e) w := by
  by_cases hflow : w.endpoint? side r = some e
  · exact avoids_of_ok (run_removeEnd h hflow)
  · exact avoids_of_ok (run_removeEnd_of_ne h hflow)

/-- Where both halves of every flow match, a flow that is removed has both. -/
theorem avoids_removeFlow (h : w.FlowsMatch) (m : ModelId) (path : FlowPath)
    (start finish : Argument) : Avoids .inconsistentFlow (removeFlow m path start finish) w :=
  avoids_changeable (avoids_require fun a => avoids_require fun b =>
    avoids_removeEnd h path.side (path.rateOf a b) (path.endpointOf a b)) m

/-- A node that is removed has both halves of all its flows cut. -/
theorem avoids_removeKnown (h : w.FlowsMatch) (m : ModelId) (n : NodeId) :
    Avoids .inconsistentFlow (removeKnown m n) w := by
  cases hkind : w.kind? n with
  | some kind => exact avoids_of_ok (run_removeKnown h hkind)
  | none =>
      unfold removeKnown
      refine avoids_get ?_
      rw [hkind]
      exact avoids_throw nofun

/-- A removal that passes its checks cuts flows that have both halves. -/
theorem avoids_removeNode (h : w.FlowsMatch) (m : ModelId) (a : Argument) :
    Avoids .inconsistentFlow (removeNode m a) w := by
  refine avoids_changeable ?_ m
  refine avoids_unless nofun fun _ => avoids_get ?_
  refine avoids_check checkUnread_ne_inconsistent fun _ _ => ?_
  split
  · exact avoids_removeKnown h m _
  · exact avoids_throw nofun

/-- Validation reads the world, and fails for violations alone. -/
theorem avoids_validate (m : ModelId) : Avoids .inconsistentFlow (validate m) w := by
  have hproblem : w.firstProblem? (w.model m) ≠ some .inconsistentFlow :=
    World.firstProblem?_ne_inconsistent
  refine avoids_get ?_
  split
  · rename_i e he
    rw [he] at hproblem
    exact avoids_throw fun heq => hproblem (congrArg some heq)
  · exact avoids_pure _

/-- Locking fails for what validation and the ordering fail for. -/
theorem avoids_lock (m : ModelId) : Avoids .inconsistentFlow (lock m) w := by
  refine avoids_changeable (avoids_bind (avoids_validate m) fun _ w' _ => ?_) m
  exact avoids_get (avoids_check World.evaluationOrder_ne_inconsistent fun _ _ => avoids_of_ok rfl)

theorem avoids_advanceFormula (n : NodeId) : Avoids .inconsistentFlow (advanceFormula n) w :=
  avoids_get (avoids_check evaluate_ne_inconsistent fun _ _ => avoids_modify _)

theorem avoids_advanceLevel (n : NodeId) : Avoids .inconsistentFlow (advanceLevel n) w :=
  avoids_get (avoids_check nextLevelValue_ne_inconsistent fun _ _ => avoids_modify _)

theorem avoids_advanceAll (ns : List NodeId) : Avoids .inconsistentFlow (advanceAll ns) w := by
  induction ns generalizing w with
  | nil => exact avoids_pure ()
  | cons n rest ih => exact avoids_bind (avoids_advanceFormula n) fun _ _ _ => ih

theorem avoids_advanceLevels (ns : List NodeId) :
    Avoids .inconsistentFlow (advanceLevels ns) w := by
  induction ns generalizing w with
  | nil => exact avoids_pure ()
  | cons n rest ih => exact avoids_bind (avoids_advanceLevel n) fun _ _ _ => ih

/-- A round evaluates formulas and adds up flows that the levels know of. -/
theorem avoids_computeRound (m : ModelId) : Avoids .inconsistentFlow (computeRound m) w := by
  refine avoids_get (avoids_unless nofun fun _ => ?_)
  refine avoids_bind (avoids_advanceAll _) fun _ w' _ => avoids_get ?_
  refine avoids_check evaluateAll_ne_inconsistent fun values _ => ?_
  exact avoids_bind (avoids_of_ok rfl) fun _ _ _ => avoids_advanceLevels _

/-- Where both halves of every flow match, no operation finds a flow inconsistent. -/
theorem perform_avoids (h : w.FlowsMatch) (op : Operation) :
    Avoids .inconsistentFlow (perform op) w := by
  cases op with
  | newModel name => exact avoids_of_ok rfl
  | createLevel m name value =>
      refine avoids_map (avoids_changeable ?_ m) _
      refine avoids_check checkName_ne_inconsistent fun s _ => ?_
      exact avoids_check checkNumber_ne_inconsistent fun x _ => avoids_own m _
  | createRate m name =>
      refine avoids_map (avoids_changeable ?_ m) _
      exact avoids_check checkName_ne_inconsistent fun s _ => avoids_own m _
  | createConstant m name value =>
      refine avoids_map (avoids_changeable ?_ m) _
      refine avoids_check checkName_ne_inconsistent fun s _ => ?_
      exact avoids_check checkNumber_ne_inconsistent fun x _ => avoids_own m _
  | createAuxiliary m name =>
      refine avoids_map (avoids_changeable ?_ m) _
      exact avoids_check checkName_ne_inconsistent fun s _ => avoids_own m _
  | createSourceSink m => exact avoids_map (avoids_changeable (avoids_own m _) m) _
  | setModelName m name => exact avoids_map (avoids_setModelName m name) _
  | setNodeName m a name =>
      refine avoids_map (avoids_changeable ?_ m) _
      exact avoids_unless nofun fun _ => avoids_renameNode a name
  | setStartValue m a value =>
      refine avoids_map (avoids_changeable (avoids_require fun n => ?_) m) _
      exact avoids_check checkNumber_ne_inconsistent fun x _ => avoids_modify _
  | setConstantValue m a value =>
      refine avoids_map (avoids_changeable (avoids_require fun n => ?_) m) _
      exact avoids_check checkNumber_ne_inconsistent fun x _ => avoids_modify _
  | setFormula m a b =>
      refine avoids_map (avoids_changeable (avoids_require fun n => avoids_get ?_) m) _
      exact avoids_check formulaOf_ne_inconsistent fun f _ => avoids_modify _
  | addFlow m path start finish => exact avoids_map (avoids_addFlow m path start finish) _
  | removeFlow m path start finish => exact avoids_map (avoids_removeFlow h m path start finish) _
  | removeNode m a => exact avoids_map (avoids_removeNode h m a) _
  | validate m => exact avoids_map (avoids_validate m) _
  | lock m => exact avoids_map (avoids_lock m) _
  | computeRound m => exact avoids_map (avoids_computeRound m) _

end Action
end StockFlow
