import StockFlow.Proofs.World.Starts

/-!
# The life of a model

A model can be changed until it is locked for the first time, and never again.  Until
then there are no rounds, so that all its values are those that it started with.  From
then on every operation that would change the model is refused before its arguments
are looked at; what is left are rounds, and these write current values of the model's
levels, rates and auxiliaries only.

Main definitions:

- {lit}`World.Occurs`: some operation of a session does something.
- {lit}`World.LocksAt`: a session locks a model, and what follows the lock.
- {lit}`World.Unstepped`: the values of a model that can be changed, which has no rounds.
- {lit}`World.Sealed`: a model that refuses every change.
- {lit}`World.KeptSince`: what is still the same as in an earlier world.

Main results:

- Theorem {lit}`Action.perform_refused`: locked models refuse operations whatever these are handed.
- Theorem {lit}`World.Reachable.holds_or_occurs`: what holds until an operation ends it.
- Theorem {lit}`World.WellFormed.isChangeable_run_iff`: what is locked was locked by the session.
- Theorem {lit}`World.Reachable.keptSince_run`: what operations on a locked model keep.
- Theorem {lit}`World.Reachable.lifecycle`: the life of a model through any session on it.
-/

namespace StockFlow

namespace Action

variable {α β : Type} {w : World} {m : ModelId}

/-! ## Refusals -/

/-- The check for changeability comes before everything else. -/
theorem run_refused (hlocked : w.isChangeable m = false) (f : Unit → Action α) (g : α → β) :
    (g <$> (requireChangeable m >>= f)).run w = .error .notChangeable w := by
  have hcheck : (requireChangeable m).run w = .error .notChangeable w := by
    rw [run_requireChangeable, hlocked]
    rfl
  rw [run_map, run_bind_error hcheck]

/-- A locked model refuses every operation that would change it, whatever that is handed. -/
theorem perform_refused (hlocked : w.isChangeable m = false) {op : Operation}
    (hop : op.model? = some m) (hvalidate : op ≠ .validate m) (hround : op ≠ .computeRound m) :
    (perform op).run w = .error .notChangeable w := by
  cases op with
  | newModel name => cases hop
  | validate k =>
      cases hop
      exact (hvalidate rfl).elim
  | computeRound k =>
      cases hop
      exact (hround rfl).elim
  | _ =>
      cases hop
      exact run_refused hlocked _ _

end Action

namespace World

variable {w w₁ v : World} {m : ModelId} {n : NodeId}

/-! ## What ends during a session -/

/-- Whether some operation of a session does something to the world that it is performed in. -/
def Occurs (P : World → Operation → Prop) (w : World) (ops : List Operation) : Prop :=
  ∃ before op after, ops = before ++ op :: after ∧ P (w.run before) op

/-- What occurs later in a session occurs in it. -/
theorem Occurs.cons {P : World → Operation → Prop} {op : Operation} {rest : List Operation}
    (h : Occurs P (w.step op) rest) : Occurs P w (op :: rest) := by
  rcases h with ⟨before, k, after, rfl, hk⟩
  exact ⟨op :: before, k, after, rfl, hk⟩

/-- What holds of a world holds after a session too, unless some operation of it ends that. -/
theorem Reachable.holds_or_occurs {P : World → Operation → Prop} {Q : World → Prop}
    (hstep : ∀ v op, v.Reachable → Q v → P v op ∨ Q (v.step op)) (h : w.Reachable) (hold : Q w)
    (ops : List Operation) : Occurs P w ops ∨ Q (w.run ops) := by
  induction ops generalizing w with
  | nil => exact Or.inr hold
  | cons op rest ih =>
      rcases hstep w op h hold with hend | hkeep
      · exact Or.inl ⟨[], op, rest, rfl, hend⟩
      · exact (ih (h.step op) hkeep).imp_left Occurs.cons

/-! ## When models are locked -/

/-- Whether a session locks a model, with the world right after that and the operations left. -/
def LocksAt (w : World) (m : ModelId) (ops : List Operation) (w₁ : World)
    (after : List Operation) : Prop :=
  ∃ before, ops = before ++ .lock m :: after ∧ (Action.lock m).run (w.run before) = .ok () w₁

/-- No session without operations locks anything. -/
theorem not_locksAt_nil {after : List Operation} : ¬ w.LocksAt m [] w₁ after := by
  rintro ⟨before, hops, _⟩
  cases before <;> cases hops

/-- A session locks a model with its first operation or after that. -/
theorem locksAt_cons_iff {op : Operation} {rest after : List Operation} :
    w.LocksAt m (op :: rest) w₁ after ↔
      (op = .lock m ∧ rest = after ∧ (Action.lock m).run w = .ok () w₁) ∨
        (w.step op).LocksAt m rest w₁ after := by
  constructor
  · rintro ⟨before, hops, hrun⟩
    cases before with
    | nil =>
        cases hops
        exact Or.inl ⟨rfl, rfl, hrun⟩
    | cons op' before =>
        cases hops
        exact Or.inr ⟨before, rfl, hrun⟩
  · rintro (⟨rfl, rfl, hrun⟩ | ⟨before, rfl, hrun⟩)
    · exact ⟨[], rfl, hrun⟩
    · exact ⟨op :: before, rfl, hrun⟩

/-- No operation makes a locked model changeable. -/
theorem WellFormed.isChangeable_run_of_locked (hw : w.WellFormed) {content : Model}
    (hm : w.model? m = some content) (hlocked : content.changeable = false)
    (ops : List Operation) : (w.run ops).isChangeable m = false := by
  rw [isChangeable, model_of_model? (model?_run_of_locked hw ops hm hlocked), hlocked]

/-- Only locking makes a model unchangeable. -/
theorem WellFormed.isChangeable_step_iff (hw : w.WellFormed) (hc : w.isChangeable m = true)
    (op : Operation) : (w.step op).isChangeable m = false ↔
      op = .lock m ∧ ∃ w', (Action.lock m).run w = .ok () w' := by
  constructor
  · intro hlocked
    rcases step_cases hw.flows op with hsame | ⟨outcome, heffect⟩ | ⟨k, _, hvalues⟩
    · rw [hsame, hc] at hlocked
      cases hlocked
    · rcases heffect.model_cases m with hmodel | hchangeable | rfl
      · rw [isChangeable, hmodel, ← isChangeable, hc] at hlocked
        cases hlocked
      · rw [hchangeable] at hlocked
        cases hlocked
      · refine ⟨rfl, ?_⟩
        rcases Action.commits_lock (w := w) m with ⟨e, hrun⟩ | ⟨_, w', hrun, _⟩
        · have hfail : (Action.perform (.lock m)).run w = .error e w := by
            rw [Action.perform, Action.run_map, hrun]
          rw [step_of_error hfail, hc] at hlocked
          cases hlocked
        · exact ⟨w', hrun⟩
    · rw [hvalues.sameLinks.isChangeable, hc] at hlocked
      cases hlocked
  · rintro ⟨rfl, w', hrun⟩
    obtain ⟨_, _, content, hm, hlocked⟩ := hw.lock_ok hrun
    rw [step_lock hrun, isChangeable, model_of_model? hm, hlocked]

/-- What leaves a model locked that could be changed is a lock that succeeded. -/
theorem WellFormed.run_lock_of_locked (hw : w.WellFormed) (hc : w.isChangeable m = true)
    (hlocked : (w.step (.lock m)).isChangeable m = false) :
    (Action.lock m).run w = .ok () (w.step (.lock m)) := by
  obtain ⟨_, w', hrun⟩ := (hw.isChangeable_step_iff hc _).1 hlocked
  rw [step_lock hrun, hrun]

/-- After a session, a model is locked if and only if some operation of the session locked it. -/
theorem WellFormed.isChangeable_run_iff (hw : w.WellFormed) (hc : w.isChangeable m = true)
    (ops : List Operation) :
    (w.run ops).isChangeable m = false ↔ ∃ w₁ after, w.LocksAt m ops w₁ after := by
  induction ops generalizing w with
  | nil => simp [hc, not_locksAt_nil]
  | cons op rest ih =>
      have hstep := hw.isChangeable_step_iff hc op
      simp only [run_cons, locksAt_cons_iff]
      cases hlocked : (w.step op).isChangeable m with
      | true =>
          rw [hlocked] at hstep
          rw [ih (hw.step op) hlocked]
          refine ⟨fun ⟨w₁, after, hafter⟩ => ⟨w₁, after, Or.inr hafter⟩, ?_⟩
          rintro ⟨w₁, after, ⟨rfl, rfl, hrun⟩ | hafter⟩
          · cases hstep.2 ⟨rfl, w₁, hrun⟩
          · exact ⟨w₁, after, hafter⟩
      | false =>
          obtain ⟨rfl, w₁, hrun⟩ := hstep.1 hlocked
          refine ⟨fun _ => ⟨w₁, rest, Or.inl ⟨rfl, rfl, hrun⟩⟩, fun _ => ?_⟩
          obtain ⟨_, _, content, hm, hlocked⟩ := hw.lock_ok hrun
          rw [step_lock hrun]
          exact WellFormed.isChangeable_run_of_locked (hw.lock_ok hrun).1 hm hlocked rest

/-! ## Before the lock -/

/--
A model without rounds: its levels have their start values, whatever is computed from
a formula has zero, and a round fails without a trace.
-/
structure Unstepped (w : World) (m : ModelId) : Prop where
  level : ∀ l ∈ (w.model m).levels, ∃ x, w.start? l = some x ∧ w.current? l = some x
  computed : ∀ n ∈ (w.model m).formulaOwners, w.current? n = some 0.0
  round : (Action.perform (.computeRound m)).run w = .error .stillChangeable w

/-- A model that may still be changed refuses rounds. -/
theorem run_computeRound_of_changeable (hc : w.isChangeable m = true) :
    (Action.perform (.computeRound m)).run w = .error .stillChangeable w := by
  have hround : (Action.computeRound m).run w = .error .stillChangeable w := by
    unfold Action.computeRound
    rw [Action.run_get_bind]
    simp only [hc]
    rfl
  rw [Action.perform, Action.run_map, hround]

theorem exists_node?_of_kind? {kind : NodeKind} (h : w.kind? n = some kind) :
    ∃ node, w.node? n = some node ∧ node.kind = kind :=
  Option.map_eq_some_iff.1 h

/-- As long as a model can be changed, it has the values that it started with. -/
theorem Reachable.unstepped (h : w.Reachable) (hc : w.isChangeable m = true) :
    w.Unstepped m where
  level l hl := by
    have hstart := h.atStart hc l (Model.mem_nodes_of_mem_members .level hl)
    rcases exists_node?_of_kind? (h.wellFormed.members.kind m .level l hl) with ⟨node, hnode, hkind⟩
    rw [isAtStart, hnode] at hstart
    rw [start?, current?, hnode]
    cases node with
    | level content =>
        have hcurrent : content.current = content.start := of_decide_eq_true hstart
        exact ⟨content.start, rfl, congrArg some hcurrent⟩
    | _ => cases hkind
  computed n hn := by
    have hstart := h.atStart hc n (Model.mem_nodes_of_mem_formulaOwners hn)
    have hkind : w.kind? n = some .rate ∨ w.kind? n = some .auxiliary :=
      (List.mem_append.1 hn).imp (h.wellFormed.members.kind m .rate n)
        (h.wellFormed.members.kind m .auxiliary n)
    rw [isAtStart] at hstart
    rw [kind?] at hkind
    rw [current?]
    cases hnode : w.node? n with
    | none => simp [hnode] at hkind
    | some node =>
        rw [hnode] at hstart hkind
        cases node with
        | rate content => exact congrArg some (of_decide_eq_true hstart)
        | auxiliary content => exact congrArg some (of_decide_eq_true hstart)
        | _ => simp [Node.kind] at hkind
  round := run_computeRound_of_changeable hc

/-! ## After the lock -/

/--
A model that refuses every change: whatever would change it fails for that reason, and
no operation on it but a round changes anything.
-/
structure Sealed (w : World) (m : ModelId) : Prop where
  refuses : ∀ op : Operation, op.model? = some m → op ≠ .validate m → op ≠ .computeRound m →
    (Action.perform op).run w = .error .notChangeable w
  unchanged : ∀ op : Operation, op.model? = some m → op ≠ .computeRound m → w.step op = w

/-- Validation changes nothing, whether it succeeds or fails. -/
theorem step_validate (w : World) (m : ModelId) : w.step (.validate m) = w := by
  rw [step, Action.worldAfter, Action.perform, Action.run_map, Action.run_validate]
  cases w.firstProblem? (w.model m) <;> rfl

/-- A locked model refuses everything but validation and rounds. -/
theorem sealed_of_locked (hlocked : w.isChangeable m = false) : w.Sealed m where
  refuses _ hop hvalidate hround := Action.perform_refused hlocked hop hvalidate hround
  unchanged op hop hround := by
    by_cases hvalidate : op = .validate m
    · rw [hvalidate, step_validate]
    · exact step_of_error (Action.perform_refused hlocked hop hvalidate hround)

/--
Whether a world has kept everything of an earlier one but current values of the levels,
rates and auxiliaries of a model.
-/
structure KeptSince (w₁ : World) (m : ModelId) (w : World) : Prop where
  values : SameUpToValues w₁ w
  other : ∀ n, n ∉ (w₁.model m).levels → n ∉ (w₁.model m).formulaOwners → w.node? n = w₁.node? n

namespace KeptSince

theorem refl (w : World) (m : ModelId) : w.KeptSince m w := ⟨SameUnder.refl _ w, fun _ _ _ => rfl⟩

theorem trans (h : w₁.KeptSince m w) (h' : w.KeptSince m v) : w₁.KeptSince m v where
  values := h.values.trans h'.values
  other n hlevel howner := by
    refine (h'.other n ?_ ?_).trans (h.other n hlevel howner)
    · rwa [h.values.model]
    · rwa [h.values.model]

end KeptSince

/-- A round of a locked model writes current values of the nodes that it computes. -/
theorem Reachable.keptSince_step_computeRound (h : w.Reachable)
    (hlocked : w.isChangeable m = false) : w.KeptSince m (w.step (.computeRound m)) where
  values := step_computeRound m
  other n hlevel howner := by
    rw [Model.formulaOwners, List.mem_append, not_or] at howner
    refine (step_computeRound m).node?_eq ?_
    rw [← worldAfter_computeRound]
    refine Action.valueOf_computeRound ?_ howner.1 hlevel
    rw [h.ordersMatch m hlocked]
    exact howner.2

/-- What one operation on a locked model keeps. -/
theorem Reachable.keptSince_step (h : w.Reachable) (hlocked : w.isChangeable m = false)
    {op : Operation} (hop : op.model? = some m) : w.KeptSince m (w.step op) := by
  by_cases hround : op = .computeRound m
  · rw [hround]
    exact h.keptSince_step_computeRound hlocked
  · rw [(sealed_of_locked hlocked).unchanged op hop hround]
    exact KeptSince.refl w m

/-- What a session on a locked model keeps. -/
theorem Reachable.keptSince_run (h : w.Reachable) (hlocked : w.isChangeable m = false)
    {ops : List Operation} (hops : ∀ op ∈ ops, op.model? = some m) :
    w.KeptSince m (w.run ops) := by
  induction ops generalizing w with
  | nil => exact KeptSince.refl w m
  | cons op rest ih =>
      have hstep := h.keptSince_step hlocked (hops op List.mem_cons_self)
      have hlocked' : (w.step op).isChangeable m = false := by
        rw [hstep.values.sameLinks.isChangeable, hlocked]
      exact hstep.trans (ih (h.step op) hlocked' fun k hk => hops k (List.mem_cons_of_mem op hk))

/-! ## The whole life -/

/-- Any further session leads to a world that sessions reach. -/
theorem Reachable.run (h : w.Reachable) (ops : List Operation) : (w.run ops).Reachable := by
  rcases h with ⟨ops₀, rfl⟩
  exact ⟨ops₀ ++ ops, (run_append {} ops₀ ops).symm⟩

/-- What follows the lock in a session on a model keeps everything but current values. -/
theorem Reachable.keptSince_of_locksAt (h : w.Reachable) {ops after : List Operation}
    (hops : ∀ op ∈ ops, op.model? = some m) (hlocks : w.LocksAt m ops w₁ after) :
    w₁.KeptSince m (w.run ops) := by
  rcases hlocks with ⟨before, rfl, hrun⟩
  have hbefore := h.run before
  obtain ⟨_, _, content, hm, hlocked⟩ := hbefore.wellFormed.lock_ok hrun
  rw [run_append, run_cons, step_lock hrun]
  have hreach : w₁.Reachable := by
    rw [← step_lock hrun]
    exact hbefore.step _
  refine hreach.keptSince_run ?_ fun op hop => hops op ?_
  · rw [isChangeable, model_of_model? hm, hlocked]
  · exact List.mem_append_right _ (List.mem_cons_of_mem _ hop)

/--
The life of a model through any session on it.  It is locked if and only if some
operation of the session locked it.  While it can be changed it has the values that it
started with and no round; once it is locked it refuses every change, and all that is
not as it was right after the lock are current values of its levels, rates and
auxiliaries.
-/
theorem Reachable.lifecycle (h : w.Reachable) (hc : w.isChangeable m = true)
    {ops : List Operation} (hops : ∀ op ∈ ops, op.model? = some m) :
    ((w.run ops).isChangeable m = false ↔ ∃ w₁ after, w.LocksAt m ops w₁ after) ∧
      ((w.run ops).isChangeable m = true → (w.run ops).Unstepped m) ∧
      ((w.run ops).isChangeable m = false → (w.run ops).Sealed m) ∧
      ∀ w₁ after, w.LocksAt m ops w₁ after → w₁.KeptSince m (w.run ops) :=
  ⟨h.wellFormed.isChangeable_run_iff hc ops, (h.run ops).unstepped, sealed_of_locked,
    fun _ _ => h.keptSince_of_locksAt hops⟩

/-- The session of a tank from its first node on, with calls that come too late. -/
def lateSession : List Operation :=
  let m : ModelId := ⟨0⟩
  let leaf (index : Nat) : Argument := .node ⟨index⟩
  tankSession.tail ++ [.createRate m .absent, .setNodeName m (leaf 0) (.text "Pond"),
    .setStartValue m (leaf 2) (.integer 3), .addFlow m .levelToRate (leaf 0) (leaf 9),
    .removeNode m .absent, .lock m, .validate m, .computeRound m]

/-- A tank that is locked late keeps everything but current values from then on. -/
theorem lifecycle_tank :
    ((World.run {} (tankSession.take 1)).run lateSession).Sealed ⟨0⟩ ∧
      ∃ w₁ after, (World.run {} (tankSession.take 1)).LocksAt ⟨0⟩ lateSession w₁ after ∧
        w₁.KeptSince ⟨0⟩ ((World.run {} (tankSession.take 1)).run lateSession) := by
  have hlocked :
      ((World.run {} (tankSession.take 1)).run lateSession).isChangeable ⟨0⟩ = false := by
    decide +kernel
  have hops : ∀ op ∈ lateSession, op.model? = some ⟨0⟩ := by decide +kernel
  obtain ⟨hlocks, _, hsealed, hkept⟩ := Reachable.lifecycle (w := World.run {} (tankSession.take 1))
    ⟨_, rfl⟩ (by decide +kernel) hops
  obtain ⟨w₁, after, hafter⟩ := hlocks.1 hlocked
  exact ⟨hsealed hlocked, w₁, after, hafter, hkept w₁ after hafter⟩

end World
end StockFlow
