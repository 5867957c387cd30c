import StockFlow.Proofs.Execution.Histories

/-!
# Executions that go on

A run can begin at any time, whatever runs came before it and whatever sessions made of
the world meanwhile, also by stepping the model or by taking a formula of it away.  Either
all of its rounds succeed, and then it adds one row for each of them to what is recorded,
with the values that the model has after rounds of its own; or the first one fails, and it
adds nothing.

Main definitions:

- {lit}`Track.continued`, {lit}`Execution.continued`: a record that goes on.
- {lit}`RunState.GoesThrough`: a run after some rounds that all succeeded.
- {lit}`Stage.Continues`: what any events leave of an execution and its locked model.
- {lit}`Stage.Executes`: what a call has executed.

Main results:

- Theorem {lit}`RunState.advanceTimes_induction`: what one round keeps is kept by any number.
- Theorem {lit}`RunState.GoesThrough.advanceTimes`: what a run records if its rounds succeed.
- Theorem {lit}`Stage.Continues.after`: what any events keep.
- Theorem {lit}`Stage.Continues.executes`: what a call that is accepted executes after them.
-/

namespace StockFlow

/-! ## Records that go on -/

namespace Track

variable {t : Track} {worlds : Nat → World} {n : NodeId} {k r i j : Nat}

/-- The track with the values of its nodes in more worlds, the first of which has number one. -/
def continued (t : Track) (worlds : Nat → World) (k : Nat) : Track :=
  { t with
    rows := ((List.range' 1 k).map fun i => t.nodes.map (worlds i).valueOf).reverse ++ t.rows }

theorem record_continued (t : Track) (worlds : Nat → World) (k : Nat) :
    (t.continued worlds k).record (worlds (k + 1)) = t.continued worlds (k + 1) := by
  rw [record, continued, continued, List.range'_1_concat, List.map_append, List.reverse_append,
    Nat.add_comm 1 k]
  rfl

/-- What is recorded of a node in the worlds stands behind what was recorded before. -/
theorem getElem?_column_continued (hrows : t.rows.length = r + 1) (hn : t.nodes[j]? = some n)
    (hfirst : 1 ≤ i) (hlast : i ≤ k) :
    ((t.continued worlds k).column j)[r + i]? = some ((worlds i).valueOf n) := by
  have hold : t.rows.reverse.length = r + 1 := by rw [List.length_reverse, hrows]
  have hplace : r + i - t.rows.reverse.length = i - 1 := by omega
  have hrange : (List.range' 1 k)[i - 1]? = some i := by
    rw [List.getElem?_range' (by omega)]
    congr 1
    omega
  rw [column, continued, List.getElem?_map, List.reverse_append, List.reverse_reverse,
    List.getElem?_append_right (by omega), hplace, List.getElem?_map, hrange]
  simp only [Option.map_some, List.getElem?_map, hn, Option.getD_some]

end Track

namespace Execution

/-- The execution after some more rounds that lead through worlds. -/
def continued (x : Execution) (worlds : Nat → World) (k : Nat) : Execution :=
  { x with
    round := x.round + k
    levels := x.levels.continued worlds k
    rates := x.rates.continued worlds k
    auxiliaries := x.auxiliaries.continued worlds k }

theorem track_continued (x : Execution) (worlds : Nat → World) (k : Nat) (kind : RecordedKind) :
    (x.continued worlds k).track kind = (x.track kind).continued worlds k := by
  cases kind <;> rfl

theorem record_continued (x : Execution) (worlds : Nat → World) (k : Nat) :
    Execution.record (worlds (k + 1))
      { x.continued worlds k with round := (x.continued worlds k).round + 1 } =
      x.continued worlds (k + 1) := by
  simp only [Execution.record, continued, Track.record_continued, Nat.add_assoc]

end Execution

namespace World

variable {v : World} {m : ModelId}

/-- Where one round succeeds, the rounds after it succeed too. -/
theorem Runnable.run_computeTimes (hv : v.WellFormed) (h : v.Runnable m) (k : Nat) :
    (Action.computeRound m).run (v.computeTimes m k) = .ok () (v.computeTimes m (k + 1)) := by
  have hlinks := (sameUpToValues_computeTimes v m k).sameLinks
  rcases (hlinks.wellFormed hv).computeRound_ok (hlinks.runnable h) with ⟨w', hrun⟩
  have hafter : w' = v.computeTimes m (k + 1) := by
    rw [computeTimes_succ, ← worldAfter_computeRound, Action.worldAfter, hrun]
  rwa [← hafter]

end World

/-! ## One run -/

namespace RunState

variable {v : World} {x : Execution} {s : RunState} {k : Nat}

/-- Each round steps the world, whether it succeeds or not, and leaves alone what is executed. -/
theorem world_advance (s : RunState) :
    s.advance.world = s.world.step (.computeRound s.execution.model) ∧
      s.advance.execution.model = s.execution.model ∧
      s.advance.execution.settings = s.execution.settings := by
  rw [← World.worldAfter_computeRound, Action.worldAfter]
  cases hrun : (Action.computeRound s.execution.model).run s.world with
  | ok _ w' =>
      obtain ⟨hworld, _, hexecution, _⟩ := advance_of_ok hrun
      rw [hworld, hexecution]
      exact ⟨rfl, rfl, rfl⟩
  | error e w' =>
      rw [advance_of_error hrun]
      exact ⟨rfl, rfl, rfl⟩

/-- Rounds that are advanced are rounds of the world, some of which may not have come about. -/
theorem world_advanceTimes (s : RunState) (n : Nat) :
    (∃ k, (advanceTimes n s).world = s.world.computeTimes s.execution.model k) ∧
      (advanceTimes n s).execution.model = s.execution.model ∧
      (advanceTimes n s).execution.settings = s.execution.settings := by
  refine advanceTimes_induction (P := fun t =>
    (∃ k, t.world = s.world.computeTimes s.execution.model k) ∧
      t.execution.model = s.execution.model ∧ t.execution.settings = s.execution.settings)
    (fun t ht => ?_) ⟨⟨0, rfl⟩, rfl, rfl⟩ n
  obtain ⟨⟨k, hworld⟩, hmodel, hsettings⟩ := ht
  obtain ⟨hnext, hmodel', hsettings'⟩ := world_advance t
  refine ⟨⟨k + 1, ?_⟩, hmodel'.trans hmodel, hsettings'.trans hsettings⟩
  rw [hnext, hmodel, hworld, World.computeTimes_succ]

/-- A run that an execution began in a world, after some rounds that all succeeded. -/
structure GoesThrough (v : World) (x : Execution) (k : Nat) (s : RunState) : Prop where
  world : s.world = v.computeTimes x.model k
  fault : s.fault = none
  execution : s.execution = x.continued (v.computeTimes x.model) k

theorem goesThrough_zero (v : World) (x : Execution) :
    GoesThrough v x 0 { world := v, execution := x } :=
  ⟨rfl, rfl, rfl⟩

/-- The next round succeeds. -/
theorem GoesThrough.run_computeRound (h : GoesThrough v x k s) (hv : v.WellFormed)
    (hrunnable : v.Runnable x.model) :
    (Action.computeRound s.execution.model).run s.world =
      .ok () (v.computeTimes x.model (k + 1)) := by
  rw [h.execution, h.world]
  exact hrunnable.run_computeTimes hv k

/-- One more round of a model that can run goes through its worlds. -/
theorem GoesThrough.advance (h : GoesThrough v x k s) (hv : v.WellFormed)
    (hrunnable : v.Runnable x.model) : GoesThrough v x (k + 1) s.advance := by
  obtain ⟨hworld, hfault, hexecution, _⟩ := advance_of_ok (h.run_computeRound hv hrunnable)
  refine ⟨hworld, hfault.trans h.fault, ?_⟩
  rw [hexecution, h.execution, Execution.record_continued]

/-- What each round that succeeds keeps is kept by a run all of whose rounds do. -/
theorem GoesThrough.advanceTimes_induction {P : Nat → RunState → Prop} (hv : v.WellFormed)
    (hrunnable : v.Runnable x.model)
    (hstep : ∀ k s, GoesThrough v x k s → P k s → P (k + 1) s.advance)
    (h : GoesThrough v x k s) (hold : P k s) (n : Nat) :
    GoesThrough v x (k + n) (RunState.advanceTimes n s) ∧
      P (k + n) (RunState.advanceTimes n s) := by
  induction n generalizing s k with
  | zero => exact ⟨h, hold⟩
  | succ n ih =>
      have hnext := h.advance hv hrunnable
      rw [advanceTimes_succ, hnext.fault]
      simp only [Option.isSome_none, Bool.false_eq_true, if_false]
      rw [Nat.add_comm n, ← Nat.add_assoc]
      exact ih hnext (hstep k s h hold)

/-- Any number of rounds of a model that can run goes through its worlds. -/
theorem goesThrough_advanceTimes (hv : v.WellFormed) (hrunnable : v.Runnable x.model) (n : Nat) :
    GoesThrough v x n (advanceTimes n { world := v, execution := x }) := by
  have hrun := (goesThrough_zero v x).advanceTimes_induction (P := fun _ _ => True) hv hrunnable
    (fun _ _ _ _ => trivial) trivial n
  rw [Nat.zero_add] at hrun
  exact hrun.1

end RunState

namespace Execution

variable {v : World} {x : Execution} {settings : Settings} {rounds : Value} {n : Nat}

/-- No call is accepted for no rounds. -/
theorem pos_of_roundCount (h : roundCount settings rounds = .ok n) : 0 < n := by
  rw [roundCount] at h
  split at h
  · rename_i i _
    by_cases hlow : i < 1
    · rw [if_pos hlow] at h
      cases h
    · rw [if_neg hlow] at h
      split at h
      · cases h
      · cases h
        omega
  · cases h

/-- A call that is accepted where rounds succeed returns after all of them. -/
theorem run_of_runnable (hv : v.WellFormed) (hrunnable : v.Runnable x.model)
    (hcount : roundCount x.settings rounds = .ok n) :
    (x.run v rounds).fault = none ∧ (x.run v rounds).world = v.computeTimes x.model n ∧
      (x.run v rounds).execution =
        (x.continued (v.computeTimes x.model) n).refresh (v.computeTimes x.model n) ∧
      (x.run v rounds).warnings =
        (RunState.advanceTimes n { world := v, execution := x }).warnings := by
  have hrun := RunState.goesThrough_advanceTimes hv hrunnable n
  simp only [run, hcount, hrun.fault, hrun.world, hrun.execution, and_self]

/-- A call that is accepted where rounds fail says nothing before it fails. -/
theorem warnings_run_of_not_ok (hnone : ¬ ∃ w', (Action.computeRound x.model).run v = .ok () w') :
    (x.run v rounds).warnings = [] := by
  rw [run]
  split
  · rfl
  · rename_i n hcount
    obtain ⟨k, rfl⟩ := Nat.exists_eq_add_one.2 (pos_of_roundCount hcount)
    cases hrun : (Action.computeRound x.model).run v with
    | ok _ w' => exact (hnone ⟨w', hrun⟩).elim
    | error e w' =>
        rw [RunState.advanceTimes_of_error (s := { world := v, execution := x }) hrun]

/-- A call leaves alone what is executed, and it steps the world only by rounds of that. -/
theorem world_run (v : World) (x : Execution) (rounds : Value) :
    (∃ k, (x.run v rounds).world = v.computeTimes x.model k) ∧
      (x.run v rounds).execution.model = x.model ∧
      (x.run v rounds).execution.settings = x.settings := by
  rw [run]
  split
  · exact ⟨⟨0, rfl⟩, rfl, rfl⟩
  · rename_i n _
    have hrun := RunState.world_advanceTimes { world := v, execution := x } n
    dsimp only
    split <;> exact hrun

end Execution

/-! ## Any events -/

namespace Stage

variable {w : World} {m : ModelId} {content : Model} {settings : Settings} {x₀ : Execution}
  {s : Stage} {rounds : Value} {n : Nat}

/-- What any events leave of an execution of a locked model and of the model itself. -/
structure Continues (w : World) (m : ModelId) (x₀ : Execution) (s : Stage) : Prop where
  reachable : s.world.Reachable
  content : s.world.model? m = w.model? m
  model : s.execution.model = m
  settings : s.execution.settings = x₀.settings
  execution : Execution.GoesOnFrom x₀ s.execution

/-- An event keeps a run on the way that its model goes from the start. -/
theorem Continues.next (h : Continues w m x₀ s) (hm : w.model? m = some content)
    (hlocked : content.changeable = false) (e : Event) : Continues w m x₀ (s.next e) := by
  have hm' : s.world.model? m = some content := h.content.trans hm
  have hkeep : ∀ ops, (s.world.run ops).model? m = w.model? m := by
    intro ops
    rw [World.model?_run_of_locked h.reachable.wellFormed ops hm' hlocked, hm]
  cases e with
  | run rounds =>
      obtain ⟨⟨k, hworld⟩, hmodel, hsettings⟩ := Execution.world_run s.world s.execution rounds
      refine ⟨?_, ?_, hmodel.trans h.model, hsettings.trans h.settings, h.execution.run _ rounds⟩
      · rw [Stage.next, hworld]
        exact h.reachable.run _
      · rw [Stage.next, hworld]
        exact hkeep _
  | operation op =>
      exact ⟨h.reachable.step op, hkeep [op], h.model, h.settings, h.execution⟩

/-- Any events keep what an execution is of, and what is locked of it. -/
theorem Continues.after (h : Continues w m x₀ s) (hm : w.model? m = some content)
    (hlocked : content.changeable = false) (events : List Event) :
    Continues w m x₀ (s.after events) := by
  induction events generalizing s with
  | nil => exact h
  | cons e rest ih => exact ih (h.next hm hlocked e)

/-- A run starts on the way that its model goes. -/
theorem continues_start (hw : w.Reachable) (hstart : Execution.start w m settings = .ok x₀) :
    Continues w m x₀ { world := w, execution := x₀ } :=
  ⟨hw, rfl, (Execution.model_start hstart).1, rfl, Execution.goesOnFrom_start hstart⟩

/--
Whether a call that is accepted for some rounds has executed a number of them: all, or
none where a formula is missing.  What each of these leaves is recorded under the number
that it has in the execution as a whole.
-/
structure Executes (m : ModelId) (s : Stage) (n k : Nat) (outcome : RunOutcome) : Prop where
  round : outcome.execution.round = s.execution.round + k
  returned : outcome.fault = none → k = n ∧ outcome.world = s.world.computeTimes m n
  failed : outcome.fault ≠ none → k = 0 ∧
    ∃ r ∈ (s.world.model m).formulaOwners, s.world.formula? r = none
  recorded : ∀ i, 1 ≤ i → i ≤ k → ∀ kind : RecordedKind,
    ∀ r ∈ (s.world.model m).members kind.nodeKind,
      ∃ values, outcome.execution.history? r = some values ∧
        values[s.execution.round + i]? = some ((s.world.computeTimes m i).valueOf r)

section

variable (hstart : Execution.start w m settings = .ok x₀)

include hstart

/-- What is recorded are the members of the model. -/
theorem Continues.perm_nodes (h : Continues w m x₀ s) (kind : RecordedKind) :
    (s.execution.track kind).nodes.Perm ((s.world.model m).members kind.nodeKind) := by
  have hmodel : s.world.model m = w.model m := by
    rw [World.model, World.model, h.content]
  rw [h.execution.nodes, Execution.track_start hstart, hmodel]
  exact Execution.perm_recordedNodes w m kind

/-- Where rounds succeed, all of them are executed. -/
theorem Continues.executes (h : Continues w m x₀ s) (hrunnable : s.world.Runnable m)
    (hcount : Execution.roundCount settings rounds = .ok n) :
    s.Executes m n n (s.execution.run s.world rounds) := by
  rw [← (Execution.model_start hstart).2, ← h.settings] at hcount
  have hrunnable' := hrunnable
  rw [← h.model] at hrunnable'
  obtain ⟨hfault, hworld, hexecution, _⟩ :=
    Execution.run_of_runnable h.reachable.wellFormed hrunnable' hcount
  rw [h.model] at hworld hexecution
  refine ⟨?_, fun _ => ⟨rfl, hworld⟩, fun hne => (hne hfault).elim, ?_⟩
  · rw [hexecution]
    rfl
  · intro i hfirst hlast kind r hr
    have htrack : ∀ kind, (s.execution.run s.world rounds).execution.track kind =
        (s.execution.track kind).continued (s.world.computeTimes m) n := by
      intro kind
      rw [hexecution, Execution.track_refresh, Execution.track_continued]
    have hperm : ∀ kind, ((s.execution.run s.world rounds).execution.track kind).nodes.Perm
        ((s.world.model m).members kind.nodeKind) := by
      intro kind
      rw [htrack]
      exact h.perm_nodes hstart kind
    rcases List.getElem?_of_mem ((hperm kind).mem_iff.2 hr) with ⟨j, hj⟩
    have hhistory := h.reachable.wellFormed.history?_eq_column hperm hj
    rw [htrack] at hj hhistory
    exact ⟨_, hhistory,
      Track.getElem?_column_continued (h.execution.rows kind) hj hfirst hlast⟩

/-- Where rounds fail, none is executed. -/
theorem Continues.executes_none (h : Continues w m x₀ s) (hlocked : s.world.isChangeable m = false)
    (hrunnable : ¬ s.world.Runnable m) (hcount : Execution.roundCount settings rounds = .ok n) :
    s.Executes m n 0 (s.execution.run s.world rounds) := by
  rw [← (Execution.model_start hstart).2, ← h.settings] at hcount
  have hnone := mt h.reachable.wellFormed.computeRound_ok_iff.1 hrunnable
  have hmissing := mt (h.reachable.computeRound_ok_iff hlocked).2 hnone
  rw [← h.model] at hnone
  obtain ⟨k, rfl⟩ := Nat.exists_eq_add_one.2 (Execution.pos_of_roundCount hcount)
  obtain ⟨hsame, e, he⟩ := Execution.run_of_not_ok hnone hcount
  refine ⟨by rw [hsame]; rfl, fun hfault => ?_, fun _ => ⟨rfl, ?_⟩, fun i hfirst hlast => ?_⟩
  · rw [hfault] at he
    cases he
  · push Not at hmissing
    obtain ⟨r, hr, hnoformula⟩ := hmissing
    exact ⟨r, hr, Option.eq_none_iff_forall_ne_some.2 hnoformula⟩
  · omega

end

end Stage

end StockFlow
