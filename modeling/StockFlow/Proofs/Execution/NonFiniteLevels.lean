import StockFlow.Proofs.Execution.Continuations

/-!
# Levels that are not finite

A run looks at the levels after each of its rounds, and it warns of the first round that
leaves an infinite level or one that is NaN.  It keeps no more than whether it has done so,
and each run starts anew, while rounds are numbered for the execution as a whole.  So the
warnings of a run tell of its own rounds alone, whatever came before; and since nothing
else reads the setting or the warnings, runs with and without them do the same.

Main definitions:

- {lit}`World.LevelsFinite`: all levels of a model are finite.
- {lit}`Execution.ReportsNonFinite`: the warnings that some rounds give cause for.
- {lit}`Execution.firstNonFinite?`, {lit}`Execution.firstWarning`: the first such round of a run.
- {lit}`Settings.withWarning`, {lit}`Execution.withWarning`: another choice of whether to warn.
- {lit}`RunState.SameButWarnings`, {lit}`RunOutcome.SameButWarnings`: two runs that only warn
  differently.

Main results:

- Theorem {lit}`RunState.warnings_advance_of_ok`: what a round warns of.
- Theorem {lit}`Execution.warnings_run`: what a run warns of.
- Theorem {lit}`Execution.run_withWarning`: all else that a run does is the same without warnings.
- Theorem {lit}`World.Reachable.reports_nonFinite`: what any run of a locked model warns of.
-/

namespace StockFlow

/-! ## Warnings that rounds give cause for -/

/-- Whether the values of all levels of a model are finite. -/
def World.LevelsFinite (w : World) (m : ModelId) : Prop :=
  ∀ n ∈ (w.model m).levels, Double.isFinite (w.valueOf n) = true

instance (w : World) (m : ModelId) : Decidable (w.LevelsFinite m) :=
  inferInstanceAs (Decidable (∀ n ∈ (w.model m).levels, Double.isFinite (w.valueOf n) = true))

namespace Execution

variable {w v : World} {m : ModelId} {x : Execution} {k r : Nat}

/-- The levels of a model with the labels of their columns, in the order of the columns. -/
def labelledLevels (w : World) (m : ModelId) : List (String × NodeId) :=
  let nodes := recordedNodes w m .level
  (uniqueLabels (nodes.map w.nameOf)).zip nodes

/-- The labels of those levels whose values are not finite in a later world, in the same order. -/
def labelsNotFinite (w : World) (m : ModelId) (v : World) : List String :=
  ((labelledLevels w m).filter fun entry => !Double.isFinite (v.valueOf entry.2)).map Prod.fst

/--
The warnings that {lit}`k` rounds of a model from a world {lit}`v` on give cause for, in an
execution that began in a world {lit}`w` and has made {lit}`r` rounds before: none if all
levels stay finite, and otherwise a single one about the first of the {lit}`k` rounds that
leaves a level that is not.
-/
inductive ReportsNonFinite (w v : World) (m : ModelId) (r k : Nat) : List String → Prop
  | nothing (hfinite : ∀ i, 1 ≤ i → i ≤ k → (v.computeTimes m i).LevelsFinite m) :
      ReportsNonFinite w v m r k []
  | first (i : Nat) (hfirst : 1 ≤ i) (hlast : i ≤ k)
      (hbad : ¬ (v.computeTimes m i).LevelsFinite m)
      (hbefore : ∀ j, 1 ≤ j → j < i → (v.computeTimes m j).LevelsFinite m) :
      ReportsNonFinite w v m r k
        [nonFiniteWarning (r + i) (labelsNotFinite w m (v.computeTimes m i))]

/-- There is only one round that is the first. -/
theorem ReportsNonFinite.eq_of_first {warnings : List String} {i : Nat}
    (h : ReportsNonFinite w v m r k warnings) (hfirst : 1 ≤ i) (hlast : i ≤ k)
    (hbad : ¬ (v.computeTimes m i).LevelsFinite m)
    (hbefore : ∀ j, 1 ≤ j → j < i → (v.computeTimes m j).LevelsFinite m) :
    warnings = [nonFiniteWarning (r + i) (labelsNotFinite w m (v.computeTimes m i))] := by
  cases h with
  | nothing hfinite => exact (hbad (hfinite i hfirst hlast)).elim
  | first i' hfirst' hlast' hbad' hbefore' =>
      have hle : ¬ i < i' := fun hlt => hbad (hbefore' i hfirst hlt)
      have hge : ¬ i' < i := fun hlt => hbad' (hbefore i' hfirst' hlt)
      obtain rfl : i' = i := by omega
      rfl

/-! ## The warning of a run -/

/-- The first of some rounds of a run that leaves a level that is not finite. -/
def firstNonFinite? (x : Execution) (v : World) (k : Nat) : Option Nat :=
  (List.range' 1 k).find? fun i => !(x.nonFiniteLevels (v.computeTimes x.model i)).isEmpty

/-- The warning about this round, if there is one. -/
def firstWarning (x : Execution) (v : World) (k : Nat) : List String :=
  (x.firstNonFinite? v k).toList.map fun i =>
    nonFiniteWarning (x.round + i) (x.nonFiniteLevels (v.computeTimes x.model i))

/-- The first bad round of some rounds is that of the rounds before the last, or the last. -/
theorem firstNonFinite?_succ (x : Execution) (v : World) (k : Nat) :
    x.firstNonFinite? v (k + 1) = (x.firstNonFinite? v k).or
      (if (x.nonFiniteLevels (v.computeTimes x.model (k + 1))).isEmpty then none
        else some (k + 1)) := by
  rw [firstNonFinite?, List.range'_1_concat, List.find?_append, Nat.add_comm 1 k]
  congr 1
  cases hempty : (x.nonFiniteLevels (v.computeTimes x.model (k + 1))).isEmpty <;>
    simp [hempty]

/-- There is a bad round among some rounds if there was one before, or the last one is bad. -/
theorem isSome_firstNonFinite?_succ (x : Execution) (v : World) (k : Nat) :
    (x.firstNonFinite? v (k + 1)).isSome = ((x.firstNonFinite? v k).isSome ||
      !(x.nonFiniteLevels (v.computeTimes x.model (k + 1))).isEmpty) := by
  rw [firstNonFinite?_succ, Option.isSome_or]
  split <;> rename_i hempty <;> simp [hempty]

/-- Only the first round is warned of. -/
theorem firstWarning_succ (x : Execution) (v : World) (k : Nat) :
    let labels := x.nonFiniteLevels (v.computeTimes x.model (k + 1))
    x.firstWarning v (k + 1) = x.firstWarning v k ++
      if !(x.firstNonFinite? v k).isSome && !labels.isEmpty then
        [nonFiniteWarning (x.round + (k + 1)) labels] else [] := by
  intro labels
  rw [firstWarning, firstWarning, firstNonFinite?_succ]
  cases x.firstNonFinite? v k with
  | some i => simp
  | none =>
      by_cases hempty : labels = []
      · simp [labels, hempty]
      · simp [labels, hempty]

end Execution

namespace RunState

variable {v w' : World} {x : Execution} {s : RunState} {k : Nat}

@[simp] theorem warned_reportProgress (s : RunState) : s.reportProgress.warned = s.warned := by
  unfold reportProgress
  split <;> rfl

@[simp] theorem warnings_reportProgress (s : RunState) :
    s.reportProgress.warnings = s.warnings := by
  unfold reportProgress
  split <;> rfl

/-- The levels that are not finite are warned of, unless this run has warned before. -/
theorem warnings_checkFinite (s : RunState) :
    let labels := s.execution.nonFiniteLevels s.world
    let warns := s.execution.settings.warns && !s.warned && !labels.isEmpty
    s.checkFinite.warned = (warns || s.warned) ∧
      s.checkFinite.warnings = s.warnings ++
        if warns then [Execution.nonFiniteWarning s.execution.round labels] else [] := by
  intro labels warns
  cases hwarns : warns with
  | true =>
      rw [checkFinite, if_pos hwarns]
      exact ⟨rfl, rfl⟩
  | false =>
      rw [checkFinite, if_neg (Bool.not_eq_true _ ▸ hwarns)]
      simp

/-- A round that succeeds warns of the levels that it leaves. -/
theorem warnings_advance_of_ok
    (hrun : (Action.computeRound s.execution.model).run s.world = .ok () w') :
    let labels := s.execution.nonFiniteLevels w'
    let warns := s.execution.settings.warns && !s.warned && !labels.isEmpty
    s.advance.warned = (warns || s.warned) ∧
      s.advance.warnings = s.warnings ++
        if warns then [Execution.nonFiniteWarning (s.execution.round + 1) labels] else [] := by
  rw [advance, hrun]
  simp only [warned_reportProgress, warnings_reportProgress]
  exact warnings_checkFinite _

/-- What a run has warned of after some rounds that all succeeded. -/
structure WarnedOf (v : World) (x : Execution) (k : Nat) (s : RunState) : Prop where
  warned : s.warned = (x.settings.warns && (x.firstNonFinite? v k).isSome)
  warnings : s.warnings = if x.settings.warns then x.firstWarning v k else []

/-- One more round warns if it is the first bad one, and only then. -/
theorem WarnedOf.advance (h : WarnedOf v x k s) (hs : GoesThrough v x k s) (hv : v.WellFormed)
    (hrunnable : v.Runnable x.model) : WarnedOf v x (k + 1) s.advance := by
  obtain ⟨hwarned, hwarnings⟩ := warnings_advance_of_ok (hs.run_computeRound hv hrunnable)
  have hlabels : s.execution.nonFiniteLevels (v.computeTimes x.model (k + 1)) =
      x.nonFiniteLevels (v.computeTimes x.model (k + 1)) := by
    rw [hs.execution]
    rfl
  have hsettings : s.execution.settings = x.settings := by rw [hs.execution]; rfl
  have hround : s.execution.round = x.round + k := by rw [hs.execution]; rfl
  rw [hlabels, hsettings, h.warned] at hwarned hwarnings
  rw [h.warnings, hround, Nat.add_assoc] at hwarnings
  -- the flag stands for the rounds so far, so what is left is to compute with truth values
  refine ⟨?_, ?_⟩
  · rw [hwarned, Execution.isSome_firstNonFinite?_succ]
    cases x.settings.warns <;> cases (x.firstNonFinite? v k).isSome <;> simp
  · rw [hwarnings, Execution.firstWarning_succ]
    cases x.settings.warns <;> simp

end RunState

namespace Execution

variable {w v : World} {m : ModelId} {content : Model} {settings : Settings} {x x₀ : Execution}
  {s : Stage} {rounds : Value} {n k : Nat}

/-- If it is to warn, a run warns of the first of its rounds that leaves a level not finite. -/
theorem warnings_run (hv : v.WellFormed) (hrunnable : v.Runnable x.model)
    (hcount : roundCount x.settings rounds = .ok n) :
    (x.run v rounds).warnings = if x.settings.warns then x.firstWarning v n else [] := by
  obtain ⟨_, _, _, hwarnings⟩ := run_of_runnable hv hrunnable hcount
  have hopen : RunState.WarnedOf v x 0 { world := v, execution := x } := by
    refine ⟨?_, ?_⟩
    · exact (Bool.and_false _).symm
    · exact (ite_self _).symm
  have hclose := ((RunState.goesThrough_zero v x).advanceTimes_induction
    (P := RunState.WarnedOf v x) hv hrunnable (fun _ _ hs h => h.advance hs hv hrunnable)
    hopen n).2
  rw [Nat.zero_add] at hclose
  rw [hwarnings, hclose.warnings]

/-! ## Levels and their labels -/

/-- The columns of the levels are those of the levels of the model. -/
theorem perm_labelledLevels (w : World) (m : ModelId) :
    ((labelledLevels w m).map Prod.snd).Perm (w.model m).levels := by
  rw [labelledLevels, List.map_snd_zip (by simp)]
  exact perm_recordedNodes w m .level

/-- No label is listed if and only if all levels of the model are finite. -/
theorem labelsNotFinite_eq_nil_iff (hmodel : v.model m = w.model m) :
    labelsNotFinite w m v = [] ↔ v.LevelsFinite m := by
  rw [labelsNotFinite, List.map_eq_nil_iff, List.filter_eq_nil_iff, World.LevelsFinite, hmodel]
  constructor
  · intro h n hn
    rcases List.mem_map.1 ((perm_labelledLevels w m).mem_iff.2 hn) with ⟨entry, hentry, rfl⟩
    simpa using h entry hentry
  · intro h entry hentry
    have hn := (perm_labelledLevels w m).mem_iff.1 (List.mem_map_of_mem hentry)
    simpa using h _ hn

/-- An execution that goes on keeps the levels of the start, with their labels, in its columns. -/
theorem GoesOnFrom.zip_labels_nodes (h : GoesOnFrom x₀ x) (hstart : start w m settings = .ok x₀) :
    x.levels.labels.zip x.levels.nodes = labelledLevels w m := by
  have hlabels := h.labels .level
  have hnodes := h.nodes .level
  rw [track_start hstart] at hlabels hnodes
  simp only [track] at hlabels hnodes
  rw [hlabels, hnodes]
  rfl

/-- The labels of the levels that are not finite are those given out at the start. -/
theorem GoesOnFrom.nonFiniteLevels_eq (h : GoesOnFrom x₀ x) (hstart : start w m settings = .ok x₀)
    (v : World) : x.nonFiniteLevels v = labelsNotFinite w m v := by
  rw [nonFiniteLevels, h.zip_labels_nodes hstart, labelsNotFinite]

end Execution

namespace Stage

variable {w : World} {m : ModelId} {content : Model} {settings : Settings} {x₀ : Execution}
  {s : Stage} {rounds : Value} {n : Nat}

/-- After any events, the warning of a run is what its rounds give cause for. -/
theorem Continues.reportsNonFinite (h : Continues w m x₀ s)
    (hstart : Execution.start w m settings = .ok x₀) (k : Nat) :
    Execution.ReportsNonFinite w s.world m s.execution.round k
      (s.execution.firstWarning s.world k) := by
  have hmodel : ∀ i, (s.world.computeTimes m i).model m = w.model m := by
    intro i
    rw [(World.sameUpToValues_computeTimes s.world m i).model, World.model, World.model, h.content]
  have hfinite : ∀ i, (s.execution.nonFiniteLevels (s.world.computeTimes m i)).isEmpty = true ↔
      (s.world.computeTimes m i).LevelsFinite m := by
    intro i
    rw [h.execution.nonFiniteLevels_eq hstart, List.isEmpty_iff,
      Execution.labelsNotFinite_eq_nil_iff (hmodel i)]
  rw [Execution.firstWarning]
  cases hfirst : s.execution.firstNonFinite? s.world k with
  | none =>
      rw [Execution.firstNonFinite?, List.find?_range'_eq_none, h.model] at hfirst
      refine .nothing fun i hi hlast => (hfinite i).1 ?_
      simpa using hfirst i hi (by omega)
  | some i =>
      rw [Execution.firstNonFinite?, List.find?_range'_eq_some, h.model] at hfirst
      obtain ⟨hbad, hmem, hbefore⟩ := hfirst
      rw [List.mem_range'_1] at hmem
      rw [h.model, Option.toList_some, List.map_singleton, h.execution.nonFiniteLevels_eq hstart]
      refine .first i hmem.1 (by omega) (fun hall => ?_) fun j hj hlt => (hfinite j).1 ?_
      · rw [(hfinite i).2 hall] at hbad
        cases hbad
      · simpa using hbefore j hj hlt

/-- What a call that is accepted executes, and what it warns of. -/
theorem Continues.exists_executes (h : Continues w m x₀ s)
    (hstart : Execution.start w m settings = .ok x₀) (hm : w.model? m = some content)
    (hlocked : content.changeable = false)
    (hcount : Execution.roundCount settings rounds = .ok n) :
    ∃ k, s.Executes m n k (s.execution.run s.world rounds) ∧
      (s.execution.run s.world rounds).warnings =
        if settings.warns then s.execution.firstWarning s.world k else [] := by
  have hsettings : s.execution.settings = settings :=
    h.settings.trans (Execution.model_start hstart).2
  -- a round changes no formula, so either all rounds of the call succeed or the first one fails
  by_cases hrunnable : s.world.Runnable m
  · refine ⟨n, h.executes hstart hrunnable hcount, ?_⟩
    rw [← h.model] at hrunnable
    rw [← hsettings] at hcount ⊢
    exact Execution.warnings_run h.reachable.wellFormed hrunnable hcount
  · have hlocked' : s.world.isChangeable m = false := by
      rw [World.isChangeable, World.model_of_model? (h.content.trans hm), hlocked]
    refine ⟨0, h.executes_none hstart hlocked' hrunnable hcount, ?_⟩
    have hnone := mt h.reachable.wellFormed.computeRound_ok_iff.1 hrunnable
    rw [← h.model] at hnone
    rw [Execution.warnings_run_of_not_ok hnone]
    exact (ite_self _).symm

end Stage

/-! ## The same run with other warnings -/

/-- The settings with another choice of whether levels that are not finite are warned of. -/
def Settings.withWarning (settings : Settings) (value : Value) : Settings :=
  { settings with warnOnNonFinite := value }

/-- The execution with another choice of whether levels that are not finite are warned of. -/
def Execution.withWarning (x : Execution) (value : Value) : Execution :=
  { x with settings := x.settings.withWarning value }

/-- Whether two runs differ in nothing but that choice and the warnings. -/
structure RunState.SameButWarnings (value : Value) (s t : RunState) : Prop where
  world : t.world = s.world
  execution : t.execution = s.execution.withWarning value
  progress : t.progress = s.progress
  fault : t.fault = s.fault

/-- Whether two calls left the same behind but for that choice and the warnings. -/
structure RunOutcome.SameButWarnings (value : Value) (outcome other : RunOutcome) : Prop where
  world : other.world = outcome.world
  execution : other.execution = outcome.execution.withWarning value
  progress : other.progress = outcome.progress
  output : other.output = outcome.output
  fault : other.fault = outcome.fault

namespace RunState

variable {value : Value} {s t : RunState}

/-- The check for values that are not finite makes no difference but in warnings. -/
theorem SameButWarnings.checkFinite (h : SameButWarnings value s t) :
    SameButWarnings value s.checkFinite t.checkFinite := by
  refine ⟨?_, ?_, ?_, ?_⟩
  · rw [world_checkFinite, world_checkFinite, h.world]
  · rw [execution_checkFinite, execution_checkFinite, h.execution]
  · rw [progress_checkFinite, progress_checkFinite, h.progress]
  · rw [fault_checkFinite, fault_checkFinite, h.fault]

/-- Progress is reported where the interval divides the round. -/
theorem progress_reportProgress (s : RunState) :
    s.reportProgress.progress =
      if s.execution.settings.progressInterval.divides s.execution.round then
        (s.execution.round, s.execution.results.rounds) :: s.progress
      else s.progress := by
  rw [RunState.reportProgress]
  split <;> rfl

/-- Reports of progress are the same with warnings and without. -/
theorem SameButWarnings.reportProgress (h : SameButWarnings value s t) :
    SameButWarnings value s.reportProgress t.reportProgress := by
  refine ⟨?_, ?_, ?_, ?_⟩
  · rw [world_reportProgress, world_reportProgress, h.world]
  · rw [execution_reportProgress, execution_reportProgress, h.execution]
  · rw [progress_reportProgress, progress_reportProgress, h.execution, h.progress]
    rfl
  · rw [fault_reportProgress, fault_reportProgress, h.fault]

/-- A round does the same but for its warning. -/
theorem SameButWarnings.advance (h : SameButWarnings value s t) :
    SameButWarnings value s.advance t.advance := by
  have hmodel : t.execution.model = s.execution.model := by rw [h.execution]; rfl
  rw [RunState.advance, RunState.advance, hmodel, h.world]
  cases (Action.computeRound s.execution.model).run s.world with
  | error e w' => exact ⟨rfl, h.execution, h.progress, rfl⟩
  | ok _ w' =>
      have hrecorded : Execution.record w'
          { t.execution with round := t.execution.round + 1 } =
            (Execution.record w'
              { s.execution with round := s.execution.round + 1 }).withWarning value := by
        rw [h.execution]
        rfl
      exact SameButWarnings.reportProgress
        (SameButWarnings.checkFinite ⟨rfl, hrecorded, h.progress, h.fault⟩)

/-- Any number of rounds do the same but for their warnings. -/
theorem SameButWarnings.advanceTimes (h : SameButWarnings value s t) (n : Nat) :
    SameButWarnings value (RunState.advanceTimes n s) (RunState.advanceTimes n t) := by
  induction n generalizing s t with
  | zero => exact h
  | succ n ih =>
      rw [advanceTimes_succ, advanceTimes_succ, h.advance.fault]
      split
      · exact h.advance
      · exact ih h.advance

theorem sameButWarnings_start (v : World) (x : Execution) (value : Value) :
    SameButWarnings value { world := v, execution := x }
      { world := v, execution := x.withWarning value } :=
  ⟨rfl, rfl, rfl, rfl⟩

end RunState

/-- A run does the same with another choice of whether to warn, but for its warnings. -/
theorem Execution.run_withWarning (x : Execution) (v : World) (rounds value : Value) :
    (x.run v rounds).SameButWarnings value ((x.withWarning value).run v rounds) := by
  have hcount :
      roundCount (x.withWarning value).settings rounds = roundCount x.settings rounds := by
    cases rounds <;> rfl
  rw [run, run, hcount]
  cases roundCount x.settings rounds with
  | error e => exact ⟨rfl, rfl, rfl, rfl, rfl⟩
  | ok n =>
      have hclose := (RunState.sameButWarnings_start v x value).advanceTimes n
      have htitle : (x.withWarning value).modelTitle v = x.modelTitle v := rfl
      simp only [htitle, hclose.fault]
      cases hfault : (RunState.advanceTimes n { world := v, execution := x }).fault with
      | some e => exact ⟨hclose.world, hclose.execution, by simp only [hclose.progress], rfl, rfl⟩
      | none =>
          refine ⟨hclose.world, ?_, by simp only [hclose.progress], ?_, rfl⟩
          · simp only [hclose.world, hclose.execution]
            rfl
          · simp only [hclose.execution]
            rfl

/-- Whether to warn is kept with the settings, and changes nothing else at the start. -/
theorem Execution.start_withWarning {w : World} {m : ModelId} {settings : Settings}
    {x₀ : Execution} (h : start w m settings = .ok x₀) (value : Value) :
    start w m (settings.withWarning value) = .ok (x₀.withWarning value) := by
  rw [start] at h ⊢
  split at h
  · cases h
  · rename_i hlocked
    cases h
    rw [if_neg hlocked]
    rfl

/-- Any events leave the same with another choice of whether to warn. -/
theorem Stage.after_withWarning (s : Stage) (value : Value) (events : List Event) :
    Stage.after { s with execution := s.execution.withWarning value } events =
      { s.after events with execution := (s.after events).execution.withWarning value } := by
  induction events generalizing s with
  | nil => rfl
  | cons e rest ih =>
      have hnext : Stage.next { s with execution := s.execution.withWarning value } e =
          { s.next e with execution := (s.next e).execution.withWarning value } := by
        cases e with
        | operation op => rfl
        | run rounds =>
            have hrun := s.execution.run_withWarning s.world rounds value
            simp only [next, hrun.world, hrun.execution, hrun.progress]
      simp only [after, List.foldl_cons] at ih ⊢
      rw [hnext, ih]

/-! ## Any run of a locked model -/

namespace World

variable {w : World} {m : ModelId} {content : Model}

/--
An execution of a locked model, with any settings.  Runs and operations come in any order,
also rounds from elsewhere, and what takes formulas of the model away.  Then a call that is
accepted executes all of its rounds, or none of them where a formula is missing.  If it is
to warn, it warns of the first round that it executed that leaves a level that is not
finite, by the number that the round has in the execution as a whole and with the labels of
exactly these levels, or of nothing where there is no such round; if it is not to warn, it
does not.  With another choice of whether to warn, the events, each round of the call and
the call as a whole leave the same worlds, records, results and reports of progress.
-/
theorem Reachable.reports_nonFinite (h : w.Reachable) (hm : w.model? m = some content)
    (hlocked : content.changeable = false) (settings : Settings) :
    ∃ x₀, Execution.start w m settings = .ok x₀ ∧
      ∀ events rounds n, Execution.roundCount settings rounds = .ok n →
        let s := Stage.after { world := w, execution := x₀ } events
        let outcome := s.execution.run s.world rounds
        s.execution.levels.labels.zip s.execution.levels.nodes = Execution.labelledLevels w m ∧
        (∃ k, s.Executes m n k outcome ∧
          (settings.warns = true →
            Execution.ReportsNonFinite w s.world m s.execution.round k outcome.warnings) ∧
          (settings.warns = false → outcome.warnings = [])) ∧
        ∀ value, ∃ y₀, Execution.start w m (settings.withWarning value) = .ok y₀ ∧
          let t := Stage.after { world := w, execution := y₀ } events
          t.world = s.world ∧ t.execution = s.execution.withWarning value ∧
            t.reports = s.reports ∧
            (∀ j, RunState.SameButWarnings value
              (RunState.advanceTimes j { world := s.world, execution := s.execution })
              (RunState.advanceTimes j { world := t.world, execution := t.execution })) ∧
            outcome.SameButWarnings value (t.execution.run t.world rounds) := by
  have hchangeable : w.isChangeable m = false := by
    rw [isChangeable, model_of_model? hm, hlocked]
  rcases Execution.start_ok_iff.2 hchangeable with ⟨x₀, hstart⟩
  refine ⟨x₀, hstart, fun events rounds n hcount => ?_⟩
  intro s outcome
  have hs : Stage.Continues w m x₀ s := (Stage.continues_start h hstart).after hm hlocked events
  refine ⟨hs.execution.zip_labels_nodes hstart, ?_,
    fun value => ⟨_, Execution.start_withWarning hstart value, ?_⟩⟩
  · rcases hs.exists_executes hstart hm hlocked hcount with ⟨k, hexecutes, hwarnings⟩
    refine ⟨k, hexecutes, fun hwarns => ?_, fun hwarns => ?_⟩
    · rw [hwarnings, if_pos hwarns]
      exact hs.reportsNonFinite hstart k
    · rw [hwarnings, hwarns]
      rfl
  · have hafter := Stage.after_withWarning { world := w, execution := x₀ } value events
    intro t
    have ht : t = { s with execution := s.execution.withWarning value } := hafter
    rw [ht]
    exact ⟨rfl, rfl, rfl,
      fun j => (RunState.sameButWarnings_start s.world s.execution value).advanceTimes j,
      s.execution.run_withWarning s.world rounds value⟩

/-- A tide that grows by its square, a basin that is drained by as much, and a calm level. -/
def tideSession : List Operation :=
  let m : ModelId := ⟨0⟩
  let leaf (index : Nat) : Argument := .node ⟨index⟩
  [.newModel (.text "Shore"), .createLevel m (.text "Tide") (.integer 1000000000),
    .createLevel m (.text "Calm") (.integer 3), .createLevel m (.text "Basin") (.integer 0),
    .createSourceSink m, .createRate m (.text "Rise"), .createRate m (.text "Fall"),
    .setFormula m (leaf 4) (.apply .multiply (leaf 0) (leaf 0)),
    .setFormula m (leaf 5) (.apply .multiply (leaf 0) (leaf 0)),
    .addFlow m .sourceSinkToRate (leaf 3) (leaf 4), .addFlow m .rateToLevel (leaf 4) (leaf 0),
    .addFlow m .levelToRate (leaf 2) (leaf 5), .addFlow m .rateToSourceSink (leaf 5) (leaf 3),
    .lock m]

/-- The tide rises beyond all bounds in its sixth round. -/
def tide : World := World.run {} tideSession

/-- A run of two rounds, and a third round from elsewhere. -/
def tideEvents : List Event := [.run (.integer 2), .operation (.computeRound ⟨0⟩)]

/-- Nothing keeps the tide from running. -/
theorem runnable_tide : tide.Runnable ⟨0⟩ := by
  have horder : ∀ n ∈ (tide.model ⟨0⟩).order, (tide.formula? n).isSome = true := by decide +kernel
  have hrates : ∀ n ∈ (tide.model ⟨0⟩).rates, (tide.formula? n).isSome = true := by decide +kernel
  exact ⟨by decide +kernel, fun n hn => Option.isSome_iff_exists.1 (horder n hn),
    fun n hn => Option.isSome_iff_exists.1 (hrates n hn)⟩

theorem labelledLevels_tide : Execution.labelledLevels tide ⟨0⟩ =
    [("Basin", ⟨2⟩), ("Calm", ⟨1⟩), ("Tide", ⟨0⟩)] := by
  have hlevels : (tide.model ⟨0⟩).levels = [⟨0⟩, ⟨1⟩, ⟨2⟩] := by decide +kernel
  have hnames : tide.nameOf ⟨0⟩ = "Tide" ∧ tide.nameOf ⟨1⟩ = "Calm" ∧
      tide.nameOf ⟨2⟩ = "Basin" := by decide +kernel
  have hsorted : Execution.recordedNodes tide ⟨0⟩ .level = [⟨2⟩, ⟨1⟩, ⟨0⟩] := by
    simp [Execution.recordedNodes, Execution.sortedByName, hlevels, hnames, List.mergeSort,
      List.MergeSort.Internal.splitInTwo, List.splitAt, List.splitAt.go]
  rw [Execution.labelledLevels, hsorted]
  simp only [List.map_cons, List.map_nil, hnames]
  decide

/-- The sixth round of the tide is the third of the next run, and the fifth of the execution. -/
theorem reports_nonFinite_tide :
    ∃ x₀, Execution.start tide ⟨0⟩ .standard = .ok x₀ ∧
      let s := Stage.after { world := tide, execution := x₀ } tideEvents
      (s.execution.run s.world (.integer 5)).warnings =
          ["Round 5: non-finite values in level nodes ['Basin', 'Tide']"] ∧
        ∃ y₀, Execution.start tide ⟨0⟩ (Settings.standard.withWarning (.truth false)) = .ok y₀ ∧
          let t := Stage.after { world := tide, execution := y₀ } tideEvents
          (t.execution.run t.world (.integer 5)).execution.results =
            (s.execution.run s.world (.integer 5)).execution.results := by
  have hreach : tide.Reachable := ⟨_, rfl⟩
  obtain ⟨content, hm⟩ : ∃ content, tide.model? ⟨0⟩ = some content :=
    Option.isSome_iff_exists.1 (by decide +kernel)
  have hlocked : content.changeable = false := by
    rw [← model_of_model? hm]
    decide +kernel
  rcases hreach.reports_nonFinite hm hlocked .standard with ⟨x₀, hstart, hreports⟩
  obtain ⟨_, ⟨k, hexecutes, hwarns, _⟩, hquiet⟩ := hreports tideEvents (.integer 5) 5 rfl
  rcases hquiet (.truth false) with ⟨y₀, hstart', _, _, _, _, hsame⟩
  refine ⟨x₀, hstart, ?_⟩
  intro s
  have hresults := congrArg Execution.results hsame.execution
  refine ⟨?_, y₀, hstart', hresults⟩
  -- the next run begins after three rounds of the tide, two of which the execution has counted
  obtain ⟨hmodel, hsettings⟩ := Execution.model_start hstart
  have hrunnable : tide.Runnable x₀.model := by
    rw [hmodel]
    exact runnable_tide
  have hcount : Execution.roundCount x₀.settings (.integer 2) = .ok 2 := by
    rw [hsettings]
    rfl
  obtain ⟨_, hworld₂, hexecution₂, _⟩ :=
    Execution.run_of_runnable hreach.wellFormed hrunnable hcount
  have hworld : s.world = tide.computeTimes ⟨0⟩ 3 := by
    simp only [s, tideEvents, Stage.after, List.foldl_cons, List.foldl_nil, Stage.next]
    rw [hworld₂, hmodel, ← computeTimes_succ]
  have hround : s.execution.round = 2 := by
    simp only [s, tideEvents, Stage.after, List.foldl_cons, List.foldl_nil, Stage.next]
    rw [hexecution₂, ← Execution.through_start hstart]
    rfl
  have hk : k = 5 := by
    refine (hexecutes.returned ?_).1
    by_contra hfault
    obtain ⟨r, hr, hnone⟩ := (hexecutes.failed hfault).2
    have hformula : ∀ r ∈ ((tide.computeTimes ⟨0⟩ 3).model ⟨0⟩).formulaOwners,
        (tide.computeTimes ⟨0⟩ 3).formula? r ≠ none := by decide +kernel
    rw [hworld] at hr hnone
    exact hformula r hr hnone
  have hreport := hwarns rfl
  rw [hworld, hround, hk] at hreport
  have hfinite : ∀ j ∈ [1, 2],
      ((tide.computeTimes ⟨0⟩ 3).computeTimes ⟨0⟩ j).LevelsFinite ⟨0⟩ := by
    decide +kernel
  have hbefore : ∀ j, 1 ≤ j → j < 3 →
      ((tide.computeTimes ⟨0⟩ 3).computeTimes ⟨0⟩ j).LevelsFinite ⟨0⟩ := by
    intro j hj hlt
    refine hfinite j ?_
    simp only [List.mem_cons, List.not_mem_nil, or_false]
    omega
  have hlabels : Execution.labelsNotFinite tide ⟨0⟩
      ((tide.computeTimes ⟨0⟩ 3).computeTimes ⟨0⟩ 3) = ["Basin", "Tide"] := by
    rw [Execution.labelsNotFinite, labelledLevels_tide]
    decide +kernel
  rw [hworld]
  refine (hreport.eq_of_first (i := 3) (by decide) (by decide) (by decide +kernel)
    hbefore).trans ?_
  rw [hlabels]
  decide +kernel

end World

end StockFlow
