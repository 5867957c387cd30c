import Mathlib.Algebra.GroupWithZero.Nat
import StockFlow.Proofs.Execution.Runs
import StockFlow.Proofs.World.Locality

/-!
# Histories of executions

While nobody else steps a model or meddles with its nodes, an execution of it shows the
rounds that the model would make on its own: how many there were is all that runs depend
on, wherever one run ends and the next one begins, and whatever is refused or done to
other models between them.

Main definitions:

- {lit}`Settings.Whole`, {lit}`Execution.grantedRounds`: settings that are integers, and the calls
  that these accept.
- {lit}`World.computeTimes`, {lit}`Execution.through`: rounds of a model on its own, and their
  record.
- {lit}`Stage`, {lit}`Event`: an execution among other operations.
- {lit}`Execution.Covers`: the rounds from the start on are recorded.

Main results:

- Theorem {lit}`Execution.roundCount_cases`: which calls are refused.
- Theorem {lit}`RunState.Follows.advance`: what one round records.
- Theorem {lit}`Stage.Follows.next`: what one run, or one operation elsewhere, keeps.
- Theorem {lit}`Execution.columns_through`: the columns of a record where names differ.
- Theorem {lit}`World.Reachable.covers_after`: what any sequence of runs has recorded.
-/

namespace StockFlow

/-! ## Calls that are accepted -/

/-- Whether all counts of some settings are integers. -/
structure Settings.Whole (settings : Settings) (usual most interval : Int) : Prop where
  defaultRounds : settings.defaultRounds = .whole usual
  maxRounds : settings.maxRounds = .whole most
  progressInterval : settings.progressInterval = .whole interval

variable {settings : Settings} {usual most interval : Int}

/-- The checks of settings, for integers. -/
theorem Settings.Whole.bounds (h : settings.Whole usual most interval) :
    1 ≤ usual ∧ usual ≤ most ∧ 1 ≤ interval := by
  have hone := settings.one_le_defaultRounds
  have hmost := settings.defaultRounds_le_maxRounds
  have hinterval := settings.one_le_progressInterval
  rw [h.defaultRounds, Quantity.isBelow_whole, decide_eq_false_iff_not] at hone
  rw [h.maxRounds, h.defaultRounds, Quantity.isBelow_whole, decide_eq_false_iff_not] at hmost
  rw [h.progressInterval, Quantity.isBelow_whole, decide_eq_false_iff_not] at hinterval
  omega

namespace Execution

/-- The rounds that a call is accepted for: the usual ones, or an integer within bounds. -/
def grantedRounds (usual most : Int) : Value → Nat
  | .absent => usual.toNat
  | .integer n => if 1 ≤ n ∧ n ≤ most then n.toNat else 0
  | _ => 0

/-- A call is accepted for some rounds, or it is refused. -/
theorem roundCount_cases (h : settings.Whole usual most interval) (rounds : Value) :
    (grantedRounds usual most rounds = 0 ∧ ∃ e, roundCount settings rounds = .error e) ∨
      (0 < grantedRounds usual most rounds ∧
        roundCount settings rounds = .ok (grantedRounds usual most rounds)) := by
  have hbounds := h.bounds
  have hinteger : ∀ n : Int, askedRounds settings rounds = .integer n →
      roundCount settings rounds =
        if n < 1 then .error .tooFewRounds
        else if most < n then .error (.tooManyRounds settings.maxRounds) else .ok n.toNat := by
    intro n hn
    rw [roundCount, hn]
    simp only [h.maxRounds, Quantity.isBelow_whole, decide_eq_true_eq]
  cases rounds with
  | absent =>
      have hasked : askedRounds settings .absent = .integer usual := by
        rw [askedRounds, h.defaultRounds]
        rfl
      rw [hinteger usual hasked, if_neg (by omega), if_neg (by omega), grantedRounds]
      exact Or.inr ⟨by omega, rfl⟩
  | integer n =>
      rw [hinteger n rfl, grantedRounds]
      by_cases hlow : n < 1
      · rw [if_pos hlow, if_neg (by omega)]
        exact Or.inl ⟨rfl, _, rfl⟩
      · by_cases hhigh : most < n
        · rw [if_neg hlow, if_pos hhigh, if_neg (by omega)]
          exact Or.inl ⟨rfl, _, rfl⟩
        · rw [if_neg hlow, if_neg hhigh, if_pos (by omega)]
          exact Or.inr ⟨by omega, rfl⟩
  | _ => exact Or.inl ⟨rfl, _, rfl⟩

end Execution

/-! ## Rounds on their own -/

namespace World

variable {w : World} {m : ModelId}

/-- The world after a number of rounds of a model. -/
def computeTimes (w : World) (m : ModelId) (n : Nat) : World := w.afterRounds (List.replicate n m)

theorem computeTimes_succ (w : World) (m : ModelId) (n : Nat) :
    w.computeTimes m (n + 1) = (w.computeTimes m n).step (.computeRound m) := by
  rw [computeTimes, computeTimes, afterRounds, afterRounds, List.replicate_succ', List.map_append,
    run_append]
  rfl

theorem sameUpToValues_computeTimes (w : World) (m : ModelId) (n : Nat) :
    SameUpToValues w (w.computeTimes m n) :=
  sameUpToValues_afterRounds w _

end World

/-! ## Records -/

/-- The track with the values that its nodes have in the first of a sequence of worlds. -/
def Track.through (t : Track) (worlds : Nat → World) (n : Nat) : Track :=
  { t with rows := ((List.range (n + 1)).map fun i => t.nodes.map (worlds i).valueOf).reverse }

theorem Track.record_through {t : Track} {worlds : Nat → World} {n : Nat} {v : World}
    (h : ∀ k ∈ t.nodes, v.valueOf k = (worlds (n + 1)).valueOf k) :
    (t.through worlds n).record v = t.through worlds (n + 1) := by
  have hrow : t.nodes.map v.valueOf = t.nodes.map (worlds (n + 1)).valueOf :=
    List.map_congr_left h
  rw [Track.record, Track.through, Track.through, List.range_succ (n := n + 1), List.map_append,
    List.reverse_append]
  simp only [hrow, List.map_cons, List.map_nil, List.reverse_singleton, List.singleton_append]

/-- The recorded values of a node, one for each of the worlds. -/
theorem Track.column_through {t : Track} {worlds : Nat → World} {n i : Nat} {k : NodeId}
    (hk : t.nodes[i]? = some k) :
    (t.through worlds n).column i = (List.range (n + 1)).map fun j => (worlds j).valueOf k := by
  rw [Track.column, Track.through, List.reverse_reverse, List.map_map]
  refine List.map_congr_left fun j _ => ?_
  rw [Function.comp_apply, List.getElem?_map, hk]
  rfl

namespace Execution

variable {w v : World} {m : ModelId} {x x₀ : Execution} {n : Nat} {kind : RecordedKind}

/-- The execution after a number of rounds that lead through a sequence of worlds. -/
def through (x : Execution) (worlds : Nat → World) (n : Nat) : Execution :=
  { x with
    round := n
    levels := x.levels.through worlds n
    rates := x.rates.through worlds n
    auxiliaries := x.auxiliaries.through worlds n }

theorem track_through (x : Execution) (worlds : Nat → World) (n : Nat) (kind : RecordedKind) :
    (x.through worlds n).track kind = (x.track kind).through worlds n := by
  cases kind <;> rfl

/-- One more round leads through one more world, where the recorded nodes have the same values. -/
theorem record_through {worlds : Nat → World}
    (h : ∀ kind, ∀ k ∈ (x.track kind).nodes, v.valueOf k = (worlds (n + 1)).valueOf k)
    (results : Results) :
    Execution.record v { x.through worlds n with round := n + 1, results } =
      { x.through worlds (n + 1) with results } := by
  have hlevels := Track.record_through (h .level)
  have hrates := Track.record_through (h .rate)
  have hauxiliaries := Track.record_through (h .auxiliary)
  simp only [track] at hlevels hrates hauxiliaries
  simp only [Execution.record, through, hlevels, hrates, hauxiliaries]

/-- At its start, an execution has been through one world, and its results are those of it. -/
theorem through_start (h : start w m settings = .ok x₀) :
    (x₀.through (w.computeTimes m) 0).refresh w = x₀ := by
  rw [start] at h
  split at h
  · cases h
  · cases h
    rfl

theorem model_start (h : start w m settings = .ok x₀) :
    x₀.model = m ∧ x₀.settings = settings := by
  rw [start] at h
  split at h
  · cases h
  · cases h
    exact ⟨rfl, rfl⟩

/-- What an execution records are nodes of its model. -/
theorem mem_nodes_of_start (h : start w m settings = .ok x₀) {k : NodeId}
    (hk : k ∈ (x₀.track kind).nodes) : k ∈ (w.model m).nodes := by
  rw [track_start h] at hk
  exact Model.mem_nodes_of_mem_members kind.nodeKind ((perm_recordedNodes w m kind).mem_iff.1 hk)

end Execution

/-! ## One run -/

namespace RunState

variable {w w' : World} {m : ModelId} {x₀ : Execution} {s : RunState} {r k : Nat}

/--
A run that began after some rounds of an execution, after some more rounds: it shows the
model as it would be on its own, it has recorded all of these rounds, and it reported
those of its own that are multiples of the interval.
-/
structure Follows (w : World) (m : ModelId) (x₀ : Execution) (r k : Nat) (s : RunState) :
    Prop where
  reachable : s.world.Reachable
  world : World.SameModel m (w.computeTimes m (r + k)) s.world
  fault : s.fault = none
  execution : ∃ results, s.execution = { x₀.through (w.computeTimes m) (r + k) with results }
  progress : s.progress.map Prod.fst =
    ((List.range' (r + 1) k).filter x₀.settings.progressInterval.divides).reverse

section

variable (hw : w.Reachable) (hclosed : w.OwnershipClosed m) (hrunnable : w.Runnable m)
  (hstart : Execution.start w m settings = .ok x₀)

include hw hclosed hrunnable hstart

/-- One more round of a run. -/
theorem Follows.advance (h : Follows w m x₀ r k s) : Follows w m x₀ r (k + 1) s.advance := by
  rcases h.execution with ⟨results, hx⟩
  have hvalues := World.sameUpToValues_computeTimes w m (r + k)
  have halone : (w.computeTimes m (r + k)).Reachable := hw.run _
  have hrunnable' := h.world.runnable halone (hvalues.sameLinks.runnable hrunnable)
  have hmodel : s.execution.model = m := by
    rw [hx]
    exact (Execution.model_start hstart).1
  rcases h.reachable.wellFormed.computeRound_ok hrunnable' with ⟨w', hrun⟩
  have hstep : s.world.step (.computeRound m) = w' := by
    rw [← World.worldAfter_computeRound, Action.worldAfter, hrun]
  have hsame : World.SameModel m (w.computeTimes m (r + k + 1)) w' := by
    rw [World.computeTimes_succ, ← hstep]
    refine h.world.computeRound halone h.reachable ?_ ?_
    · rw [hvalues.sameLinks.isChangeable, hrunnable.locked]
    · exact hvalues.sameLinks.ownershipClosed hw.wellFormed hclosed
  rw [← hmodel] at hrun
  obtain ⟨hworld, hfault, hexecution, hprogress⟩ := advance_of_ok hrun
  refine ⟨?_, ?_, ?_, ⟨results, ?_⟩, ?_⟩
  · rw [hworld, ← hstep]
    exact h.reachable.step _
  · rwa [hworld]
  · rw [hfault, h.fault]
  · rw [hexecution, hx]
    refine Execution.record_through (x := x₀) (fun kind n hn => hsame.valueOf ?_) results
    rw [(World.sameUpToValues_computeTimes w m _).model]
    exact Execution.mem_nodes_of_start hstart hn
  · rw [hprogress, h.progress, hx, List.range'_1_concat, List.filter_append, List.reverse_append,
      Nat.add_right_comm]
    rfl

/-- Any number of rounds of a run. -/
theorem Follows.advanceTimes (h : Follows w m x₀ r k s) (n : Nat) :
    Follows w m x₀ r (k + n) (RunState.advanceTimes n s) := by
  induction n generalizing s k with
  | zero => exact h
  | succ n ih =>
      have hnext := h.advance hw hclosed hrunnable hstart
      rw [advanceTimes_succ, hnext.fault]
      simp only [Option.isSome_none, Bool.false_eq_true, if_false]
      rw [Nat.add_comm n, ← Nat.add_assoc]
      exact ih hnext

end

end RunState

/-! ## An execution among other operations -/

/-- What happens to an execution and its world: a run, or an operation on models. -/
inductive Event where
  | run (rounds : Value)
  | operation (op : Operation)

/-- The rounds that an event adds to an execution. -/
def Event.granted (usual most : Int) : Event → Nat
  | .run rounds => Execution.grantedRounds usual most rounds
  | .operation _ => 0

/-- An execution in its world, with the rounds at which progress was reported so far. -/
structure Stage where
  world : World
  execution : Execution
  reports : List Nat := []

namespace Stage

/-- What comes after an event, whether it failed or not. -/
def next (s : Stage) : Event → Stage
  | .run rounds =>
      let outcome := s.execution.run s.world rounds
      { world := outcome.world
        execution := outcome.execution
        reports := s.reports ++ outcome.progress.map Prod.fst }
  | .operation op => { s with world := s.world.step op }

/-- What comes after some events. -/
def after (s : Stage) (events : List Event) : Stage := events.foldl next s

/-- Whether an event does not step a model from elsewhere, nor meddles with its nodes. -/
def Spares (m : ModelId) (s : Stage) : Event → Prop
  | .run _ => True
  | .operation op =>
      op ≠ .computeRound m ∧ ∀ n ∈ (s.world.model m).nodes, ¬ World.Meddles m n s.world op

/-- Whether all events do so. -/
def SparesAll (m : ModelId) : Stage → List Event → Prop
  | _, [] => True
  | s, e :: rest => s.Spares m e ∧ (s.next e).SparesAll m rest

/--
An execution after some rounds, between two events: its model is as it would be on its
own, everything is recorded, and the results are those of the last round.
-/
structure Follows (w : World) (m : ModelId) (x₀ : Execution) (k : Nat) (s : Stage) : Prop where
  reachable : s.world.Reachable
  world : World.SameModel m (w.computeTimes m k) s.world
  execution : s.execution = (x₀.through (w.computeTimes m) k).refresh w
  reports : s.reports = (List.range' 1 k).filter x₀.settings.progressInterval.divides

variable {w : World} {m : ModelId} {x₀ : Execution} {s : Stage} {k : Nat}

/-- The results name the model as it was named at the start. -/
theorem refresh_eq {v : World} (hstart : Execution.start w m settings = .ok x₀)
    (h : World.SameModel m (w.computeTimes m k) v) (results : Results) :
    Execution.refresh v { x₀.through (w.computeTimes m) k with results } =
      (x₀.through (w.computeTimes m) k).refresh w := by
  have hmodel : v.model m = w.model m := by
    rw [h.model, (World.sameUpToValues_computeTimes w m k).model]
  simp only [Execution.refresh, Execution.through, (Execution.model_start hstart).1, hmodel]

theorem Follows.settings_eq (h : Follows w m x₀ k s)
    (hstart : Execution.start w m settings = .ok x₀) : s.execution.settings = settings := by
  rw [h.execution]
  exact (Execution.model_start hstart).2

/-- A call that is refused changes nothing. -/
theorem next_of_refused {rounds : Value} {e : Fault}
    (h : Execution.roundCount s.execution.settings rounds = .error e) :
    s.next (.run rounds) = s ∧ (s.execution.run s.world rounds).fault = some e := by
  simp only [next, Execution.run, h, List.map_nil, List.append_nil, and_self]

section

variable (hw : w.Reachable) (hclosed : w.OwnershipClosed m) (hrunnable : w.Runnable m)
  (hstart : Execution.start w m settings = .ok x₀)

include hw hclosed hrunnable hstart

/-- A call that is accepted returns, and its rounds are recorded. -/
theorem Follows.run (h : Follows w m x₀ k s) {rounds : Value} {n : Nat}
    (hcount : Execution.roundCount settings rounds = .ok n) :
    (s.execution.run s.world rounds).fault = none ∧
      Follows w m x₀ (k + n) (s.next (.run rounds)) := by
  have hsettings := h.settings_eq hstart
  have hopen : RunState.Follows w m x₀ k 0 { world := s.world, execution := s.execution } :=
    ⟨h.reachable, h.world, rfl, ⟨s.execution.results, by rw [h.execution]; rfl⟩, rfl⟩
  have hclose := hopen.advanceTimes hw hclosed hrunnable hstart n
  rw [Nat.zero_add] at hclose
  rcases hclose.execution with ⟨results, hx⟩
  simp only [next, Execution.run, hsettings, hcount, hclose.fault, true_and]
  refine ⟨hclose.reachable, hclose.world, ?_, ?_⟩
  · rw [hx]
    exact refresh_eq hstart hclose.world results
  · rw [h.reports, List.map_reverse, hclose.progress, List.reverse_reverse, ← List.filter_append,
      Nat.add_comm k 1, List.range'_append_1]

/-- What an event that spares the model keeps. -/
theorem Follows.next (h : Follows w m x₀ k s) {content : Model} (hm : w.model? m = some content)
    (hsettings : settings.Whole usual most interval) {e : Event} (he : s.Spares m e) :
    Follows w m x₀ (k + e.granted usual most) (s.next e) := by
  cases e with
  | run rounds =>
      rcases Execution.roundCount_cases hsettings rounds with ⟨hzero, e, hcount⟩ | ⟨_, hcount⟩
      · rw [← h.settings_eq hstart] at hcount
        rw [Event.granted, hzero, (next_of_refused hcount).1]
        exact h
      · exact (h.run hw hclosed hrunnable hstart hcount).2
  | operation op =>
      have hlocked : content.changeable = false := by
        rw [← World.model_of_model? hm]
        exact hrunnable.locked
      have hm' : (w.computeTimes m k).model? m = some content := by
        rw [World.model?, (World.sameUpToValues_computeTimes w m k).models]
        exact hm
      exact ⟨h.reachable.step op, h.world.step h.reachable hm' hlocked he.1 he.2, h.execution,
        h.reports⟩

/-- What events that spare the model keep. -/
theorem Follows.after (h : Follows w m x₀ k s) {content : Model} (hm : w.model? m = some content)
    (hsettings : settings.Whole usual most interval) {events : List Event}
    (hevents : s.SparesAll m events) :
    Follows w m x₀ (k + (events.map (Event.granted usual most)).sum) (s.after events) := by
  induction events generalizing s k with
  | nil => exact h
  | cons e rest ih =>
      have hnext := h.next hw hclosed hrunnable hstart hm hsettings hevents.1
      rw [List.map_cons, List.sum_cons, ← Nat.add_assoc]
      exact ih hnext hevents.2

end

end Stage

/-! ## Any sequence of runs -/

/--
Whether an execution has recorded the values of a model's levels, rates and auxiliaries
at the start and after each of a number of rounds.
-/
structure Execution.Covers (w : World) (m : ModelId) (k : Nat) (x : Execution) : Prop where
  round : x.round = k
  time : x.results.time = List.range (k + 1)
  history : ∀ kind : RecordedKind, ∀ n ∈ (w.model m).members kind.nodeKind, ∀ v,
    x.history v (.node n) =
      .ok ((List.range (k + 1)).map fun t => (w.computeTimes m t).valueOf n)

/-- Where no round succeeds, a call that is accepted fails, and nothing is recorded. -/
theorem Execution.run_of_not_ok {w : World} {x : Execution} {rounds : Value} {n : Nat}
    (hnone : ¬ ∃ w', (Action.computeRound x.model).run w = .ok () w')
    (hcount : roundCount x.settings rounds = .ok (n + 1)) :
    (x.run w rounds).execution = x ∧ ∃ e, (x.run w rounds).fault = some e := by
  cases hrun : (Action.computeRound x.model).run w with
  | ok _ w' => exact (hnone ⟨w', hrun⟩).elim
  | error e w' =>
      have hfail := RunState.advanceTimes_of_error (s := { world := w, execution := x }) hrun n
      simp only [run, hcount, hfail]
      exact ⟨trivial, e, rfl⟩

theorem Execution.covers_through {w : World} {m : ModelId} {x₀ : Execution} (hw : w.WellFormed)
    (hstart : start w m settings = .ok x₀) (k : Nat) :
    ((x₀.through (w.computeTimes m) k).refresh w).Covers w m k where
  round := rfl
  time := rfl
  history kind n hn v := by
    have hperm : ∀ kind, (((x₀.through (w.computeTimes m) k).refresh w).track kind).nodes.Perm
        ((w.model m).members kind.nodeKind) := by
      intro kind
      rw [track_refresh, track_through, Track.through, track_start hstart]
      exact perm_recordedNodes w m kind
    rcases List.getElem?_of_mem ((hperm kind).mem_iff.2 hn) with ⟨i, hi⟩
    have hhistory := hw.history?_eq_column hperm hi
    rw [track_refresh, track_through] at hi hhistory
    rw [Track.column_through (t := x₀.track kind) hi] at hhistory
    rw [history]
    simp only [Argument.node?, Entity.node?, Option.bind_some, hhistory]

/-- Where names differ, each recorded node has its column under its name. -/
theorem Execution.columns_through {w : World} {m : ModelId} {x₀ : Execution}
    (hstart : start w m settings = .ok x₀) (n : Nat) (kind : RecordedKind)
    (hnames : ((recordedNodes w m kind).map w.nameOf).Nodup) :
    ((x₀.through (w.computeTimes m) n).refresh w).results.columns kind =
      (recordedNodes w m kind).map fun k =>
        (w.nameOf k, (List.range (n + 1)).map fun i => (w.computeTimes m i).valueOf k) := by
  let t := (x₀.track kind).through (w.computeTimes m) n
  let values := fun k => (List.range (n + 1)).map fun i => (w.computeTimes m i).valueOf k
  have hlabels : t.labels = (recordedNodes w m kind).map w.nameOf := by
    have hsame : t.labels = (x₀.track kind).labels := rfl
    rw [hsame, track_start hstart]
    exact uniqueLabels_eq_self hnames
  have hcolumn : ∀ entry ∈ (recordedNodes w m kind).zipIdx,
      (w.nameOf entry.1, t.column entry.2) = (w.nameOf entry.1, values entry.1) := by
    intro entry hentry
    rw [Track.column_through]
    rw [track_start hstart]
    exact List.mk_mem_zipIdx_iff_getElem?.1 hentry
  calc
    _ = t.columns := by rw [columns_refresh, track_through]
    _ = (recordedNodes w m kind).zipIdx.map fun entry => (w.nameOf entry.1, t.column entry.2) := by
      rw [Track.columns_eq (by rwa [hlabels]), Track.entries, hlabels, List.zipIdx_map,
        List.map_map]
      rfl
    _ = ((recordedNodes w m kind).zipIdx.map Prod.fst).map fun k => (w.nameOf k, values k) := by
      rw [List.map_map]
      exact List.map_congr_left hcolumn
    _ = _ := by rw [List.zipIdx_map_fst]

namespace World

variable {w : World} {m : ModelId} {content : Model}

/--
An execution, with integers as settings, of a locked and closed model no formula of which
is missing.  Runs, and operations that neither step the model nor meddle with its nodes,
come in any order.  Then the rounds that the calls are accepted for are recorded one after
the other, progress is reported at the multiples of the interval, the model is as if it
had been stepped on its own, a call that is refused changes nothing and one that is
accepted returns; and if a single run may have as many rounds, then it makes the same of
the execution, the reports and the model.
-/
theorem Reachable.covers_after (h : w.Reachable) (hm : w.model? m = some content)
    (hlocked : content.changeable = false) (hclosed : w.OwnershipClosed m)
    (hformula : ∀ n ∈ content.formulaOwners, ∃ f, w.formula? n = some f)
    (hsettings : settings.Whole usual most interval) :
    ∃ x₀, Execution.start w m settings = .ok x₀ ∧
      ∀ events, Stage.SparesAll m { world := w, execution := x₀ } events →
        let s := Stage.after { world := w, execution := x₀ } events
        let total := (events.map (Event.granted usual most)).sum
        let once := Stage.next { world := w, execution := x₀ } (.run (.integer total))
        s.execution.Covers w m total ∧
        s.reports = (List.range' 1 total).filter (fun t : Nat => interval ∣ (t : Int)) ∧
        SameModel m (w.computeTimes m total) s.world ∧
        (∀ rounds, Execution.grantedRounds usual most rounds = 0 →
          s.next (.run rounds) = s ∧ ∃ e, (s.execution.run s.world rounds).fault = some e) ∧
        (∀ rounds, 0 < Execution.grantedRounds usual most rounds →
          (s.execution.run s.world rounds).fault = none) ∧
        (1 ≤ total → total ≤ most → once.execution = s.execution ∧ once.reports = s.reports ∧
          SameModel m once.world s.world) := by
  rw [← model_of_model? hm] at hlocked hformula
  have hrunnable := h.wellFormed.computeRound_ok_iff.1 ((h.computeRound_ok_iff hlocked).2 hformula)
  rcases Execution.start_ok_iff.2 hrunnable.locked with ⟨x₀, hstart⟩
  refine ⟨x₀, hstart, fun events hevents => ?_⟩
  intro s total once
  have hopen : Stage.Follows w m x₀ 0 { world := w, execution := x₀ } :=
    ⟨h, SameModel.refl m w, (Execution.through_start hstart).symm, rfl⟩
  have hs : Stage.Follows w m x₀ total s := by
    have hafter := hopen.after h hclosed hrunnable hstart hm hsettings hevents
    rwa [Nat.zero_add] at hafter
  have hsettings' := hs.settings_eq hstart
  refine ⟨?_, ?_, hs.world, fun rounds hzero => ?_, fun rounds hpos => ?_, fun hlow hhigh => ?_⟩
  · rw [hs.execution]
    exact Execution.covers_through h.wellFormed hstart total
  · rw [hs.reports, (Execution.model_start hstart).2]
    refine List.filter_congr fun t _ => ?_
    rw [hsettings.progressInterval, Quantity.divides_whole]
  · rcases Execution.roundCount_cases hsettings rounds with ⟨_, e, hcount⟩ | ⟨hpos, _⟩
    · rw [← hsettings'] at hcount
      exact ⟨(Stage.next_of_refused hcount).1, e, (Stage.next_of_refused hcount).2⟩
    · omega
  · rcases Execution.roundCount_cases hsettings rounds with ⟨hzero, _⟩ | ⟨_, hcount⟩
    · omega
    · exact (hs.run h hclosed hrunnable hstart hcount).1
  · have hgranted : Event.granted usual most (.run (.integer total)) = total := by
      rw [Event.granted, Execution.grantedRounds, if_pos (by omega), Int.toNat_natCast]
    have honce := hopen.next h hclosed hrunnable hstart hm hsettings
      (e := .run (.integer total)) trivial
    rw [hgranted, Nat.zero_add] at honce
    refine ⟨?_, ?_, honce.world.symm.trans hs.world⟩
    · rw [honce.execution, hs.execution]
    · rw [honce.reports, hs.reports]

/-- Progress every other round. -/
def tankSettings : Settings :=
  { Settings.standard with progressInterval := .whole 2, one_le_progressInterval := by decide }

/-- Two runs, a call that is refused and another model between them. -/
def tankEvents : List Event :=
  [.run (.integer 2), .run (.integer 0), .operation (.newModel (.text "Other")), .run (.integer 1)]

/-- Two runs with a refused call between them cover three rounds, as one run of three does. -/
theorem covers_after_tank :
    ∃ x₀, Execution.start lockedTank ⟨0⟩ tankSettings = .ok x₀ ∧
      let s := Stage.after { world := lockedTank, execution := x₀ } tankEvents
      s.execution.Covers lockedTank ⟨0⟩ 3 ∧ s.reports = [2] ∧
        Stage.execution (Stage.next { world := lockedTank, execution := x₀ } (.run (.integer 3))) =
          s.execution := by
  obtain ⟨_, hsteppable, content, hm, hlocked⟩ :=
    (wellFormed_empty.run (tankSession.take 12)).lock_ok run_lock_tank
  have hreach : lockedTank.Reachable := Reachable.step ⟨_, rfl⟩ _
  have hformula := hsteppable.formula
  rw [model_of_model? hm] at hformula
  have hsettings : tankSettings.Whole 50 100000 2 := ⟨rfl, rfl, rfl⟩
  rcases hreach.covers_after hm hlocked (by decide +kernel) hformula hsettings
    with ⟨x₀, hstart, hcovers⟩
  refine ⟨x₀, hstart, ?_⟩
  obtain ⟨hcover, hreports, _, _, _, honce⟩ := hcovers tankEvents
    ⟨trivial, trivial, ⟨nofun, fun _ _ hmeddles => nomatch hmeddles.2⟩, trivial, trivial⟩
  exact ⟨hcover, hreports, (honce (by decide) (by decide)).1⟩

/--
A call that is accepted fails, and nothing is recorded, once the formula of the tank's
rate was taken away through another model, although the tank is locked and closed.
-/
theorem not_covers_meddled :
    ∃ x₀, Execution.start (lockedTank.run meddlingSession) ⟨0⟩ .standard = .ok x₀ ∧
      (lockedTank.run meddlingSession).isChangeable ⟨0⟩ = false ∧
      (lockedTank.run meddlingSession).OwnershipClosed ⟨0⟩ ∧
      Execution.grantedRounds 50 100000 (.integer 2) = 2 ∧
      (x₀.run (lockedTank.run meddlingSession) (.integer 2)).execution.round = 0 ∧
      ∃ e, (x₀.run (lockedTank.run meddlingSession) (.integer 2)).fault = some e := by
  have hlocked : (lockedTank.run meddlingSession).isChangeable ⟨0⟩ = false := by decide +kernel
  obtain ⟨x₀, hstart⟩ : ∃ x₀,
      Execution.start (lockedTank.run meddlingSession) ⟨0⟩ .standard = .ok x₀ :=
    Execution.start_ok_iff.2 hlocked
  obtain ⟨hmodel, hsettings⟩ := Execution.model_start hstart
  have hround : x₀.round = 0 := by
    rw [← Execution.through_start hstart]
    rfl
  have hcount : Execution.roundCount x₀.settings (.integer 2) = .ok 2 := by
    rw [hsettings]
    rfl
  have hnone := not_computeRound_meddled
  rw [← hmodel] at hnone
  obtain ⟨hsame, e, he⟩ := Execution.run_of_not_ok hnone hcount
  exact ⟨x₀, hstart, hlocked, by decide +kernel, rfl, by rw [hsame, hround], e, he⟩

end World
end StockFlow
