import StockFlow.Execution.Run
import StockFlow.Proofs.Execution.Columns
import StockFlow.Proofs.World.Progress

/-!
# Columns after runs

A run adds one row to each track for every round, and it ends with results that are
the columns of the last round; a run that fails does so before anything is recorded.
So a node has its column in the results for ever if its label differs from all others
at the start, which the names alone decide.

Main definitions:

- {lit}`Execution.AfterRuns`: the executions that runs lead to.
- {lit}`Execution.GoesOnFrom`, {lit}`Execution.UpToDate`: what runs keep of an execution.
- {lit}`Execution.Shows`: the results hold the recorded values of each node under its label.

Main results:

- Theorem {lit}`RunState.execution_advanceTimes_of_fault`: a run that fails records nothing.
- Theorem {lit}`Execution.AfterRuns.goesOnFrom`: what every run keeps.
- Theorem {lit}`World.Reachable.shows_afterRuns`: what results show after runs of a locked model.
-/

namespace StockFlow

/-! ## Recorded kinds -/

/-- The kinds of node whose values are recorded. -/
inductive RecordedKind where
  | level
  | rate
  | auxiliary
  deriving DecidableEq, Repr

def RecordedKind.nodeKind : RecordedKind → NodeKind
  | .level => .level
  | .rate => .rate
  | .auxiliary => .auxiliary

theorem RecordedKind.nodeKind_inj {kind kind' : RecordedKind} (h : kind.nodeKind = kind'.nodeKind) :
    kind = kind' := by
  cases kind <;> cases kind' <;> first | rfl | cases h

/-- The columns of a kind. -/
def Results.columns (r : Results) : RecordedKind → Columns
  | .level => r.levels
  | .rate => r.rates
  | .auxiliary => r.auxiliaries

namespace Execution

variable {w : World} {m : ModelId} {settings : Settings} {x₀ x : Execution} {kind : RecordedKind}

/-- The track of a kind. -/
def track (x : Execution) : RecordedKind → Track
  | .level => x.levels
  | .rate => x.rates
  | .auxiliary => x.auxiliaries

/-- Recording a world records it in each track. -/
theorem track_record (w : World) (x : Execution) (kind : RecordedKind) :
    (x.record w).track kind = (x.track kind).record w := by
  cases kind <;> rfl

/-- Refreshing the results changes no track. -/
theorem track_refresh (w : World) (x : Execution) (kind : RecordedKind) :
    (x.refresh w).track kind = x.track kind := by
  cases kind <;> rfl

/-- Refreshed results show the columns of the tracks. -/
theorem columns_refresh (w : World) (x : Execution) (kind : RecordedKind) :
    (x.refresh w).results.columns kind = (x.track kind).columns := by
  cases kind <;> rfl

/-! ## What runs keep -/

/-- The executions that runs lead to, in whatever worlds sessions make of theirs between them. -/
inductive AfterRuns (x₀ : Execution) : Execution → Prop
  | start : AfterRuns x₀ x₀
  | run {x : Execution} {w : World} (h : AfterRuns x₀ x) (hw : w.Reachable) (rounds : Value) :
      AfterRuns x₀ (x.run w rounds).execution

/-- What rounds keep: the recorded nodes with their labels, and one row for every round. -/
structure GoesOnFrom (x₀ x : Execution) : Prop where
  nodes : ∀ kind, (x.track kind).nodes = (x₀.track kind).nodes
  labels : ∀ kind, (x.track kind).labels = (x₀.track kind).labels
  rows : ∀ kind, (x.track kind).rows.length = x.round + 1

/-- Whether the results are those of the last round. -/
structure UpToDate (x : Execution) : Prop where
  rounds : x.results.rounds = x.round
  columns : ∀ kind, x.results.columns kind = (x.track kind).columns

/-- Refreshing the results changes neither what is recorded nor under which labels. -/
theorem GoesOnFrom.refresh (h : GoesOnFrom x₀ x) (w : World) : GoesOnFrom x₀ (x.refresh w) where
  nodes kind := by
    rw [track_refresh]
    exact h.nodes kind
  labels kind := by
    rw [track_refresh]
    exact h.labels kind
  rows kind := by
    rw [track_refresh]
    exact h.rows kind

/-- Refreshed results are up to date. -/
theorem upToDate_refresh (w : World) (x : Execution) : (x.refresh w).UpToDate where
  rounds := rfl
  columns kind := by rw [columns_refresh, track_refresh]

/-- One more round is recorded. -/
theorem GoesOnFrom.record (h : GoesOnFrom x₀ x) (w : World) :
    GoesOnFrom x₀ ({ x with round := x.round + 1 }.record w) where
  nodes kind := by
    rw [track_record]
    exact h.nodes kind
  labels kind := by
    rw [track_record]
    exact h.labels kind
  rows kind := by
    rw [track_record, Track.rows_record, List.length_cons]
    exact congrArg (· + 1) (h.rows kind)

/-- A round changes neither what is recorded nor under which labels. -/
theorem GoesOnFrom.advance {s : RunState} (h : GoesOnFrom x₀ s.execution) :
    GoesOnFrom x₀ s.advance.execution := by
  rw [RunState.advance]
  split
  · rw [RunState.execution_reportProgress, RunState.execution_checkFinite]
    exact h.record _
  · exact h

theorem GoesOnFrom.advanceTimes {s : RunState} (h : GoesOnFrom x₀ s.execution) (n : Nat) :
    GoesOnFrom x₀ (RunState.advanceTimes n s).execution :=
  RunState.advanceTimes_induction (P := fun t => GoesOnFrom x₀ t.execution)
    (fun _ ht => ht.advance) h n

/-- A run changes neither what is recorded nor under which labels. -/
theorem GoesOnFrom.run (h : GoesOnFrom x₀ x) (w : World) (rounds : Value) :
    GoesOnFrom x₀ (x.run w rounds).execution := by
  rw [Execution.run]
  split
  · exact h
  · rename_i n _
    have hs := GoesOnFrom.advanceTimes (s := { world := w, execution := x }) h n
    dsimp only
    split
    · exact hs
    · exact hs.refresh _

end Execution

/-! ## Rounds that succeed and rounds that fail -/

namespace RunState

variable {s : RunState} {w' : World}

@[simp] theorem fault_checkFinite (s : RunState) : s.checkFinite.fault = s.fault := by
  simp only [checkFinite]
  split <;> rfl

@[simp] theorem fault_reportProgress (s : RunState) : s.reportProgress.fault = s.fault := by
  unfold reportProgress
  split <;> rfl

@[simp] theorem progress_checkFinite (s : RunState) : s.checkFinite.progress = s.progress := by
  simp only [checkFinite]
  split <;> rfl

/-- A round that succeeds is recorded, and reported at multiples of the interval. -/
theorem advance_of_ok (hrun : (Action.computeRound s.execution.model).run s.world = .ok () w') :
    s.advance.world = w' ∧ s.advance.fault = s.fault ∧
      s.advance.execution =
        Execution.record w' { s.execution with round := s.execution.round + 1 } ∧
      s.advance.progress.map Prod.fst =
        ([s.execution.round + 1].filter s.execution.settings.progressInterval.divides).reverse ++
          s.progress.map Prod.fst := by
  rw [advance, hrun]
  refine ⟨?_, ?_, ?_, ?_⟩
  · rw [world_reportProgress, world_checkFinite]
  · rw [fault_reportProgress, fault_checkFinite]
  · rw [execution_reportProgress, execution_checkFinite]
  · unfold reportProgress
    simp only [execution_checkFinite, progress_checkFinite, List.filter_cons, List.filter_nil,
      Execution.record]
    split <;> simp

/-- A round that fails is not recorded. -/
theorem advance_of_error {e : Fault}
    (hrun : (Action.computeRound s.execution.model).run s.world = .error e w') :
    s.advance = { s with world := w', fault := some e } := by
  rw [advance, hrun]

/-- A run whose first round fails ends there. -/
theorem advanceTimes_of_error {e : Fault}
    (hrun : (Action.computeRound s.execution.model).run s.world = .error e w') (n : Nat) :
    advanceTimes (n + 1) s = { s with world := w', fault := some e } := by
  rw [advanceTimes_succ, advance_of_error hrun]
  rfl

/-- Rounds that succeed lead to worlds in which rounds succeed. -/
theorem advance_of_runnable (hw : s.world.WellFormed) (hfault : s.fault = none)
    (hrunnable : s.world.Runnable s.execution.model) :
    s.advance.world.WellFormed ∧ s.advance.fault = none ∧
      s.advance.world.Runnable s.advance.execution.model := by
  rcases hw.computeRound_ok_iff.2 hrunnable with ⟨w', hrun⟩
  rcases hw.runnable_after hrun with ⟨hw', hrunnable'⟩
  obtain ⟨hworld, hfault', hexecution, _⟩ := advance_of_ok hrun
  rw [hworld, hfault', hexecution]
  exact ⟨hw', hfault, hrunnable'⟩

/-- A model that can run does so without a fault for any number of rounds. -/
theorem fault_advanceTimes_of_runnable (hw : s.world.WellFormed) (hfault : s.fault = none)
    (hrunnable : s.world.Runnable s.execution.model) (n : Nat) :
    (advanceTimes n s).fault = none := by
  have hkept := advanceTimes_induction
    (P := fun t => t.world.WellFormed ∧ t.fault = none ∧ t.world.Runnable t.execution.model)
    (fun t ht => advance_of_runnable ht.1 ht.2.1 ht.2.2) ⟨hw, hfault, hrunnable⟩ n
  exact hkept.2.1

/-- A run that fails does so in its first round, so nothing is recorded. -/
theorem execution_advanceTimes_of_fault (hw : s.world.WellFormed) (hfault : s.fault = none)
    {n : Nat} (h : (advanceTimes n s).fault ≠ none) :
    (advanceTimes n s).execution = s.execution := by
  cases n with
  | zero => exact (h hfault).elim
  | succ n =>
      cases hrun : (Action.computeRound s.execution.model).run s.world with
      | ok a w' =>
          have hrunnable := hw.computeRound_ok_iff.1 ⟨w', hrun⟩
          exact (h (fault_advanceTimes_of_runnable hw hfault hrunnable (n + 1))).elim
      | error e w' =>
          rw [advanceTimes_of_error hrun]

end RunState

namespace Execution

variable {w : World} {m : ModelId} {settings : Settings} {x₀ x : Execution} {kind : RecordedKind}

/-- Results are up to date after a run, however it ends. -/
theorem UpToDate.run (h : x.UpToDate) (hw : w.WellFormed) (rounds : Value) :
    (x.run w rounds).execution.UpToDate := by
  rw [Execution.run]
  split
  · exact h
  · rename_i n _
    dsimp only
    split
    · rename_i hfault
      have hsame := RunState.execution_advanceTimes_of_fault (s := { world := w, execution := x })
        hw rfl (n := n) (by simp [hfault])
      rwa [hsame]
    · exact upToDate_refresh _ _

/-- Runs go on from the start, and they leave results of the last round. -/
theorem AfterRuns.goesOnFrom (h : AfterRuns x₀ x) (h₀ : GoesOnFrom x₀ x₀) (hresults : x₀.UpToDate) :
    GoesOnFrom x₀ x ∧ x.UpToDate := by
  induction h with
  | start => exact ⟨h₀, hresults⟩
  | run _ hw rounds ih => exact ⟨ih.1.run _ rounds, ih.2.run hw.wellFormed rounds⟩

/-! ## The start -/

/-- The members of a kind in the order in which they are recorded. -/
def recordedNodes (w : World) (m : ModelId) : RecordedKind → List NodeId
  | .level => sortedByName w (w.model m).levels
  | .rate => (w.model m).rates
  | .auxiliary => (w.model m).auxiliaries

/-- All nodes of a recorded kind are recorded, once each. -/
theorem perm_recordedNodes (w : World) (m : ModelId) (kind : RecordedKind) :
    (recordedNodes w m kind).Perm ((w.model m).members kind.nodeKind) := by
  cases kind with
  | level => exact List.mergeSort_perm _ _
  | rate => exact List.Perm.refl _
  | auxiliary => exact List.Perm.refl _

/-- An execution starts exactly if its model is locked. -/
theorem start_ok_iff : (∃ x₀, start w m settings = .ok x₀) ↔ w.isChangeable m = false := by
  rw [start, World.isChangeable]
  cases (w.model m).changeable <;> simp

/-- At the start, every member is recorded once. -/
theorem track_start (h : start w m settings = .ok x₀) (kind : RecordedKind) :
    x₀.track kind = (Track.ofNodes w (recordedNodes w m kind)).record w := by
  rw [start] at h
  split at h
  · cases h
  · cases h
    cases kind <;> rfl

/-- At the start, results are up to date. -/
theorem upToDate_start (h : start w m settings = .ok x₀) : x₀.UpToDate := by
  rw [start] at h
  split at h
  · cases h
  · cases h
    exact upToDate_refresh w _

theorem goesOnFrom_start (h : start w m settings = .ok x₀) : GoesOnFrom x₀ x₀ := by
  refine ⟨fun _ => rfl, fun _ => rfl, fun kind => ?_⟩
  have hround : x₀.round = 0 := by
    rw [start] at h
    split at h
    · cases h
    · cases h
      rfl
  rw [track_start h, hround]
  rfl

/-! ## What results show -/

/-- Labels clash in one order of the names if they do in another. -/
theorem labelsClash_perm {xs ys : List String} (h : xs.Perm ys) :
    LabelsClash xs ↔ LabelsClash ys := by
  simp only [LabelsClash, h.count_eq, h.mem_iff]

/--
Whether the results hold the recorded values of the given members under labels that
are made of their names: all of them if and only if no name clashes with a label.
-/
structure Shows (w : World) (members : List NodeId) (x : Execution) (kind : RecordedKind) :
    Prop where
  nodes : (x.track kind).nodes.Perm members
  labels : (x.track kind).labels = uniqueLabels ((x.track kind).nodes.map w.nameOf)
  nodup_iff : (x.track kind).labels.Nodup ↔ ¬ LabelsClash (members.map w.nameOf)
  length_iff : (x.results.columns kind).length = members.length ↔
    ¬ LabelsClash (members.map w.nameOf)
  keys : ¬ LabelsClash (members.map w.nameOf) →
    (x.results.columns kind).map Prod.fst = (x.track kind).labels
  lookup : ¬ LabelsClash (members.map w.nameOf) →
    ∀ (i : Nat) (n : NodeId) (label : String), (x.track kind).nodes[i]? = some n →
      (x.track kind).labels[i]? = some label →
      ∃ values, x.history? n = some values ∧ values.length = x.round + 1 ∧
        (x.results.columns kind).lookup label = some values

/-- A node that is recorded in one track only has its history there. -/
theorem history?_eq_column {i : Nat} {n : NodeId}
    (hnodup : (x.track kind).nodes.Nodup)
    (hother : ∀ kind', kind' ≠ kind → n ∉ (x.track kind').nodes)
    (hn : (x.track kind).nodes[i]? = some n) :
    x.history? n = some ((x.track kind).column i) := by
  have hcolumn := Track.history?_eq hnodup hn
  have hnone : ∀ kind', kind' ≠ kind → (x.track kind').history? n = none :=
    fun kind' hkind => Track.history?_eq_none (hother kind' hkind)
  cases kind with
  | level =>
      have hlevel : x.levels.history? n = some (x.levels.column i) := hcolumn
      rw [history?, hlevel]
      rfl
  | rate =>
      have hlevel : x.levels.history? n = none := hnone .level (by decide)
      have hrate : x.rates.history? n = some (x.rates.column i) := hcolumn
      rw [history?, hlevel, hrate]
      rfl
  | auxiliary =>
      have hlevel : x.levels.history? n = none := hnone .level (by decide)
      have hrate : x.rates.history? n = none := hnone .rate (by decide)
      have hauxiliary : x.auxiliaries.history? n = some (x.auxiliaries.column i) := hcolumn
      rw [history?, hlevel, hrate, hauxiliary]
      rfl

end Execution

namespace World

variable {w : World} {m : ModelId} {settings : Settings} {x₀ x : Execution}

/-- A member of one kind is not a member of another. -/
theorem MembersMatch.kind_unique (h : w.MembersMatch) {m m' : ModelId} {kind kind' : NodeKind}
    {n : NodeId} (hn : n ∈ (w.model m).members kind) (hn' : n ∈ (w.model m').members kind') :
    kind = kind' :=
  Option.some.inj ((h.kind m kind n hn).symm.trans (h.kind m' kind' n hn'))

/-- Where the members of each kind are recorded, each has its history in the track of its kind. -/
theorem WellFormed.history?_eq_column (hw : w.WellFormed)
    (hperm : ∀ kind, (x.track kind).nodes.Perm ((w.model m).members kind.nodeKind))
    {kind : RecordedKind} {i : Nat} {n : NodeId} (hn : (x.track kind).nodes[i]? = some n) :
    x.history? n = some ((x.track kind).column i) := by
  refine Execution.history?_eq_column ?_ (fun kind' hkind hn' => hkind ?_) hn
  · exact (hperm kind).nodup_iff.2 (hw.members.nodup m kind.nodeKind)
  · have hmem := (hperm kind).mem_iff.1 (List.mem_of_getElem? hn)
    have hmem' := (hperm kind').mem_iff.1 hn'
    exact RecordedKind.nodeKind_inj (hw.members.kind_unique hmem' hmem)

/-- What the results of an execution show of members that it has recorded from the start. -/
theorem WellFormed.shows (hw : w.WellFormed) (hstart : Execution.start w m settings = .ok x₀)
    (hx : Execution.GoesOnFrom x₀ x) (hresults : x.UpToDate) (kind : RecordedKind) :
    x.Shows w ((w.model m).members kind.nodeKind) kind := by
  have hnodes : ∀ kind, (x.track kind).nodes = Execution.recordedNodes w m kind := by
    intro kind
    rw [hx.nodes, Execution.track_start hstart]
    rfl
  have hlabels : (x.track kind).labels = uniqueLabels ((x.track kind).nodes.map w.nameOf) := by
    rw [hnodes, hx.labels, Execution.track_start hstart]
    rfl
  have hperm : ∀ kind, (x.track kind).nodes.Perm ((w.model m).members kind.nodeKind) := by
    intro kind
    rw [hnodes]
    exact Execution.perm_recordedNodes w m kind
  have hnodup : (x.track kind).labels.Nodup ↔
      ¬ LabelsClash (((w.model m).members kind.nodeKind).map w.nameOf) := by
    rw [hlabels, nodup_uniqueLabels_iff, Execution.labelsClash_perm ((hperm kind).map w.nameOf)]
  have hlength : (x.track kind).labels.length = ((w.model m).members kind.nodeKind).length := by
    rw [hlabels, length_uniqueLabels, List.length_map, (hperm kind).length_eq]
  refine ⟨hperm kind, hlabels, hnodup, ?_, fun hclash => ?_, fun hclash i n label hn hl => ?_⟩
  · rw [hresults.columns kind, ← hlength, ← hnodup, Track.length_columns_iff]
  · rw [hresults.columns kind, Track.keys_columns (hnodup.2 hclash)]
  · refine ⟨(x.track kind).column i, hw.history?_eq_column hperm hn, ?_, ?_⟩
    · rw [Track.length_column, hx.rows kind]
    · rw [hresults.columns kind]
      exact Track.lookup_columns (hnodup.2 hclash) hl

/--
Every locked model can be executed.  After any runs, of every recorded kind, the labels
are all different, and there is one column for each node, if and only if no name of
the kind looks like the numbered label of another; then the column under a node's
label is its history.
-/
theorem Reachable.shows_afterRuns (h : w.Reachable) (hlocked : w.isChangeable m = false)
    (settings : Settings) :
    ∃ x₀, Execution.start w m settings = .ok x₀ ∧ ∀ x, Execution.AfterRuns x₀ x →
      ∀ kind : RecordedKind, x.Shows w ((w.model m).members kind.nodeKind) kind := by
  rcases Execution.start_ok_iff.2 hlocked with ⟨x₀, hstart⟩
  refine ⟨x₀, hstart, fun x hruns kind => ?_⟩
  rcases hruns.goesOnFrom (Execution.goesOnFrom_start hstart) (Execution.upToDate_start hstart)
    with ⟨hx, hresults⟩
  exact h.wellFormed.shows hstart hx hresults kind

/-- Three levels; the third is called what the second is labelled. -/
def lookalikeSession : List Operation :=
  let m : ModelId := ⟨0⟩
  [.newModel (.text "Twins"), .createLevel m (.text "A") (.integer 1),
    .createLevel m (.text "A") (.integer 2), .createLevel m (.text "A [2]") (.integer 3), .lock m]

/-- Any runs show fewer than three columns for these levels. -/
theorem shows_afterRuns_lookalike :
    ∃ x₀, Execution.start (World.run {} lookalikeSession) ⟨0⟩ .standard = .ok x₀ ∧
      ∀ x, Execution.AfterRuns x₀ x →
        ¬ (x.track .level).labels.Nodup ∧ (x.results.columns .level).length ≠ 3 := by
  have hmembers : ((World.run {} lookalikeSession).model ⟨0⟩).members .level =
      [⟨0⟩, ⟨1⟩, ⟨2⟩] := by decide +kernel
  have hnames : [⟨0⟩, ⟨1⟩, ⟨2⟩].map (World.run {} lookalikeSession).nameOf =
      ["A", "A", "A [2]"] := by decide +kernel
  have hclash : LabelsClash ["A", "A", "A [2]"] := ⟨"A", 2, by decide, by decide, by decide⟩
  rcases Reachable.shows_afterRuns ⟨lookalikeSession, rfl⟩ (m := ⟨0⟩) (by decide +kernel)
    .standard with ⟨x₀, hstart, hshows⟩
  refine ⟨x₀, hstart, fun x hruns => ?_⟩
  have hx : x.Shows _ (((World.run {} lookalikeSession).model ⟨0⟩).members .level) .level :=
    hshows x hruns .level
  rw [hmembers] at hx
  refine ⟨fun hnodup => ?_, fun hlength => ?_⟩
  · exact hx.nodup_iff.1 hnodup (hnames ▸ hclash)
  · exact hx.length_iff.1 hlength (hnames ▸ hclash)

end World
end StockFlow
