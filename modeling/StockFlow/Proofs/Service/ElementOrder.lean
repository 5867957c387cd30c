import StockFlow.Proofs.Service.Answers
import StockFlow.Proofs.Service.Reordering

/-!
# The order of elements

Nothing that a simulation answers depends on the order in which the elements of a drawn
model are listed: reordered data makes a model that mirrors the original one, so both are
locked or neither, and after every round they have the same values.  Where the names of
levels, of rates and of auxiliaries differ, each series stands under the name of its
element, and only the places of the series in the answer may differ.

Main definitions:

- {lit}`ModelData.NamesDiffer`: no two levels, rates or auxiliaries have one name.
- {lit}`Simulation.Same`: two answers that are equal as JSON objects.
- {lit}`Simulation.Records`: what an answer tells of a locked model that was run.
- {lit}`Service.ReordersElements`: requests that differ in the order of the elements only.

Main results:

- Theorem {lit}`World.Mirrors.same`: answers about models that mirror each other.
- Theorem {lit}`ModelData.Reorders.simulate`: what reordered data is answered with.
- Theorem {lit}`Service.simulated_reordered`: reordered requests are read as reordered data.
- Theorem {lit}`Service.answer_reordered`: answers to reordered requests.
-/

namespace StockFlow

/-! ## Runs of locked models -/

namespace World

variable {w : World} {m : ModelId} {settings : Settings} {x₀ : Execution} {n : Nat}

/-- The first run of an execution leads through the rounds of its model. -/
theorem Reachable.execution_run (h : w.Reachable) (hclosed : w.OwnershipClosed m)
    (hrunnable : w.Runnable m) (hstart : Execution.start w m settings = .ok x₀) {rounds : Value}
    (hcount : Execution.roundCount settings rounds = .ok n) :
    (x₀.run w rounds).execution = (x₀.through (w.computeTimes m) n).refresh w := by
  have hopen : Stage.Follows w m x₀ 0 { world := w, execution := x₀ } :=
    ⟨h, SameModel.refl m w, (Execution.through_start hstart).symm, rfl⟩
  have hlast := (hopen.run h hclosed hrunnable hstart hcount).2.execution
  rwa [Nat.zero_add] at hlast

end World

/-! ## Series -/

/-- The series of a kind in an answer. -/
def Simulation.series (r : Simulation) : RecordedKind → Series
  | .level => r.levels
  | .rate => r.rates
  | .auxiliary => r.auxiliaries

/-- The values of a node in the first rounds, as answers show them. -/
def World.shownValues (w : World) (m : ModelId) (n : Nat) (k : NodeId) : List (Option Float) :=
  (List.range (n + 1)).map fun i =>
    let x := (w.computeTimes m i).valueOf k
    if Double.isFinite x then some x else none

theorem finiteSeries_recorded (w : World) (m : ModelId) (n : Nat) (nodes : List NodeId) :
    finiteSeries (nodes.map fun k =>
        (w.nameOf k, (List.range (n + 1)).map fun i => (w.computeTimes m i).valueOf k)) =
      nodes.map fun k => (w.nameOf k, w.shownValues m n k) := by
  rw [finiteSeries, List.map_map]
  refine List.map_congr_left fun k _ => ?_
  rw [World.shownValues, Function.comp_apply, List.map_map]
  rfl

/-- Whether two series are equal as JSON objects: they hold the same under keys that differ. -/
structure Series.SameObject (s s' : Series) : Prop where
  keys : (s.map Prod.fst).Nodup
  perm : s'.Perm s

/-- Whether two answers are equal as JSON objects. -/
structure Simulation.Same (r r' : Simulation) : Prop where
  time : r'.time = r.time
  message : r'.message = r.message
  series : ∀ kind, (r.series kind).SameObject (r'.series kind)

/-- Whether no two levels, no two rates and no two auxiliaries have one name. -/
def ModelData.NamesDiffer (data : ModelData) : Prop :=
  ∀ kind : RecordedKind,
    ((data.elements.filter (·.type == kind.nodeKind.label)).map (·.name)).Nodup

/--
Whether an answer tells of a locked model that was run for some rounds; where names
differ, of each level, rate and auxiliary under its name.
-/
structure Simulation.Records (r : Simulation) (w : World) (m : ModelId) (n : Nat) : Prop where
  time : r.time = List.range (n + 1)
  message : r.message =
    "Simulation of " ++ Text.decimal n ++ " rounds completed successfully"
  series : ∀ kind, ((Execution.recordedNodes w m kind).map w.nameOf).Nodup →
    r.series kind =
      (Execution.recordedNodes w m kind).map fun k => (w.nameOf k, w.shownValues m n k)

namespace World

variable {w w' : World} {m m' : ModelId} {φ : NodeId → NodeId} {n : Nat}

/-- A locked model is run, and what it goes through is told. -/
theorem ReachableWithin.simulateLocked_eq (h : w.ReachableWithin)
    (hlocked : w.isChangeable m = false) (hn : 1 ≤ n)
    (hmost : serviceSettings.maxRounds.isBelow (.whole n) = false) :
    ∃ r, simulateLocked w m n = .simulated r ∧ r.Records w m n := by
  rcases h.exists_run hlocked hn hmost with ⟨x, hstart, hfault⟩
  have hexecution := h.reachable.execution_run (h.ownershipClosed m)
    ((h.steppable hlocked).runnable hlocked) hstart (roundCount_integer hn hmost)
  rw [simulateLocked, hstart]
  simp only [hfault, hexecution]
  refine ⟨_, rfl, rfl, rfl, fun kind hnames => ?_⟩
  have hcolumns := Execution.columns_through hstart n kind hnames
  rw [← finiteSeries_recorded, ← hcolumns]
  cases kind <;> rfl

/-- What is recorded of the mirror is what is recorded of the model, in some order. -/
theorem Mirrors.perm_recordedNodes (h : Mirrors φ w m w' m') (hw : w.MembersMatch)
    (hw' : w'.MembersMatch) (kind : RecordedKind) {α : Type} {f f' : NodeId → α}
    (hf : ∀ k ∈ (w.model m).nodes, f' (φ k) = f k) :
    ((Execution.recordedNodes w' m' kind).map f').Perm
      ((Execution.recordedNodes w m kind).map f) := by
  have hrecorded := (Execution.perm_recordedNodes w' m' kind).trans
    (h.perm_members hw hw' kind.nodeKind)
  have hmap : (((w.model m).members kind.nodeKind).map φ).map f' =
      ((w.model m).members kind.nodeKind).map f := by
    rw [List.map_map]
    exact List.map_congr_left fun k hk => hf k (Model.mem_nodes_of_mem_members _ hk)
  exact ((hrecorded.map f').trans (.of_eq hmap)).trans
    ((Execution.perm_recordedNodes w m kind).map f).symm

/-- Answers about models that mirror each other are the same. -/
theorem Mirrors.same (h : Mirrors φ w m w' m') (hstands : w.StandsAsLocked m)
    (hstands' : w'.StandsAsLocked m') (hclosed : w.OwnershipClosed m) {r r' : Simulation}
    (hr : r.Records w m n) (hr' : r'.Records w' m' n)
    (hnames : ∀ kind : RecordedKind, (((w.model m).members kind.nodeKind).map w.nameOf).Nodup) :
    r.Same r' := by
  have hw := hstands.reachable.wellFormed.members
  have hw' := hstands'.reachable.wellFormed.members
  have hvalues : ∀ k ∈ (w.model m).nodes, w'.shownValues m' n (φ k) = w.shownValues m n k := by
    intro k hk
    rw [shownValues, shownValues]
    refine List.map_congr_left fun i _ => ?_
    rw [h.valueOf_computeTimes hstands hstands' hclosed i hk]
  refine ⟨by rw [hr.time, hr'.time], by rw [hr.message, hr'.message], fun kind => ?_⟩
  have hdiffer : ((Execution.recordedNodes w m kind).map w.nameOf).Nodup :=
    ((Execution.perm_recordedNodes w m kind).map w.nameOf).nodup_iff.2 (hnames kind)
  have hdiffer' : ((Execution.recordedNodes w' m' kind).map w'.nameOf).Nodup :=
    (h.perm_recordedNodes hw hw' kind h.name).nodup_iff.2 hdiffer
  rw [hr.series kind hdiffer, hr'.series kind hdiffer']
  refine ⟨?_, h.perm_recordedNodes hw hw' kind fun k hk => ?_⟩
  · rw [List.map_map]
    exact hdiffer
  · rw [h.name k hk, hvalues k hk]

end World

/-! ## Answers about models -/

/-- A kind is read from its label and from no other text. -/
theorem NodeKind.ofLabel?_eq_some_iff {s : String} {kind : NodeKind} :
    NodeKind.ofLabel? s = some kind ↔ s = kind.label := by
  constructor
  · intro h
    have hlabel := List.find?_some h
    exact (eq_of_beq hlabel).symm
  · rintro rfl
    cases kind <;> decide

theorem NodeKind.label_beq (a b : NodeKind) : (a.label == b.label) = (a == b) := by
  cases a <;> cases b <;> decide

namespace Built

variable {data data' : ModelData} {φ : NodeId → NodeId} {b b' : Built} {n : Nat}

/-- The names of the nodes differ where those of the elements do. -/
theorem Laid.nodup_names (h : b.Laid) (hlisted : b.elements.map (·.element) = data.elements)
    (hnames : data.NamesDiffer) (kind : RecordedKind) :
    (((b.world.model b.model).members kind.nodeKind).map b.world.nameOf).Nodup := by
  have hsourceSink : kind.nodeKind ≠ .sourceSink := by cases kind <;> decide
  have hfilter : (b.elements.filter ((·.type == kind.nodeKind.label) ∘ (·.element))) =
      b.elements.filter (·.kind == kind.nodeKind) := by
    refine List.filter_congr fun x hx => ?_
    have htype := NodeKind.ofLabel?_eq_some_iff.1 (h.type x hx)
    rw [Function.comp_apply, htype, NodeKind.label_beq]
  have hname : (b.elements.filter (·.kind == kind.nodeKind)).map (fun x => x.element.name) =
      ((b.world.model b.model).members kind.nodeKind).map fun k => some (b.world.nameOf k) := by
    rw [h.members, List.map_map]
    refine List.map_congr_left fun x hx => ?_
    rw [List.mem_filter, beq_iff_eq] at hx
    exact h.name x hx.1 (by rwa [hx.2])
  have hnodup := hnames kind
  rw [← hlisted, List.filter_map, hfilter, List.map_map] at hnodup
  have hsome : (((b.world.model b.model).members kind.nodeKind).map fun k =>
      some (b.world.nameOf k)).Nodup := hname ▸ hnodup
  rw [← Function.comp_def some, ← List.map_map] at hsome
  exact hsome.of_map some

/-- The model of valid data is locked and run, and what it goes through is told. -/
theorem Sound.simulate_eq (hb : b.Sound data) (hbuild : data.build = .ok b)
    (hrounds : data.rounds? = some n) (hrules : b.brokenRules = []) :
    ∃ w r, (Action.lock b.model).run b.world = .ok () w ∧ simulate data = .simulated r ∧
      r.Records w b.model n := by
  obtain ⟨hn, hmost⟩ := ModelData.allowed_of_rounds? hrounds
  rcases hb.reachable.run_lock hb.changeable hrules with ⟨w, hlock, hreachable, hlocked⟩
  rcases hreachable.simulateLocked_eq hlocked hn hmost with ⟨r, hr, hrecords⟩
  refine ⟨w, r, hlock, ?_, hrecords⟩
  rw [simulate, hrounds]
  simp only [hbuild, hlock, hr]

/-- Models that mirror each other are valid or not together. -/
theorem Mirrors.brokenRules_eq_nil (h : Mirrors data data' φ b b') (hrules : b.brokenRules = []) :
    b'.brokenRules = [] := by
  rw [brokenRules, World.brokenRules_eq_nil_iff] at hrules ⊢
  exact h.world.obeysRules h.sound.reachable.reachable.wellFormed
    h.sound'.reachable.reachable.wellFormed (h.sound.reachable.ownershipClosed b.model) hrules

/-- Valid models that mirror each other are answered about alike. -/
theorem Mirrors.same (h : Mirrors data data' φ b b') (hnames : data.NamesDiffer) {w w' : World}
    (hlock : (Action.lock b.model).run b.world = .ok () w)
    (hlock' : (Action.lock b'.model).run b'.world = .ok () w') {r r' : Simulation}
    (hr : r.Records w b.model n) (hr' : r'.Records w' b'.model n) : r.Same r' := by
  obtain ⟨hnode, hmembers⟩ := World.kept_of_lock hlock
  refine (h.world.lock hlock hlock').same
    (World.standsAsLocked_of_lock h.sound.reachable.reachable hlock)
    (World.standsAsLocked_of_lock h.sound'.reachable.reachable hlock')
    ((h.sound.reachable.of_lock hlock).ownershipClosed b.model) hr hr' fun kind => ?_
  have hnameOf : w.nameOf = b.world.nameOf := by
    funext n
    rw [World.nameOf, World.nameOf, hnode]
  rw [hmembers, hnameOf]
  exact h.laid.nodup_names h.listed hnames kind

end Built

namespace ModelData

variable {data data' : ModelData}

/-- What is simulated is valid data. -/
theorem build_of_simulated {r : Simulation} (h : simulate data = .simulated r) :
    ∃ n b, data.rounds? = some n ∧ data.build = .ok b ∧ b.brokenRules = [] := by
  cases hrounds : data.rounds? with
  | none =>
      rw [simulate, hrounds] at h
      cases h
  | some n =>
      have hends := data.ends_build
      cases hbuild : data.build with
      | error failure =>
          rw [simulate, hrounds] at h
          simp only [hbuild] at h
          cases failure <;> cases h
      | ok b =>
          rw [hbuild] at hends
          have hb : b.Sound data := hends
          refine ⟨n, b, rfl, rfl, ?_⟩
          cases hhead : b.brokenRules.head? with
          | none => exact List.head?_eq_none_iff.1 hhead
          | some v =>
              rw [hb.simulate_of_head? hbuild hrounds hhead] at h
              cases h

/-- Reordered data is simulated where data is, and where names differ, with the same answer. -/
theorem Reorders.simulate (h : data.Reorders data') {r : Simulation}
    (hr : StockFlow.simulate data = .simulated r) :
    ∃ r', StockFlow.simulate data' = .simulated r' ∧ (data.NamesDiffer → r.Same r') := by
  rcases build_of_simulated hr with ⟨n, b, hrounds, hbuild, hrules⟩
  rcases h.build hbuild with ⟨b', φ, hbuild', hmirrors⟩
  have hrounds' : data'.rounds? = some n := by rwa [rounds?, h.parameters, ← rounds?]
  obtain ⟨w, r₀, hlock, hr₀, hrecords⟩ := hmirrors.sound.simulate_eq hbuild hrounds hrules
  obtain ⟨w', r', hlock', hr', hrecords'⟩ :=
    hmirrors.sound'.simulate_eq hbuild' hrounds' (hmirrors.brokenRules_eq_nil hrules)
  rw [hr] at hr₀
  cases hr₀
  exact ⟨r', hr', fun hnames => hmirrors.same hnames hlock hlock' hrecords hrecords'⟩

/-- Reordered data is simulated if and only if data is. -/
theorem Reorders.simulated_iff (h : data.Reorders data') :
    (∃ r, StockFlow.simulate data = .simulated r) ↔
      ∃ r', StockFlow.simulate data' = .simulated r' := by
  constructor
  · rintro ⟨r, hr⟩
    rcases h.simulate hr with ⟨r', hr', _⟩
    exact ⟨r', hr'⟩
  · rintro ⟨r', hr'⟩
    rcases h.symm.simulate hr' with ⟨r, hr, _⟩
    exact ⟨r, hr⟩

end ModelData

/-! ## Reordered requests -/

/-- Whether a record differs from another one in the order of its elements only. -/
structure Schema.ReordersElements (fields fields' : List (String × Value)) : Prop where
  elements : ∃ items items', fields.lookup "elements" = some (.list items) ∧
    fields'.lookup "elements" = some (.list items') ∧ items'.Perm items
  others : ∀ name, name ≠ "elements" → fields'.lookup name = fields.lookup name

/-- Reordered elements are read as reordered data. -/
theorem ModelData.decode_reordered {rounds : Value} {place : List PathStep}
    {fields fields' : List (String × Value)} (h : Schema.ReordersElements fields fields')
    {data : ModelData} (hdata : ModelData.decode rounds place (.record fields) = .ok data) :
    ∃ data', ModelData.decode rounds place (.record fields') = .ok data' ∧
      data.Reorders data' := by
  rcases h.elements with ⟨items, items', hitems, hitems', hperm⟩
  simp only [ModelData.decode, bind_eq_ok_iff, Checked.both_eq_ok_iff] at hdata ⊢
  rcases hdata with ⟨_, ⟨⟩, ⟨name, elements, connections, parameters⟩, hparts, hdata⟩
  obtain ⟨hname, helements, hconnections, hparameters⟩ := hparts
  rw [Schema.required, hitems] at helements
  rcases Schema.list_perm ElementData.isUniform_decode hperm helements with
    ⟨elements', helements', hreordered⟩
  cases hdata
  refine ⟨{ name, elements := elements', connections, parameters }, ⟨fields', rfl,
    ⟨name, elements', connections, parameters⟩, ⟨?_, ?_, ?_, ?_⟩, rfl⟩, rfl, hreordered, rfl, rfl⟩
  · rw [Schema.optional, h.others "name" (by decide)]
    exact hname
  · rw [Schema.required, hitems']
    exact helements'
  · rw [Schema.withDefault, h.others "connections" (by decide)]
    exact hconnections
  · rw [Schema.withDefault, h.others "simulation_params" (by decide)]
    exact hparameters

/-- Whether a request to simulate differs from another one in the order of its elements only. -/
structure Service.ReordersElements (body body' : Value) : Prop where
  model : ∃ outer outer' fields fields', body = .record outer ∧ body' = .record outer' ∧
    outer.lookup "model" = some (.record fields) ∧
    outer'.lookup "model" = some (.record fields') ∧ Schema.ReordersElements fields fields'

theorem Service.simulated_reordered {body body' : Value} (h : Service.ReordersElements body body')
    {data : ModelData} (hdata : Service.simulated body = .ok data) :
    ∃ data', Service.simulated body' = .ok data' ∧ data.Reorders data' := by
  rcases h.model with ⟨outer, outer', fields, fields', rfl, rfl, hmodel, hmodel', hreorders⟩
  have hread : ∀ {outer : List (String × Value)} {fields : List (String × Value)},
      outer.lookup "model" = some (.record fields) → Service.simulated (.record outer) =
        Service.modelOf (Schema.below [.field "body"] "model") (.record fields) := by
    intro outer fields hmodel
    have hsimulated : Service.simulated (.record outer) =
        Schema.required Service.modelOf [.field "body"] outer "model" := rfl
    rw [hsimulated, Schema.required, hmodel]
  rw [hread hmodel] at hdata
  rw [hread hmodel']
  exact ModelData.decode_reordered hreorders hdata

/--
Two requests that differ in the order of the elements only, in whose model no two levels,
no two rates and no two auxiliaries have one name: one is simulated if and only if the
other is, and then both answers are equal as JSON objects.
-/
theorem Service.answer_reordered {body body' : Value} {data : ModelData}
    (h : Service.ReordersElements body body') (hdata : Service.simulated body = .ok data)
    (hnames : data.NamesDiffer) (time : String) (s : Service) :
    ((∃ r, (s.answer time (.simulate body)).1 = .simulated r) ↔
        ∃ r', (s.answer time (.simulate body')).1 = .simulated r') ∧
      ∀ r r', (s.answer time (.simulate body)).1 = .simulated r →
        (s.answer time (.simulate body')).1 = .simulated r' → r.Same r' := by
  rcases Service.simulated_reordered h hdata with ⟨data', hdata', hreorders⟩
  have hanswer : ∀ {body : Value} {data : ModelData}, Service.simulated body = .ok data →
      (s.answer time (.simulate body)).1 = simulate data := by
    intro body data hdata
    rw [Service.answer, hdata]
    rfl
  rw [hanswer hdata, hanswer hdata']
  refine ⟨hreorders.simulated_iff, fun r r' hr hr' => ?_⟩
  rcases hreorders.simulate hr with ⟨r₀, hr₀, hsame⟩
  rw [hr'] at hr₀
  cases hr₀
  exact hsame hnames

/-- The elements of a tank that is filled and drained at rates of which one reads an auxiliary. -/
def basinElements : List Value :=
  [.record [("id", .integer 1), ("type", .text "level"), ("name", .text "Water"),
      ("value", .integer 6)],
    .record [("id", .integer 2), ("type", .text "source_sink")],
    .record [("id", .integer 3), ("type", .text "rate"), ("name", .text "Fill"),
      ("formula", .text "CN(4)")],
    .record [("id", .integer 4), ("type", .text "constant"), ("name", .text "Share"),
      ("value", .integer 2)],
    .record [("id", .integer 5), ("type", .text "rate"), ("name", .text "Drain"),
      ("formula", .text "AN(6) / CN(4)")],
    .record [("id", .integer 6), ("type", .text "auxiliary"), ("name", .text "Half"),
      ("formula", .text "LN(1) / CN(4)")]]

/-- A request to simulate the tank, with its elements in some order. -/
def basinRequest (elements : List Value) : Value :=
  .record [("model", .record [("elements", .list elements),
    ("connections", .list [
      .record [("id", .integer 1), ("from_element_id", .integer 2),
        ("to_element_id", .integer 3)],
      .record [("id", .integer 2), ("from_element_id", .integer 3),
        ("to_element_id", .integer 1)],
      .record [("id", .integer 3), ("from_element_id", .integer 1),
        ("to_element_id", .integer 5)],
      .record [("id", .integer 4), ("from_element_id", .integer 5),
        ("to_element_id", .integer 2)]]),
    ("simulation_params", .record [("rounds", .integer 3)])])]

/-- What the tank is read as. -/
def basinData : ModelData :=
  { elements := [{ id := 1, type := "level", name := some "Water", value := some 6.0 },
      { id := 2, type := "source_sink" },
      { id := 3, type := "rate", name := some "Fill", formula := some "CN(4)" },
      { id := 4, type := "constant", name := some "Share", value := some 2.0 },
      { id := 5, type := "rate", name := some "Drain", formula := some "AN(6) / CN(4)" },
      { id := 6, type := "auxiliary", name := some "Half", formula := some "LN(1) / CN(4)" }]
    connections := [{ id := 1, source := 2, target := 3 }, { id := 2, source := 3, target := 1 },
      { id := 3, source := 1, target := 5 }, { id := 4, source := 5, target := 2 }]
    parameters := [("rounds", .integer 3)] }

/-- A basin and the same with its elements in reverse give the same simulation. -/
theorem answer_reordered_basin :
    ∃ r r',
      (({} : Service).answer "now" (.simulate (basinRequest basinElements))).1 = .simulated r ∧
        (({} : Service).answer "now" (.simulate (basinRequest basinElements.reverse))).1 =
          .simulated r' ∧ r.Same r' := by
  have hreorders : Service.ReordersElements (basinRequest basinElements)
      (basinRequest basinElements.reverse) := by
    refine ⟨_, _, _, _, rfl, rfl, rfl, rfl, ⟨_, _, rfl, rfl, List.reverse_perm _⟩, ?_⟩
    intro name hname
    have hother : (name == "elements") = false := by simpa using hname
    have hrest : ∀ (v : Value) (rest : List (String × Value)),
        List.lookup name (("elements", v) :: rest) = rest.lookup name := by
      intro v rest
      rw [List.lookup_cons, hother]
    exact (hrest _ _).trans (hrest _ _).symm
  have hdata : Service.simulated (basinRequest basinElements) = .ok basinData := rfl
  have hnames : basinData.NamesDiffer := by
    intro kind
    cases kind <;> decide
  have hvalid : (match (({} : Service).answer "now" (.simulate (basinRequest basinElements))).1 with
      | .simulated _ => true
      | _ => false) = true := by decide +kernel
  obtain ⟨hiff, hsame⟩ := Service.answer_reordered hreorders hdata hnames "now" {}
  split at hvalid
  · rename_i r hr
    rcases hiff.1 ⟨r, hr⟩ with ⟨r', hr'⟩
    exact ⟨r, r', hr, hr', hsame r r' hr hr'⟩
  · cases hvalid

end StockFlow
