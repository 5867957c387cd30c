import StockFlow.Proofs.Execution.Histories
import StockFlow.Proofs.Service.Building
import StockFlow.Proofs.Service.Places

/-!
# Answers about model data

Simulating model data and checking it build the same model.  What a check finds first is
what a simulation is refused for, and a model in which nothing is found is locked and
run to its end.

Main definitions:

- {lit}`Answer.Agrees`: a simulation and a check say the same.

Main results:

- Theorem {lit}`World.ReachableWithin.exists_run`: a locked model can be run.
- Theorem {lit}`Service.answers_agree`: the same data is simulated if and only if it is valid.
-/

namespace StockFlow

namespace World

variable {w : World} {m : ModelId}

/-! ## Models of sessions that stay within models -/

/-- What validation finds in a session within models are the broken rules. -/
theorem ReachableWithin.violations_eq (h : w.ReachableWithin) (m : ModelId) :
    w.violations (w.model m) = .ok (w.brokenRules (w.model m)) := by
  have hw := h.reachable.wellFormed
  exact violations_eq_brokenRules hw ((h.ownershipClosed m).readsWithin hw.members)

/-- A report of a session within models lists the broken rules, then the idle levels. -/
theorem ReachableWithin.report_eq (h : w.ReachableWithin) (m : ModelId) :
    w.report (w.model m) = .ok { issues := (w.brokenRules (w.model m)).map w.issueOf ++
      (w.idleLevels (w.model m)).map w.idleIssue } := by
  rw [report, h.violations_eq, Except.map, idleIssues_eq h.reachable.wellFormed]

/-- A lock hands over no nodes. -/
theorem ReachableWithin.of_lock (h : w.ReachableWithin) {w' : World}
    (hlock : (Action.lock m).run w = .ok () w') : w'.ReachableWithin := by
  rw [← step_lock hlock]
  exact h.step fun _ _ _ ha => (List.not_mem_nil ha).elim

/-- A model that breaks no rule is locked. -/
theorem ReachableWithin.run_lock (h : w.ReachableWithin) (hc : w.isChangeable m = true)
    (hrules : w.brokenRules (w.model m) = []) :
    ∃ w', (Action.lock m).run w = .ok () w' ∧ w'.ReachableWithin ∧ w'.isChangeable m = false := by
  have hw := h.reachable.wellFormed
  have hcircle : ¬ w.HasCircle (w.model m).auxiliaries := by
    intro hcircle
    have hmem : Violation.auxiliaryCycle ∈ w.brokenRules (w.model m) := by
      simp [brokenRules, hcircle]
    simp [hrules] at hmem
  obtain ⟨order, horder⟩ := evaluationOrder_of_not_hasCircle (hw.members.kind m .auxiliary)
    (hw.members.nodup m .auxiliary) ((h.ownershipClosed m).readsWithin hw.members) hcircle
  have hrun := Action.run_lock hc
  rw [firstProblem?_eq (h.violations_eq m), hrules] at hrun
  simp only [List.head?_nil, Option.map_none, horder] at hrun
  refine ⟨_, hrun, h.of_lock hrun, ?_⟩
  rw [isChangeable, model_updateModel hc, if_pos rfl]

/-- A model that breaks a rule is not locked, for the first violation. -/
theorem ReachableWithin.run_lock_of_head? (h : w.ReachableWithin) (hc : w.isChangeable m = true)
    {v : Violation} (hv : (w.brokenRules (w.model m)).head? = some v) :
    (Action.lock m).run w = .error (.invalid v) w := by
  have hrun := Action.run_lock hc
  rwa [firstProblem?_eq (h.violations_eq m), hv] at hrun

/-- What can step once it is locked can run. -/
theorem Steppable.runnable (h : w.Steppable m) (hlocked : w.isChangeable m = false) :
    w.Runnable m where
  locked := hlocked
  order k hk := h.formula k (List.mem_append_right _ ((h.mem_order k).1 hk))
  rates r hr := h.formula r (List.mem_append_left _ hr)

/-- Rounds that the settings allow are granted as asked. -/
theorem roundCount_integer {settings : Settings} {n : Nat} (hn : 1 ≤ n)
    (hmost : settings.maxRounds.isBelow (.whole n) = false) :
    Execution.roundCount settings (.integer n) = .ok n := by
  have hasked : Execution.askedRounds settings (.integer n) = .integer n := rfl
  have hpos : ¬ (n : Int) < 1 := by omega
  rw [Execution.roundCount, hasked]
  simp [hpos, hmost]

/-- A locked model can be executed for any number of rounds that the settings allow. -/
theorem ReachableWithin.exists_run (h : w.ReachableWithin) (hlocked : w.isChangeable m = false)
    {settings : Settings} {n : Nat} (hn : 1 ≤ n)
    (hmost : settings.maxRounds.isBelow (.whole n) = false) :
    ∃ x, Execution.start w m settings = .ok x ∧ (x.run w (.integer n)).fault = none := by
  have hrunnable := (h.steppable hlocked).runnable hlocked
  obtain ⟨x, hstart⟩ : ∃ x, Execution.start w m settings = .ok x :=
    Execution.start_ok_iff.2 hlocked
  obtain ⟨hmodel, hsettings⟩ := Execution.model_start hstart
  have hfault : (RunState.advanceTimes n { world := w, execution := x }).fault = none :=
    RunState.fault_advanceTimes_of_runnable h.reachable.wellFormed rfl (by rwa [hmodel]) n
  refine ⟨x, hstart, ?_⟩
  rw [Execution.run, hsettings, roundCount_integer hn hmost]
  simp only [hfault]

end World

/-! ## Requested rounds -/

/-- Numbers of rounds that the service takes are allowed by its settings. -/
theorem ModelData.allowed_of_rounds? {data : ModelData} {n : Nat} (h : data.rounds? = some n) :
    1 ≤ n ∧ serviceSettings.maxRounds.isBelow (.whole n) = false := by
  rw [ModelData.rounds?] at h
  split at h
  · rename_i k _
    split at h
    · rename_i hk
      cases h
      have hcast : ((k.toNat : Nat) : Int) = k := Int.toNat_of_nonneg (by omega)
      rw [hcast]
      exact ⟨by omega, hk.2⟩
    · cases h
  · cases h

namespace Built

variable {data : ModelData} {b : Built} {n : Nat}

/-! ## Answers about one model -/

/-- All that breaks a rule in a model under construction. -/
noncomputable def brokenRules (b : Built) : List Violation :=
  b.world.brokenRules (b.world.model b.model)

/-- The check of a model that was built tells its broken rules, the first of them with its
element. -/
theorem Sound.checkModel_eq (hb : b.Sound data) (hbuild : data.build = .ok b) :
    ∃ result, checkModel data = .checked result ∧
      (result.valid = true ↔ b.brokenRules = []) ∧
      ∀ v, b.brokenRules.head? = some v → ∃ finding, result.findings.head? = some finding ∧
        finding.message = (Fault.invalid v).message ∧
        finding.element = v.node?.bind b.elementId? := by
  have hreport := hb.reachable.report_eq b.model
  have hcheck : checkModel data = .checked (Report.checkResult b
      { issues := b.brokenRules.map b.world.issueOf ++
          (b.world.idleLevels (b.world.model b.model)).map b.world.idleIssue }) := by
    rw [checkModel, hbuild]
    simp only [hreport, brokenRules]
  refine ⟨_, hcheck, World.isValid_report_iff, fun v hv => ?_⟩
  obtain ⟨rest, hrules⟩ := List.head?_eq_some_iff.1 hv
  rw [Report.checkResult, hrules]
  exact ⟨_, rfl, (World.issueOf_tells b.world v).2.1, rfl⟩

/-- A model that breaks no rule is locked and run to its end. -/
theorem Sound.exists_run (hb : b.Sound data) (hrounds : data.rounds? = some n)
    (hrules : b.brokenRules = []) :
    ∃ w x, (Action.lock b.model).run b.world = .ok () w ∧
      Execution.start w b.model serviceSettings = .ok x ∧
      (x.run w (.integer n)).fault = none := by
  obtain ⟨hn, hmost⟩ := ModelData.allowed_of_rounds? hrounds
  rcases hb.reachable.run_lock hb.changeable hrules with ⟨w, hlock, hreachable, hlocked⟩
  rcases hreachable.exists_run hlocked hn hmost with ⟨x, hstart, hfault⟩
  exact ⟨w, x, hlock, hstart, hfault⟩

/-- A model that was built and breaks no rule is simulated to the end. -/
theorem Sound.simulate_of_valid (hb : b.Sound data) (hbuild : data.build = .ok b)
    (hrounds : data.rounds? = some n) (hrules : b.brokenRules = []) :
    ∃ result, simulate data = .simulated result := by
  rcases hb.exists_run hrounds hrules with ⟨w, x, hlock, hstart, hfault⟩
  have hlocked : simulate data = simulateLocked w b.model n := by
    rw [simulate, hrounds]
    simp only [hbuild, hlock]
  rw [hlocked, simulateLocked, hstart]
  simp only [hfault]
  exact ⟨_, rfl⟩

/-- A model that was built and breaks a rule is refused for the first one. -/
theorem Sound.simulate_of_head? (hb : b.Sound data) (hbuild : data.build = .ok b)
    (hrounds : data.rounds? = some n) {v : Violation} (hv : b.brokenRules.head? = some v) :
    simulate data =
      .refused (.error (faultDetail (v.node?.bind b.elementId?) (.invalid v))) := by
  have hlock := hb.reachable.run_lock_of_head? hb.changeable hv
  rw [simulate, hrounds]
  simp only [hbuild, hlock]

end Built

/-! ## Answers -/

/--
Whether the answer of a simulation and the answer of a check say the same: there is a
simulation if and only if the check finds no error, and it is refused if and only if
the check finds one.  Then the refusal tells the first finding.
-/
structure Answer.Agrees (simulation check : Answer) : Prop where
  simulated_iff : (∃ result, simulation = .simulated result) ↔
    ∃ result, check = .checked result ∧ result.valid = true
  refused_iff : (∃ detail, simulation = .refused detail) ↔
    ∃ result, check = .checked result ∧ result.valid = false
  first : ∀ detail result, simulation = .refused detail → check = .checked result →
    ∃ e finding, detail = .error e ∧ result.findings.head? = some finding ∧
      e.message = finding.message ∧ e.element = finding.element

namespace Answer

/-- A simulation agrees with a check that finds the model valid. -/
theorem agrees_simulated (simulation : Simulation) {result : CheckResult}
    (hvalid : result.valid = true) : (simulated simulation).Agrees (.checked result) where
  simulated_iff := iff_of_true ⟨simulation, rfl⟩ ⟨result, rfl, hvalid⟩
  refused_iff := by
    refine iff_of_false nofun ?_
    rintro ⟨_, h, hinvalid⟩
    cases h
    simp [hvalid] at hinvalid
  first := nofun

/-- A refusal agrees with a check whose first finding says the same of the same element. -/
theorem agrees_refused {e : ErrorDetail} {result : CheckResult} {finding : Finding}
    (hvalid : result.valid = false) (hfirst : result.findings.head? = some finding)
    (hmessage : e.message = finding.message) (helement : e.element = finding.element) :
    (refused (.error e)).Agrees (.checked result) where
  simulated_iff := by
    refine iff_of_false nofun ?_
    rintro ⟨_, h, hvalid'⟩
    cases h
    simp [hvalid] at hvalid'
  refused_iff := iff_of_true ⟨_, rfl⟩ ⟨result, rfl, hvalid⟩
  first := by
    rintro _ _ ⟨⟩ ⟨⟩
    exact ⟨e, finding, rfl, hfirst, hmessage, helement⟩

theorem agrees_crashed : crashed.Agrees .crashed where
  simulated_iff := iff_of_false nofun nofun
  refused_iff := iff_of_false nofun nofun
  first := nofun

end Answer

variable {data : ModelData} {b : Built} {n : Nat}

/-- Both endpoints agree on every model that could be built. -/
theorem Built.Sound.agrees (hb : b.Sound data) (hbuild : data.build = .ok b)
    (hrounds : data.rounds? = some n) : (simulate data).Agrees (checkModel data) := by
  rcases hb.checkModel_eq hbuild with ⟨result, hcheck, hvalid, hfirst⟩
  rw [hcheck]
  cases hhead : b.brokenRules.head? with
  | none =>
      have hrules : b.brokenRules = [] := List.head?_eq_none_iff.1 hhead
      rcases hb.simulate_of_valid hbuild hrounds hrules with ⟨simulation, hsimulate⟩
      rw [hsimulate]
      exact Answer.agrees_simulated simulation (hvalid.2 hrules)
  | some v =>
      have hinvalid : result.valid = false := by
        rw [Bool.eq_false_iff, Ne, hvalid]
        rintro hnil
        simp [hnil] at hhead
      rcases hfirst v hhead with ⟨finding, hfinding, hmessage, helement⟩
      rw [hb.simulate_of_head? hbuild hrounds hhead]
      exact Answer.agrees_refused hinvalid hfinding hmessage.symm helement.symm

/-- A model that cannot be built has its refusal as the only finding. -/
theorem Refusal.checkModel_eq {r : Refusal} (hbuild : data.build = .error (.refused r)) :
    checkModel data = .checked r.checkResult := by
  rw [checkModel, hbuild]

/-- A model that cannot be built is refused with the same words. -/
theorem Refusal.simulate_eq {r : Refusal} (hbuild : data.build = .error (.refused r))
    (hrounds : data.rounds? = some n) : simulate data = .refused (.error r.detail) := by
  rw [simulate, hrounds]
  simp only [hbuild]

/-- Data that makes no model is refused by a simulation as a check refuses it. -/
theorem Refusal.agrees {r : Refusal} (hbuild : data.build = .error (.refused r))
    (hrounds : data.rounds? = some n) : (simulate data).Agrees (checkModel data) := by
  rw [Refusal.checkModel_eq hbuild, Refusal.simulate_eq hbuild hrounds]
  exact Answer.agrees_refused rfl rfl rfl rfl

/-- Data of which building breaks down leaves requests without an answer. -/
theorem crashed_of_failed {fault : Fault} (hbuild : data.build = .error (.failed fault))
    (hrounds : data.rounds? = some n) :
    simulate data = .crashed ∧ checkModel data = .crashed := by
  refine ⟨?_, by rw [checkModel, hbuild]⟩
  rw [simulate, hrounds]
  simp only [hbuild]

/-- A simulation and a check of the same data say the same. -/
theorem ModelData.agrees (hrounds : data.rounds? = some n) :
    (simulate data).Agrees (checkModel data) := by
  have hends := data.ends_build
  cases hbuild : data.build with
  | ok b =>
      rw [hbuild] at hends
      exact Built.Sound.agrees hends hbuild hrounds
  | error failure =>
      cases failure with
      | refused r => exact Refusal.agrees hbuild hrounds
      | failed fault =>
          rcases crashed_of_failed hbuild hrounds with ⟨hsimulate, hcheck⟩
          rw [hcheck, hsimulate]
          exact Answer.agrees_crashed

/-- The model of data in which a check finds no error is locked and run. -/
theorem ModelData.exists_run (hrounds : data.rounds? = some n) {result : CheckResult}
    (hcheck : checkModel data = .checked result) (hvalid : result.valid = true) :
    ∃ b w x, data.build = .ok b ∧ (Action.lock b.model).run b.world = .ok () w ∧
      Execution.start w b.model serviceSettings = .ok x ∧
      (x.run w (.integer n)).fault = none := by
  have hends := data.ends_build
  cases hbuild : data.build with
  | ok b =>
      rw [hbuild] at hends
      have hb : b.Sound data := hends
      rcases hb.checkModel_eq hbuild with ⟨result', hcheck', hvalid', _⟩
      rw [hcheck] at hcheck'
      cases hcheck'
      rcases hb.exists_run hrounds (hvalid'.1 hvalid) with ⟨w, x, hrun⟩
      exact ⟨b, w, x, rfl, hrun⟩
  | error failure =>
      rw [checkModel, hbuild] at hcheck
      cases failure with
      | refused r =>
          cases hcheck
          cases hvalid
      | failed fault => cases hcheck

/--
Of data that has the form of a model and asks for a number of rounds that is allowed, a
simulation and a check say the same: it is simulated if and only if it is valid.  The
model of valid data is locked, and its execution starts and runs without a fault.
-/
theorem Service.answers_agree {v : Value} {fields : List (String × Value)}
    (hdata : Service.modelOf [.field "body"] v = .ok data)
    (hmodel : fields.lookup "model" = some v) (hrounds : data.rounds? = some n) (time : String)
    (s : Service) :
    (s.answer time (.simulate (.record fields))).1.Agrees (s.answer time (.check v)).1 ∧
      ∀ result, (s.answer time (.check v)).1 = .checked result → result.valid = true →
        ∃ b w x, data.build = .ok b ∧ (Action.lock b.model).run b.world = .ok () w ∧
          Execution.start w b.model serviceSettings = .ok x ∧
          (x.run w (.integer n)).fault = none := by
  have hcheck : (s.answer time (.check v)).1 = checkModel data := by
    rw [Service.answer, hdata]
    rfl
  have hsimulate : (s.answer time (.simulate (.record fields))).1 = simulate data := by
    rw [Service.answer, Service.simulated_record hdata hmodel]
    rfl
  rw [hcheck, hsimulate]
  exact ⟨ModelData.agrees hrounds, fun result => ModelData.exists_run hrounds⟩

/-- A tank that is filled from outside at a constant rate, sent to be run for two rounds. -/
def tankModel : Value :=
  .record [("elements", .list [
      .record [("id", .integer 1), ("type", .text "level"), ("name", .text "Water")],
      .record [("id", .text "2"), ("type", .text "source_sink")],
      .record [("id", .integer 3), ("type", .text "rate"), ("name", .text "Fill"),
        ("formula", .text "CN(4)")],
      .record [("id", .integer 4), ("type", .text "constant"), ("name", .text "Share")]]),
    ("connections", .list [
      .record [("id", .integer 1), ("from_element_id", .integer 2),
        ("to_element_id", .integer 3)],
      .record [("id", .integer 2), ("from_element_id", .integer 3),
        ("to_element_id", .integer 1)]]),
    ("simulation_params", .record [("rounds", .integer 2)])]

/-- What the tank is read as. -/
def tankData : ModelData :=
  { elements := [{ id := 1, type := "level", name := some "Water" },
      { id := 2, type := "source_sink" },
      { id := 3, type := "rate", name := some "Fill", formula := some "CN(4)" },
      { id := 4, type := "constant", name := some "Share" }]
    connections := [{ id := 1, source := 2, target := 3 }, { id := 2, source := 3, target := 1 }]
    parameters := [("rounds", .integer 2)] }

/-- Both endpoints take a tank, and it locks, starts and runs. -/
theorem answers_agree_tank :
    Service.modelOf [.field "body"] tankModel = .ok tankData ∧ tankData.rounds? = some 2 ∧
      ∃ result simulation,
        (({} : Service).answer "now" (.check tankModel)).1 = .checked result ∧
        (({} : Service).answer "now" (.simulate (.record [("model", tankModel)]))).1 =
          .simulated simulation ∧
        ∃ b w x, tankData.build = .ok b ∧ (Action.lock b.model).run b.world = .ok () w ∧
          Execution.start w b.model serviceSettings = .ok x ∧
          (x.run w (.integer (2 : Nat))).fault = none := by
  have hdata : Service.modelOf [.field "body"] tankModel = .ok tankData := rfl
  have hmodel : [("model", tankModel)].lookup "model" = some tankModel := rfl
  have hrounds : tankData.rounds? = some 2 := rfl
  have hvalid : (match (({} : Service).answer "now" (.check tankModel)).1 with
      | .checked result => result.valid
      | _ => false) = true := by decide +kernel
  obtain ⟨hagrees, hruns⟩ := Service.answers_agree hdata hmodel hrounds "now" {}
  split at hvalid
  · rename_i result hcheck
    rcases hagrees.simulated_iff.2 ⟨result, hcheck, hvalid⟩ with ⟨simulation, hsimulation⟩
    exact ⟨hdata, hrounds, result, simulation, hcheck, hsimulation, hruns result hcheck hvalid⟩
  · cases hvalid

end StockFlow
