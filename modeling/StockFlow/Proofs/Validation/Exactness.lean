import StockFlow.Proofs.Dependency.Reaching
import StockFlow.Proofs.Validation.Violations

/-!
# Exact validation

The rules of validation can be said without any search: a circle is a chain of
reads that comes back, and a node is of use if it lies in the least set of nodes
that influence levels.  What the searches find is just that, so reports, validation
and locking all go by one list of broken rules.

Main definitions:

- {lit}`World.HasCircle`: auxiliaries that read each other in a circle.
- {lit}`World.brokenRules`: all that breaks a rule, in the order of the rules.
- {lit}`World.ValidatesAs`: reports, validation and locking go by a list of violations.

Main results:

- Theorem {lit}`World.violations_eq_brokenRules`: the searches find exactly what breaks a rule.
- Theorem {lit}`World.firstProblem?_eq`: validation fails with the first violation.
- Theorem {lit}`World.Reachable.validatesAs_brokenRules`: everything goes by what breaks a rule.
-/

namespace StockFlow
namespace World

variable {w : World} {content : Model}

/-! ## Broken rules -/

/-- Whether some of the auxiliaries read each other in a circle; one may read itself. -/
def HasCircle (w : World) (auxiliaries : List NodeId) : Prop :=
  ∃ a ∈ auxiliaries, Relation.TransGen
    (fun n k => k ∈ auxiliaries ∧ ∃ f, w.formula? n = some f ∧ k ∈ f.leaves) a a

open Classical in
/-- All that breaks a rule: rule by rule, and for one rule node by node as they were created. -/
noncomputable def brokenRules (w : World) (content : Model) : List Violation :=
  (if content.levels = [] then [.noLevel] else []) ++
    (content.rates.filter fun r => w.endpoint? .source r = none ∨ w.endpoint? .sink r = none).map
      .unconnectedRate ++
    ((content.rates ++ content.auxiliaries).filter fun n => w.formula? n = none).map
      .missingFormula ++
    (if w.HasCircle content.auxiliaries then [.auxiliaryCycle] else []) ++
    ((content.constants ++ content.auxiliaries ++ content.sourceSinks).filter
      fun n => ¬ w.Influences content.levels n).map .uselessNode

open Classical in
/-- The levels without any flow. -/
noncomputable def idleLevels (w : World) (content : Model) : List NodeId :=
  content.levels.filter fun l => ∀ side, w.ratesAt side l = []

/-! ## The rules one by one -/

/-- A model needs a level. -/
theorem levelViolations_eq (content : Model) :
    levelViolations content = if content.levels = [] then [.noLevel] else [] := by
  unfold levelViolations
  cases content.levels <;> rfl

/-- A rate needs both ends. -/
theorem flowViolations_eq (w : World) (content : Model) :
    w.flowViolations content =
      (content.rates.filter fun r => w.endpoint? .source r = none ∨ w.endpoint? .sink r = none).map
        .unconnectedRate := by
  rw [flowViolations]
  congr 1
  refine List.filter_congr fun r _ => ?_
  rw [isUnconnected]
  cases w.endpoint? .source r <;> cases w.endpoint? .sink r <;> rfl

/-- A rate or an auxiliary needs a formula. -/
theorem formulaViolations_eq (w : World) (content : Model) :
    w.formulaViolations content =
      ((content.rates ++ content.auxiliaries).filter fun n => w.formula? n = none).map
        .missingFormula := by
  rw [formulaViolations, Model.formulaOwners]
  congr 1
  refine List.filter_congr fun n _ => ?_
  cases w.formula? n <;> simp

/-- Chains stay chains under a relation that agrees on a set which they cannot leave. -/
theorem transGen_of_agree (nodes : List NodeId) {r r' : NodeId → NodeId → Prop}
    (hagree : ∀ n ∈ nodes, ∀ k, r n k → r' n k ∧ k ∈ nodes) {a b : NodeId} (ha : a ∈ nodes)
    (h : Relation.TransGen r a b) : Relation.TransGen r' a b ∧ b ∈ nodes := by
  induction h with
  | single hstep =>
      rcases hagree a ha _ hstep with ⟨hstep', hb⟩
      exact ⟨.single hstep', hb⟩
  | tail _ hstep ih =>
      rcases hagree _ ih.2 _ hstep with ⟨hstep', hb⟩
      exact ⟨ih.1.tail hstep', hb⟩

/-- Auxiliaries that read only each other have a circle if one of them leads to itself. -/
theorem hasCircle_iff {nodes : List NodeId}
    (hkind : ∀ n ∈ nodes, w.kind? n = some .auxiliary) (h : w.ReadsWithin nodes) :
    w.HasCircle nodes ↔
      ∃ n ∈ nodes, Relation.TransGen (Dependency.Reads w.auxiliaryReads) n n := by
  refine exists_congr fun a => and_congr_right fun ha => ?_
  constructor
  · intro hcircle
    refine (transGen_of_agree nodes ?_ ha hcircle).1
    rintro n hn k ⟨hk, hread⟩
    exact ⟨mem_auxiliaryReads.2 ⟨mem_formulaReads.2 hread, hkind k hk⟩, hk⟩
  · intro hcircle
    refine (transGen_of_agree nodes ?_ ha hcircle).1
    intro n hn k hread
    have hk := h n hn k hread
    exact ⟨⟨hk, mem_formulaReads.1 (mem_auxiliaryReads.1 hread).1⟩, hk⟩

section

variable (hkind : ∀ n ∈ content.auxiliaries, w.kind? n = some .auxiliary)
  (hnodup : content.auxiliaries.Nodup) (h : w.ReadsWithin content.auxiliaries)

include hkind hnodup h

/-- Without a circle there is an evaluation order. -/
theorem evaluationOrder_of_not_hasCircle (hcircle : ¬ w.HasCircle content.auxiliaries) :
    ∃ order, w.evaluationOrder content.auxiliaries = .ok order := by
  have hsort := sortAuxiliaries_eq_ok hkind hnodup h
  rcases sorts_of_sortAuxiliaries hkind hnodup hsort with ⟨hclosed, hsorts⟩
  rw [hasCircle_iff hkind h] at hcircle
  have hblocked := (hsorts.blocked_eq_nil_iff hclosed).2 fun n hn hchain => hcircle ⟨n, hn, hchain⟩
  rw [evaluationOrder, hsort]
  simp [hblocked]

open Classical in
/-- The search for a cycle ends, and finds one if there is a circle. -/
theorem cycleViolations_eq :
    w.cycleViolations content =
      .ok (if w.HasCircle content.auxiliaries then [.auxiliaryCycle] else []) := by
  have hsort := sortAuxiliaries_eq_ok hkind hnodup h
  rcases sorts_of_sortAuxiliaries hkind hnodup hsort with ⟨hclosed, hsorts⟩
  rw [cycleViolations, hasAuxiliaryCycle, hsort, Except.map, Except.map]
  congr 1
  by_cases hcircle : w.HasCircle content.auxiliaries
  · have hblocked : (Dependency.sortBy w.auxiliaryReads content.auxiliaries).blocked ≠ [] := by
      intro hnil
      rcases (hasCircle_iff hkind h).1 hcircle with ⟨n, hn, hchain⟩
      exact (hsorts.blocked_eq_nil_iff hclosed).1 hnil n hn hchain
    rw [if_pos hcircle]
    simp [hblocked]
  · have hblocked : (Dependency.sortBy w.auxiliaryReads content.auxiliaries).blocked = [] := by
      refine (hsorts.blocked_eq_nil_iff hclosed).2 fun n hn hchain => hcircle ?_
      exact (hasCircle_iff hkind h).2 ⟨n, hn, hchain⟩
    rw [if_neg hcircle]
    simp [hblocked]

end

open Classical in
/-- Whatever is no level and no rate is useless unless it influences a level. -/
theorem uselessViolations_eq (hw : w.WellFormed) (content : Model) :
    w.uselessViolations content =
      ((content.constants ++ content.auxiliaries ++ content.sourceSinks).filter
        fun n => ¬ w.Influences content.levels n).map .uselessNode := by
  rw [uselessViolations, nodesToBeUsed]
  congr 1
  refine List.filter_congr fun n _ => ?_
  rw [← mem_influencing_iff hw]
  by_cases hn : n ∈ w.influencing content.levels <;> simp [hn]

variable {m : ModelId}

/-- The searches find exactly what breaks a rule, unless they fail. -/
theorem violations_eq_brokenRules (hw : w.WellFormed) (h : w.ReadsWithin (w.model m).auxiliaries) :
    w.violations (w.model m) = .ok (w.brokenRules (w.model m)) := by
  have hcycle := cycleViolations_eq (hw.members.kind m .auxiliary) (hw.members.nodup m .auxiliary) h
  rw [violations, hcycle, brokenRules, localViolations, levelViolations_eq, flowViolations_eq,
    formulaViolations_eq, uselessViolations_eq hw]

/-! ## Lists of violations -/

/-- Validation fails with the first violation, if there is one. -/
theorem firstProblem?_eq {vs : List Violation} (h : w.violations content = .ok vs) :
    w.firstProblem? content = vs.head?.map .invalid := by
  rw [violations] at h
  cases hcycle : w.cycleViolations content with
  | error e => simp [hcycle] at h
  | ok cycle =>
      rw [hcycle] at h
      obtain rfl := Except.ok.inj h
      rw [firstProblem?, hcycle]
      cases w.localViolations content with
      | cons v rest => rfl
      | nil =>
          cases cycle with
          | cons v rest => rfl
          | nil => rfl

theorem nodup_map_violation {ns : List NodeId} {rule : NodeId → Violation} (hns : ns.Nodup)
    (hrule : ∀ a b, rule a = rule b → a = b) : (ns.map rule).Nodup := by
  rw [List.Nodup, List.pairwise_map]
  exact hns.imp fun hne heq => hne (hrule _ _ heq)

/-- Lists of violations of different rules share none. -/
theorem nodup_append_violations {vs vs' : List Violation} (hvs : vs.Nodup) (hvs' : vs'.Nodup)
    (h : ∀ v ∈ vs', v ∉ vs) : (vs ++ vs').Nodup := by
  rw [List.nodup_append]
  refine ⟨hvs, hvs', fun x hx y hy heq => ?_⟩
  exact h y hy (heq ▸ hx)

/-- Nothing breaks the same rule twice. -/
theorem nodup_brokenRules (hw : w.WellFormed) (m : ModelId) :
    (w.brokenRules (w.model m)).Nodup := by
  have hnodes := hw.members.nodup_nodes m
  have hformulas : ((w.model m).rates ++ (w.model m).auxiliaries).Nodup := by
    refine hnodes.sublist ?_
    refine (List.Sublist.append ?_ (List.Sublist.refl _)).trans (List.sublist_append_left _ _)
    exact (List.sublist_append_right _ _).trans (List.sublist_append_left _ _)
  have hused :
      ((w.model m).constants ++ (w.model m).auxiliaries ++ (w.model m).sourceSinks).Nodup := by
    refine hnodes.sublist ?_
    refine List.Sublist.append (List.Sublist.append ?_ (List.Sublist.refl _)) (List.Sublist.refl _)
    exact List.sublist_append_right _ _
  unfold brokenRules
  refine nodup_append_violations (nodup_append_violations (nodup_append_violations
    (nodup_append_violations ?_ ?_ ?_) ?_ ?_) ?_ ?_) ?_ ?_
  · split <;> simp
  · exact nodup_map_violation ((hw.members.nodup m .rate).filter _)
      fun _ _ => Violation.unconnectedRate.inj
  · intro v hv
    rw [List.mem_map] at hv
    rcases hv with ⟨n, _, rfl⟩
    split <;> simp
  · exact nodup_map_violation (hformulas.filter _) fun _ _ => Violation.missingFormula.inj
  · intro v hv
    rw [List.mem_map] at hv
    rcases hv with ⟨n, _, rfl⟩
    split <;> simp
  · split <;> simp
  · intro v hv
    split at hv
    · rw [List.mem_singleton] at hv
      subst hv
      split <;> simp
    · simp at hv
  · exact nodup_map_violation (hused.filter _) fun _ _ => Violation.uselessNode.inj
  · intro v hv
    rw [List.mem_map] at hv
    rcases hv with ⟨n, _, rfl⟩
    split <;> split <;> simp

/-! ## Reports -/

/-- The warnings are those for idle levels. -/
theorem idleIssues_eq (hw : w.WellFormed) (content : Model) :
    w.idleIssues content = (w.idleLevels content).map w.idleIssue := by
  rw [idleIssues, idleLevels]
  congr 1
  refine List.filter_congr fun l _ => ?_
  have hempty : ∀ side, (w.listedAt side l).isEmpty = decide (w.ratesAt side l = []) := by
    intro side
    rw [hw.flows.listed_eq]
    cases w.ratesAt side l <;> rfl
  rw [isIdle, hempty, hempty, ← Bool.decide_and, decide_eq_decide]
  constructor
  · rintro ⟨hsink, hsource⟩ side
    cases side with
    | source => exact hsource
    | sink => exact hsink
  · intro h
    exact ⟨h .sink, h .source⟩

/-- A report is valid if and only if it lists no violation. -/
theorem isValid_report_iff {vs : List Violation} {idle : List NodeId} :
    Report.isValid { issues := vs.map w.issueOf ++ idle.map w.idleIssue } = true ↔ vs = [] := by
  have herrors : Report.errors { issues := vs.map w.issueOf ++ idle.map w.idleIssue } =
      vs.map w.issueOf := by
    rw [Report.errors, Report.withSeverity, List.filter_append]
    have hvs : (vs.map w.issueOf).filter (fun i => i.severity = .error) = vs.map w.issueOf := by
      rw [List.filter_eq_self]
      intro i hi
      rcases List.mem_map.1 hi with ⟨v, _, rfl⟩
      rfl
    have hidle : (idle.map w.idleIssue).filter (fun i => i.severity = .error) = [] := by
      rw [List.filter_eq_nil_iff]
      intro i hi
      rcases List.mem_map.1 hi with ⟨l, _, rfl⟩
      simp [idleIssue]
    rw [hvs, hidle, List.append_nil]
  rw [Report.isValid, herrors, List.isEmpty_iff, List.map_eq_nil_iff]

/-- An issue tells the family, the wording and the node of the fault that validation fails with. -/
theorem issueOf_tells (w : World) (v : Violation) :
    (w.issueOf v).faultKind = some (Fault.invalid v).kind ∧
      (w.issueOf v).message = (Fault.invalid v).message ∧
      (w.issueOf v).node = (Fault.invalid v).node? :=
  ⟨rfl, rfl, rfl⟩

/-! ## Everything together -/

/-- Reports, validation and locking of a model go by a list of violations. -/
structure ValidatesAs (w : World) (m : ModelId) (vs : List Violation) : Prop where
  nodup : vs.Nodup
  /-- Lists of owned nodes are in order of creation, and so is whatever goes through them. -/
  creation : ∀ kind, ((w.model m).members kind).Pairwise fun a b => a.index < b.index
  report : w.report (w.model m) =
    .ok { issues := vs.map w.issueOf ++ (w.idleLevels (w.model m)).map w.idleIssue }
  isValid : ∀ r, w.report (w.model m) = .ok r → (r.isValid = true ↔ vs = [])
  valid : vs = [] → (Action.validate m).run w = .ok () w
  invalid : ∀ v, vs.head? = some v → (Action.validate m).run w = .error (.invalid v) w ∧
    (w.issueOf v).faultKind = some (Fault.invalid v).kind ∧
    (w.issueOf v).message = (Fault.invalid v).message ∧
    (w.issueOf v).node = (Fault.invalid v).node?
  lock : w.isChangeable m = true → vs = [] →
    ∃ w', (Action.lock m).run w = .ok () w' ∧ w'.isChangeable m = false
  lock_invalid : w.isChangeable m = true → ∀ v, vs.head? = some v →
    (Action.lock m).run w = .error (.invalid v) w

/-- Reports, validation and locking go by all that breaks a rule. -/
theorem Reachable.validatesAs_brokenRules (hreach : w.Reachable) (m : ModelId)
    (h : w.ReadsWithin (w.model m).auxiliaries) :
    w.ValidatesAs m (w.brokenRules (w.model m)) := by
  have hw := hreach.wellFormed
  have hviolations := violations_eq_brokenRules hw h
  have hfirst := firstProblem?_eq hviolations
  have hreport : w.report (w.model m) = .ok ⟨(w.brokenRules (w.model m)).map w.issueOf ++
      (w.idleLevels (w.model m)).map w.idleIssue⟩ := by
    rw [report, hviolations, Except.map, idleIssues_eq hw]
  have hvalidate := Action.run_validate w m
  rw [hfirst] at hvalidate
  refine ⟨nodup_brokenRules hw m, hw.members.increasing m, hreport, ?_, ?_, ?_, ?_, ?_⟩
  · intro r hr
    rw [hreport] at hr
    obtain rfl := Except.ok.inj hr
    exact isValid_report_iff
  · intro hnil
    rw [hvalidate, hnil]
    rfl
  · intro v hv
    refine ⟨?_, issueOf_tells w v⟩
    rw [hvalidate, hv]
    rfl
  · intro hc hnil
    have hcircle : ¬ w.HasCircle (w.model m).auxiliaries := by
      intro hcircle
      have hmem : Violation.auxiliaryCycle ∈ w.brokenRules (w.model m) := by
        simp [brokenRules, hcircle]
      simp [hnil] at hmem
    obtain ⟨order, horder⟩ := evaluationOrder_of_not_hasCircle (hw.members.kind m .auxiliary)
      (hw.members.nodup m .auxiliary) h hcircle
    have hlock := Action.run_lock hc
    rw [hfirst, hnil] at hlock
    simp only [List.head?_nil, Option.map_none, horder] at hlock
    refine ⟨_, hlock, ?_⟩
    rw [isChangeable, model_updateModel hc, if_pos rfl]
  · intro hc v hv
    have hlock := Action.run_lock hc
    rw [hfirst, hv] at hlock
    exact hlock

/-- A model that breaks all rules but the first one: its auxiliary reads itself. -/
def brokenSession : List Operation :=
  let m : ModelId := ⟨0⟩
  let leaf (index : Nat) : Argument := .node ⟨index⟩
  [.newModel (.text "Broken"), .createLevel m (.text "Water") (.integer 8),
    .createAuxiliary m (.text "Gap"), .createRate m (.text "Fill"), .createRate m (.text "Drain"),
    .createSourceSink m, .setFormula m (leaf 1) (.apply .subtract (leaf 0) (leaf 1)),
    .setFormula m (leaf 2) (leaf 0), .addFlow m .rateToLevel (leaf 2) (leaf 0)]

/-- A model that breaks several rules validates as all of them. -/
theorem validatesAs_brokenRules_broken :
    (World.run {} brokenSession).ValidatesAs ⟨0⟩
      ((World.run {} brokenSession).brokenRules ((World.run {} brokenSession).model ⟨0⟩)) :=
  Reachable.validatesAs_brokenRules ⟨brokenSession, rfl⟩ ⟨0⟩ (by decide +kernel)

end World
end StockFlow
