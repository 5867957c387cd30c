import Mathlib.Data.List.Nodup
import Mathlib.Order.Bounds.Basic
import StockFlow.Proofs.Dependency.Reaching

/-!
# The least set that the walk reaches

The walk over influences may run through circles of formulas and flows.  It marks a
node as it takes it, so every node of the world is taken once at most, and what is
left when nothing is pending is closed under the three ways in which nodes influence
others.  As the walk follows nothing else, the set is the least such set, and so it is
the same for whatever order the levels are handed over in.

Main definitions:

- {lit}`World.HoldsInfluences`: a set that is closed under influence on levels.

Main results:

- Theorem {lit}`Influence.nodup_gather`: nothing is gathered twice.
- Theorem {lit}`World.holdsInfluences_iff`: the closed sets are those that have all that
  influences the levels.
- Theorem {lit}`World.Reachable.influencingEndpoints_least`: the walk finds the least of them.
-/

namespace StockFlow

/-- Nothing is gathered twice. -/
theorem Influence.nodup_gather {next : NodeId → List NodeId} {domain pending : List NodeId}
    (h : domain.Nodup) : (gather next domain pending).Nodup := by
  fun_induction gather next domain pending with
  | case1 => exact List.nodup_nil
  | case2 domain n rest hn ih =>
      refine List.nodup_cons.2 ⟨fun hagain => ?_, ih (h.erase n)⟩
      exact (h.mem_erase_iff.1 (mem_domain_of_mem_gather hagain)).1 rfl
  | case3 domain n rest hn ih => exact ih h

namespace World

variable {w : World} {levels : List NodeId} {n : NodeId}

/-! ## Closed sets -/

/--
Whether a set has the rates that flow into and out of levels, with every rate what its
formula reads and its ends beyond the boundary, and with every auxiliary what its
formula reads.  Nothing is asked for levels, constants, sources and sinks in the set.
-/
structure HoldsInfluences (w : World) (levels : List NodeId) (S : Set NodeId) : Prop where
  flow : ∀ l ∈ levels, ∀ side, ∀ r ∈ w.ratesAt side l, r ∈ S
  rate : ∀ r ∈ S, w.kind? r = some .rate → ∀ f, w.formula? r = some f → ∀ k ∈ f.leaves, k ∈ S
  boundary : ∀ r ∈ S, w.kind? r = some .rate → ∀ side e, w.endpoint? side r = some e →
    w.kind? e = some .sourceSink → e ∈ S
  auxiliary : ∀ a ∈ S, w.kind? a = some .auxiliary → ∀ f, w.formula? a = some f →
    ∀ k ∈ f.leaves, k ∈ S

/-- What influences the levels is closed under influence. -/
theorem holdsInfluences_influences (w : World) (levels : List NodeId) :
    w.HoldsInfluences levels {n | w.Influences levels n} where
  flow _ hl side _ hr := .flow side hl hr
  rate _ hr _ _ hf _ hk := .read hr hf hk
  boundary _ hr _ side _ he hkind := .boundary side hr he hkind
  auxiliary _ ha _ _ hf _ hk := .read ha hf hk

/-- A set is closed under influence only if it has all that influences the levels. -/
theorem HoldsInfluences.subset {S : Set NodeId} (h : w.HoldsInfluences levels S) :
    {n | w.Influences levels n} ⊆ S := by
  intro n hn
  induction hn with
  | flow side hl hr => exact h.flow _ hl side _ hr
  | read _ hf hk ih =>
      obtain ⟨kind, hkind, hformula⟩ := kind?_of_formula? hf
      cases kind with
      | rate => exact h.rate _ ih hkind _ hf _ hk
      | auxiliary => exact h.auxiliary _ ih hkind _ hf _ hk
      | _ => cases hformula
  | boundary side _ he hkind ih => exact h.boundary _ ih (kind?_of_endpoint? he) side _ he hkind

/-! ## The walk -/

theorem nodup_influencing (w : World) (levels : List NodeId) : (w.influencing levels).Nodup := by
  refine Influence.nodup_gather (List.Nodup.map ?_ List.nodup_range)
  intro a b heq
  cases heq
  rfl

/-- What the walk collects is the least set that holds all influences on the levels. -/
theorem WellFormed.influencing_least (hw : w.WellFormed) (levels : List NodeId) :
    IsLeast {S | w.HoldsInfluences levels S} {n | n ∈ w.influencing levels} := by
  have heq : {n | n ∈ w.influencing levels} = {n | w.Influences levels n} :=
    Set.ext fun n => mem_influencing_iff hw
  rw [heq]
  exact ⟨w.holdsInfluences_influences levels, fun _ h => h.subset⟩

/-- Levels in another order ask for the same sets. -/
theorem holdsInfluences_congr {levels' : List NodeId} (h : ∀ l, l ∈ levels' ↔ l ∈ levels)
    (S : Set NodeId) : w.HoldsInfluences levels' S ↔ w.HoldsInfluences levels S := by
  constructor
  · rintro ⟨hflow, hrate, hboundary, hauxiliary⟩
    exact ⟨fun l hl => hflow l ((h l).2 hl), hrate, hboundary, hauxiliary⟩
  · rintro ⟨hflow, hrate, hboundary, hauxiliary⟩
    exact ⟨fun l hl => hflow l ((h l).1 hl), hrate, hboundary, hauxiliary⟩

/-- The order in which the levels are given only changes the order of the result. -/
theorem WellFormed.influencing_perm (hw : w.WellFormed) {levels' : List NodeId}
    (h : ∀ l, l ∈ levels' ↔ l ∈ levels) : (w.influencing levels').Perm (w.influencing levels) := by
  refine (List.perm_ext_iff_of_nodup (w.nodup_influencing _) (w.nodup_influencing _)).2 fun n => ?_
  have hleast := hw.influencing_least levels'
  simp only [holdsInfluences_congr h] at hleast
  exact Set.ext_iff.1 (hleast.unique (hw.influencing_least levels)) n

/-! ## Levels as arguments -/

theorem endpointsOf_map_node (h : ∀ l ∈ levels, w.isEndpoint l = true) :
    w.endpointsOf (levels.map .node) = .ok levels := by
  rw [endpointsOf]
  induction levels with
  | nil => rfl
  | cons l rest ih =>
      have hl : Action.withMember w NodeKind.isEndpoint "get_incoming_flows" (.node l) = .ok l :=
        if_pos (h l List.mem_cons_self)
      rw [List.map_cons, List.mapM_cons, hl, ih fun k hk => h k (List.mem_cons_of_mem l hk)]
      rfl

/-- Where flows match, nothing but rates is listed. -/
theorem FlowsMatch.listedStrangers_eq (h : w.FlowsMatch) (nodes : List NodeId) :
    w.listedStrangers nodes = [] := by
  have hnone : (nodes.flatMap w.listedFlows).filter (fun e => e.node?.isNone) = [] := by
    rw [List.filter_eq_nil_iff]
    intro e he
    obtain ⟨n, _, hlisted⟩ := List.mem_flatMap.1 he
    rw [listedFlows, h.listed_eq, h.listed_eq, ← List.map_append, List.mem_map] at hlisted
    obtain ⟨r, _, rfl⟩ := hlisted
    simp
  rw [listedStrangers, hnone]
  rfl

/-- From levels the walk ends, with the nodes that it collected. -/
theorem WellFormed.influencingEndpoints_eq (hw : w.WellFormed)
    (hlevels : ∀ l ∈ levels, w.kind? l = some .level) :
    w.influencingEndpoints (levels.map .node) = .ok ((w.influencing levels).map .node) := by
  have hend : ∀ l ∈ levels, w.isEndpoint l = true := by
    intro l hl
    rw [isEndpoint, hlevels l hl]
    rfl
  rw [influencingEndpoints, endpointsOf_map_node hend, Except.map,
    hw.flows.listedStrangers_eq, List.nil_append]

/--
In every world that a session led to, the walk from levels ends, though formulas and
flows may run in circles, and gives each node once.  What it gives is the least set that
is closed under influence on these levels, whatever order they are handed over in.
-/
theorem Reachable.influencingEndpoints_least (h : w.Reachable)
    (hlevels : ∀ l ∈ levels, w.kind? l = some .level) :
    ∃ reached : List NodeId, w.influencingEndpoints (levels.map .node) = .ok (reached.map .node) ∧
      reached.Nodup ∧ IsLeast {S | w.HoldsInfluences levels S} {n | n ∈ reached} ∧
      ∀ levels' : List NodeId, levels'.Perm levels → ∃ reached' : List NodeId,
        w.influencingEndpoints (levels'.map .node) = .ok (reached'.map .node) ∧
          reached'.Perm reached := by
  have hw := h.wellFormed
  refine ⟨w.influencing levels, hw.influencingEndpoints_eq hlevels, w.nodup_influencing levels,
    hw.influencing_least levels, fun levels' hperm => ?_⟩
  have hlevels' : ∀ l ∈ levels', w.kind? l = some .level :=
    fun l hl => hlevels l (hperm.mem_iff.1 hl)
  exact ⟨w.influencing levels', hw.influencingEndpoints_eq hlevels',
    hw.influencing_perm fun l => hperm.mem_iff⟩

/--
Two tanks and a flow between them.  The rate reads an auxiliary that reads the rate and
itself; another auxiliary, which reads the first, influences nothing.
-/
def circlingSession : List Operation :=
  let m : ModelId := ⟨0⟩
  let leaf (index : Nat) : Argument := .node ⟨index⟩
  [.newModel (.text "Circles"), .createLevel m (.text "Upper") (.integer 8),
    .createLevel m (.text "Lower") (.integer 1), .createRate m (.text "Fall"),
    .createAuxiliary m (.text "Slope"), .createAuxiliary m (.text "Idle"), .createSourceSink m,
    .createRate m (.text "Rain"), .setFormula m (leaf 2) (.apply .add (leaf 3) (leaf 0)),
    .setFormula m (leaf 3) (.apply .multiply (leaf 2) (leaf 3)), .setFormula m (leaf 4) (leaf 3),
    .setFormula m (leaf 6) (leaf 6), .addFlow m .levelToRate (leaf 0) (leaf 2),
    .addFlow m .rateToLevel (leaf 2) (leaf 1), .addFlow m .sourceSinkToRate (leaf 5) (leaf 6),
    .addFlow m .rateToLevel (leaf 6) (leaf 0)]

/-- Influences that run in circles, on two levels that are given in either order. -/
theorem influencingEndpoints_least_circling :
    ∃ reached : List NodeId, (World.run {} circlingSession).influencingEndpoints
        ([⟨0⟩, ⟨1⟩].map Argument.node) = .ok (reached.map .node) ∧ reached.Nodup ∧
      IsLeast {S | (World.run {} circlingSession).HoldsInfluences [⟨0⟩, ⟨1⟩] S}
        {n | n ∈ reached} ∧
      ∃ reached' : List NodeId, (World.run {} circlingSession).influencingEndpoints
        ([⟨1⟩, ⟨0⟩].map Argument.node) = .ok (reached'.map .node) ∧ reached'.Perm reached := by
  have hreach : (World.run {} circlingSession).Reachable := ⟨_, rfl⟩
  have hlevels : ∀ l ∈ ([⟨0⟩, ⟨1⟩] : List NodeId),
      (World.run {} circlingSession).kind? l = some .level := by decide +kernel
  obtain ⟨reached, hreached, hnodup, hleast, hperm⟩ := hreach.influencingEndpoints_least hlevels
  exact ⟨reached, hreached, hnodup, hleast, hperm _ (List.Perm.swap _ _ _)⟩

end World
end StockFlow
