import StockFlow.Proofs.World.Ownership

/-!
# Removing nodes

A node goes exactly when no other node of the model reads it in a formula; otherwise the
first reader that was created is named, rates before auxiliaries, and nothing happens.
With the node go its place in the model and every flow that it shares; all lists keep
their order, and nothing else about any node or model changes.

Main definitions:

- {lit}`World.IsReader`, {lit}`World.IsFirstReader`: what stands in the way of a removal.
- {lit}`World.Removed`: everything that a removal does.

Main results:

- Theorem {lit}`World.MembersMatch.firstReader?_eq_some_iff`: which reader is found.
- Theorem {lit}`Action.run_removeNode`: how the removal of a node that exists ends.
- Theorem {lit}`World.Reachable.removes_unless_read`: removals in every world of a session.
-/

namespace StockFlow
namespace World

variable {w : World} {m : ModelId} {n k : NodeId}

/-! ## Readers -/

/-- Whether a node of a kind is owned by a model and reads another node in its formula. -/
def IsReader (w : World) (m : ModelId) (kind : NodeKind) (n k : NodeId) : Prop :=
  k ∈ (w.model m).members kind ∧ k ≠ n ∧ ∃ f, w.formula? k = some f ∧ n ∈ f.leaves

/-- Whether a node is the first of its kind, in the order of creation, that reads another one. -/
def IsFirstReaderOf (w : World) (m : ModelId) (kind : NodeKind) (n k : NodeId) : Prop :=
  w.IsReader m kind n k ∧ ∀ k', w.IsReader m kind n k' → k.index ≤ k'.index

/-- Whether a node is the first rate that reads another node, or else the first auxiliary. -/
def IsFirstReader (w : World) (m : ModelId) (n k : NodeId) : Prop :=
  w.IsFirstReaderOf m .rate n k ∨
    (∀ k', ¬w.IsReader m .rate n k') ∧ w.IsFirstReaderOf m .auxiliary n k

/-- Whether another rate or auxiliary of a model reads a node. -/
def IsRead (w : World) (m : ModelId) (n : NodeId) : Prop :=
  ∃ k, w.IsReader m .rate n k ∨ w.IsReader m .auxiliary n k

/-- In a list in the order of creation, a search finds what was created first. -/
theorem find?_eq_some_iff_of_increasing {ns : List NodeId} {p : NodeId → Bool}
    (h : ns.Pairwise fun a b => a.index < b.index) :
    ns.find? p = some k ↔ (k ∈ ns ∧ p k = true) ∧ ∀ k' ∈ ns, p k' = true → k.index ≤ k'.index := by
  induction ns with
  | nil => simp
  | cons x rest ih =>
      rw [List.pairwise_cons] at h
      by_cases hx : p x = true
      · rw [List.find?_cons_of_pos hx, Option.some.injEq]
        constructor
        · rintro rfl
          refine ⟨⟨List.mem_cons_self, hx⟩, fun k' hk' _ => ?_⟩
          rcases List.mem_cons.1 hk' with rfl | hk'
          · exact Nat.le_refl _
          · exact Nat.le_of_lt (h.1 k' hk')
        · rintro ⟨⟨hk, -⟩, hfirst⟩
          rcases List.mem_cons.1 hk with rfl | hk
          · rfl
          · have hlater := h.1 k hk
            have hfirst := hfirst x List.mem_cons_self hx
            omega
      · rw [List.find?_cons_of_neg hx, ih h.2]
        constructor
        · rintro ⟨⟨hk, hp⟩, hfirst⟩
          refine ⟨⟨List.mem_cons_of_mem x hk, hp⟩, fun k' hk' hp' => ?_⟩
          rcases List.mem_cons.1 hk' with rfl | hk'
          · exact (hx hp').elim
          · exact hfirst k' hk' hp'
        · rintro ⟨⟨hk, hp⟩, hfirst⟩
          rcases List.mem_cons.1 hk with rfl | hk
          · exact (hx hp).elim
          · exact ⟨⟨hk, hp⟩, fun k' hk' => hfirst k' (List.mem_cons_of_mem x hk')⟩

/-- Readers are other nodes of the model with the node in their formula. -/
theorem isReader_iff {kind : NodeKind} : w.IsReader m kind n k ↔
    k ∈ (w.model m).members kind ∧ (k != n && (w.formulaReads k).contains n) = true := by
  rw [IsReader, Bool.and_eq_true, bne_iff_ne, List.contains_iff_mem, mem_formulaReads]

theorem firstReader?_formulaOwners (w : World) (m : ModelId) (n : NodeId) :
    Action.firstReader? w (w.model m).formulaOwners n =
      (Action.firstReader? w ((w.model m).members .rate) n).or
        (Action.firstReader? w ((w.model m).members .auxiliary) n) :=
  List.find?_append ..

/-- No reader is found exactly if there is none. -/
theorem firstReader?_members_eq_none {kind : NodeKind} :
    Action.firstReader? w ((w.model m).members kind) n = none ↔ ∀ k, ¬w.IsReader m kind n k := by
  rw [Action.firstReader?, List.find?_eq_none]
  refine forall_congr' fun k => ?_
  rw [isReader_iff, not_and]

/-- The reader that is found is the first one. -/
theorem MembersMatch.firstReader?_members (h : w.MembersMatch) (kind : NodeKind) :
    Action.firstReader? w ((w.model m).members kind) n = some k ↔ w.IsFirstReaderOf m kind n k := by
  rw [Action.firstReader?, find?_eq_some_iff_of_increasing (h.increasing m kind), IsFirstReaderOf,
    isReader_iff]
  refine and_congr_right fun _ => forall_congr' fun k' => ?_
  rw [isReader_iff, and_imp]

/-- The reader that is found is the first rate that reads the node, or else the first auxiliary. -/
theorem MembersMatch.firstReader?_eq_some_iff (h : w.MembersMatch) :
    Action.firstReader? w (w.model m).formulaOwners n = some k ↔ w.IsFirstReader m n k := by
  rw [firstReader?_formulaOwners, IsFirstReader, Option.or_eq_some_iff, h.firstReader?_members,
    firstReader?_members_eq_none, h.firstReader?_members]

/-- The check of a removal finds no reader exactly if the node is not read. -/
theorem firstReader?_eq_none_iff :
    Action.firstReader? w (w.model m).formulaOwners n = none ↔ ¬w.IsRead m n := by
  rw [firstReader?_formulaOwners, IsRead, Option.or_eq_none_iff, firstReader?_members_eq_none,
    firstReader?_members_eq_none]
  simp only [not_exists, not_or, forall_and]

/-! ## What is left -/

/-- What a removal makes of a world. -/
structure Removed (m : ModelId) (n : NodeId) (w w' : World) : Prop where
  members : ∀ kind, (w'.model m).members kind = ((w.model m).members kind).filter (· != n)
  gone : n ∉ (w'.model m).nodes
  name : (w'.model m).name = (w.model m).name
  changeable : (w'.model m).changeable = (w.model m).changeable
  order : (w'.model m).order = (w.model m).order
  model : ∀ m', m' ≠ m → w'.model m' = w.model m'
  unread : ∀ k ∈ (w'.model m).nodes, ∀ f, w'.formula? k = some f → n ∉ f.leaves
  /-- Kinds, names, values and formulas of all nodes are the same. -/
  node : ∀ k, (w'.node? k).map Node.unlinked = (w.node? k).map Node.unlinked
  endpoint : ∀ side r, w'.endpoint? side r =
    if r = n ∨ w.endpoint? side r = some n then none else w.endpoint? side r
  listed : ∀ side x, w'.listedAt side x =
    if x = n then [] else (w.listedAt side x).filter (Entity.node n != ·)

/-- A node that is isolated is in no list, and lists nothing. -/
theorem FlowsMatch.listedAt_isolate (h : w.FlowsMatch) (n : NodeId) (side : Side) (x : NodeId) :
    (w.isolate n).listedAt side x =
      if x = n then [] else (w.listedAt side x).filter (Entity.node n != ·) := by
  rw [(h.isolate n).listed_eq, h.ratesAt_isolate, h.listed_eq]
  split
  · rfl
  · rw [(h.nodup side x).erase_eq_filter, List.filter_map]
    congr 1
    refine List.filter_congr fun r _ => ?_
    simp [bne, eq_comm, Bool.beq_eq_decide_eq]

/-- What a removal leaves is the world without the node. -/
theorem WellFormed.removed (h : w.WellFormed) (hc : w.isChangeable m = true) {kind : NodeKind}
    (hkind : w.kind? n = some kind)
    (hunread : Action.firstReader? w (w.model m).formulaOwners n = none) :
    Removed m n w ((w.isolate n).updateModel m (Model.mapMembers kind (List.erase · n))) := by
  have hsame := sameUpToFlows_isolate w n
  have hc' : (w.isolate n).isChangeable m = true := by rwa [isChangeable, hsame.model]
  have hmodel := model_updateModel hc' (Model.mapMembers kind (List.erase · n))
  simp only [hsame.model] at hmodel
  have hself := hmodel m
  rw [if_pos rfl] at hself
  have hgone := h.members.not_mem_nodes_erase (m := m) hkind
  refine {
    members := fun kind' => ?_
    gone := by rwa [hself]
    name := by rw [hself, Model.name_mapMembers]
    changeable := by rw [hself, Model.changeable_mapMembers]
    order := by rw [hself, Model.order_mapMembers]
    model := fun m' hm' => by rw [hmodel, if_neg hm']
    unread := fun k hk f hf => ?_
    node := hsame.node
    endpoint := h.flows.endpoint?_isolate n
    listed := h.flows.listedAt_isolate n }
  · rw [hself]
    by_cases hkinds : kind' = kind
    · subst hkinds
      rw [Model.members_mapMembers, (h.members.nodup m kind').erase_eq_filter]
    · rw [Model.members_mapMembers_of_ne hkinds, List.filter_eq_self.2]
      intro k hk
      rw [bne_iff_ne]
      rintro rfl
      exact h.members.not_mem kind' hkind (Ne.symm hkinds) hk
  · rw [hself] at hk
    have hne : k ≠ n := by
      rintro rfl
      exact hgone hk
    have hf' : w.formula? k = some f := (hsame.formula k).symm.trans hf
    have hk' := (mem_nodes_erase_of_ne kind hne).1 hk
    exact not_mem_leaves_of_firstReader? hunread (h.members.mem_formulaOwners hk' hf') hne hf'

end World

namespace Action

variable {w : World} {m : ModelId} {n : NodeId}

/-- A node that exists is removed unless a formula of the model reads it. -/
theorem run_removeNode (h : w.FlowsMatch) (hc : w.isChangeable m = true) {kind : NodeKind}
    (hkind : w.kind? n = some kind) :
    (removeNode m (.node n)).run w =
      match firstReader? w (w.model m).formulaOwners n with
      | some k => .error (.readByFormula k) w
      | none => .ok () ((w.isolate n).updateModel m (Model.mapMembers kind (List.erase · n))) := by
  have hcheck : checkUnread w (w.model m).formulaOwners (.node n) =
      match firstReader? w (w.model m).formulaOwners n with
      | some k => .error (.readByFormula k)
      | none => .ok () := rfl
  have hrest : (removeNode m (.node n)).run w =
      (ofExcept (checkUnread w (w.model m).formulaOwners (.node n)) >>=
        fun _ => removeKnown m n).run w :=
    run_requireChangeable_bind hc _
  rw [hrest, hcheck]
  cases firstReader? w (w.model m).formulaOwners n with
  | some k => rfl
  | none => exact run_removeKnown h hkind

end Action

namespace World

variable {w : World} {m : ModelId} {n : NodeId}

/--
In every world that a session led to, on every model that is not locked and for every node
that it owns: the removal fails with the first reader exactly if another rate or auxiliary
of the model reads the node, and leaves everything as it was then; otherwise it succeeds.
-/
theorem Reachable.removes_unless_read (h : w.Reachable) (hc : w.isChangeable m = true)
    (hn : n ∈ (w.model m).nodes) :
    ((∃ k, (Action.perform (.removeNode m (.node n))).outcome w = .error (.readByFormula k)) ↔
        w.IsRead m n) ∧
      (∀ k, (Action.perform (.removeNode m (.node n))).outcome w = .error (.readByFormula k) ↔
        w.IsFirstReader m n k) ∧
      (w.IsRead m n → w.step (.removeNode m (.node n)) = w) ∧
      (¬w.IsRead m n → (Action.perform (.removeNode m (.node n))).outcome w = .ok .done ∧
        Removed m n w (w.step (.removeNode m (.node n)))) := by
  have hw := h.wellFormed
  rcases Model.mem_nodes.1 hn with ⟨kind, hmem⟩
  have hkind := hw.members.kind m kind n hmem
  have hperform : (Action.perform (.removeNode m (.node n))).run w =
      match Action.firstReader? w (w.model m).formulaOwners n with
      | some k => .error (.readByFormula k) w
      | none =>
          .ok .done ((w.isolate n).updateModel m (Model.mapMembers kind (List.erase · n))) := by
    rw [Action.perform, Action.run_map, Action.run_removeNode hw.flows hc hkind]
    cases Action.firstReader? w (w.model m).formulaOwners n <;> rfl
  have hfirst := fun k => hw.members.firstReader?_eq_some_iff (m := m) (n := n) (k := k)
  have hunread := firstReader?_eq_none_iff (w := w) (m := m) (n := n)
  rw [Action.outcome]
  cases hreader : Action.firstReader? w (w.model m).formulaOwners n with
  | some k =>
      rw [hreader] at hperform
      have hread : w.IsRead m n := by
        by_contra hnot
        rw [hunread.2 hnot] at hreader
        cases hreader
      rw [hperform]
      refine ⟨⟨fun _ => hread, fun _ => ⟨k, rfl⟩⟩, fun k' => ?_, fun _ => step_of_error hperform,
        fun hnot => (hnot hread).elim⟩
      rw [← hfirst, hreader]
      simp
  | none =>
      rw [hreader] at hperform
      have hnot := hunread.1 hreader
      rw [hperform]
      refine ⟨⟨?_, fun hread => (hnot hread).elim⟩, fun k' => ?_, fun hread => (hnot hread).elim,
        fun _ => ⟨rfl, ?_⟩⟩
      · rintro ⟨k, hk⟩
        cases hk
      · rw [← hfirst, hreader]
        simp
      · rw [step_of_ok hperform]
        exact hw.removed hc hkind hreader

/-- A tank with a pump in a circle, a drain to a pond, and a gauge that an inlet reads. -/
def pondSession : List Operation :=
  let m : ModelId := ⟨0⟩
  [.newModel (.text "Ponds"), .createLevel m (.text "Tank") (.integer 8),
    .createLevel m (.text "Pond") (.integer 1), .createRate m (.text "Pump"),
    .createRate m (.text "Drain"), .createAuxiliary m (.text "Gauge"), .createRate m (.text "Inlet"),
    .addFlow m .levelToRate (.node ⟨0⟩) (.node ⟨2⟩), .addFlow m .rateToLevel (.node ⟨2⟩) (.node ⟨0⟩),
    .addFlow m .levelToRate (.node ⟨0⟩) (.node ⟨3⟩), .addFlow m .rateToLevel (.node ⟨3⟩) (.node ⟨1⟩),
    .setFormula m (.node ⟨4⟩) (.node ⟨1⟩), .setFormula m (.node ⟨5⟩) (.node ⟨4⟩)]

/-- The gauge stays because of the inlet; the tank goes, although it is both ends of the pump. -/
theorem removes_unless_read_ponds :
    let w := World.run {} pondSession
    (Action.perform (.removeNode ⟨0⟩ (.node ⟨4⟩))).outcome w = .error (.readByFormula ⟨5⟩) ∧
      Removed ⟨0⟩ ⟨0⟩ w (w.step (.removeNode ⟨0⟩ (.node ⟨0⟩))) := by
  have hreach : (World.run {} pondSession).Reachable := ⟨pondSession, rfl⟩
  have hread : (World.run {} pondSession).IsFirstReader ⟨0⟩ ⟨4⟩ ⟨5⟩ :=
    hreach.wellFormed.members.firstReader?_eq_some_iff.1 (by decide +kernel)
  have hunread : ¬(World.run {} pondSession).IsRead ⟨0⟩ ⟨0⟩ :=
    firstReader?_eq_none_iff.1 (by decide +kernel)
  have hgauge := hreach.removes_unless_read (m := ⟨0⟩) (n := ⟨4⟩) (by decide +kernel)
    (by decide +kernel)
  have htank := hreach.removes_unless_read (m := ⟨0⟩) (n := ⟨0⟩) (by decide +kernel)
    (by decide +kernel)
  exact ⟨(hgauge.2.1 ⟨5⟩).2 hread, (htank.2.2.2 hunread).2⟩

end World
end StockFlow
