import StockFlow.Proofs.Dependency.Sorting
import StockFlow.Proofs.World.Integrity

/-!
# Sorting the auxiliaries of a model

Sorting auxiliaries fails if and only if one of them reads an auxiliary that is
not to be sorted with them.  Otherwise they read only each other, and sorting
achieves what it should.

Main definitions:

- {lit}`World.ReadsWithin`: nodes that read no auxiliaries but each other.

Main results:

- Theorem {lit}`World.checkAllOrderable_eq_ok_iff`: what is checked before sorting.
- Theorem {lit}`World.sorts_of_sortAuxiliaries`: what sorting auxiliaries achieves.
- Theorem {lit}`World.evaluationOrder_eq_ok`: what is known of an evaluation order.
-/

namespace StockFlow
namespace World

variable {w : World} {nodes : List NodeId}

/-- Whether nodes read no auxiliaries but each other. -/
def ReadsWithin (w : World) (nodes : List NodeId) : Prop :=
  ∀ n ∈ nodes, ∀ k ∈ w.auxiliaryReads n, k ∈ nodes

instance (w : World) (nodes : List NodeId) : Decidable (w.ReadsWithin nodes) :=
  inferInstanceAs (Decidable (∀ n ∈ nodes, ∀ k ∈ w.auxiliaryReads n, k ∈ nodes))

theorem nodup_eraseDups (ns : List NodeId) : ns.eraseDups.Nodup := by
  match ns with
  | [] => exact List.nodup_nil
  | n :: rest =>
      rw [List.eraseDups_cons, List.nodup_cons]
      refine ⟨?_, nodup_eraseDups _⟩
      rw [List.mem_eraseDups, List.mem_filter]
      simp
termination_by ns.length
decreasing_by
  have := List.length_filter_le (fun k => !k == n) rest
  simp only [List.length_cons]
  omega

/-- What a formula reads several times is listed once. -/
theorem nodup_formulaReads (w : World) (n : NodeId) : (w.formulaReads n).Nodup := by
  cases h : w.formula? n with
  | none => simp [formulaReads_eq_nil h]
  | some f =>
      rw [formulaReads_eq h]
      exact nodup_eraseDups _

/-- The auxiliaries that a node reads follow from the links. -/
theorem SameLinks.auxiliaryReads {w' : World} (h : SameLinks w w') (n : NodeId) :
    w'.auxiliaryReads n = w.auxiliaryReads n := by
  rw [World.auxiliaryReads, World.auxiliaryReads, h.formulaReads]
  exact List.filter_congr fun k _ => h.isKind .auxiliary k

/-- Of what its formula reads, a node orders itself behind the auxiliaries alone. -/
theorem mem_auxiliaryReads {n k : NodeId} :
    k ∈ w.auxiliaryReads n ↔ k ∈ w.formulaReads n ∧ w.kind? k = some .auxiliary := by
  rw [auxiliaryReads, List.mem_filter, isKind, beq_iff_eq]

/-! ## The check before sorting -/

/-- What an auxiliary reads can be looked at. -/
theorem checkReads_eq_ok {n : NodeId} (hkind : w.kind? n = some .auxiliary) :
    w.checkReads n = .ok () := by
  have hmember : Action.withMember w NodeKind.hasFormula "_formula_dependencies" (.node n) =
      .ok n := by
    rw [Action.withMember, Argument.node?, Entity.node?]
    simp only [hkind]
    rfl
  rw [checkReads, hmember]
  rfl

/-- An auxiliary can be ordered if all auxiliaries that it reads are among those to be ordered. -/
theorem checkOrderable_eq_ok_iff (keys : List NodeId) {n : NodeId}
    (hkind : w.kind? n = some .auxiliary) :
    w.checkOrderable keys n = .ok () ↔ ∀ k ∈ w.auxiliaryReads n, k ∈ keys := by
  rw [checkOrderable, checkReads_eq_ok hkind]
  simp only
  split
  · rename_i hall
    simpa using hall
  · rename_i hall
    simpa using hall

/-- Sorting goes on if and only if no auxiliary among the nodes reads one beyond them. -/
theorem checkAllOrderable_eq_ok_iff {keys ns : List NodeId}
    (hkind : ∀ n ∈ ns, w.kind? n = some .auxiliary) :
    w.checkAllOrderable keys ns = .ok () ↔ ∀ n ∈ ns, ∀ k ∈ w.auxiliaryReads n, k ∈ keys := by
  induction ns with
  | nil => simp [checkAllOrderable]
  | cons n rest ih =>
      have hn := checkOrderable_eq_ok_iff keys (hkind n List.mem_cons_self)
      have hrest := ih fun k hk => hkind k (List.mem_cons_of_mem n hk)
      rw [List.forall_mem_cons, ← hn, ← hrest, checkAllOrderable]
      cases hcheck : w.checkOrderable keys n with
      | error e => simp
      | ok u => simp

/-- Auxiliaries that read only each other are a closed set of keys. -/
theorem closed_auxiliaryReads (hnodup : nodes.Nodup) (h : w.ReadsWithin nodes) :
    Dependency.Closed w.auxiliaryReads nodes where
  nodup := hnodup
  nodup_reads n _ := (w.nodup_formulaReads n).filter _
  reads_mem := h

/-! ## Sorting and ordering -/

section

variable (hkind : ∀ n ∈ nodes, w.kind? n = some .auxiliary) (hnodup : nodes.Nodup)

include hkind hnodup

/-- A sorting that comes to an end has found no read outside. -/
theorem readsWithin_of_sortAuxiliaries {s : Dependency.Sorted}
    (h : w.sortAuxiliaries nodes = .ok s) : w.ReadsWithin nodes := by
  have hkeys : nodes.eraseDups = nodes := Dependency.eraseDups_eq_self hnodup
  rw [sortAuxiliaries, hkeys] at h
  refine (checkAllOrderable_eq_ok_iff hkind).1 ?_
  cases hcheck : w.checkAllOrderable nodes nodes with
  | error e => simp [hcheck] at h
  | ok u => rfl

/-- Auxiliaries that read only each other are sorted by what they read. -/
theorem sortAuxiliaries_eq_ok (h : w.ReadsWithin nodes) :
    w.sortAuxiliaries nodes = .ok (Dependency.sortBy w.auxiliaryReads nodes) := by
  have hkeys : nodes.eraseDups = nodes := Dependency.eraseDups_eq_self hnodup
  rw [sortAuxiliaries, hkeys, (checkAllOrderable_eq_ok_iff hkind).2 h]

/-- Sorting that succeeds achieves what it should. -/
theorem sorts_of_sortAuxiliaries {s : Dependency.Sorted} (h : w.sortAuxiliaries nodes = .ok s) :
    Dependency.Closed w.auxiliaryReads nodes ∧ Dependency.Sorts w.auxiliaryReads nodes s := by
  have hwithin := readsWithin_of_sortAuxiliaries hkind hnodup h
  have hclosed := closed_auxiliaryReads hnodup hwithin
  rw [sortAuxiliaries_eq_ok hkind hnodup hwithin] at h
  obtain rfl := Except.ok.inj h
  exact ⟨hclosed, Dependency.sortBy_sorts hclosed⟩

/-- An evaluation order holds every node once, each after all auxiliaries that it reads. -/
theorem evaluationOrder_eq_ok {order : List NodeId} (h : w.evaluationOrder nodes = .ok order) :
    order.Nodup ∧ Dependency.InOrder w.auxiliaryReads [] order ∧ ∀ n, n ∈ order ↔ n ∈ nodes := by
  rw [evaluationOrder] at h
  cases hsort : w.sortAuxiliaries nodes with
  | error e => simp [hsort] at h
  | ok s =>
      rcases sorts_of_sortAuxiliaries hkind hnodup hsort with ⟨hclosed, hsorts⟩
      simp only [hsort] at h
      split at h
      · rename_i hblocked
        obtain rfl := Except.ok.inj h
        refine ⟨hsorts.nodup, hsorts.inOrder, fun n => ⟨fun hn => ?_, fun hn => ?_⟩⟩
        · exact ((hsorts.mem_ordered_iff n).1 hn).1
        · exact hsorts.mem_ordered_of_blocked_eq_nil (List.isEmpty_iff.1 hblocked) hn
      · simp at h

end

end World
end StockFlow
