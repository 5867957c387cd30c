import StockFlow.Dependency.Influence
import StockFlow.Proofs.World.Integrity

/-!
# What influences levels

The search for influences gathers the least set that contains its seeds and, with
every node, whatever comes next to it.  In a well-formed world nothing that comes
next lies outside the search's domain, so what is gathered are exactly the nodes
that influence some of the given levels.

Main definitions:

- {lit}`World.Influences`: the nodes that influence levels, as the least such set.

Main results:

- Theorems {lit}`Influence.mem_gather_of_mem`, {lit}`Influence.gather_closed` and
  {lit}`Influence.gather_least`: what the search gathers.
- Theorem {lit}`World.mem_influencing_iff`: it finds exactly what influences the levels.
-/

namespace StockFlow
namespace Influence

variable {next : NodeId → List NodeId} {domain pending : List NodeId}

/-! ## What is gathered -/

/-- Pending nodes of the domain are gathered. -/
theorem mem_gather_of_mem {n : NodeId} (hpending : n ∈ pending) (hdomain : n ∈ domain) :
    n ∈ gather next domain pending := by
  induction domain, pending using gather.induct next with
  | case1 domain => simp at hpending
  | case2 domain k rest hk =>
      rename_i ih
      rw [gather, if_pos hk]
      by_cases hn : n = k
      · rw [hn]
        exact List.mem_cons_self
      · have hrest : n ∈ rest := (List.mem_cons.1 hpending).resolve_left hn
        refine List.mem_cons_of_mem k (ih (List.mem_append_right _ hrest) ?_)
        exact (List.mem_erase_of_ne hn).2 hdomain
  | case3 domain k rest hk =>
      rename_i ih
      rw [gather, if_neg hk]
      have hn : n ≠ k := by
        rintro rfl
        exact hk hdomain
      exact ih ((List.mem_cons.1 hpending).resolve_left hn) hdomain

/-- With every node, whatever comes next to it in the domain is gathered. -/
theorem gather_closed {n k : NodeId} (hn : n ∈ gather next domain pending) (hk : k ∈ next n)
    (hdomain : k ∈ domain) : k ∈ gather next domain pending := by
  induction domain, pending using gather.induct next with
  | case1 domain => simp [gather] at hn
  | case2 domain x rest hx =>
      rename_i ih
      rw [gather, if_pos hx] at hn ⊢
      by_cases hkx : k = x
      · rw [hkx]
        exact List.mem_cons_self
      · have hdomain' : k ∈ domain.erase x := (List.mem_erase_of_ne hkx).2 hdomain
        refine List.mem_cons_of_mem x ?_
        rcases List.mem_cons.1 hn with rfl | hn
        · exact mem_gather_of_mem (List.mem_append_left rest hk) hdomain'
        · exact ih hn hdomain'
  | case3 domain x rest hx =>
      rename_i ih
      rw [gather, if_neg hx] at hn ⊢
      exact ih hn hdomain

/-- A set with the pending nodes and whatever comes next to its nodes has all that is gathered. -/
theorem gather_least {S : NodeId → Prop} (hpending : ∀ n ∈ pending, S n)
    (hnext : ∀ n, S n → ∀ k ∈ next n, S k) : ∀ n ∈ gather next domain pending, S n := by
  induction domain, pending using gather.induct next with
  | case1 domain => simp [gather]
  | case2 domain x rest hx =>
      rename_i ih
      rw [gather, if_pos hx]
      have hS : S x := hpending x List.mem_cons_self
      have hpending' : ∀ n ∈ next x ++ rest, S n := by
        intro n hn
        rcases List.mem_append.1 hn with hn | hn
        · exact hnext x hS n hn
        · exact hpending n (List.mem_cons_of_mem x hn)
      intro n hn
      rcases List.mem_cons.1 hn with rfl | hn
      · exact hS
      · exact ih hpending' n hn
  | case3 domain x rest hx =>
      rename_i ih
      rw [gather, if_neg hx]
      exact ih fun n hn => hpending n (List.mem_cons_of_mem x hn)

end Influence

namespace World

variable {w : World}

/-! ## Influence on levels -/

/--
The nodes that influence levels: the rates that flow into or out of them, whatever is
read by the formula of one that does, and the ends of such rates beyond the boundary.
-/
inductive Influences (w : World) (levels : List NodeId) : NodeId → Prop
  | flow {l r : NodeId} (side : Side) (hl : l ∈ levels) (hr : r ∈ w.ratesAt side l) :
      Influences w levels r
  | read {n k : NodeId} {f : Formula NodeId} (hn : Influences w levels n)
      (hf : w.formula? n = some f) (hk : k ∈ f.leaves) : Influences w levels k
  | boundary {r e : NodeId} (side : Side) (hr : Influences w levels r)
      (he : w.endpoint? side r = some e) (hkind : w.kind? e = some .sourceSink) :
      Influences w levels e

theorem mem_nodeIds_of_kind? {n : NodeId} {kind : NodeKind} (h : w.kind? n = some kind) :
    n ∈ w.nodeIds := by
  rw [nodeIds, List.mem_map]
  exact ⟨n.index, List.mem_range.2 (index_lt_of_kind? h), rfl⟩

theorem mem_boundaryEnds_iff {r e : NodeId} :
    e ∈ w.boundaryEnds r ↔
      (∃ side, w.endpoint? side r = some e) ∧ w.kind? e = some .sourceSink := by
  rw [boundaryEnds, List.mem_filter, List.mem_append, Option.mem_toList, Option.mem_toList, isKind,
    beq_iff_eq]
  refine and_congr_left fun _ => ?_
  constructor
  · rintro (h | h)
    · exact ⟨.source, h⟩
    · exact ⟨.sink, h⟩
  · rintro ⟨side, h⟩
    cases side with
    | source => exact Or.inl h
    | sink => exact Or.inr h

/-- What comes next to a node is what its formula reads, and its ends beyond the boundary. -/
theorem mem_influencedBy_iff {n k : NodeId} :
    k ∈ w.influencedBy n ↔ (∃ f, w.formula? n = some f ∧ k ∈ f.leaves) ∨
      (∃ side, w.endpoint? side n = some k) ∧ w.kind? k = some .sourceSink := by
  rw [← mem_formulaReads, ← mem_boundaryEnds_iff, influencedBy]
  have hreads : k ∈ w.formulaReads n → ∃ kind, w.kind? n = some kind ∧ kind.hasFormula = true := by
    intro hk
    rcases mem_formulaReads.1 hk with ⟨f, hf, _⟩
    exact kind?_of_formula? hf
  have hends : k ∈ w.boundaryEnds n → w.kind? n = some .rate := by
    intro hk
    rcases mem_boundaryEnds_iff.1 hk with ⟨⟨side, he⟩, _⟩
    exact kind?_of_endpoint? he
  split
  · rw [List.mem_append]
  · rename_i haux
    constructor
    · exact Or.inl
    · rintro (hk | hk)
      · exact hk
      · simp [hends hk] at haux
  · rename_i hrate haux
    constructor
    · simp
    · rintro (hk | hk)
      · rcases hreads hk with ⟨kind, hkind, hformula⟩
        cases kind <;> simp_all [NodeKind.hasFormula]
      · exact (hrate (hends hk)).elim

/-- The search finds exactly the nodes that influence some of the given levels. -/
theorem mem_influencing_iff (hw : w.WellFormed) {levels : List NodeId} {n : NodeId} :
    n ∈ w.influencing levels ↔ w.Influences levels n := by
  rw [influencing]
  constructor
  · intro hn
    refine Influence.gather_least (S := w.Influences levels) ?_ ?_ n hn
    · intro r hr
      rw [List.mem_flatMap] at hr
      rcases hr with ⟨l, hl, hr⟩
      rw [flowsOf, listedFlows, nodesOf_append, List.mem_append] at hr
      rcases hr with hr | hr
      · exact .flow .sink hl hr
      · exact .flow .source hl hr
    · intro k hk x hx
      rcases mem_influencedBy_iff.1 hx with ⟨f, hf, hleaf⟩ | ⟨⟨side, he⟩, hkind⟩
      · exact .read hk hf hleaf
      · exact .boundary side hk he hkind
  · intro hn
    induction hn with
    | flow side hl hr =>
        rename_i l r
        refine Influence.mem_gather_of_mem ?_ ?_
        · refine List.mem_flatMap.2 ⟨l, hl, ?_⟩
          rw [flowsOf, listedFlows, nodesOf_append, List.mem_append]
          cases side with
          | source => exact Or.inr hr
          | sink => exact Or.inl hr
        · exact mem_nodeIds_of_kind? (kind?_of_endpoint? ((hw.flows.endpoint_iff side r l).2 hr))
    | read hk hf hleaf ih =>
        refine Influence.gather_closed ih (mem_influencedBy_iff.2 (Or.inl ⟨_, hf, hleaf⟩)) ?_
        have hkind := hw.leaves _ _ hf _ hleaf
        rename_i k x f
        rw [isLeaf] at hkind
        cases hx : w.kind? x with
        | none => simp [hx] at hkind
        | some kind => exact mem_nodeIds_of_kind? hx
    | boundary side hr he hkind ih =>
        refine Influence.gather_closed ih ?_ (mem_nodeIds_of_kind? hkind)
        exact mem_influencedBy_iff.2 (Or.inr ⟨⟨side, he⟩, hkind⟩)

end World
end StockFlow
