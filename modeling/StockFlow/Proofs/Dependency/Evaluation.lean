import StockFlow.Proofs.Validation.Exactness

/-!
# Evaluation orders

Sorting auxiliaries says exactly what can be computed in a round.  Every node is
either ordered or blocked; the ordered ones come after all that they read, and the
blocked ones are those from which reads lead into a circle, be it that they lie on one
or behind one.  So there is an evaluation order if and only if there is no circle.

Main definitions:

- {lit}`World.ReadsAmong`, {lit}`World.ReachesCircle`: reads of formulas among some nodes.
- {lit}`World.SplitsInto`: what the two lists are that nodes are sorted into.

Main results:

- Theorem {lit}`World.splitsInto_of_sorts`: sorting splits nodes in this way.
- Theorem {lit}`World.sortAuxiliaries_exact`: sorting, the search for circles and the
  evaluation order of auxiliaries that read only each other.
-/

namespace StockFlow

namespace Dependency

variable {reads : NodeId → List NodeId}

/-- Whatever a node reads was done before, or comes before it. -/
theorem InOrder.mem_before {done before after : List NodeId} {n k : NodeId}
    (h : InOrder reads done (before ++ n :: after)) (hk : k ∈ reads n) : k ∈ done ++ before := by
  induction before generalizing done with
  | nil =>
      rw [List.append_nil]
      exact h.1 k hk
  | cons x rest ih => simpa using ih h.2

end Dependency

namespace World

variable {w : World} {nodes : List NodeId} {n k : NodeId}

/-! ## Reads among nodes -/

/-- Whether the formula of a node reads a node among some. -/
def ReadsAmong (w : World) (nodes : List NodeId) (n k : NodeId) : Prop :=
  k ∈ nodes ∧ ∃ f, w.formula? n = some f ∧ k ∈ f.leaves

/-- Whether reads among nodes lead from a node into a circle; the circle may be the node itself. -/
def ReachesCircle (w : World) (nodes : List NodeId) (n : NodeId) : Prop :=
  ∃ c, Relation.ReflTransGen (w.ReadsAmong nodes) n c ∧
    Relation.TransGen (w.ReadsAmong nodes) c c

open Classical in
/--
Whether nodes are split into two lists: one in which each node comes after all that it
reads, and those from which reads lead into a circle, as they were given.
-/
structure SplitsInto (w : World) (nodes : List NodeId) (s : Dependency.Sorted) : Prop where
  once : (s.ordered ++ s.blocked).Perm nodes
  after : ∀ before n rest, s.ordered = before ++ n :: rest →
    ∀ k, w.ReadsAmong nodes n k → k ∈ before
  blocked : s.blocked = nodes.filter fun n => w.ReachesCircle nodes n

section

variable (hkind : ∀ n ∈ nodes, w.kind? n = some .auxiliary) (h : w.ReadsWithin nodes)

include hkind h

/-- Among the nodes of a sorting, reads are the edges that it sorts by. -/
theorem readsAmong_iff (hn : n ∈ nodes) :
    w.ReadsAmong nodes n k ↔ Dependency.Reads w.auxiliaryReads n k := by
  rw [ReadsAmong, Dependency.Reads, mem_auxiliaryReads, mem_formulaReads]
  constructor
  · rintro ⟨hk, hread⟩
    exact ⟨hread, hkind k hk⟩
  · rintro ⟨hread, haux⟩
    exact ⟨h n hn k (mem_auxiliaryReads.2 ⟨mem_formulaReads.2 hread, haux⟩), hread⟩

/-- Among the nodes of a sorting, circles are those of the edges that it sorts by. -/
theorem reachesCircle_iff (hn : n ∈ nodes) :
    w.ReachesCircle nodes n ↔ Dependency.LeadsIntoCircle w.auxiliaryReads n := by
  have hto : ∀ x ∈ nodes, ∀ y, w.ReadsAmong nodes x y →
      Dependency.Reads w.auxiliaryReads x y ∧ y ∈ nodes :=
    fun x hx y hread => ⟨(readsAmong_iff hkind h hx).1 hread, hread.1⟩
  have hfrom : ∀ x ∈ nodes, ∀ y, Dependency.Reads w.auxiliaryReads x y →
      w.ReadsAmong nodes x y ∧ y ∈ nodes :=
    fun x hx y hread => ⟨(readsAmong_iff hkind h hx).2 hread, h x hx y hread⟩
  rw [ReachesCircle, Dependency.LeadsIntoCircle]
  refine exists_congr fun c => ?_
  rw [Relation.reflTransGen_iff_eq_or_transGen, Relation.reflTransGen_iff_eq_or_transGen]
  constructor
  · rintro ⟨rfl | hpath, hcircle⟩
    · exact ⟨Or.inl rfl, (transGen_of_agree nodes hto hn hcircle).1⟩
    · obtain ⟨hpath', hc⟩ := transGen_of_agree nodes hto hn hpath
      exact ⟨Or.inr hpath', (transGen_of_agree nodes hto hc hcircle).1⟩
  · rintro ⟨rfl | hpath, hcircle⟩
    · exact ⟨Or.inl rfl, (transGen_of_agree nodes hfrom hn hcircle).1⟩
    · obtain ⟨hpath', hc⟩ := transGen_of_agree nodes hfrom hn hpath
      exact ⟨Or.inr hpath', (transGen_of_agree nodes hfrom hc hcircle).1⟩

/-! ## Sorting -/

/-- What sorts the nodes splits them as the formulas of the world say. -/
theorem splitsInto_of_sorts (hnodup : nodes.Nodup) {s : Dependency.Sorted}
    (hs : Dependency.Sorts w.auxiliaryReads nodes s) : w.SplitsInto nodes s where
  once := by
    have hblocked : s.blocked.Nodup := by
      rw [hs.blocked_eq]
      exact hnodup.filter _
    have hapart : List.Disjoint s.ordered s.blocked := by
      intro n hordered hn
      rw [hs.blocked_eq, List.mem_filter] at hn
      exact of_decide_eq_true hn.2 hordered
    refine (List.perm_ext_iff_of_nodup (hs.nodup.append hblocked hapart) hnodup).2 fun n => ?_
    rw [List.mem_append, hs.blocked_eq, List.mem_filter, decide_eq_true_eq]
    constructor
    · rintro (hn | hn)
      · exact ((hs.mem_ordered_iff n).1 hn).1
      · exact hn.1
    · intro hn
      by_cases hordered : n ∈ s.ordered
      · exact Or.inl hordered
      · exact Or.inr ⟨hn, hordered⟩
  after before n rest heq k hread := by
    have hn : n ∈ nodes := by
      refine ((hs.mem_ordered_iff n).1 ?_).1
      rw [heq]
      exact List.mem_append_right _ List.mem_cons_self
    have horder := hs.inOrder
    rw [heq] at horder
    exact horder.mem_before ((readsAmong_iff hkind h hn).1 hread)
  blocked := by
    have hclosed := closed_auxiliaryReads hnodup h
    rw [hs.blocked_eq]
    refine List.filter_congr fun n hn => ?_
    rw [decide_eq_decide, reachesCircle_iff hkind h hn]
    have hblocked := hs.mem_blocked_iff hclosed (n := n)
    rw [hs.blocked_eq, List.mem_filter, decide_eq_true_eq] at hblocked
    simpa [hn] using hblocked

end

/--
Sorting distinct auxiliaries that read no auxiliaries but each other succeeds and splits
them into an order and those that lead into a circle.  A circle is found if and only if
there is one, and there is an evaluation order of all of them if and only if there is none.
-/
theorem sortAuxiliaries_exact (hkind : ∀ n ∈ nodes, w.kind? n = some .auxiliary)
    (hnodup : nodes.Nodup) (h : w.ReadsWithin nodes) :
    (∃ s, w.sortAuxiliaries nodes = .ok s ∧ w.SplitsInto nodes s) ∧
      (∃ found, w.hasAuxiliaryCycle nodes = .ok found ∧
        (found = true ↔ ∃ c ∈ nodes, Relation.TransGen (w.ReadsAmong nodes) c c)) ∧
      ((∃ order, w.evaluationOrder nodes = .ok order) ↔
        ¬ ∃ c ∈ nodes, Relation.TransGen (w.ReadsAmong nodes) c c) ∧
      ∀ order, w.evaluationOrder nodes = .ok order → order.Perm nodes ∧
        ∀ before n rest, order = before ++ n :: rest →
          ∀ k, w.ReadsAmong nodes n k → k ∈ before := by
  have hsort := sortAuxiliaries_eq_ok hkind hnodup h
  obtain ⟨hclosed, hsorts⟩ := sorts_of_sortAuxiliaries hkind hnodup hsort
  have hsplits := splitsInto_of_sorts hkind h hnodup hsorts
  have hcircle : (∃ c ∈ nodes, Relation.TransGen (w.ReadsAmong nodes) c c) ↔
      (Dependency.sortBy w.auxiliaryReads nodes).blocked ≠ [] := by
    rw [Ne, hsorts.blocked_eq_nil_iff hclosed]
    push Not
    exact hasCircle_iff hkind h
  refine ⟨⟨_, hsort, hsplits⟩, ⟨_, by rw [hasAuxiliaryCycle, hsort]; rfl, ?_⟩, ?_, ?_⟩
  · rw [hcircle]
    simp
  · rw [hcircle, evaluationOrder, hsort]
    simp only
    split
    · rename_i hblocked
      simp [List.isEmpty_iff.1 hblocked]
    · rename_i hblocked
      simpa using hblocked
  · intro order horder
    rw [evaluationOrder, hsort] at horder
    simp only at horder
    split at horder
    · rename_i hblocked
      cases horder
      refine ⟨?_, hsplits.after⟩
      have honce := hsplits.once
      rwa [List.isEmpty_iff.1 hblocked, List.append_nil] at honce
    · cases horder

/-- Two auxiliaries read each other, one lies behind them, and two are on their own. -/
def tangledSession : List Operation :=
  let m : ModelId := ⟨0⟩
  let leaf (index : Nat) : Argument := .node ⟨index⟩
  [.newModel (.text "Tangle"), .createAuxiliary m (.text "Behind"),
    .createAuxiliary m (.text "First"), .createAuxiliary m (.text "Late"),
    .createAuxiliary m (.text "Second"), .createAuxiliary m (.text "Early"),
    .createConstant m (.text "Share") (.integer 2),
    .setFormula m (leaf 0) (.apply .add (leaf 1) (leaf 5)),
    .setFormula m (leaf 1) (.apply .multiply (leaf 3) (leaf 4)),
    .setFormula m (leaf 2) (.apply .add (leaf 4) (leaf 4)), .setFormula m (leaf 3) (leaf 1),
    .setFormula m (leaf 4) (leaf 5)]

/-- Two auxiliaries in a circle and one behind them are blocked, and two others are ordered. -/
theorem sortAuxiliaries_exact_tangled :
    (World.run {} tangledSession).SplitsInto [⟨0⟩, ⟨1⟩, ⟨2⟩, ⟨3⟩, ⟨4⟩]
        { ordered := [⟨4⟩, ⟨2⟩], blocked := [⟨0⟩, ⟨1⟩, ⟨3⟩] } ∧
      ¬ ∃ order, (World.run {} tangledSession).evaluationOrder [⟨0⟩, ⟨1⟩, ⟨2⟩, ⟨3⟩, ⟨4⟩] =
        .ok order := by
  have hkind : ∀ n ∈ ([⟨0⟩, ⟨1⟩, ⟨2⟩, ⟨3⟩, ⟨4⟩] : List NodeId),
      (World.run {} tangledSession).kind? n = some .auxiliary := by decide +kernel
  obtain ⟨⟨s, hsort, hsplits⟩, ⟨found, hsearch, hfound⟩, horder, _⟩ :=
    sortAuxiliaries_exact hkind (by decide) (by decide +kernel)
  have hs : ((World.run {} tangledSession).sortAuxiliaries
      [⟨0⟩, ⟨1⟩, ⟨2⟩, ⟨3⟩, ⟨4⟩]).toOption =
        some { ordered := [⟨4⟩, ⟨2⟩], blocked := [⟨0⟩, ⟨1⟩, ⟨3⟩] } := by decide +kernel
  have hcircle : ((World.run {} tangledSession).hasAuxiliaryCycle
      [⟨0⟩, ⟨1⟩, ⟨2⟩, ⟨3⟩, ⟨4⟩]).toOption = some true := by decide +kernel
  rw [hsort] at hs
  rw [hsearch] at hcircle
  refine ⟨Option.some.inj hs ▸ hsplits, fun hexists => horder.1 hexists ?_⟩
  exact hfound.1 (Option.some.inj hcircle)

end World
end StockFlow
