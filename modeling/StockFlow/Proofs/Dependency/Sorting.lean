import StockFlow.Dependency.Order
import Mathlib.Data.Fintype.Card
import Mathlib.Data.Set.Finite.Basic
import Mathlib.Logic.Relation

/-!
# Sorting by reads

Sorting takes ready nodes one after the other.  What carries it is an invariant
between two nodes: the count of a node is the number of its reads that were not
taken yet, and taken or waiting are exactly those nodes all of whose reads were
taken.  When nothing waits any more, the nodes left over each read another node
left over, and as there are finitely many of them, they lead into a circle.

Main definitions:

- {lit}`Dependency.Closed`: nodes without repeats that read only each other.
- {lit}`Dependency.InOrder`: every node comes after all that it reads.
- {lit}`Dependency.Draining`: the invariant of {lit}`Dependency.drain`.
- {lit}`Dependency.Sorts`: what sorting achieves.

Main results:

- Theorem {lit}`Dependency.drain_draining`: the invariant holds until nothing waits.
- Theorem {lit}`Dependency.sortBy_sorts`: sorting achieves what it should.
- Theorem {lit}`Dependency.Sorts.mem_blocked_iff`: blocked are the nodes that lead into a circle.
-/

namespace StockFlow
namespace Dependency

variable {reads : NodeId → List NodeId} {nodes : List NodeId}

/-- A list of nodes without repeats that read only each other, each of them once. -/
structure Closed (reads : NodeId → List NodeId) (nodes : List NodeId) : Prop where
  nodup : nodes.Nodup
  nodup_reads : ∀ n ∈ nodes, (reads n).Nodup
  reads_mem : ∀ n ∈ nodes, ∀ k ∈ reads n, k ∈ nodes

/-- Every node comes after all that it reads, where some nodes were done before. -/
def InOrder (reads : NodeId → List NodeId) : List NodeId → List NodeId → Prop
  | _, [] => True
  | done, n :: rest => (∀ k ∈ reads n, k ∈ done) ∧ InOrder reads (done ++ [n]) rest

/-! ## Counting reads -/

/-- How many reads of a node were not taken yet. -/
def untaken (reads : NodeId → List NodeId) (taken : List NodeId) (n : NodeId) : Nat :=
  (reads n).countP (· ∉ taken)

/-- Nothing is left to take exactly if all that is read was taken. -/
theorem untaken_eq_zero_iff {taken : List NodeId} {n : NodeId} :
    untaken reads taken n = 0 ↔ ∀ k ∈ reads n, k ∈ taken := by
  simp [untaken, List.countP_eq_zero]

/-- Taking a node lowers the counts of its readers by one, and no other counts. -/
theorem untaken_append_singleton {taken : List NodeId} {n k : NodeId}
    (hnodup : (reads k).Nodup) (hn : n ∉ taken) :
    untaken reads taken k = untaken reads (taken ++ [n]) k + if n ∈ reads k then 1 else 0 := by
  unfold untaken
  generalize reads k = ds at hnodup ⊢
  induction ds with
  | nil => rfl
  | cons d rest ih =>
      rw [List.nodup_cons] at hnodup
      rw [List.countP_cons, List.countP_cons, ih hnodup.2]
      by_cases hd : d = n
      · subst d
        simp [hn, hnodup.1]
      · have hmem : d ∉ taken ++ [n] ↔ d ∉ taken := by simp [hd]
        have hcons : n ∈ d :: rest ↔ n ∈ rest := by simp [Ne.symm hd]
        simp only [hmem, hcons]
        omega

namespace Counts

/-- Counting down changes one count by one. -/
theorem lookup_decrement (counts : Counts) (n k : NodeId) :
    (counts.decrement n).lookup k = (counts.lookup k).map fun v => if k = n then v - 1 else v := by
  induction counts with
  | nil => rfl
  | cons entry rest ih =>
      rcases entry with ⟨x, v⟩
      by_cases hx : k = x
      · subst x
        by_cases hk : k = n
        · subst n
          simp [decrement]
        · simp [decrement, hk]
      · have hne : (k == x) = false := by simpa using hx
        have hstep : (decrement ((x, v) :: rest) n).lookup k = (decrement rest n).lookup k := by
          rw [decrement, List.map_cons]
          split <;> rw [List.lookup_cons, hne] <;> rfl
        rw [hstep, ih, List.lookup_cons, hne]

@[simp] theorem keys_decrement (counts : Counts) (n : NodeId) :
    (counts.decrement n).map Prod.fst = counts.map Prod.fst := by
  rw [decrement, List.map_map]
  refine List.map_congr_left fun entry _ => ?_
  by_cases h : entry.1 = n
  · simp [h]
  · simp [h]

/-- A count that is there goes down by one, and the others stay. -/
theorem get_decrement {counts : Counts} {n : NodeId} (hn : n ∈ counts.map Prod.fst) (k : NodeId) :
    (counts.decrement n).get k = counts.get k - if k = n then 1 else 0 := by
  rw [get, get, lookup_decrement]
  cases hk : counts.lookup k with
  | none =>
      have hne : k ≠ n := by
        rintro rfl
        have hsome : (counts.lookup k).isSome := by simpa [List.lookup_isSome_iff] using hn
        simp [hk] at hsome
      simp [hne]
  | some v =>
      by_cases hkn : k = n
      · simp [hkn]
      · simp [hkn]

/-- A missing count is not one. -/
theorem lookup_eq_some_one_iff {counts : Counts} {n : NodeId} :
    counts.lookup n = some 1 ↔ counts.get n = 1 := by
  rw [get]
  cases counts.lookup n with
  | none => simp
  | some v => simp

end Counts

@[simp] theorem keys_settleAll (counts : Counts) (ks : List NodeId) :
    (settleAll counts ks).1.map Prod.fst = counts.map Prod.fst := by
  induction ks generalizing counts with
  | nil => rfl
  | cons k rest ih => rw [settleAll, ih, Counts.keys_decrement]

/-- Settling the readers of a node takes one from the count of each of them. -/
theorem get_settleAll {counts : Counts} {ks : List NodeId} (hnodup : ks.Nodup)
    (hkeys : ∀ k ∈ ks, k ∈ counts.map Prod.fst) (n : NodeId) :
    (settleAll counts ks).1.get n = counts.get n - if n ∈ ks then 1 else 0 := by
  induction ks generalizing counts with
  | nil => simp [settleAll]
  | cons k rest ih =>
      rw [List.nodup_cons] at hnodup
      have hrest : ∀ x ∈ rest, x ∈ (counts.decrement k).map Prod.fst := by
        intro x hx
        rw [Counts.keys_decrement]
        exact hkeys x (List.mem_cons_of_mem k hx)
      rw [settleAll, ih hnodup.2 hrest, Counts.get_decrement (hkeys k List.mem_cons_self)]
      by_cases hn : n = k
      · subst n
        simp [hnodup.1]
      · simp [hn]

/-- Those nodes become ready that had one read left. -/
theorem ready_settleAll {counts : Counts} {ks : List NodeId} (hnodup : ks.Nodup) :
    (settleAll counts ks).2 = ks.filter fun k => counts.get k = 1 := by
  induction ks generalizing counts with
  | nil => rfl
  | cons k rest ih =>
      rw [List.nodup_cons] at hnodup
      have hsame : ∀ x ∈ rest,
          decide ((counts.decrement k).get x = 1) = decide (counts.get x = 1) := by
        intro x hx
        have hne : x ≠ k := by
          rintro rfl
          exact hnodup.1 hx
        have hget : (counts.decrement k).get x = counts.get x := by
          rw [Counts.get, Counts.get, Counts.lookup_decrement]
          simp [hne]
        rw [hget]
      rw [settleAll, ih hnodup.2, List.filter_congr hsame, List.filter_cons]
      simp only [Counts.lookup_eq_some_one_iff, decide_eq_true_eq]

/-! ## Draining -/

/--
The state between two nodes: each count is the number of reads not taken yet, and
taken or waiting are the nodes all of whose reads were taken.
-/
structure Draining (reads : NodeId → List NodeId) (nodes taken : List NodeId) (counts : Counts)
    (ready : List NodeId) : Prop where
  keys : counts.map Prod.fst = nodes
  count : ∀ n ∈ nodes, counts.get n = untaken reads taken n
  nodup : (taken ++ ready).Nodup
  known : ∀ n, n ∈ taken ++ ready ↔ n ∈ nodes ∧ ∀ k ∈ reads n, k ∈ taken

/-- The readers of a node are the nodes that read it. -/
theorem mem_readers {n k : NodeId} : k ∈ readers reads nodes n ↔ k ∈ nodes ∧ n ∈ reads k := by
  simp [readers]

/-- Taking the first node that waits keeps the invariant. -/
theorem Draining.take {taken rest : List NodeId} {counts : Counts} {n : NodeId}
    (hclosed : Closed reads nodes) (h : Draining reads nodes taken counts (n :: rest)) :
    Draining reads nodes (taken ++ [n]) (settleAll counts (readers reads nodes n)).1
      (rest ++ (settleAll counts (readers reads nodes n)).2) := by
  have hsplit : taken ++ [n] ++ rest = taken ++ n :: rest := by simp
  have hn : n ∉ taken := by
    intro hmem
    exact (List.nodup_append.1 h.nodup).2.2 n hmem n List.mem_cons_self rfl
  have hreaders : (readers reads nodes n).Nodup := hclosed.nodup.filter _
  have hkeys : ∀ k ∈ readers reads nodes n, k ∈ counts.map Prod.fst := by
    intro k hk
    rw [h.keys]
    exact (mem_readers.1 hk).1
  have hdrop : ∀ k ∈ nodes, untaken reads taken k =
      untaken reads (taken ++ [n]) k + if n ∈ reads k then 1 else 0 :=
    fun k hk => untaken_append_singleton (hclosed.nodup_reads k hk) hn
  -- a reader becomes ready exactly if the node was the last of its reads
  have hnew : ∀ k, k ∈ (settleAll counts (readers reads nodes n)).2 ↔
      k ∈ nodes ∧ n ∈ reads k ∧ ∀ d ∈ reads k, d ∈ taken ++ [n] := by
    intro k
    rw [ready_settleAll hreaders, List.mem_filter, mem_readers, decide_eq_true_eq, and_assoc]
    refine and_congr_right fun hk => and_congr_right fun hread => ?_
    have hstep := hdrop k hk
    rw [if_pos hread] at hstep
    rw [h.count k hk, ← untaken_eq_zero_iff]
    omega
  refine ⟨?_, ?_, ?_, ?_⟩
  · rw [keys_settleAll, h.keys]
  · intro k hk
    have hstep := hdrop k hk
    rw [get_settleAll hreaders hkeys, h.count k hk, hstep]
    by_cases hread : n ∈ reads k
    · simp [mem_readers, hk, hread]
    · simp [mem_readers, hread]
  · rw [← List.append_assoc, hsplit, List.nodup_append]
    refine ⟨h.nodup, ?_, ?_⟩
    · rw [ready_settleAll hreaders]
      exact hreaders.filter _
    · intro a ha b hb hab
      subst b
      exact hn (((h.known a).1 ha).2 n ((hnew a).1 hb).2.1)
  · intro k
    rw [← List.append_assoc, hsplit, List.mem_append, h.known k, hnew k]
    constructor
    · rintro (⟨hk, hall⟩ | ⟨hk, _, hall⟩)
      · exact ⟨hk, fun d hd => List.mem_append_left [n] (hall d hd)⟩
      · exact ⟨hk, hall⟩
    · rintro ⟨hk, hall⟩
      by_cases hread : n ∈ reads k
      · exact Or.inr ⟨hk, hread, hall⟩
      · refine Or.inl ⟨hk, fun d hd => ?_⟩
        rcases List.mem_append.1 (hall d hd) with hd' | hd'
        · exact hd'
        · rw [List.mem_singleton] at hd'
          exact (hread (hd' ▸ hd)).elim

/-- Draining takes nodes in order until nothing waits, and keeps the invariant all the while. -/
theorem drain_draining {taken ready : List NodeId} {counts : Counts}
    (hclosed : Closed reads nodes) (h : Draining reads nodes taken counts ready) :
    InOrder reads taken (drain (readers reads nodes) counts ready).1 ∧
      Draining reads nodes (taken ++ (drain (readers reads nodes) counts ready).1)
        (drain (readers reads nodes) counts ready).2 [] := by
  induction counts, ready using drain.induct (readers reads nodes) generalizing taken with
  | case1 counts =>
      rw [drain, List.append_nil]
      exact ⟨trivial, h⟩
  | case2 counts n rest settled =>
      rename_i ih
      rcases ih (h.take hclosed) with ⟨horder, hdone⟩
      have hn : n ∈ taken ++ n :: rest := by simp
      rw [drain]
      refine ⟨⟨((h.known n).1 hn).2, horder⟩, ?_⟩
      rwa [List.append_assoc] at hdone

/-! ## Sorting -/

/-- What sorting achieves: an order, and the nodes that could not be ordered. -/
structure Sorts (reads : NodeId → List NodeId) (nodes : List NodeId) (s : Sorted) : Prop where
  nodup : s.ordered.Nodup
  inOrder : InOrder reads [] s.ordered
  mem_ordered_iff : ∀ n, n ∈ s.ordered ↔ n ∈ nodes ∧ ∀ k ∈ reads n, k ∈ s.ordered
  blocked_eq : s.blocked = nodes.filter (· ∉ s.ordered)

theorem eraseDups_eq_self {ns : List NodeId} (h : ns.Nodup) : ns.eraseDups = ns := by
  induction ns with
  | nil => rfl
  | cons n rest ih =>
      rw [List.nodup_cons] at h
      have hkeep : rest.filter (fun k => !k == n) = rest := by
        rw [List.filter_eq_self]
        intro k hk
        have hne : k ≠ n := by
          rintro rfl
          exact h.1 hk
        simpa using hne
      rw [List.eraseDups_cons, hkeep, ih h.2]

/-- Counts that are made of nodes are looked up by these. -/
theorem get_map_pair {ns : List NodeId} {n : NodeId} (value : NodeId → Int) (hn : n ∈ ns) :
    Counts.get (ns.map fun k => (k, value k)) n = value n := by
  induction ns with
  | nil => simp at hn
  | cons k rest ih =>
      by_cases hk : n = k
      · subst k
        simp [Counts.get]
      · have hne : (n == k) = false := by simpa using hk
        have hrest : n ∈ rest := (List.mem_cons.1 hn).resolve_left hk
        have hget := ih hrest
        rw [Counts.get] at hget ⊢
        rwa [List.map_cons, List.lookup_cons, hne]

/-- Before anything is taken, those nodes wait that read nothing. -/
theorem draining_start (hclosed : Closed reads nodes) :
    Draining reads nodes [] (nodes.map fun k => (k, ((reads k).length : Int)))
      (nodes.filter fun n => (reads n).isEmpty) := by
  refine ⟨?_, ?_, ?_, ?_⟩
  · rw [List.map_map]
    exact List.map_id nodes
  · intro n hn
    rw [get_map_pair (fun k => ((reads k).length : Int)) hn]
    simp [untaken]
  · exact hclosed.nodup.filter _
  · intro n
    simp [List.eq_nil_iff_forall_not_mem]

/-- The sorting of a closed set of keys splits and orders it. -/
theorem sortBy_sorts (hclosed : Closed reads nodes) : Sorts reads nodes (sortBy reads nodes) := by
  have hstart := draining_start hclosed
  have hkeys : nodes.eraseDups = nodes := eraseDups_eq_self hclosed.nodup
  rcases drain_draining hclosed hstart with ⟨horder, hdone⟩
  rw [List.nil_append] at hdone
  have hnodup := hdone.nodup
  have hknown := hdone.known
  rw [List.append_nil] at hnodup hknown
  simp only [sortBy, hkeys]
  refine ⟨hnodup, horder, hknown, ?_⟩
  refine List.filter_congr fun n hn => ?_
  rw [hdone.count n hn, decide_eq_decide, hknown n, ← untaken_eq_zero_iff]
  simp only [hn, true_and]
  omega

/-! ## Circles -/

/-- Whether one node reads another. -/
def Reads (reads : NodeId → List NodeId) (n k : NodeId) : Prop := k ∈ reads n

/-- Whether reads lead from a node into a circle; the circle may be the node itself. -/
def LeadsIntoCircle (reads : NodeId → List NodeId) (n : NodeId) : Prop :=
  ∃ c, Relation.ReflTransGen (Reads reads) n c ∧ Relation.TransGen (Reads reads) c c

/-- Whether every chain of reads from a node ends. -/
def ReadsEnd (reads : NodeId → List NodeId) (n : NodeId) : Prop :=
  Acc (fun k n => Reads reads n k) n

/-- Where all chains of reads end, no circle is reached. -/
theorem not_leadsIntoCircle_of_readsEnd {n : NodeId} (h : ReadsEnd reads n) :
    ¬ LeadsIntoCircle reads n := by
  induction h with
  | intro n _ ih =>
      rintro ⟨c, hpath, hcircle⟩
      rcases Relation.ReflTransGen.cases_head hpath with rfl | ⟨k, hread, hrest⟩
      · rcases Relation.TransGen.head'_iff.1 hcircle with ⟨k, hread, hback⟩
        exact ih k hread ⟨n, hback, hcircle⟩
      · exact ih k hread ⟨c, hrest, hcircle⟩

/-- What is read, directly or through others, belongs to the nodes. -/
theorem Closed.mem_of_path (hclosed : Closed reads nodes) {n k : NodeId} (hn : n ∈ nodes)
    (hpath : Relation.ReflTransGen (Reads reads) n k) : k ∈ nodes := by
  induction hpath with
  | refl => exact hn
  | tail _ hread ih => exact hclosed.reads_mem _ ih _ hread

/-- As the nodes are finitely many, chains of reads end where they lead into no circle. -/
theorem readsEnd_of_not_leadsIntoCircle (hclosed : Closed reads nodes) {n : NodeId}
    (hn : n ∈ nodes) (h : ¬ LeadsIntoCircle reads n) : ReadsEnd reads n := by
  let Behind := { k // Relation.ReflTransGen (Reads reads) n k }
  let before : Behind → Behind → Prop := fun a b => Relation.TransGen (Reads reads) b.1 a.1
  have hfinite : Finite Behind :=
    Set.Finite.subset nodes.finite_toSet fun k hk => hclosed.mem_of_path hn hk
  have htrans : IsTrans Behind before := ⟨fun a b c hab hbc => Relation.TransGen.trans hbc hab⟩
  have hirrefl : Std.Irrefl before := ⟨fun a ha => h ⟨a.1, a.2, ha⟩⟩
  have hwf : WellFounded before := Finite.wellFounded_of_trans_of_irrefl before
  have hend : ∀ a : Behind, ReadsEnd reads a.1 := by
    intro a
    induction hwf.apply a with
    | intro a _ ih =>
        refine Acc.intro a.1 fun k hread => ?_
        exact ih ⟨k, a.2.tail hread⟩ (Relation.TransGen.single hread)
  exact hend ⟨n, Relation.ReflTransGen.refl⟩

/-- Of what is in order after nodes whose chains end, all chains end. -/
theorem InOrder.readsEnd {done order : List NodeId} (h : InOrder reads done order)
    (hdone : ∀ n ∈ done, ReadsEnd reads n) : ∀ n ∈ order, ReadsEnd reads n := by
  induction order generalizing done with
  | nil => simp
  | cons n rest ih =>
      have hn : ReadsEnd reads n := Acc.intro n fun k hread => hdone k (h.1 k hread)
      have hrest : ∀ k ∈ done ++ [n], ReadsEnd reads k := by
        intro k hk
        rcases List.mem_append.1 hk with hk | hk
        · exact hdone k hk
        · rw [List.mem_singleton] at hk
          exact hk ▸ hn
      intro k hk
      rcases List.mem_cons.1 hk with rfl | hk
      · exact hn
      · exact ih h.2 hrest k hk

namespace Sorts

variable {s : Sorted}

/-- Ordered are the nodes from which every chain of reads ends. -/
theorem mem_ordered_iff_readsEnd (hclosed : Closed reads nodes) (hs : Sorts reads nodes s)
    {n : NodeId} (hn : n ∈ nodes) : n ∈ s.ordered ↔ ReadsEnd reads n := by
  constructor
  · exact hs.inOrder.readsEnd (by simp) n
  · intro hend
    induction hend with
    | intro n _ ih =>
        refine (hs.mem_ordered_iff n).2 ⟨hn, fun k hread => ?_⟩
        exact ih k hread (hclosed.reads_mem n hn k hread)

/-- Blocked are the nodes whose reads lead into a circle. -/
theorem mem_blocked_iff (hclosed : Closed reads nodes) (hs : Sorts reads nodes s) {n : NodeId} :
    n ∈ s.blocked ↔ n ∈ nodes ∧ LeadsIntoCircle reads n := by
  rw [hs.blocked_eq, List.mem_filter, decide_eq_true_eq]
  refine and_congr_right fun hn => ?_
  rw [hs.mem_ordered_iff_readsEnd hclosed hn]
  constructor
  · intro hend
    by_contra hcircle
    exact hend (readsEnd_of_not_leadsIntoCircle hclosed hn hcircle)
  · intro hcircle hend
    exact not_leadsIntoCircle_of_readsEnd hend hcircle

/-- Nothing is blocked if and only if no node reads itself, directly or through others. -/
theorem blocked_eq_nil_iff (hclosed : Closed reads nodes) (hs : Sorts reads nodes s) :
    s.blocked = [] ↔ ∀ n ∈ nodes, ¬ Relation.TransGen (Reads reads) n n := by
  rw [List.eq_nil_iff_forall_not_mem]
  constructor
  · intro hnone n hn hcircle
    exact hnone n ((hs.mem_blocked_iff hclosed).2 ⟨hn, n, Relation.ReflTransGen.refl, hcircle⟩)
  · intro hnone n hblocked
    rcases (hs.mem_blocked_iff hclosed).1 hblocked with ⟨hn, c, hpath, hcircle⟩
    exact hnone c (hclosed.mem_of_path hn hpath) hcircle

/-- If nothing is blocked then every node is ordered. -/
theorem mem_ordered_of_blocked_eq_nil (hs : Sorts reads nodes s) (h : s.blocked = [])
    {n : NodeId} (hn : n ∈ nodes) : n ∈ s.ordered := by
  rw [hs.blocked_eq, List.filter_eq_nil_iff] at h
  simpa using h n hn

end Sorts

end Dependency
end StockFlow
