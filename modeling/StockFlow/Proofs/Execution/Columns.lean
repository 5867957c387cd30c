import Mathlib.Data.List.Perm.Subperm
import StockFlow.Proofs.Execution.Labels
import StockFlow.Proofs.OrderedMap

/-!
# Columns of a track

A track keeps one row for each round, and its columns are put under the labels of
its nodes one by one.  Where labels differ, every node has its column; where two
labels are the same, one of the nodes has none.

Main results:

- Theorems {lit}`Track.columns_eq` and {lit}`Track.lookup_columns`: the columns where labels differ.
- Theorem {lit}`Track.length_columns_iff`: columns are lost exactly where they do not.
- Theorem {lit}`Track.history?_eq`: the history of a node is the column at its place.
-/

namespace StockFlow

namespace Track

variable {t : Track}

/-! ## Columns under labels -/

/-- The columns with their labels, one for each label. -/
def entries (t : Track) : Columns := t.labels.zipIdx.map fun entry => (entry.1, t.column entry.2)

/-- The columns of a track are put into a map one after the other. -/
theorem columns_eq_foldl (t : Track) :
    t.columns = t.entries.foldl (fun map e => OrderedMap.put map e.1 e.2) [] := by
  rw [columns, entries, List.foldl_map]

theorem keys_entries (t : Track) : t.entries.map Prod.fst = t.labels := by
  rw [entries, List.map_map]
  exact List.zipIdx_map_fst 0 t.labels

/-- Where labels differ, there is a column for each of them. -/
theorem columns_eq (h : t.labels.Nodup) : t.columns = t.entries := by
  rw [columns_eq_foldl]
  exact OrderedMap.foldl_put_of_nodup (by rwa [List.nil_append, keys_entries])

/-- Where labels are apart, a label's column holds the values of its node. -/
theorem lookup_columns (h : t.labels.Nodup) {i : Nat} {label : String}
    (hlabel : t.labels[i]? = some label) : t.columns.lookup label = some (t.column i) := by
  rw [columns_eq h]
  refine OrderedMap.lookup_of_mem (by rwa [keys_entries]) ?_
  refine List.mem_map.2 ⟨(label, i), ?_, rfl⟩
  exact List.mk_mem_zipIdx_iff_getElem?.2 hlabel

/-- Where labels are apart, each of them has a column, in their order. -/
theorem keys_columns (h : t.labels.Nodup) : t.columns.map Prod.fst = t.labels := by
  rw [columns_eq h, keys_entries]

/-- Where two labels are the same, a column is lost. -/
theorem length_columns_lt (h : ¬ t.labels.Nodup) : t.columns.length < t.labels.length := by
  have hkeys := OrderedMap.keys_foldl_put t.entries [] List.nodup_nil
  rw [← columns_eq_foldl, keys_entries] at hkeys
  have hsub : t.columns.map Prod.fst ⊆ t.labels := fun x hx => by simpa using (hkeys.2 x).1 hx
  have hperm := hkeys.1.subperm hsub
  have hle := hperm.length_le
  rw [List.length_map] at hle
  refine Nat.lt_of_le_of_ne hle fun heq => h ?_
  have hsame : (t.columns.map Prod.fst).Perm t.labels := by
    refine hperm.perm_of_length_le (Nat.le_of_eq ?_)
    rw [List.length_map, heq]
  exact hsame.nodup_iff.1 hkeys.1

/-- No column is lost exactly if the labels are apart. -/
theorem length_columns_iff : t.columns.length = t.labels.length ↔ t.labels.Nodup := by
  constructor
  · intro heq
    by_contra hdup
    exact Nat.ne_of_lt (length_columns_lt hdup) heq
  · intro h
    rw [← keys_columns h, List.length_map]

/-! ## Histories -/

@[simp] theorem length_column (t : Track) (i : Nat) : (t.column i).length = t.rows.length := by
  simp [column]

/-- The history of a recorded node is its column. -/
theorem history?_eq (h : t.nodes.Nodup) {i : Nat} {n : NodeId} (hn : t.nodes[i]? = some n) :
    t.history? n = some (t.column i) := by
  rcases List.getElem?_eq_some_iff.1 hn with ⟨hi, rfl⟩
  have hidx : t.nodes.idxOf? t.nodes[i] = some i := by
    rw [List.idxOf?_eq_some_iff]
    refine ⟨hi, rfl, fun j hj heq => ?_⟩
    have hji := (List.getElem_inj h).1 heq
    omega
  rw [history?, hidx, Option.map_some]

/-- A node that is not recorded has no history. -/
theorem history?_eq_none {n : NodeId} (hn : n ∉ t.nodes) : t.history? n = none := by
  have hidx : t.nodes.idxOf? n = none := by
    simpa using hn
  rw [history?, hidx, Option.map_none]

end Track

end StockFlow
