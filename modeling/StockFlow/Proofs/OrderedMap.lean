import StockFlow.OrderedMap

/-!
# Ordered maps that are put together

Entries are put one by one.  Those with different keys stand one behind the other;
of those with one key the last value counts.

Main results:

- Theorem {lit}`OrderedMap.foldl_put_of_nodup`: entries with different keys.
- Theorem {lit}`OrderedMap.keys_foldl_put`: the keys, whatever is put.
- Theorems {lit}`OrderedMap.lookup_of_mem` and {lit}`OrderedMap.lookup_foldl_put`: what stands under
  a key.
-/

namespace StockFlow
namespace OrderedMap

variable {κ α : Type} [BEq κ] [LawfulBEq κ]

/-! ## Entries put one by one -/

/-- A new key is put at the end. -/
theorem put_of_not_mem {entries : OrderedMap κ α} {k : κ} (hk : k ∉ entries.map Prod.fst) (a : α) :
    put entries k a = entries ++ [(k, a)] := by
  induction entries with
  | nil => rfl
  | cons e rest ih =>
      rw [List.map_cons, List.mem_cons, not_or] at hk
      have hne : (e.1 == k) = false := by simpa using Ne.symm hk.1
      simp only [put, hne, Bool.false_eq_true, if_false, ih hk.2, List.cons_append]

/-- Entries with different keys are put one behind the other. -/
theorem foldl_put_of_nodup {start entries : OrderedMap κ α}
    (h : ((start ++ entries).map Prod.fst).Nodup) :
    entries.foldl (fun map e => put map e.1 e.2) start = start ++ entries := by
  induction entries generalizing start with
  | nil => rw [List.append_nil, List.foldl_nil]
  | cons e rest ih =>
      have hk : e.1 ∉ start.map Prod.fst := by
        intro hk
        rw [List.map_append, List.nodup_append] at h
        exact h.2.2 e.1 hk e.1 List.mem_cons_self rfl
      have hsplit : start ++ e :: rest = (start ++ [e]) ++ rest := by simp
      rw [List.foldl_cons, put_of_not_mem hk, hsplit]
      exact ih (hsplit ▸ h)

/-- A put keeps the keys of a map apart. -/
theorem nodup_keys_put {entries : OrderedMap κ α} (h : (entries.map Prod.fst).Nodup) (k : κ)
    (a : α) : ((put entries k a).map Prod.fst).Nodup := by
  rw [keys_put]
  split
  · exact h
  · rename_i hk
    rw [List.nodup_append]
    refine ⟨h, by simp, fun x hx y hy heq => ?_⟩
    rw [List.mem_singleton] at hy
    exact hk (hy ▸ heq ▸ hx)

/-- A put adds its key and takes no key away. -/
theorem mem_keys_put {entries : OrderedMap κ α} {k x : κ} {a : α} :
    x ∈ (put entries k a).map Prod.fst ↔ x ∈ entries.map Prod.fst ∨ x = k := by
  rw [keys_put]
  split
  · rename_i hk
    constructor
    · exact Or.inl
    · rintro (hx | rfl)
      · exact hx
      · exact hk
  · rw [List.mem_append, List.mem_singleton]

/-- Whatever is put, no key is there twice, and no key is there that was not put. -/
theorem keys_foldl_put (entries start : OrderedMap κ α)
    (h : (start.map Prod.fst).Nodup) :
    ((entries.foldl (fun map e => put map e.1 e.2) start).map Prod.fst).Nodup ∧
      ∀ x, x ∈ (entries.foldl (fun map e => put map e.1 e.2) start).map Prod.fst ↔
        x ∈ start.map Prod.fst ∨ x ∈ entries.map Prod.fst := by
  induction entries generalizing start with
  | nil => exact ⟨h, fun x => by simp⟩
  | cons e rest ih =>
      rcases ih (put start e.1 e.2) (nodup_keys_put h e.1 e.2) with ⟨hnodup, hmem⟩
      refine ⟨hnodup, fun x => ?_⟩
      rw [List.foldl_cons, hmem, mem_keys_put, List.map_cons, List.mem_cons, or_assoc]

/-- What stands under a key that is there once. -/
theorem lookup_of_mem {entries : OrderedMap κ α} (h : (entries.map Prod.fst).Nodup) {k : κ} {a : α}
    (hmem : (k, a) ∈ entries) : entries.lookup k = some a := by
  induction entries with
  | nil => simp at hmem
  | cons e rest ih =>
      rw [List.map_cons, List.nodup_cons] at h
      rcases List.mem_cons.1 hmem with rfl | hmem
      · simp
      · have hne : (k == e.1) = false := by
          rw [beq_eq_false_iff_ne]
          rintro rfl
          exact h.1 (List.mem_map.2 ⟨(e.1, a), hmem, rfl⟩)
        rw [List.lookup_cons, hne]
        exact ih h.2 hmem

/-! ## What stands under a key -/

/-- What is looked up is an entry. -/
theorem mem_of_lookup {entries : OrderedMap κ α} {k : κ} {a : α}
    (h : entries.lookup k = some a) : (k, a) ∈ entries := by
  rcases List.lookup_eq_some_iff.1 h with ⟨before, after, hsplit, _⟩
  rw [hsplit]
  exact List.mem_append_right before List.mem_cons_self

/-- What is a key can be looked up. -/
theorem exists_lookup {entries : OrderedMap κ α} {k : κ} (h : k ∈ entries.map Prod.fst) :
    ∃ a, entries.lookup k = some a := by
  rcases List.mem_map.1 h with ⟨e, he, hkey⟩
  refine Option.isSome_iff_exists.1 (List.lookup_isSome_iff.2 ⟨e, he, ?_⟩)
  rw [hkey, beq_self_eq_true]

/-- Puts at other keys do not change what is looked up. -/
theorem lookup_foldl_put_of_not_mem {entries : OrderedMap κ α} (start : OrderedMap κ α) {k : κ}
    (hk : k ∉ entries.map Prod.fst) :
    (entries.foldl (fun map e => put map e.1 e.2) start).lookup k = start.lookup k := by
  induction entries generalizing start with
  | nil => rfl
  | cons e rest ih =>
      rw [List.map_cons, List.mem_cons, not_or] at hk
      have hne : (k == e.1) = false := by simpa using hk.1
      rw [List.foldl_cons, ih _ hk.2, lookup_put, hne]
      rfl

/-- What is put under a key, if nothing else is put under it. -/
theorem lookup_foldl_put {entries : OrderedMap κ α} (start : OrderedMap κ α) {k : κ} {a : α}
    (hmem : (k, a) ∈ entries) (hunique : ∀ e ∈ entries, e.1 = k → e.2 = a) :
    (entries.foldl (fun map e => put map e.1 e.2) start).lookup k = some a := by
  induction entries generalizing start with
  | nil => simp at hmem
  | cons e rest ih =>
      have hrest : ∀ e' ∈ rest, e'.1 = k → e'.2 = a := fun e' he' =>
        hunique e' (List.mem_cons_of_mem e he')
      rw [List.foldl_cons]
      by_cases hk : k ∈ rest.map Prod.fst
      · rcases List.mem_map.1 hk with ⟨e', he', hkey⟩
        have hvalue := hrest e' he' hkey
        refine ih _ ?_ hrest
        rw [← hkey, ← hvalue]
        exact he'
      · have he : (k, a) = e := (List.mem_cons.1 hmem).resolve_right fun hmem' =>
          hk (List.mem_map.2 ⟨(k, a), hmem', rfl⟩)
        rw [lookup_foldl_put_of_not_mem _ hk, ← he, lookup_put, beq_self_eq_true, if_pos rfl]

/-- The entries after a put are the new one and old ones. -/
theorem mem_put {entries : OrderedMap κ α} {k : κ} {a : α} {e : κ × α}
    (h : e ∈ put entries k a) : e = (k, a) ∨ e ∈ entries := by
  induction entries with
  | nil => exact Or.inl (List.mem_singleton.1 h)
  | cons e' rest ih =>
      rw [put] at h
      split at h
      · rename_i hkey
        rcases List.mem_cons.1 h with rfl | h
        · rw [eq_of_beq hkey]
          exact Or.inl rfl
        · exact Or.inr (List.mem_cons_of_mem e' h)
      · rcases List.mem_cons.1 h with rfl | h
        · exact Or.inr List.mem_cons_self
        · exact (ih h).imp_right (List.mem_cons_of_mem e')

/-- Nothing is there that was not put. -/
theorem mem_foldl_put {entries start : OrderedMap κ α} {e : κ × α}
    (h : e ∈ entries.foldl (fun map e => put map e.1 e.2) start) : e ∈ start ∨ e ∈ entries := by
  induction entries generalizing start with
  | nil => exact Or.inl h
  | cons e' rest ih =>
      rcases ih h with h | h
      · rcases mem_put h with rfl | h
        · exact Or.inr List.mem_cons_self
        · exact Or.inl h
      · exact Or.inr (List.mem_cons_of_mem e' h)

end OrderedMap

end StockFlow
