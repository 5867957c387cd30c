/-!
# Ordered maps

A map as the list of its entries, in the order in which the keys were put first.
A key that is put again keeps its place; only its value changes.

Main definitions:

- {lit}`OrderedMap`, {lit}`OrderedMap.put`: entries, and the way to grow them.

Main results:

- Theorem {lit}`OrderedMap.lookup_put`: the last value of a key counts.
- Theorem {lit}`OrderedMap.keys_put`: the keys after putting one.
-/

namespace StockFlow

/-- Entries with keys. -/
abbrev OrderedMap (κ α : Type) := List (κ × α)

namespace OrderedMap

variable {κ α : Type} [BEq κ]

/-- Puts a value under a key: in place of its old value, or behind all entries. -/
def put (entries : OrderedMap κ α) (k : κ) (a : α) : OrderedMap κ α :=
  match entries with
  | [] => [(k, a)]
  | e :: rest => if e.1 == k then (e.1, a) :: rest else e :: put rest k a

@[simp] theorem put_nil (k : κ) (a : α) : put [] k a = [(k, a)] := rfl

/-- The last value of a key counts, and no other key is touched. -/
theorem lookup_put [LawfulBEq κ] (entries : OrderedMap κ α) (k k' : κ) (a : α) :
    (put entries k a).lookup k' = if k' == k then some a else entries.lookup k' := by
  induction entries with
  | nil =>
      simp only [put_nil, List.lookup_cons, List.lookup_nil]
      split <;> simp_all
  | cons e rest ih =>
      obtain ⟨x, b⟩ := e
      by_cases hx : x = k
      · subst hx
        simp only [put, beq_self_eq_true, if_true, List.lookup_cons]
        split <;> simp_all
      · have hne : (x == k) = false := by simpa using hx
        simp only [put, hne, Bool.false_eq_true, if_false, List.lookup_cons, ih]
        by_cases hk : k' = x
        · subst hk
          simp [hne]
        · have : (k' == x) = false := by simpa using hk
          simp [this]

/-- A new key comes last; a key that is there keeps its place. -/
theorem keys_put [LawfulBEq κ] (entries : OrderedMap κ α) (k : κ) (a : α) :
    (put entries k a).map Prod.fst =
      if k ∈ entries.map Prod.fst then entries.map Prod.fst else entries.map Prod.fst ++ [k] := by
  induction entries with
  | nil => simp
  | cons e rest ih =>
      obtain ⟨x, b⟩ := e
      by_cases hx : x = k
      · subst hx
        simp [put]
      · have hne : (x == k) = false := by simpa using hx
        have hk : k ≠ x := fun h => hx h.symm
        simp only [put, hne, Bool.false_eq_true, if_false, List.map_cons, ih, List.mem_cons, hk,
          false_or]
        split <;> simp

end OrderedMap
end StockFlow
