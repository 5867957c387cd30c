import StockFlow.Formula.Basic

/-!
# Formulas with replaced leaves

Replacing the leaves of a formula by a step that may fail gives a formula if and
only if the step gives something at every leaf.

Main results:

- Theorems {lit}`Formula.mapExcept_leaf_ok` and {lit}`Formula.mapExcept_apply_ok`: replacements that
  succeed, by the shape of the formula.
- Theorem {lit}`Formula.exists_of_mem_leaves_mapExcept`: every new leaf comes from an old one.
- Theorem {lit}`Formula.exists_of_mapExcept_error`: every failure comes from a leaf.
- Theorem {lit}`Formula.mapExcept_map`: a step that gives something at every leaf.
- Theorem {lit}`Formula.map_injective`: a replacement that confuses no leaves confuses no formulas.
-/

namespace StockFlow
namespace Formula

variable {α β γ ε : Type} {g : α → Except ε β}

/-- A leaf is replaced if what replaces it is there. -/
theorem mapExcept_leaf_ok {a : α} {f' : Formula β} :
    (Formula.leaf a).mapExcept g = .ok f' ↔ ∃ b, g a = .ok b ∧ f' = .leaf b := by
  rw [mapExcept]
  cases g a with
  | error e => simp [Except.map]
  | ok b => simp [Except.map, eq_comm]

/-- Under an operator, both operands have their leaves replaced. -/
theorem mapExcept_apply_ok {op : Operator} {l r : Formula α} {f' : Formula β} :
    (Formula.apply op l r).mapExcept g = .ok f' ↔
      ∃ l' r', l.mapExcept g = .ok l' ∧ r.mapExcept g = .ok r' ∧ f' = .apply op l' r' := by
  rw [mapExcept]
  cases l.mapExcept g with
  | error e => simp [bind, Except.bind]
  | ok l' =>
      cases r.mapExcept g with
      | error e => simp [bind, Except.bind]
      | ok r' => simp [bind, Except.bind, pure, Except.pure, eq_comm]

/-- Every leaf after a replacement is what the step gave for some leaf before. -/
theorem exists_of_mem_leaves_mapExcept {f : Formula α} {f' : Formula β}
    (h : f.mapExcept g = .ok f') {b : β} (hb : b ∈ f'.leaves) : ∃ a ∈ f.leaves, g a = .ok b := by
  induction f generalizing f' with
  | leaf a =>
      rcases mapExcept_leaf_ok.1 h with ⟨b', hg, rfl⟩
      rw [leaves_leaf, List.mem_singleton] at hb
      subst hb
      exact ⟨a, List.mem_singleton_self a, hg⟩
  | apply op l r ihl ihr =>
      rcases mapExcept_apply_ok.1 h with ⟨l', r', hl, hr, rfl⟩
      rw [leaves_apply, List.mem_append] at hb
      rcases hb with hb | hb
      · rcases ihl hl hb with ⟨a, ha, hg⟩
        exact ⟨a, List.mem_append_left _ ha, hg⟩
      · rcases ihr hr hb with ⟨a, ha, hg⟩
        exact ⟨a, List.mem_append_right _ ha, hg⟩

/-- A replacement that fails does so for the reason that the step has at some leaf. -/
theorem exists_of_mapExcept_error {f : Formula α} {e : ε} (h : f.mapExcept g = .error e) :
    ∃ a ∈ f.leaves, g a = .error e := by
  induction f with
  | leaf a =>
      rw [mapExcept] at h
      cases hg : g a with
      | ok b => simp [hg, Except.map] at h
      | error e' =>
          rw [hg] at h
          cases h
          exact ⟨a, List.mem_singleton_self a, hg⟩
  | apply op l r ihl ihr =>
      rw [mapExcept] at h
      cases hl : l.mapExcept g with
      | error e' =>
          rw [hl] at h
          cases h
          rcases ihl hl with ⟨a, ha, hg⟩
          exact ⟨a, List.mem_append_left _ ha, hg⟩
      | ok l' =>
          rw [hl] at h
          cases hr : r.mapExcept g with
          | error e' =>
              rw [hr] at h
              cases h
              rcases ihr hr with ⟨a, ha, hg⟩
              exact ⟨a, List.mem_append_right _ ha, hg⟩
          | ok r' =>
              rw [hr] at h
              cases h

/-- A step that gives something at every leaf replaces every leaf by it. -/
theorem mapExcept_map {k : γ → α} {h : γ → β} {f : Formula γ}
    (hg : ∀ c ∈ f.leaves, g (k c) = .ok (h c)) : (f.map k).mapExcept g = .ok (f.map h) := by
  induction f with
  | leaf c => exact mapExcept_leaf_ok.2 ⟨h c, hg c (List.mem_singleton_self c), rfl⟩
  | apply op l r ihl ihr =>
      refine mapExcept_apply_ok.2 ⟨l.map h, r.map h, ihl ?_, ihr ?_, rfl⟩
      · exact fun c hc => hg c (List.mem_append_left _ hc)
      · exact fun c hc => hg c (List.mem_append_right _ hc)

/-- Replacing each leaf by itself changes nothing. -/
theorem map_id (f : Formula α) : f.map id = f := by
  induction f with
  | leaf a => rfl
  | apply op l r ihl ihr => rw [map, ihl, ihr]

/-- Replacing leaves twice is replacing them once. -/
theorem map_map (h : β → γ) (k : α → β) (f : Formula α) :
    (f.map k).map h = f.map fun a => h (k a) := by
  induction f with
  | leaf a => rfl
  | apply op l r ihl ihr => rw [map, map, map, ihl, ihr]

/-- Replacements that agree on the leaves give the same formula. -/
theorem map_congr {h k : α → β} {f : Formula α} (hleaves : ∀ a ∈ f.leaves, h a = k a) :
    f.map h = f.map k := by
  induction f with
  | leaf a => rw [map, map, hleaves a (List.mem_singleton_self a)]
  | apply op l r ihl ihr =>
      rw [map, map, ihl fun a ha => hleaves a (List.mem_append_left _ ha),
        ihr fun a ha => hleaves a (List.mem_append_right _ ha)]

/-- A replacement that confuses none of their leaves confuses no formulas. -/
theorem map_injective {h : α → β} {f g : Formula α}
    (hleaves : ∀ a ∈ f.leaves, ∀ b ∈ g.leaves, h a = h b → a = b) (heq : f.map h = g.map h) :
    f = g := by
  induction f generalizing g with
  | leaf a =>
      cases g with
      | leaf b => rw [hleaves a List.mem_cons_self b List.mem_cons_self (leaf.inj heq)]
      | apply op l r => cases heq
  | apply op l r ihl ihr =>
      cases g with
      | leaf b => cases heq
      | apply op' l' r' =>
          obtain ⟨rfl, hl, hr⟩ := apply.inj heq
          have hleft := ihl (fun a ha b hb => hleaves a (List.mem_append_left _ ha) b
            (List.mem_append_left _ hb)) hl
          have hright := ihr (fun a ha b hb => hleaves a (List.mem_append_right _ ha) b
            (List.mem_append_right _ hb)) hr
          rw [hleft, hright]

end Formula
end StockFlow
