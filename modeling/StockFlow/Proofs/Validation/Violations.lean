import StockFlow.Proofs.Dependency.Auxiliaries
import StockFlow.Validation.Report

/-!
# Violations one rule at a time

What the list of violations holds, rule by rule, and when there is none at all.

Main results:

- Theorem {lit}`World.firstProblem?_eq_none_iff`: nothing keeps a model from being valid if and
  only if no rule finds a violation.
- Theorem {lit}`World.formulas_of_formulaViolations`: where no formula is missing.
-/

namespace StockFlow
namespace World

variable {w : World}

/-- There is no first violation exactly if there is none. -/
theorem firstInvalid?_eq_none_iff {vs : List Violation} : firstInvalid? vs = none ↔ vs = [] := by
  cases vs <;> simp [firstInvalid?]

/-- A model is valid if and only if no rule finds a violation. -/
theorem firstProblem?_eq_none_iff {content : Model} :
    w.firstProblem? content = none ↔ w.localViolations content = [] ∧
      w.cycleViolations content = .ok [] ∧ w.uselessViolations content = [] := by
  rw [firstProblem?, ← firstInvalid?_eq_none_iff, ← firstInvalid?_eq_none_iff]
  cases firstInvalid? (w.localViolations content) with
  | some e => simp
  | none =>
      cases w.cycleViolations content with
      | error e => simp
      | ok cycle =>
          cases cycle with
          | nil => simp [firstInvalid?]
          | cons v rest => simp [firstInvalid?]

/-- Where no formula is missing, every rate and every auxiliary has one. -/
theorem formulas_of_formulaViolations {content : Model} (h : w.formulaViolations content = [])
    {n : NodeId} (hn : n ∈ content.formulaOwners) : ∃ f, w.formula? n = some f := by
  rw [formulaViolations, List.map_eq_nil_iff, List.filter_eq_nil_iff] at h
  have hsome := h n hn
  cases hformula : w.formula? n with
  | none => simp [hformula] at hsome
  | some f => exact ⟨f, rfl⟩

end World
end StockFlow
