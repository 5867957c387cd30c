import Mathlib.Data.List.Nodup
import StockFlow.Draft
import StockFlow.Proofs.OrderedMap
import StockFlow.Proofs.Text.Decimals
import StockFlow.World.Numbering

/-!
# Numbers that lead back to their nodes

If no two keys share a number, the inverse of a numbering gives every key back.
Keys that are numbered in their order never share a number.

Main definitions:

- {lit}`Numbering.Fits`: whether numbers tell keys apart and can be written and read.
- {lit}`NumberTable.inverted`: what the numbers of nodes stand for.

Main results:

- Theorem {lit}`Numbering.fits_ofList`: keys that are numbered in their order.
- Theorem {lit}`Numbering.lookup_inverse`: a number leads back to its key.
- Theorem {lit}`NumberTable.references_inverted`: a number stands for its node in text.
-/

namespace StockFlow

namespace Numbering

variable {α : Type}

/-- Whether numbers tell keys apart, are natural, and are short enough to be read. -/
structure Fits (numbering : Numbering α) : Prop where
  injective : ∀ e ∈ numbering, ∀ e' ∈ numbering, e.2 = e'.2 → e.1 = e'.1
  nonneg : ∀ e ∈ numbering, 0 ≤ e.2
  length_le : ∀ e ∈ numbering, (Text.decimalDigits e.2.toNat).length ≤ Text.digitLimit

/-! ## Keys that are numbered in their order -/

section

variable [BEq α]

/-- The entries that are put one by one to number keys. -/
theorem ofList_eq_foldl (keys : List α) :
    ofList keys = ((keys.zipIdx 1).map fun e => (e.1, (e.2 : Int))).foldl
      (fun numbering e => OrderedMap.put numbering e.1 e.2) [] := by
  rw [List.foldl_map]
  rfl

variable [LawfulBEq α]

/-- Exactly the listed keys are numbered. -/
theorem mem_keys_ofList {keys : List α} {k : α} :
    k ∈ (ofList keys).map Prod.fst ↔ k ∈ keys := by
  have hkeys := OrderedMap.keys_foldl_put ((keys.zipIdx 1).map fun e => (e.1, (e.2 : Int))) []
    List.nodup_nil
  have hlisted : ((keys.zipIdx 1).map fun e => (e.1, (e.2 : Int))).map Prod.fst = keys := by
    rw [List.map_map]
    exact List.zipIdx_map_fst 1 keys
  rw [ofList_eq_foldl, hkeys.2 k, hlisted]
  simp

/-- A number is a place of its key, counted from one. -/
theorem exists_of_mem_ofList {keys : List α} {e : α × Int} (h : e ∈ ofList keys) :
    ∃ i : Nat, e.2 = i + 1 ∧ keys[i]? = some e.1 := by
  rw [ofList_eq_foldl] at h
  rcases OrderedMap.mem_foldl_put h with h | h
  · simp at h
  · rcases List.mem_map.1 h with ⟨⟨k, i⟩, hmem, rfl⟩
    rw [List.mem_zipIdx_iff_le_and_getElem?_sub] at hmem
    refine ⟨i - 1, ?_, hmem.2⟩
    have hpos : 1 ≤ i := hmem.1
    show (i : Int) = (i - 1 : Nat) + 1
    omega

/-- Keys that are numbered in their order have different numbers, short unless they are too many. -/
theorem fits_ofList {keys : List α} (h : Text.exceedsDigitLimit keys.length = false) :
    (ofList keys).Fits where
  injective := by
    intro e he e' he' heq
    rcases exists_of_mem_ofList he with ⟨i, hi, hkey⟩
    rcases exists_of_mem_ofList he' with ⟨j, hj, hkey'⟩
    have hij : i = j := by omega
    subst hij
    exact Option.some.inj (hkey.symm.trans hkey')
  nonneg := by
    intro e he
    rcases exists_of_mem_ofList he with ⟨i, hi, _⟩
    omega
  length_le := by
    intro e he
    rcases exists_of_mem_ofList he with ⟨i, hi, hkey⟩
    have hlt : i < keys.length := (List.getElem?_eq_some_iff.1 hkey).1
    have hnumber : e.2.toNat ≤ keys.length := by omega
    exact Text.length_decimalDigits_le hnumber h

end

/-! ## Back to the keys -/

/-- The entries that are put one by one to invert a numbering. -/
theorem inverse_eq_foldl (numbering : Numbering α) :
    numbering.inverse = (numbering.map Prod.swap).foldl
      (fun keys e => OrderedMap.put keys e.1 e.2) [] := by
  rw [List.foldl_map]
  rfl

/-- No number stands for two keys. -/
theorem nodup_inverse (numbering : Numbering α) : (numbering.inverse.map Prod.fst).Nodup := by
  rw [inverse_eq_foldl]
  exact (OrderedMap.keys_foldl_put _ [] List.nodup_nil).1

/-- A number leads back to its key. -/
theorem lookup_inverse {numbering : Numbering α} (h : numbering.Fits) {e : α × Int}
    (he : e ∈ numbering) : numbering.inverse.lookup e.2 = some e.1 := by
  rw [inverse_eq_foldl]
  refine OrderedMap.lookup_foldl_put [] (List.mem_map.2 ⟨e, he, rfl⟩) fun e' he' hnumber => ?_
  rcases List.mem_map.1 he' with ⟨e'', hmem, rfl⟩
  exact h.injective e'' hmem e he hnumber

end Numbering

/-! ## Tables of numbers -/

namespace NumberTable

/-- What the numbers of nodes stand for when text is read. -/
def inverted (numbers : NumberTable) : ReferenceKind → Option (List (Int × Term)) :=
  fun kind => some ((numbers kind).inverse.map fun e => (e.1, Term.node e.2))

/-- A number stands for its node in text. -/
theorem references_inverted {numbers : NumberTable} {kind : ReferenceKind}
    (h : (numbers kind).Fits) {n : NodeId} {k : Nat} (hmem : (n, (k : Int)) ∈ numbers kind) :
    Drafts.references (fun kind => (numbers.inverted kind).getD []) kind k =
      some (.leaf (Term.node n)) := by
  have hinverse : ((k : Int), n) ∈ (numbers kind).inverse :=
    OrderedMap.mem_of_lookup (Numbering.lookup_inverse h hmem)
  have hkeys : ((((numbers kind).inverse.map fun e => (e.1, Term.node e.2)).reverse).map
      Prod.fst).Nodup := by
    rw [List.map_reverse, List.nodup_reverse, List.map_map]
    exact Numbering.nodup_inverse (numbers kind)
  have hlookup := OrderedMap.lookup_of_mem hkeys
    (List.mem_reverse.2 (List.mem_map.2 ⟨((k : Int), n), hinverse, rfl⟩))
  rw [Drafts.references]
  exact congrArg (Option.map Formula.leaf) hlookup

end NumberTable
end StockFlow
