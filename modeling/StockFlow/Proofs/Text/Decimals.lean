import Mathlib.Data.List.Basic
import StockFlow.Text.Basic

/-!
# Decimal digits

The digits of a natural write it and nothing else, so numbers can be read back
and told apart in any text where they stand.

Main definitions:

- {lit}`Text.IsNumeral`: the digits of a number, perhaps with leading zeros.

Main results:

- Theorem {lit}`Text.decimalValue_decimalDigits`: the digits of a number write it.
- Theorem {lit}`Text.isDigit_of_mem_decimalDigits`: nothing but digits is written.
- Theorems {lit}`Text.decimalDigits_inj` and {lit}`Text.decimal_injective`: different numbers are
  written differently.
- Theorem {lit}`Text.head?_decimalDigits_ne`: only zero is written with a leading zero.
- Theorem {lit}`Text.length_decimalDigits_le`: how many digits numbers within the limit have.
-/

namespace StockFlow
namespace Text

/-- What holds of the ten digits holds of every digit. -/
theorem forall_isDigit {p : Char → Bool}
    (h : ['0', '1', '2', '3', '4', '5', '6', '7', '8', '9'].all p = true) {c : Char}
    (hc : c.isDigit = true) : p c = true := by
  rw [Char.isDigit_iff_toNat] at hc
  rcases hc with ⟨hlow, hhigh⟩
  have hlow' : 48 ≤ c.toNat := hlow
  have hhigh' : c.toNat ≤ 57 := hhigh
  have hmem : c ∈ (List.range' 48 10).map Char.ofNat := by
    refine List.mem_map.2 ⟨c.toNat, ?_, Char.ofNat_toNat c⟩
    rw [List.mem_range'_1]
    omega
  exact List.all_eq_true.1 h c hmem

/-- The sign and the digits of an integer. -/
theorem toList_decimal_eq (n : Int) :
    (decimal n).toList = (if n < 0 then ['-'] else []) ++ decimalDigits n.natAbs := by
  rw [decimal, String.toList_append, String.toList_ofList]
  split <;> rfl

/-- The decimal text of a number is made of its digits. -/
theorem toList_decimal (n : Nat) : (decimal n).toList = decimalDigits n := by
  have hsign : ¬ ((n : Int) < 0) := by omega
  rw [toList_decimal_eq, if_neg hsign, Int.natAbs_natCast]
  rfl

/-- The digits of a number write it. -/
theorem decimalValue_decimalDigits (n : Nat) : decimalValue (decimalDigits n) = n :=
  Nat.ofDigitChars_ten_toDigits

/-- Decimal digits are digits. -/
theorem isDigit_of_mem_decimalDigits {n : Nat} {c : Char} (h : c ∈ decimalDigits n) :
    c.isDigit = true :=
  Nat.isDigit_of_mem_toDigits (by omega) (by omega) h

theorem decimalDigits_ne_nil (n : Nat) : decimalDigits n ≠ [] := Nat.toDigits_ne_nil

/-- Different numbers are written differently. -/
theorem decimalDigits_inj {m n : Nat} (h : decimalDigits m = decimalDigits n) : m = n := by
  have hvalue := congrArg decimalValue h
  rwa [decimalValue_decimalDigits, decimalValue_decimalDigits] at hvalue

/-- The decimal text of an integer is made of digits and perhaps a minus sign. -/
theorem mem_decimal {n : Int} {c : Char} (h : c ∈ (decimal n).toList) :
    c = '-' ∨ c.isDigit = true := by
  rw [toList_decimal_eq, List.mem_append] at h
  rcases h with h | h
  · split at h
    · exact Or.inl (List.mem_singleton.1 h)
    · cases h
  · exact Or.inr (isDigit_of_mem_decimalDigits h)

/-- Different integers are written differently. -/
theorem decimal_injective {m n : Int} (h : (decimal m).toList = (decimal n).toList) : m = n := by
  have hsign : ∀ {a b : Nat}, '-' :: decimalDigits a ≠ decimalDigits b := by
    intro a b heq
    have hdigit : '-'.isDigit = true :=
      isDigit_of_mem_decimalDigits (n := b) (heq ▸ List.mem_cons_self)
    cases hdigit
  rw [toList_decimal_eq, toList_decimal_eq] at h
  split at h <;> split at h
  · have hdigits := decimalDigits_inj (List.cons.inj h).2
    omega
  · exact absurd h hsign
  · exact absurd h.symm hsign
  · have hdigits := decimalDigits_inj h
    omega

theorem decimalDigits_zero : decimalDigits 0 = ['0'] := Nat.toDigits_zero 10

/-- Only zero is written with a leading zero. -/
theorem head?_decimalDigits_ne {n : Nat} (h : 0 < n) : (decimalDigits n).head? ≠ some '0' := by
  induction n using Nat.strongRecOn with
  | ind n ih =>
      by_cases hn : n < 10
      · rw [decimalDigits, Nat.toDigits_of_lt_base hn]
        intro hdigit
        have hzero : n = 0 := Nat.digitChar_eq_zero.1 (Option.some.inj hdigit)
        omega
      · have hbase : 10 ≤ n := Nat.le_of_not_lt hn
        have hsplit := Nat.toDigits_of_base_le (b := 10) (by omega) hbase
        rw [decimalDigits, hsplit, List.head?_append_of_ne_nil _ Nat.toDigits_ne_nil]
        exact ih (n / 10) (by omega) (by omega)

/-- A number has few digits exactly if it is small. -/
theorem length_decimalDigits_le_iff {n k : Nat} (hk : 0 < k) :
    (decimalDigits n).length ≤ k ↔ n < tenTo k :=
  Nat.length_toDigits_le_iff (by decide) hk

/-- A number up to one that is within the limit has no more digits than the limit allows. -/
theorem length_decimalDigits_le {m n : Nat} (hle : m ≤ n) (h : exceedsDigitLimit n = false) :
    (decimalDigits m).length ≤ digitLimit := by
  rw [exceedsDigitLimit, decide_eq_false_iff_not, Nat.not_le] at h
  rw [length_decimalDigits_le_iff (by decide)]
  exact Nat.lt_of_le_of_lt hle h

/-! ## Numerals -/

/-- Whether characters are the digits of a number within the limit, perhaps with leading zeros. -/
structure IsNumeral (n : Nat) (cs : List Char) : Prop where
  ne_nil : cs ≠ []
  digits : ∀ c ∈ cs, isAsciiDigit c = true
  value_eq : decimalValue cs = n
  length_le : cs.length ≤ digitLimit

theorem isDigit_eq_isAsciiDigit (c : Char) : c.isDigit = isAsciiDigit c := by
  rw [Char.isDigit, isAsciiDigit]
  rfl

/-- The decimal digits of a number are a numeral of it, if they are not too many. -/
theorem isNumeral_decimalDigits {n : Nat} (h : (decimalDigits n).length ≤ digitLimit) :
    IsNumeral n (decimalDigits n) where
  ne_nil := decimalDigits_ne_nil n
  digits := fun c hc => by
    rw [← isDigit_eq_isAsciiDigit]
    exact isDigit_of_mem_decimalDigits hc
  value_eq := decimalValue_decimalDigits n
  length_le := h

/-- Digits write a number below the power of ten that they reach. -/
theorem decimalValue_lt_tenTo {cs : List Char} (h : ∀ c ∈ cs, isAsciiDigit c = true) :
    decimalValue cs < tenTo cs.length := by
  have hfrom : ∀ (ds : List Char) (n : Nat), (∀ c ∈ ds, isAsciiDigit c = true) →
      ds.foldl (fun n c => 10 * n + (c.toNat - '0'.toNat)) n < (n + 1) * tenTo ds.length := by
    intro ds
    induction ds with
    | nil =>
        intro n _
        have hone : tenTo 0 = 1 := rfl
        rw [List.foldl_nil, List.length_nil, hone]
        omega
    | cons d rest ih =>
        intro n hds
        have hd : d.toNat - '0'.toNat ≤ 9 := by
          have hdigit := hds d List.mem_cons_self
          rw [← isDigit_eq_isAsciiDigit, Char.isDigit_iff_toNat] at hdigit
          have hzero : '0'.toNat = 48 := rfl
          have hnine : '9'.toNat = 57 := rfl
          omega
        have hrest := ih (10 * n + (d.toNat - '0'.toNat)) fun c hc =>
          hds c (List.mem_cons_of_mem d hc)
        have hten : tenTo (d :: rest).length = 10 * tenTo rest.length := by
          exact (Nat.pow_succ 10 rest.length).trans (Nat.mul_comm _ 10)
        rw [List.foldl_cons, hten]
        refine Nat.lt_of_lt_of_le hrest ?_
        rw [← Nat.mul_assoc]
        exact Nat.mul_le_mul_right _ (by omega)
  have hlt := hfrom cs 0 h
  rwa [Nat.zero_add, Nat.one_mul] at hlt

/-- The digits of a number are the shortest numeral for it. -/
theorem IsNumeral.length_decimalDigits_le {n : Nat} {cs : List Char} (h : IsNumeral n cs) :
    (decimalDigits n).length ≤ digitLimit := by
  have hlt := decimalValue_lt_tenTo h.digits
  rw [h.value_eq] at hlt
  exact Nat.le_trans ((length_decimalDigits_le_iff (List.length_pos_of_ne_nil h.ne_nil)).2 hlt)
    h.length_le

end Text
end StockFlow
