import StockFlow.Number.Double

/-!
# Blanks and digits

The characters of white space in the sense of Unicode text: those whose
bidirectional class is a separator or white space, and all space separators.
Around a number the four separators among the control characters are no blanks.

Numbers are written in base ten with ASCII digits and read with the decimal digits of
all scripts (general category Nd); each script has its ten digits in one run, from zero
to nine, so the zeros determine them all.  Reading and writing are refused beyond
{lit}`Text.digitLimit` digits.  Hexadecimal digits are read in both cases of letters and
written in small ones.

Main definitions:

- {lit}`Text.strip`, {lit}`Text.trim`: text without the blanks around it.
- {lit}`Text.decimal`, {lit}`Text.decimalValue`: numbers in base ten.
- {lit}`Text.digitValue?`: the digits of all scripts.
- {lit}`Text.hex`, {lit}`Text.hexValue?`: base sixteen.
-/

namespace StockFlow
namespace Text

/-! ## Blanks -/

/-- White space, beyond ASCII too. -/
def isBlank (c : Char) : Bool :=
  let n := c.toNat
  (9 ≤ n && n ≤ 13) || (28 ≤ n && n ≤ 32) || n == 0x85 || n == 0xA0 || n == 0x1680 ||
    (0x2000 ≤ n && n ≤ 0x200A) || n == 0x2028 || n == 0x2029 || n == 0x202F || n == 0x205F ||
    n == 0x3000

/-- Drops the blanks at both ends. -/
def strip (cs : List Char) : List Char :=
  ((cs.dropWhile isBlank).reverse.dropWhile isBlank).reverse

/-- The blanks that may stand around a number. -/
def isOuterBlank (c : Char) : Bool := isBlank c && !(28 ≤ c.toNat && c.toNat ≤ 31)

/-- Drops what may stand around a number. -/
def trim (cs : List Char) : List Char :=
  ((cs.dropWhile isOuterBlank).reverse.dropWhile isOuterBlank).reverse

/-- Text without the blanks at both ends. -/
def stripped (s : String) : String := String.ofList (strip s.toList)

/-- Every blank of the ASCII class is a blank. -/
theorem isBlank_of_isWhitespace {c : Char} (h : c.isWhitespace = true) : isBlank c = true := by
  simp only [Char.isWhitespace, Bool.or_eq_true, decide_eq_true_eq] at h
  rcases h with ((rfl | rfl) | rfl) | rfl <;> rfl

/-- There is nothing to strip from an empty text. -/
@[simp] theorem strip_nil : strip [] = [] := rfl

@[simp] theorem trim_nil : trim [] = [] := rfl

/-! ## Base ten -/

/-- A digit of the ASCII range. -/
def isAsciiDigit (c : Char) : Bool := '0' ≤ c && c ≤ '9'

/-- The number that a row of ASCII digits writes in base ten. -/
def decimalValue (cs : List Char) : Nat :=
  cs.foldl (fun n c => 10 * n + (c.toNat - '0'.toNat)) 0

/-- The digits of a natural in base ten. -/
def decimalDigits (n : Nat) : List Char := Nat.toDigits 10 n

/-- The written form of an integer in base ten. -/
def decimal (n : Int) : String :=
  (if n < 0 then "-" else "") ++ String.ofList (decimalDigits n.natAbs)

/-- The most digits that a number may have where it is read from text or written to it. -/
def digitLimit : Nat := 4300

/-- Whether a natural has more digits than the limit allows. -/
def exceedsDigitLimit (n : Nat) : Bool := tenTo digitLimit ≤ n

/-- The code points of the digit zero of each script. -/
def digitZeros : List Nat :=
  [0x30, 0x660, 0x6F0, 0x7C0, 0x966, 0x9E6, 0xA66, 0xAE6, 0xB66, 0xBE6, 0xC66, 0xCE6, 0xD66,
   0xDE6, 0xE50, 0xED0, 0xF20, 0x1040, 0x1090, 0x17E0, 0x1810, 0x1946, 0x19D0, 0x1A80, 0x1A90,
   0x1B50, 0x1BB0, 0x1C40, 0x1C50, 0xA620, 0xA8D0, 0xA900, 0xA9D0, 0xA9F0, 0xAA50, 0xABF0,
   0xFF10, 0x104A0, 0x10D30, 0x11066, 0x110F0, 0x11136, 0x111D0, 0x112F0, 0x11450, 0x114D0,
   0x11650, 0x116C0, 0x11730, 0x118E0, 0x11950, 0x11C50, 0x11D50, 0x11DA0, 0x16A60, 0x16AC0,
   0x16B50, 0x1D7CE, 0x1D7D8, 0x1D7E2, 0x1D7EC, 0x1D7F6, 0x1E140, 0x1E2F0, 0x1E950, 0x1FBF0]

/-- The value of a decimal digit of any script. -/
def digitValue? (c : Char) : Option Nat :=
  (digitZeros.find? fun first => first ≤ c.toNat && c.toNat < first + 10).map (c.toNat - ·)

example : digitZeros.length = 66 := rfl

example : digitValue? '7' = some 7 := by decide

/-! ## Base sixteen -/

/-- A number in base sixteen, padded with zeros to a width. -/
def hex (width n : Nat) : List Char :=
  let ds := Nat.toDigits 16 n
  List.replicate (width - ds.length) '0' ++ ds

/-- The value of a hexadecimal digit. -/
def hexValue? (c : Char) : Option Nat :=
  if '0' ≤ c && c ≤ '9' then some (c.toNat - '0'.toNat)
  else if 'a' ≤ c && c ≤ 'f' then some (c.toNat - 'a'.toNat + 10)
  else if 'A' ≤ c && c ≤ 'F' then some (c.toNat - 'A'.toNat + 10)
  else none

/-- A hexadecimal digit is worth less than sixteen. -/
theorem hexValue?_lt {c : Char} {n : Nat} (h : hexValue? c = some n) : n < 16 := by
  unfold hexValue? at h
  split at h
  · rename_i hc
    simp only [Bool.and_eq_true, decide_eq_true_eq, Char.le_def, UInt32.le_iff_toNat_le] at hc
    simp only [Option.some.injEq] at h
    have h₂ : c.toNat ≤ 57 := hc.2
    have h₃ : '0'.toNat = 48 := rfl
    omega
  · split at h
    · rename_i hc
      simp only [Bool.and_eq_true, decide_eq_true_eq, Char.le_def, UInt32.le_iff_toNat_le] at hc
      simp only [Option.some.injEq] at h
      have h₂ : c.toNat ≤ 102 := hc.2
      have h₃ : 'a'.toNat = 97 := rfl
      omega
    · split at h
      · rename_i hc
        simp only [Bool.and_eq_true, decide_eq_true_eq, Char.le_def, UInt32.le_iff_toNat_le] at hc
        simp only [Option.some.injEq] at h
        have h₂ : c.toNat ≤ 70 := hc.2
        have h₃ : 'A'.toNat = 65 := rfl
        omega
      · simp at h

end Text
end StockFlow
