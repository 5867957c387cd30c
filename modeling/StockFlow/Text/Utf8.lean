/-!
# Characters from bytes

Bytes are read as UTF-8.  Where they encode no character, the replacement
character stands for them: once for every beginning of a character that is not
continued, and once for every byte that begins none.

Main definitions:

- {lit}`Utf8.Begun`, {lit}`Utf8.begin?`: a character of which only the first bytes were read.
- {lit}`Utf8.step`: what one more byte says.
- {lit}`Utf8.characters`: the characters that bytes encode.
-/

namespace StockFlow
namespace Utf8

/-- What stands for bytes that encode no character. -/
def replacement : Char := '\uFFFD'

/-- A character of which only the first bytes were read. -/
structure Begun where
  /-- How many bytes are missing. -/
  missing : Nat
  /-- The bounds of the next byte. -/
  lowest : Nat := 0x80
  highest : Nat := 0xBF
  /-- The bits of the bytes so far. -/
  bits : Nat

/-- The beginning that a byte makes; the bounds rule out longer forms than needed and surrogates. -/
def begin? (b : Nat) : Option Begun :=
  if 0xC2 ≤ b ∧ b ≤ 0xDF then some { missing := 1, bits := b % 0x20 }
  else if b = 0xE0 then some { missing := 2, lowest := 0xA0, bits := 0 }
  else if b = 0xED then some { missing := 2, highest := 0x9F, bits := 0xD }
  else if 0xE1 ≤ b ∧ b ≤ 0xEF then some { missing := 2, bits := b % 0x10 }
  else if b = 0xF0 then some { missing := 3, lowest := 0x90, bits := 0 }
  else if 0xF1 ≤ b ∧ b ≤ 0xF3 then some { missing := 3, bits := b % 8 }
  else if b = 0xF4 then some { missing := 3, highest := 0x8F, bits := 4 }
  else none

/-- What a byte between characters says: characters that are complete, and one that is not. -/
def fresh (b : Nat) : List Char × Option Begun :=
  if b < 0x80 then ([Char.ofNat b], none)
  else
    match begin? b with
    | some p => ([], some p)
    | none => ([replacement], none)

/-- What a byte says behind the beginning of a character. -/
def step (begun : Option Begun) (b : Nat) : List Char × Option Begun :=
  match begun with
  | none => fresh b
  | some p =>
      if p.lowest ≤ b ∧ b ≤ p.highest then
        let bits := p.bits * 0x40 + b % 0x40
        if p.missing ≤ 1 then ([Char.ofNat bits], none)
        else ([], some { missing := p.missing - 1, bits })
      else (replacement :: (fresh b).1, (fresh b).2)

/-- The characters that bytes encode behind the beginning of a character. -/
def charactersAfter (begun : Option Begun) : List Nat → List Char
  | [] => if begun.isSome then [replacement] else []
  | b :: rest => (step begun b).1 ++ charactersAfter (step begun b).2 rest

/-- The characters that bytes encode. -/
def characters (bytes : List Nat) : List Char := charactersAfter none bytes

/-- No bytes are no characters. -/
@[simp] theorem characters_nil : characters [] = [] := rfl

/-- A byte below 128 is a character of its own. -/
theorem characters_cons_of_lt {b : Nat} (h : b < 0x80) (rest : List Nat) :
    characters (b :: rest) = Char.ofNat b :: characters rest := by
  simp [characters, charactersAfter, step, fresh, h]

/-! ## Examples -/

example : characters [0xC3, 0xA9, 0xE2, 0x82, 0xAC] = ['é', '€'] := by decide

example : characters [0xF0, 0x9F, 0x98, 0x2F, 0x80] = [replacement, '/', replacement] := by decide

end Utf8
end StockFlow
