/-!
# Sums of doubles

Addition of doubles is not associative, so a total is only determined once the
order of the additions is.  The total of a series is taken blockwise: short
series from left to right, series of up to 128 values in eight interleaved
running sums, longer ones as the sum of their two halves, the left half having a
multiple of eight values.
-/

namespace StockFlow
namespace Double

/-- Left to right, from negative zero, so that the sum of one value is that value. -/
def sumFromLeft (xs : List Float) : Float :=
  xs.foldl (· + ·) (-0.0)

/-- Eight running sums side by side. -/
structure Lanes where
  a : Float
  b : Float
  c : Float
  d : Float
  e : Float
  f : Float
  g : Float
  h : Float

/-- The lanes joined pairwise. -/
def Lanes.total (s : Lanes) : Float :=
  ((s.a + s.b) + (s.c + s.d)) + ((s.e + s.f) + (s.g + s.h))

/-- Adds whole groups of eight to the lanes and what remains to their total, left to right. -/
def sumLanes (s : Lanes) : List Float → Float
  | a :: b :: c :: d :: e :: f :: g :: h :: rest =>
      sumLanes ⟨s.a + a, s.b + b, s.c + c, s.d + d, s.e + e, s.f + f, s.g + g, s.h + h⟩ rest
  | rest => rest.foldl (· + ·) s.total

/-- The sum of at most one block of values. -/
def sumBlock : List Float → Float
  | a :: b :: c :: d :: e :: f :: g :: h :: rest => sumLanes ⟨a, b, c, d, e, f, g, h⟩ rest
  | xs => sumFromLeft xs

/-- The longest series that is not halved. -/
def blockSize : Nat := 128

/--
How many values of a long series its left half has: the largest multiple of eight up to one
half.
-/
def leftHalf (n : Nat) : Nat := n / 2 - n / 2 % 8

/-- The left half of more than a block is not empty. -/
theorem leftHalf_pos {n : Nat} (h : blockSize < n) : 0 < leftHalf n := by
  simp only [blockSize, leftHalf] at *
  omega

/-- The left half of more than a block is not all of it. -/
theorem leftHalf_lt {n : Nat} (h : blockSize < n) : leftHalf n < n := by
  simp only [blockSize, leftHalf] at *
  omega

/-- The blockwise sum of a series. -/
def sumBlocks (xs : List Float) : Float :=
  if _h : blockSize < xs.length then
    sumBlocks (xs.take (leftHalf xs.length)) + sumBlocks (xs.drop (leftHalf xs.length))
  else
    sumBlock xs
termination_by xs.length
decreasing_by
  · have := leftHalf_lt ‹_›
    simp only [List.length_take]
    omega
  · have := leftHalf_pos ‹_›
    simp only [List.length_drop, blockSize] at *
    omega

/-- The total of a series; the empty series has total zero. -/
def total (xs : List Float) : Float := 0.0 + sumBlocks xs

end Double
end StockFlow
