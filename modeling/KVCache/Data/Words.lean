import Mathlib

/-! Machine words, and memory that is cut into equal pieces. Numbers are exact;
a word is what the machine keeps of one. A number that fits is kept as it is,
and then the pieces of an area do not overlap. -/

namespace Word

/-- What an `int` keeps of a number: 32 bits in two's complement. -/
def int (z : Int) : Int := z.bmod (2 ^ 32)

/-- What a `size_t` or a pointer keeps of a number: 64 bits without a sign. -/
def size (z : Int) : Nat := (z % (2 ^ 64 : Nat)).toNat

theorem int_of_fits {z : Int} (hLow : -2 ^ 31 ≤ z) (hHigh : z < 2 ^ 31) : int z = z := by
  apply Int.bmod_eq_of_le
  · exact hLow
  · exact hHigh

theorem int_natCast {n : Nat} (h : n < 2 ^ 31) : int n = n := int_of_fits (by omega) (by omega)

theorem int_lt (z : Int) : int z < 2 ^ 31 := Int.bmod_lt (by decide)

theorem size_natCast {n : Nat} (h : n < 2 ^ 64) : size n = n := by
  unfold size
  omega

/-- The piece before another one ends where the other one starts, or earlier. -/
theorem piece_le {i j width : Nat} (h : i < j) : i * width + width ≤ j * width := by
  rw [← Nat.succ_mul]
  exact Nat.mul_le_mul_right width h

end Word
