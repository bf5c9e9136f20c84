import Mathlib

/-!
# Bit masks of fixed-width words as arithmetic

Fixed-width code selects the high digits of a word with a mask of high ones
(`!0u32 << s`) and the low digits with a mask of low ones (`0xff`). This module
turns both into `/`, `*` and `%` on `ℕ`, where `omega` can take over.
-/

namespace Bitwise

/-- Masking a `w`-bit number with ones in bits `s .. w-1` rounds it down to a
multiple of `2 ^ s`. -/
theorem and_high_mask {x w s : ℕ} (hs : s ≤ w) (hx : x < 2 ^ w) :
    x &&& (2 ^ w - 2 ^ s) = x / 2 ^ s * 2 ^ s := by
  apply Nat.eq_of_testBit_eq
  intro i
  have hm : 2 ^ w - 2 ^ s = (2 ^ (w - s) - 1) <<< s := by
    rw [Nat.shiftLeft_eq, Nat.sub_mul, one_mul, ← pow_add, Nat.sub_add_cancel hs]
  rw [hm, Nat.testBit_and, Nat.testBit_shiftLeft, Nat.testBit_two_pow_sub_one,
    ← Nat.shiftRight_eq_div_pow, ← Nat.shiftLeft_eq, Nat.testBit_shiftLeft,
    Nat.testBit_shiftRight]
  by_cases hi : s ≤ i
  · by_cases hiw : i < w
    · have hbit : i - s < w - s := by omega
      simp [hi, hbit, Nat.add_sub_cancel' hi]
    · -- above the word width both sides are zero
      have hzero : x.testBit i = false :=
        Nat.testBit_lt_two_pow (lt_of_lt_of_le hx (Nat.pow_le_pow_right (by decide) (by omega)))
      simp [hi, hzero, Nat.add_sub_cancel' hi]
  · simp [hi]

end Bitwise
