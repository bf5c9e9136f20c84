import Mathlib

/-!
# Unsigned LEB128

The variable-length encoding of natural numbers used by Protocol Buffers and
many other formats: the number in base 128, lowest digit first, one digit a
byte, with the high bit (`0x80`) of every byte but the last set.

* `encode` is the encoding, `value` reads the digits of a byte string back
  (`value_encode`);
* `length_encode` gives the length, `max 1 ⌈size n / 7⌉` with `Nat.size` the
  bit length, from `length_encode_le_iff`: an encoding of at most `k + 1`
  bytes holds exactly the numbers below `128 ^ (k + 1)`;
* `and_high_encode` and `and_high_getLast_encode` say where the continuation
  bits are;
* `decode` reads a number off the front of a byte string, and reads back what
  `encode` wrote whatever follows it (`decode_encode_append`).
-/

namespace Leb128

/-- The unsigned LEB128 encoding of `n`. -/
def encode (n : ℕ) : List UInt8 :=
  if n < 128 then [n.toUInt8] else (n % 128 + 128).toUInt8 :: encode (n / 128)
termination_by n
decreasing_by omega

/-- The number the low seven bits of the bytes hold, lowest digit first. -/
def value : List UInt8 → ℕ
  | [] => 0
  | b :: bytes => (b &&& 0x7f).toNat + 128 * value bytes

theorem encode_of_lt {n : ℕ} (h : n < 128) : encode n = [n.toUInt8] := by
  rw [encode, if_pos h]

theorem encode_of_le {n : ℕ} (h : 128 ≤ n) :
    encode n = (n % 128 + 128).toUInt8 :: encode (n / 128) := by
  rw [encode, if_neg (by omega)]

theorem encode_ne_nil (n : ℕ) : encode n ≠ [] := by
  rw [encode]
  split <;> simp

/-! ### The bytes as numbers -/

theorem toNat_toUInt8_of_lt {n : ℕ} (h : n < 256) : n.toUInt8.toNat = n := by
  simp [Nat.mod_eq_of_lt h]

/-- The low seven bits of a byte are its residue modulo `128`. -/
theorem toNat_and_low (b : UInt8) : (b &&& 0x7f).toNat = b.toNat % 128 := by
  rw [UInt8.toNat_and, show (0x7f : UInt8).toNat = 2 ^ 7 - 1 from rfl,
    Nat.and_two_pow_sub_one_eq_mod]

/-- The high bit of a byte is set exactly on the bytes from `128` on. -/
theorem toNat_and_high (b : UInt8) : (b &&& 0x80).toNat = b.toNat / 128 * 128 := by
  have hb := b.toNat_lt
  rw [UInt8.toNat_and, show (0x80 : UInt8).toNat = 2 ^ 7 from rfl, Nat.and_two_pow,
    Nat.toNat_testBit]
  omega

theorem and_high_of_le {b : UInt8} (h : 128 ≤ b.toNat) : b &&& 0x80 = 0x80 := by
  apply UInt8.toNat_inj.mp
  rw [toNat_and_high]
  have hb := b.toNat_lt
  simp only [UInt8.reduceToNat]
  omega

theorem and_high_of_lt {b : UInt8} (h : b.toNat < 128) : b &&& 0x80 = 0 := by
  apply UInt8.toNat_inj.mp
  rw [toNat_and_high]
  simp only [UInt8.toNat_zero]
  omega

/-- `value` is the sum of the digits weighted by the powers of `128`, with
the weights of the digits starting at `128 ^ k`. -/
theorem sum_mapIdx_mul_pow (bytes : List UInt8) (k : ℕ) :
    (bytes.mapIdx fun i b => (b &&& 0x7f).toNat * 128 ^ (i + k)).sum = 128 ^ k * value bytes := by
  induction bytes generalizing k with
  | nil => simp [value]
  | cons b bytes ih =>
    have hshift : (fun i (b : UInt8) => (b &&& 0x7f).toNat * 128 ^ (i + 1 + k)) =
        fun i b => (b &&& 0x7f).toNat * 128 ^ (i + (k + 1)) := by
      funext i b
      rw [Nat.add_right_comm, Nat.add_assoc]
    rw [List.mapIdx_cons, List.sum_cons, hshift, ih (k + 1), value, Nat.zero_add, pow_succ]
    simp only [Nat.mul_add, Nat.mul_comm, Nat.mul_assoc]

/-- `value` is the sum of `(b_i & 0x7f) * 128 ^ i`. -/
theorem value_eq_sum (bytes : List UInt8) :
    value bytes = (bytes.mapIdx fun i b => (b &&& 0x7f).toNat * 128 ^ i).sum := by
  simpa using (sum_mapIdx_mul_pow bytes 0).symm

/-! ### Round trip and length -/

/-- Reading the digits of an encoding gives the number back. -/
theorem value_encode (n : ℕ) : value (encode n) = n := by
  induction n using Nat.strongRecOn with
  | ind n ih =>
    by_cases h : n < 128
    · rw [encode_of_lt h, value, value, toNat_and_low, toNat_toUInt8_of_lt (by omega)]
      omega
    · rw [encode_of_le (by omega), value, ih (n / 128) (by omega), toNat_and_low,
        toNat_toUInt8_of_lt (by omega)]
      omega

/-- An encoding takes at most `k + 1` bytes exactly when the number is below
`128 ^ (k + 1)`. -/
theorem length_encode_le_iff (n k : ℕ) : (encode n).length ≤ k + 1 ↔ n < 128 ^ (k + 1) := by
  induction k generalizing n with
  | zero =>
    by_cases h : n < 128
    · simp [encode_of_lt h, h]
    · rw [encode_of_le (by omega), List.length_cons]
      have := List.length_pos_iff.mpr (encode_ne_nil (n / 128))
      simp only [zero_add, pow_one]
      omega
  | succ k ih =>
    by_cases h : n < 128
    · have hpow : 128 ≤ 128 ^ (k + 1 + 1) := Nat.le_self_pow (by omega) 128
      simp only [encode_of_lt h, List.length_singleton]
      omega
    · rw [encode_of_le (by omega), List.length_cons, Nat.add_le_add_iff_right, ih (n / 128),
        Nat.div_lt_iff_lt_mul (by decide), ← pow_succ]

/-- The length of an encoding: one byte for every started group of seven bits,
and one byte for zero. -/
theorem length_encode (n : ℕ) : (encode n).length = max 1 ((Nat.size n + 6) / 7) := by
  apply eq_of_forall_ge_iff
  intro c
  cases c with
  | zero =>
    have := List.length_pos_iff.mpr (encode_ne_nil n)
    omega
  | succ k =>
    -- both sides are the least number of seven-bit groups that hold `n`
    have hsize : Nat.size n ≤ 7 * (k + 1) ↔ n < 128 ^ (k + 1) := by
      rw [Nat.size_le, pow_mul]
      rfl
    rw [length_encode_le_iff, ← hsize]
    omega

/-! ### Continuation bits -/

/-- Every byte of an encoding but the last has its high bit set. -/
theorem and_high_encode (n i : ℕ) (hi : i + 1 < (encode n).length) :
    (encode n)[i] &&& 0x80 = 0x80 := by
  induction n using Nat.strongRecOn generalizing i with
  | ind n ih =>
    by_cases h : n < 128
    · simp [encode_of_lt h] at hi
    · have henc := encode_of_le (n := n) (by omega)
      cases i with
      | zero =>
        simp only [henc, List.getElem_cons_zero]
        exact and_high_of_le (by rw [toNat_toUInt8_of_lt (by omega)]; omega)
      | succ j =>
        simp only [henc, List.length_cons, List.getElem_cons_succ] at hi ⊢
        exact ih (n / 128) (by omega) j (by omega)

/-- The last byte of an encoding has its high bit clear. -/
theorem and_high_getLast_encode (n : ℕ) :
    (encode n).getLast (encode_ne_nil n) &&& 0x80 = 0 := by
  induction n using Nat.strongRecOn with
  | ind n ih =>
    by_cases h : n < 128
    · simp only [encode_of_lt h, List.getLast_singleton]
      exact and_high_of_lt (by rw [toNat_toUInt8_of_lt (by omega)]; exact h)
    · simp only [encode_of_le (n := n) (by omega)]
      rw [List.getLast_cons (encode_ne_nil _)]
      exact ih (n / 128) (by omega)

/-! ### Decoding -/

/-- The number at the front of a byte string, and the bytes after it; `none`
when the bytes end inside the number. -/
def decode : List UInt8 → Option (ℕ × List UInt8)
  | [] => none
  | b :: bytes =>
    if b.toNat < 128 then some (b.toNat, bytes)
    else (decode bytes).map fun r => (b.toNat - 128 + 128 * r.1, r.2)

/-- Decoding an encoding reads the number and leaves what follows. -/
theorem decode_encode_append (n : ℕ) (rest : List UInt8) :
    decode (encode n ++ rest) = some (n, rest) := by
  induction n using Nat.strongRecOn with
  | ind n ih =>
    by_cases h : n < 128
    · rw [encode_of_lt h, List.singleton_append, decode, toNat_toUInt8_of_lt (by omega), if_pos h]
    · rw [encode_of_le (by omega), List.cons_append, decode, toNat_toUInt8_of_lt (by omega),
        if_neg (by omega), ih (n / 128) (by omega), Option.map_some]
      congr 2
      omega

end Leb128
