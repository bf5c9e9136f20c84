import Vodozemac.Cipher
import Vodozemac.Lib.Leb128
import Vodozemac.Lib.Base64

/-!
# Vodozemac.Utilities

The helpers of `src/utilities` that the message formats use:

* `toVarInt`, the unsigned VarInt (LEB128) encoding of `to_var_int`: a buffer
  of `required_encoded_space_unsigned` zero bytes is filled by the
  `while n >= 0x80` loop, seven bits a byte, and the last byte is written after
  the loop. Both loops end because the value loses seven bits a round.
* `extractMac`, which reads the MAC of a message as a truncated or a full tag.

Where the source can panic (`&slice[0..n]` out of bounds), the model returns
an `Option`, `none` standing for the panic.

`base64_encode` is the encoding of `Vodozemac.Lib.Base64`, with the characters
of the `String` kept as their ASCII bytes; `base64_decode` is a decoder of the
`base64` crate and a parameter of `Vodozemac.Codecs`. The JSON pickles are left
out: no modelled function reads the text form of a value.

`toVarInt_eq_encode` says that `to_var_int` computes the unsigned LEB128
encoding of `Vodozemac.Lib.Leb128`: the buffer `required_encoded_space_unsigned`
sizes is exactly as long as the encoding, and the loop writes its bytes in
order, ending one index before the last, where the final byte goes.
-/

namespace Vodozemac

theorem shiftRight_seven_lt {v : UInt64} (h : 0 < v) : (v >>> 7).toNat < v.toNat := by
  have hv : 0 < v.toNat := UInt64.lt_iff_toNat_lt.mp h
  rw [UInt64.toNat_shiftRight, Nat.shiftRight_eq_div_pow]
  simp only [show (7 : UInt64).toNat % 64 = 7 from rfl]
  omega

theorem pos_of_msb_le {n : UInt64} (h : 0x80 ≤ n) : 0 < n := by
  have := UInt64.le_iff_toNat_le.mp h
  apply UInt64.lt_iff_toNat_lt.mpr
  simp only [UInt64.toNat_ofNat] at this ⊢
  omega

/-- `MSB`, the continuation bit of a VarInt byte. -/
def msb : UInt8 := 0b1000_0000

/-- The `while v > 0` loop of `required_encoded_space_unsigned`. -/
def logCounter (v : UInt64) (logcounter : ℕ) : ℕ :=
  if 0 < v then logCounter (v >>> 7) (logcounter + 1) else logcounter
termination_by v.toNat
decreasing_by exact shiftRight_seven_lt ‹0 < v›

/-- `required_encoded_space_unsigned`: how many bytes the VarInt of `v` takes. -/
def requiredEncodedSpaceUnsigned (v : UInt64) : ℕ :=
  if v = 0 then 1 else logCounter v 0

/-- The `while n >= 0x80` loop of `to_var_int`: the buffer `v`, the index `i` and
the part `n` of the value still to write. -/
def varIntLoop (v : List UInt8) (i : ℕ) (n : UInt64) : List UInt8 × ℕ × UInt64 :=
  if 0x80 ≤ n then varIntLoop (v.set i (msb ||| n.toUInt8)) (i + 1) (n >>> 7)
  else (v, i, n)
termination_by n.toNat
decreasing_by exact shiftRight_seven_lt (pos_of_msb_le ‹0x80 ≤ n›)

/-- `VarInt::to_var_int` for `u64`; the `u32` and `usize` instances convert to
`u64` first. -/
def toVarInt (self : UInt64) : List UInt8 :=
  let (v, i, n) := varIntLoop (List.replicate (requiredEncodedSpaceUnsigned self) 0) 0 self
  v.set i n.toUInt8

/-- `base64_encode`: the `STANDARD_NO_PAD` encoding of the `base64` crate. -/
def base64Encode (input : List UInt8) : List UInt8 := Base64.encode input

/-- `&bytes[start..stop]`; `none` is the panic of a range out of bounds. -/
def subslice (bytes : List UInt8) (start stop : ℕ) : Option (List UInt8) :=
  if start ≤ stop ∧ stop ≤ bytes.length then some ((bytes.take stop).drop start) else none

/-- An in-bounds slice, byte by byte. -/
theorem subslice_eq {bytes : List UInt8} {start stop : ℕ} (h : start ≤ stop)
    (h' : stop ≤ bytes.length) :
    subslice bytes start stop =
      some ((List.range (stop - start)).map fun t => bytes.getD (start + t) 0) := by
  rw [subslice, if_pos ⟨h, h'⟩, Option.some.injEq]
  apply List.ext_getElem
  · simp
    omega
  · intro j hj _
    simp only [List.length_drop, List.length_take] at hj
    simp only [List.getElem_drop, List.getElem_take, List.getElem_map, List.getElem_range,
      List.getD_eq_getElem?_getD, List.getElem?_eq_getElem (show start + j < bytes.length by omega),
      Option.getD_some]

/-- A slice of the middle of a byte string. -/
theorem subslice_append (pre mid post : List UInt8) :
    subslice (pre ++ mid ++ post) pre.length (pre.length + mid.length) = some mid := by
  rw [subslice, if_pos ⟨by omega, by simp⟩, List.append_assoc, List.take_append,
    List.take_of_length_le (by omega), Nat.add_sub_cancel_left, List.take_append_of_le_length le_rfl,
    List.take_length, List.drop_left]

/-- A slice is no longer than the bytes it is cut from. -/
theorem length_le_of_subslice {bytes slice : List UInt8} {start stop : ℕ}
    (h : subslice bytes start stop = some slice) : slice.length ≤ bytes.length := by
  rw [subslice] at h
  split at h
  · cases h
    simp only [List.length_drop, List.length_take]
    omega
  · cases h

/-- `isize::MAX`: a `Vec<u8>` or a slice holds at most this many bytes. -/
def isizeMax : ℕ := 2 ^ 63 - 1

/-- `(start..stop).step_by(step)`. -/
def stepBy (start stop step : ℕ) : List ℕ :=
  List.range' start ((stop - start + step - 1) / step) step

/-- `extract_mac`: the first eight bytes as a truncated tag, or the first 32 as
a full one; `none` is the panic of `&slice[0..n]` on a shorter slice. -/
def extractMac (slice : List UInt8) (truncated : Bool) : Option MessageMac :=
  if truncated then
    if h : Mac.truncatedLen ≤ slice.length then
      some (.truncated ⟨slice.take Mac.truncatedLen, by simp [Mac.truncatedLen] at h ⊢; omega⟩)
    else none
  else
    if h : Mac.length ≤ slice.length then
      some (.full ⟨⟨slice.take Mac.length, by simp [Mac.length] at h ⊢; omega⟩⟩)
    else none

/-- The form of MAC a message version carries: truncated for `truncatedVersion`,
full for `fullVersion`. -/
def MessageMac.OfVersion (mac : MessageMac) (truncatedVersion fullVersion version : UInt8) : Prop :=
  match mac with
  | .truncated _ => version = truncatedVersion
  | .full _ => version = fullVersion

instance (mac : MessageMac) (truncatedVersion fullVersion version : UInt8) :
    Decidable (mac.OfVersion truncatedVersion fullVersion version) :=
  match mac with
  | .truncated _ => inferInstanceAs (Decidable (version = truncatedVersion))
  | .full _ => inferInstanceAs (Decidable (version = fullVersion))

/-- `extract_mac` reads a MAC back from its bytes, whatever follows them, when
told its form. -/
theorem extractMac_asBytes_append (mac : MessageMac) (rest : List UInt8) :
    extractMac (mac.asBytes ++ rest) (mac matches .truncated _) = some mac := by
  cases mac with
  | truncated m =>
    have h : Mac.truncatedLen ≤ (m.toList ++ rest).length := by simp [Mac.truncatedLen]
    rw [MessageMac.asBytes, extractMac, if_pos rfl, dif_pos h]
    congr
    exact List.take_left' (by simp [Mac.truncatedLen])
  | full m =>
    have h : Mac.length ≤ (m.bytes.toList ++ rest).length := by simp [Mac.length]
    rw [MessageMac.asBytes, extractMac, if_neg (by simp), dif_pos h]
    congr
    exact List.take_left' (by simp [Mac.length])

/-- `extract_mac` reads a MAC back from its bytes, whatever follows them, when
told its form by a version that calls for it. -/
theorem extractMac_append_of_ofVersion {mac : MessageMac}
    {truncatedVersion fullVersion version : UInt8} (hne : truncatedVersion ≠ fullVersion)
    (h : mac.OfVersion truncatedVersion fullVersion version) (rest : List UInt8) :
    extractMac (mac.asBytes ++ rest) (version == truncatedVersion) = some mac := by
  have hext := extractMac_asBytes_append mac rest
  cases mac with
  | truncated t =>
    obtain rfl : version = truncatedVersion := h
    rw [beq_self_eq_true]
    exact hext
  | full t =>
    obtain rfl : version = fullVersion := h
    rw [beq_false_of_ne (Ne.symm hne)]
    exact hext

/-- `extract_mac` returns the form it is told. -/
theorem isTruncated_extractMac {slice : List UInt8} {truncated : Bool} {mac : MessageMac}
    (h : extractMac slice truncated = some mac) : (mac matches .truncated _) = truncated := by
  cases truncated with
  | true =>
    rw [extractMac, if_pos rfl] at h
    split at h
    · cases h
      rfl
    · cases h
  | false =>
    rw [extractMac, if_neg Bool.false_ne_true] at h
    split at h
    · cases h
      rfl
    · cases h

@[simp] theorem length_asBytes (mac : MessageMac) :
    mac.asBytes.length = if mac matches .truncated _ then Mac.truncatedLen else Mac.length := by
  cases mac <;> simp [MessageMac.asBytes, Mac.truncatedLen, Mac.length]

/-! ### `to_var_int` is LEB128 -/

theorem toNat_shiftRight_seven (v : UInt64) : (v >>> 7).toNat = v.toNat / 128 := by
  rw [UInt64.toNat_shiftRight, Nat.shiftRight_eq_div_pow]
  rfl

/-- Setting the continuation bit of a byte adds `128` to its low seven bits. -/
theorem toNat_msb_or (x : UInt8) : (msb ||| x).toNat = x.toNat % 128 + 128 := by
  have hx := x.toNat_lt
  rw [UInt8.toNat_or, show msb.toNat = 2 ^ 7 * 1 from rfl]
  by_cases h : x.toNat < 2 ^ 7
  · rw [← Nat.two_pow_add_eq_or_of_lt h]
    omega
  · -- the bit is already set: or-ing it again changes nothing
    obtain ⟨r, hr, hxr⟩ : ∃ r, r < 2 ^ 7 ∧ x.toNat = 2 ^ 7 * 1 + r :=
      ⟨x.toNat - 128, by omega, by omega⟩
    rw [hxr, Nat.two_pow_add_eq_or_of_lt hr, ← Nat.or_assoc, Nat.or_self,
      ← Nat.two_pow_add_eq_or_of_lt hr]
    omega

/-- The byte the loop writes while the value is at least `0x80`: its low seven
bits with the continuation bit. -/
theorem msb_or_toUInt8 (n : UInt64) : msb ||| n.toUInt8 = (n.toNat % 128 + 128).toUInt8 := by
  apply UInt8.toNat_inj.mp
  rw [toNat_msb_or, UInt64.toNat_toUInt8, Leb128.toNat_toUInt8_of_lt (by omega)]
  omega

theorem toUInt8_of_lt {n : UInt64} (h : n.toNat < 128) : n.toUInt8 = n.toNat.toUInt8 := by
  apply UInt8.toNat_inj.mp
  rw [UInt64.toNat_toUInt8, Leb128.toNat_toUInt8_of_lt (by omega)]
  omega

theorem logCounter_zero (c : ℕ) : logCounter 0 c = c := by
  rw [logCounter, if_neg (by decide)]

/-- `required_encoded_space_unsigned`'s loop counts the bytes of the encoding. -/
theorem logCounter_eq {v : UInt64} (h : 0 < v) (c : ℕ) :
    logCounter v c = c + (Leb128.encode v.toNat).length := by
  fun_induction logCounter v c with
  | case1 v c hv ih =>
    have hshift := toNat_shiftRight_seven v
    by_cases hsmall : v.toNat < 128
    · -- one byte: the shifted value is zero and the loop stops
      have hzero : v >>> 7 = 0 := UInt64.toNat_inj.mp (by rw [hshift]; simp; omega)
      rw [hzero, logCounter_zero, Leb128.encode_of_lt hsmall, List.length_singleton]
    · have hpos : (0 : UInt64) < v >>> 7 := UInt64.lt_iff_toNat_lt.mpr (by
        rw [hshift, UInt64.toNat_zero]
        omega)
      rw [ih hpos, hshift, Leb128.encode_of_le (n := v.toNat) (by omega), List.length_cons]
      omega
  | case2 v c hv => exact absurd h hv

/-- The buffer of `to_var_int` is exactly as long as the encoding. -/
theorem requiredEncodedSpaceUnsigned_eq (v : UInt64) :
    requiredEncodedSpaceUnsigned v = (Leb128.encode v.toNat).length := by
  unfold requiredEncodedSpaceUnsigned
  split
  · next h => simp [h, Leb128.encode_of_lt]
  · next h =>
    have hpos : 0 < v := UInt64.pos_iff_ne_zero.mpr h
    rw [logCounter_eq hpos, Nat.zero_add]

/-- The loop of `to_var_int`, started on a buffer whose written prefix `pre`
ends at the index and whose rest is as long as the encoding of `n`: it stops at
the last byte of the buffer, and the write after the loop completes the
encoding of `n` after `pre`. The induction follows the loop, one byte a round. -/
theorem varIntLoop_spec (v : List UInt8) (i : ℕ) (n : UInt64) (pre rest : List UInt8)
    (hv : v = pre ++ rest) (hi : i = pre.length)
    (hrest : rest.length = (Leb128.encode n.toNat).length) :
    (varIntLoop v i n).2.1 + 1 = i + rest.length ∧
      (varIntLoop v i n).1.set (varIntLoop v i n).2.1 (varIntLoop v i n).2.2.toUInt8 =
        pre ++ Leb128.encode n.toNat := by
  fun_induction varIntLoop v i n generalizing pre rest with
  | case1 v i n hn ih =>
    have hle : 128 ≤ n.toNat := by
      have := UInt64.le_iff_toNat_le.mp hn
      simpa using this
    have henc := Leb128.encode_of_le hle
    -- the buffer has a byte at the index: the loop writes the continuation byte there
    obtain ⟨r, rest', rfl⟩ : ∃ r rest', rest = r :: rest' :=
      List.exists_cons_of_length_pos (by rw [hrest, henc, List.length_cons]; omega)
    have hset : v.set i (msb ||| n.toUInt8) = (pre ++ [msb ||| n.toUInt8]) ++ rest' := by
      rw [hv, hi, List.set_append_right _ _ (le_refl _), Nat.sub_self, List.set_cons_zero,
        List.append_assoc, List.singleton_append]
    obtain ⟨hidx, hbytes⟩ := ih (pre ++ [msb ||| n.toUInt8]) rest' hset
      (by rw [hi, List.length_append, List.length_singleton])
      (by
        rw [henc] at hrest
        simp only [List.length_cons] at hrest
        rw [toNat_shiftRight_seven]
        omega)
    refine ⟨by rw [hidx, List.length_cons]; omega, ?_⟩
    rw [hbytes, toNat_shiftRight_seven, henc, msb_or_toUInt8, List.append_assoc,
      List.singleton_append]
  | case2 v i n hn =>
    have hlt : n.toNat < 128 := by
      have := UInt64.not_le.mp hn
      simpa using UInt64.lt_iff_toNat_lt.mp this
    -- the last byte: the rest of the buffer is one byte long
    have henc := Leb128.encode_of_lt hlt
    rw [henc, List.length_singleton] at hrest
    obtain ⟨r, rfl⟩ : ∃ r, rest = [r] := List.length_eq_one_iff.mp hrest
    refine ⟨by rw [hi, hrest], ?_⟩
    rw [hv, hi, List.set_append_right _ _ (le_refl _), Nat.sub_self, List.set_cons_zero, henc,
      toUInt8_of_lt hlt]

/-- `to_var_int` computes the unsigned LEB128 encoding. -/
theorem toVarInt_eq_encode (n : UInt64) : toVarInt n = Leb128.encode n.toNat := by
  have hspec := varIntLoop_spec (List.replicate (requiredEncodedSpaceUnsigned n) 0) 0 n []
    (List.replicate (requiredEncodedSpaceUnsigned n) 0) rfl rfl
    (by rw [List.length_replicate, requiredEncodedSpaceUnsigned_eq])
  unfold toVarInt
  rcases hr : varIntLoop (List.replicate (requiredEncodedSpaceUnsigned n) 0) 0 n with ⟨v, i, m⟩
  rw [hr] at hspec
  exact hspec.2

/-- `to_var_int` is the unsigned LEB128 encoding: the buffer that
`required_encoded_space_unsigned` sizes, `max 1 ⌈bit length / 7⌉` bytes, is
filled exactly; the continuation bit is set on every byte but the last; the low
seven bits of the bytes are the base-128 digits of the value; and the loop stops
at the last index of the buffer, where the final byte is written, after writing
one byte a round at the indices before it. -/
theorem toVarInt_leb128 (n : UInt64) :
    (toVarInt n).length = requiredEncodedSpaceUnsigned n ∧
      requiredEncodedSpaceUnsigned n = max 1 ((Nat.size n.toNat + 6) / 7) ∧
      (∀ i (hi : i + 1 < (toVarInt n).length), (toVarInt n)[i] &&& msb = msb) ∧
      (∃ h : toVarInt n ≠ [], (toVarInt n).getLast h &&& msb = 0) ∧
      ((toVarInt n).mapIdx fun i b => (b &&& 0x7f).toNat * 128 ^ i).sum = n.toNat ∧
      (varIntLoop (List.replicate (requiredEncodedSpaceUnsigned n) 0) 0 n).2.1 + 1 =
        requiredEncodedSpaceUnsigned n := by
  have hlen := requiredEncodedSpaceUnsigned_eq n
  have hloop := varIntLoop_spec (List.replicate (requiredEncodedSpaceUnsigned n) 0) 0 n []
    (List.replicate (requiredEncodedSpaceUnsigned n) 0) rfl rfl
    (by rw [List.length_replicate, hlen])
  simp only [toVarInt_eq_encode]
  refine ⟨hlen.symm, by rw [hlen, Leb128.length_encode], ?_, ?_, ?_, ?_⟩
  · intro i hi
    exact Leb128.and_high_encode _ i hi
  · exact ⟨Leb128.encode_ne_nil _, Leb128.and_high_getLast_encode _⟩
  · rw [← Leb128.value_eq_sum, Leb128.value_encode]
  · rw [hloop.1, List.length_replicate, Nat.zero_add]

end Vodozemac
