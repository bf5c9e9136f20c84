import Mathlib
import Vodozemac.Utilities

/-!
# Vodozemac.Sas

Short authentication strings, `src/sas.rs`. Each side of a verification makes
an ephemeral X25519 key pair (`Sas`); the Diffie-Hellman secret with the other
side's public key gives an `EstablishedSas`, whose HKDF output is shown to the
users as six bytes (`SasBytes`): seven emoji indices of six bits each, or three
decimals of thirteen bits each, offset by 1000. The established secret also
keys HMACs of the identities being verified (`calculate_mac`), and
`calculate_mac_invalid_base64` reproduces the base64 text libolm produced for
such a MAC when it encoded the MAC over its own buffer.

The results of this module:

* `bytesToEmojiIndex_bytesToDecimal`: the emoji indices and decimals are the
  claimed bit fields of the 48-bit big-endian number of the bytes, computed
  without overflow of the `u64` and `u16` arithmetic;
* `calculateMacInvalidBase64_inPlace`: the hand-unrolled loops of
  `calculate_mac_invalid_base64` compute the in-place encoding
  `Base64.encodeInPlace` for every 32-byte MAC.

Strings are kept as their UTF-8 bytes.
-/

namespace Vodozemac

/-- The `Mac` of `src/sas.rs`: the bytes of an HMAC-SHA-256 tag. -/
structure SasMac where
  bytes : List UInt8
  deriving DecidableEq

/-- `InvalidCount`: more HKDF output was asked for than HKDF-SHA-256 gives. -/
structure InvalidCount where
  deriving DecidableEq

/-- `SasError`: a MAC did not verify. -/
inductive SasError
  | mac (e : MacError)
  deriving DecidableEq

/-- `SasBytes`: the six bytes shown to the users. -/
structure SasBytes where
  bytes : Bytes 6
  deriving DecidableEq

namespace SasBytes

/-- The `u64` that `bytes_to_emoji_index` joins the six bytes into. -/
def emojiNum (bytes : Bytes 6) : UInt64 :=
  let bytes := bytes.map UInt8.toUInt64
  let num : UInt64 := bytes.get 0 <<< 40
  let num := num + (bytes.get 1 <<< 32)
  let num := num + (bytes.get 2 <<< 24)
  let num := num + (bytes.get 3 <<< 16)
  let num := num + (bytes.get 4 <<< 8)
  num + bytes.get 5

/-- `SasBytes::bytes_to_emoji_index`: the top 42 of the 48 bits, six at a time. -/
def bytesToEmojiIndex (bytes : Bytes 6) : Bytes 7 :=
  let num := emojiNum bytes
  ⟨[((num >>> 42) &&& 63).toUInt8, ((num >>> 36) &&& 63).toUInt8,
    ((num >>> 30) &&& 63).toUInt8, ((num >>> 24) &&& 63).toUInt8,
    ((num >>> 18) &&& 63).toUInt8, ((num >>> 12) &&& 63).toUInt8,
    ((num >>> 6) &&& 63).toUInt8], rfl⟩

/-- `SasBytes::bytes_to_decimal`: three 13-bit fields of the first five bytes,
in `u16` arithmetic. -/
def bytesToDecimal (bytes : Bytes 6) : UInt16 × UInt16 × UInt16 :=
  let bytes := bytes.map UInt8.toUInt16
  let first := bytes.get 0 <<< 5 ||| bytes.get 1 >>> 3
  let second := (bytes.get 1 &&& 0x7) <<< 10 ||| bytes.get 2 <<< 2 ||| bytes.get 3 >>> 6
  let third := (bytes.get 3 &&& 0x3F) <<< 7 ||| bytes.get 4 >>> 1
  (first + 1000, second + 1000, third + 1000)

/-- `SasBytes::emoji_indices`. -/
def emojiIndices (self : SasBytes) : Bytes 7 := bytesToEmojiIndex self.bytes

/-- `SasBytes::decimals`. -/
def decimals (self : SasBytes) : UInt16 × UInt16 × UInt16 := bytesToDecimal self.bytes

/-- The number the six bytes form, most significant byte first. -/
def bigEndian (bytes : Bytes 6) : ℕ := bytes.toList.foldl (fun acc b => acc * 256 + b.toNat) 0

end SasBytes

/-- `Sas`: an ephemeral key pair. -/
structure Sas where
  secretKey : Curve25519SecretKey
  publicKey : Curve25519PublicKey

/-- `EstablishedSas`: the shared secret and both public keys. -/
structure EstablishedSas where
  sharedSecret : Bytes 32
  ourPublicKey : Curve25519PublicKey
  theirPublicKey : Curve25519PublicKey

variable (P : Primitives)

namespace Sas

/-- `Sas::new`, with the secret that `EphemeralSecret::new` draws. -/
def new (freshKey : Curve25519SecretKey) : Sas := ⟨freshKey, P.x25519PublicKey freshKey⟩

/-- `Sas::diffie_hellman`: `was_contributory` rejects the all-zero secret. -/
def diffieHellman (self : Sas) (theirPublicKey : Curve25519PublicKey) :
    Except KeyError EstablishedSas :=
  let sharedSecret := P.x25519 self.secretKey theirPublicKey
  if sharedSecret ≠ Bytes.zero 32 then .ok ⟨sharedSecret, self.publicKey, theirPublicKey⟩
  else .error .nonContributoryKey

end Sas

/-- A round of the first loop of `calculate_mac_invalid_base64`: the group at
`i` takes `bytes_from_mac` bytes from the MAC and the rest from the end of the
output. -/
def mixedRound (mac : List UInt8) (state : List UInt8 × ℕ) (i : ℕ) :
    Option (List UInt8 × ℕ) := do
  let (out, bytesFromMac) := state
  let fromMac ← subslice mac (i - bytesFromMac) i
  let fromOut ← subslice out (out.length - (3 - bytesFromMac)) out.length
  let encoded := base64Encode (fromOut ++ fromMac)
  pure (out ++ encoded, bytesFromMac - 1)

/-- A round of the second loop: a group read from the output alone. -/
def outputRound (out : List UInt8) (i : ℕ) : Option (List UInt8) := do
  let next ← subslice out i (i + 3)
  pure (out ++ base64Encode next)

/-- The body of `calculate_mac_invalid_base64` after the MAC is computed: the
first group from the MAC alone, the two rounds of the first loop, the seven of
the second, and the last two output bytes as the remainder. `none` is a panic
of a slice. -/
def macInvalidBase64 (mac : List UInt8) : Option (List UInt8) := do
  let out := base64Encode (← subslice mac 0 3)
  let (out, _) ← (stepBy 6 10 3).foldlM (mixedRound mac) (out, 2)
  let out ← (stepBy 9 30 3).foldlM outputRound out
  let next ← subslice out 30 32
  pure (out ++ base64Encode next)

namespace EstablishedSas

/-- `EstablishedSas::bytes_raw`: HKDF-SHA-256 of the shared secret without a
salt; the `hkdf` crate refuses more than `255 * 32` bytes. -/
def bytesRaw (self : EstablishedSas) (info : List UInt8) (count : ℕ) :
    Except InvalidCount (List UInt8) :=
  if count ≤ 255 * 32 then .ok (P.hkdfSha256 [] self.sharedSecret.toList info count).toList
  else .error ⟨⟩

/-- `EstablishedSas::bytes`: six bytes of `bytes_raw`, whose `expect` never fires. -/
def bytes (self : EstablishedSas) (info : List UInt8) : SasBytes :=
  ⟨P.hkdfSha256 [] self.sharedSecret.toList info 6⟩

/-- `EstablishedSas::get_mac_key`. -/
def getMacKey (self : EstablishedSas) (info : List UInt8) : Bytes 32 :=
  P.hkdfSha256 [] self.sharedSecret.toList info 32

/-- `EstablishedSas::calculate_mac`. -/
def calculateMac (self : EstablishedSas) (input info : List UInt8) : SasMac :=
  ⟨(P.hmacSha256 (self.getMacKey P info).toList input).toList⟩

/-- `EstablishedSas::verify_mac`: `verify_slice` accepts exactly the tag itself. -/
def verifyMac (self : EstablishedSas) (input info : List UInt8) (tag : SasMac) :
    Except SasError Unit :=
  if (self.calculateMac P input info).bytes = tag.bytes then .ok () else .error (.mac ⟨⟩)

/-- `EstablishedSas::calculate_mac_invalid_base64`. -/
def calculateMacInvalidBase64 (self : EstablishedSas) (input info : List UInt8) :
    Option (List UInt8) :=
  macInvalidBase64 (self.calculateMac P input info).bytes

/-- The six bytes of `bytes` are what `bytes_raw` returns for six. -/
theorem bytesRaw_six (self : EstablishedSas) (info : List UInt8) :
    self.bytesRaw P info 6 = .ok (self.bytes P info).bytes.toList := by
  simp [bytesRaw, bytes]

end EstablishedSas

/-! ### The MAC encoding of libolm

The first group of `calculate_mac_invalid_base64` is the first group of the
in-place run. Each later round appends the next group of `Base64.inPlaceOut`:
the slices it takes from the end of the output and from the MAC are what the
in-place run reads at `3 g .. 3 g + 2`, the written characters below `4 g` and
the MAC above. -/

/-- The buffer libolm encodes a MAC in: the MAC, from position 0. -/
def macBuffer (mac : List UInt8) : ℕ → UInt8 := fun p => mac.getD p 0

theorem base64Encode_triple (a b c : UInt8) :
    base64Encode [a, b, c] = Base64.encodeTriple a b c := rfl

theorem base64Encode_pair (a b : UInt8) : base64Encode [a, b] = Base64.encodePair a b := rfl

section InPlace

variable {mac : List UInt8}

/-- The first group, read from the MAC alone. -/
theorem subslice_mac_first (hmac : mac.length = 32) :
    (subslice mac 0 3).map base64Encode = some (Base64.inPlaceOut (macBuffer mac) 1) := by
  rw [subslice_eq (by omega) (by omega)]
  rfl

/-- The round at 6: one character of the output, two bytes of the MAC. -/
theorem mixedRound_six (hmac : mac.length = 32) :
    mixedRound mac (Base64.inPlaceOut (macBuffer mac) 1, 2) 6 =
      some (Base64.inPlaceOut (macBuffer mac) 2, 1) := by
  have hout := Base64.length_inPlaceOut (macBuffer mac) 1
  simp only [mixedRound, hout]
  rw [subslice_eq (by omega) (by omega), subslice_eq (by omega) (by omega)]
  rfl

/-- The round at 9: two characters of the output, one byte of the MAC. -/
theorem mixedRound_nine (hmac : mac.length = 32) :
    mixedRound mac (Base64.inPlaceOut (macBuffer mac) 2, 1) 9 =
      some (Base64.inPlaceOut (macBuffer mac) 3, 0) := by
  have hout := Base64.length_inPlaceOut (macBuffer mac) 2
  simp only [mixedRound, hout]
  rw [subslice_eq (by omega) (by omega), subslice_eq (by omega) (by omega)]
  rfl

end InPlace

/-- From the fourth group on, a group reads only characters already written. -/
theorem outputRound_inPlaceOut (buf : ℕ → UInt8) {g : ℕ} (hg : 3 ≤ g) :
    outputRound (Base64.inPlaceOut buf g) (3 * g) = some (Base64.inPlaceOut buf (g + 1)) := by
  have hout := Base64.length_inPlaceOut buf g
  rw [outputRound, subslice_eq (by omega) (by omega)]
  simp only [Nat.add_sub_cancel_left, Base64.inPlaceOut, Base64.inPlaceRead, hout,
    if_pos (show 3 * g < 4 * g by omega), if_pos (show 3 * g + 1 < 4 * g by omega),
    if_pos (show 3 * g + 2 < 4 * g by omega)]
  rfl

/-- The second loop: `m` rounds from the group `g` on append `m` groups. The
induction is on the number of rounds. -/
theorem foldlM_outputRound (buf : ℕ → UInt8) (m : ℕ) {g : ℕ} (hg : 3 ≤ g) :
    (List.range' (3 * g) m 3).foldlM outputRound (Base64.inPlaceOut buf g) =
      some (Base64.inPlaceOut buf (g + m)) := by
  induction m generalizing g with
  | zero => rfl
  | succ m ih =>
    rw [List.range'_succ, List.foldlM_cons, outputRound_inPlaceOut buf hg,
      show 3 * g + 3 = 3 * (g + 1) by omega, Option.bind_eq_bind, Option.bind_some,
      ih (by omega), Nat.add_right_comm, Nat.add_assoc]

/-- The whole encoding of a 32-byte MAC: three groups from the first loop, seven
from the second, and the remainder read at 30 and 31 from the output. -/
theorem macInvalidBase64_eq {mac : List UInt8} (hmac : mac.length = 32) :
    macInvalidBase64 mac = some (Base64.encodeInPlace (macBuffer mac) 32) := by
  have hfirst := subslice_mac_first hmac
  have hloop1 : (stepBy 6 10 3).foldlM (mixedRound mac) (Base64.inPlaceOut (macBuffer mac) 1, 2) =
      some (Base64.inPlaceOut (macBuffer mac) 3, 0) := by
    rw [show stepBy 6 10 3 = [6, 9] from rfl, List.foldlM_cons, mixedRound_six hmac,
      Option.bind_eq_bind, Option.bind_some, List.foldlM_cons, mixedRound_nine hmac,
      Option.bind_eq_bind, Option.bind_some, List.foldlM_nil]
    rfl
  have hloop2 : (stepBy 9 30 3).foldlM outputRound (Base64.inPlaceOut (macBuffer mac) 3) =
      some (Base64.inPlaceOut (macBuffer mac) 10) :=
    foldlM_outputRound (macBuffer mac) 7 (le_refl 3)
  have hout := Base64.length_inPlaceOut (macBuffer mac) 10
  have hlast : subslice (Base64.inPlaceOut (macBuffer mac) 10) 30 32 =
      some [(Base64.inPlaceOut (macBuffer mac) 10).getD 30 0,
        (Base64.inPlaceOut (macBuffer mac) 10).getD 31 0] := by
    rw [subslice_eq (by omega) (by omega)]
    rfl
  obtain ⟨first, hsub, hfirst'⟩ := Option.map_eq_some_iff.mp hfirst
  rw [Base64.encodeInPlace_of_mod_three_eq_two _ (by decide : 32 % 3 = 2)]
  simp only [macInvalidBase64, hsub, Option.bind_eq_bind, Option.bind_some, hfirst', hloop1,
    hloop2, hlast]
  -- the remainder reads two characters already written
  have hread : ∀ p, p < 40 → Base64.inPlaceRead (macBuffer mac) (Base64.inPlaceOut (macBuffer mac) 10) p =
      (Base64.inPlaceOut (macBuffer mac) 10).getD p 0 := fun p hp => by
    rw [Base64.inPlaceRead, hout, if_pos (by omega)]
  rw [show (32 : ℕ) / 3 = 10 from rfl, hread (3 * 10) (by decide), hread (3 * 10 + 1) (by decide),
    base64Encode_pair]
  rfl

/-- `calculate_mac_invalid_base64` is libolm's base64 encoding of the MAC run
in place: for every 32-byte MAC the unrolled loops return the 43 characters that
the run over the buffer holding the MAC leaves (groups of three read at `3 g`
after the earlier groups wrote at `4 g'`, then the pair at 30 and 31), and the
method returns them for the MAC it computes. -/
theorem calculateMacInvalidBase64_inPlace :
    (∀ mac : Bytes 32,
      macInvalidBase64 mac.toList = some (Base64.encodeInPlace (macBuffer mac.toList) 32) ∧
        (Base64.encodeInPlace (macBuffer mac.toList) 32).length = 43) ∧
      ∀ (P : Primitives) (self : EstablishedSas) (input info : List UInt8),
        self.calculateMacInvalidBase64 P input info =
          some (Base64.encodeInPlace (macBuffer (self.calculateMac P input info).bytes) 32) := by
  refine ⟨fun mac => ⟨macInvalidBase64_eq mac.toList_length, ?_⟩, fun P self input info => ?_⟩
  · simp [Base64.encodeInPlace, Base64.encodedLength]
  · -- the computed MAC is an HMAC-SHA-256 tag: 32 bytes
    exact macInvalidBase64_eq (P.hmacSha256 _ input).toList_length

/-! ### Emoji indices and decimals as bit fields -/

namespace SasBytes

theorem toList_bytes (bytes : Bytes 6) :
    bytes.toList = [bytes.get 0, bytes.get 1, bytes.get 2, bytes.get 3, bytes.get 4, bytes.get 5] := by
  obtain ⟨l, hl⟩ := bytes
  match l, hl with
  | [_, _, _, _, _, _], _ => rfl

/-- `B` byte by byte. -/
theorem bigEndian_eq (bytes : Bytes 6) :
    bigEndian bytes = (bytes.get 0).toNat * 2 ^ 40 + (bytes.get 1).toNat * 2 ^ 32 +
      (bytes.get 2).toNat * 2 ^ 24 + (bytes.get 3).toNat * 2 ^ 16 + (bytes.get 4).toNat * 2 ^ 8 +
      (bytes.get 5).toNat := by
  rw [bigEndian, toList_bytes]
  simp only [List.foldl_cons, List.foldl_nil]
  omega

/-- The additions of `bytes_to_emoji_index` never wrap: the `u64` is `B`. -/
theorem toNat_emojiNum (bytes : Bytes 6) : (emojiNum bytes).toNat = bigEndian bytes := by
  have h0 := (bytes.get 0).toNat_lt
  have h1 := (bytes.get 1).toNat_lt
  have h2 := (bytes.get 2).toNat_lt
  have h3 := (bytes.get 3).toNat_lt
  have h4 := (bytes.get 4).toNat_lt
  have h5 := (bytes.get 5).toNat_lt
  simp only [emojiNum, List.Vector.get_map, UInt64.toNat_add, UInt64.toNat_shiftLeft,
    UInt8.toNat_toUInt64, Nat.shiftLeft_eq, bigEndian_eq, UInt64.reduceToNat, Nat.reduceMod]
  omega

/-- An emoji index: six bits of the `u64`, as a byte. -/
theorem toNat_emojiDigit (num s : UInt64) :
    ((num >>> s) &&& 63).toUInt8.toNat = num.toNat >>> (s.toNat % 64) &&& 63 := by
  have hlt : num.toNat >>> (s.toNat % 64) &&& 63 < 2 ^ 8 :=
    lt_of_le_of_lt Nat.and_le_right (by decide)
  rw [UInt64.toNat_toUInt8, UInt64.toNat_and, UInt64.toNat_shiftRight,
    show (63 : UInt64).toNat = 63 from rfl, Nat.mod_eq_of_lt hlt]

/-- Emoji index `i` is the six bits of `B` from bit `42 - 6 i` on. -/
theorem toNat_get_bytesToEmojiIndex (bytes : Bytes 6) (i : Fin 7) :
    ((bytesToEmojiIndex bytes).get i).toNat = bigEndian bytes >>> (42 - 6 * i.val) &&& 63 := by
  rw [← toNat_emojiNum]
  fin_cases i <;> exact toNat_emojiDigit _ _

/-- Bit fields side by side: the or of disjoint fields is their sum. -/
theorem or_eq_add_of_lt {b : ℕ} (a : ℕ) {k : ℕ} (hb : b < 2 ^ k) :
    a * 2 ^ k ||| b = a * 2 ^ k + b := by
  rw [Nat.mul_comm a, ← Nat.two_pow_add_eq_or_of_lt hb]

theorem toNat_shiftLeft_of_lt {y s : UInt16} (hs : s.toNat < 16)
    (h : y.toNat * 2 ^ s.toNat < 2 ^ 16) : (y <<< s).toNat = y.toNat * 2 ^ s.toNat := by
  rw [UInt16.toNat_shiftLeft, Nat.mod_eq_of_lt hs, Nat.shiftLeft_eq, Nat.mod_eq_of_lt h]

theorem toNat_shiftRight_of_lt {y s : UInt16} (hs : s.toNat < 16) :
    (y >>> s).toNat = y.toNat / 2 ^ s.toNat := by
  rw [UInt16.toNat_shiftRight, Nat.mod_eq_of_lt hs, Nat.shiftRight_eq_div_pow]

/-- A 13-bit field of `B`, as the `u16` code selects it. -/
theorem field_eq (bytes : Bytes 6) (s : ℕ) :
    bigEndian bytes >>> s &&& 0x1FFF = bigEndian bytes / 2 ^ s % 2 ^ 13 := by
  rw [Nat.shiftRight_eq_div_pow, show (0x1FFF : ℕ) = 2 ^ 13 - 1 from rfl,
    Nat.and_two_pow_sub_one_eq_mod]

/-- The first decimal before its offset: bits 35 to 47 of `B`. -/
theorem toNat_first (bytes : Bytes 6) :
    ((bytes.map UInt8.toUInt16).get 0 <<< 5 ||| (bytes.map UInt8.toUInt16).get 1 >>> 3).toNat =
      bigEndian bytes >>> 35 &&& 0x1FFF := by
  have h0 := (bytes.get 0).toNat_lt
  have h1 := (bytes.get 1).toNat_lt
  have h2 := (bytes.get 2).toNat_lt
  have h3 := (bytes.get 3).toNat_lt
  have h4 := (bytes.get 4).toNat_lt
  have h5 := (bytes.get 5).toNat_lt
  simp only [List.Vector.get_map]
  rw [UInt16.toNat_or, toNat_shiftLeft_of_lt (by decide)
      (by rw [UInt8.toNat_toUInt16]; simp only [UInt16.reduceToNat]; omega),
    toNat_shiftRight_of_lt (by decide), UInt8.toNat_toUInt16, UInt8.toNat_toUInt16]
  simp only [UInt16.reduceToNat]
  rw [or_eq_add_of_lt _ (show (bytes.get 1).toNat / 2 ^ 3 < 2 ^ 5 by omega), field_eq,
    bigEndian_eq]
  omega

/-- The second decimal before its offset: bits 22 to 34 of `B`. -/
theorem toNat_second (bytes : Bytes 6) :
    (((bytes.map UInt8.toUInt16).get 1 &&& 0x7) <<< 10 ||| (bytes.map UInt8.toUInt16).get 2 <<< 2 |||
      (bytes.map UInt8.toUInt16).get 3 >>> 6).toNat = bigEndian bytes >>> 22 &&& 0x1FFF := by
  have h0 := (bytes.get 0).toNat_lt
  have h1 := (bytes.get 1).toNat_lt
  have h2 := (bytes.get 2).toNat_lt
  have h3 := (bytes.get 3).toNat_lt
  have h4 := (bytes.get 4).toNat_lt
  have h5 := (bytes.get 5).toNat_lt
  have hmask : ((bytes.get 1).toUInt16 &&& 0x7).toNat = (bytes.get 1).toNat % 2 ^ 3 := by
    rw [UInt16.toNat_and, show (7 : UInt16).toNat = 2 ^ 3 - 1 from rfl,
      Nat.and_two_pow_sub_one_eq_mod, UInt8.toNat_toUInt16]
  simp only [List.Vector.get_map]
  rw [UInt16.toNat_or, UInt16.toNat_or,
    toNat_shiftLeft_of_lt (by decide) (by rw [hmask]; simp only [UInt16.reduceToNat]; omega),
    toNat_shiftLeft_of_lt (by decide)
      (by rw [UInt8.toNat_toUInt16]; simp only [UInt16.reduceToNat]; omega),
    toNat_shiftRight_of_lt (by decide), hmask, UInt8.toNat_toUInt16, UInt8.toNat_toUInt16]
  simp only [UInt16.reduceToNat]
  -- the three fields do not overlap: bits 10–12, 2–9 and 0–1
  have hlow : ((bytes.get 1).toNat % 2 ^ 3) * 2 ^ 10 + (bytes.get 2).toNat * 2 ^ 2 =
      (((bytes.get 1).toNat % 2 ^ 3) * 2 ^ 8 + (bytes.get 2).toNat) * 2 ^ 2 := by
    omega
  rw [or_eq_add_of_lt _ (show (bytes.get 2).toNat * 2 ^ 2 < 2 ^ 10 by omega), hlow,
    or_eq_add_of_lt _ (show (bytes.get 3).toNat / 2 ^ 6 < 2 ^ 2 by omega), field_eq,
    bigEndian_eq]
  omega

/-- The third decimal before its offset: bits 9 to 21 of `B`. -/
theorem toNat_third (bytes : Bytes 6) :
    (((bytes.map UInt8.toUInt16).get 3 &&& 0x3F) <<< 7 |||
      (bytes.map UInt8.toUInt16).get 4 >>> 1).toNat = bigEndian bytes >>> 9 &&& 0x1FFF := by
  have h0 := (bytes.get 0).toNat_lt
  have h1 := (bytes.get 1).toNat_lt
  have h2 := (bytes.get 2).toNat_lt
  have h3 := (bytes.get 3).toNat_lt
  have h4 := (bytes.get 4).toNat_lt
  have h5 := (bytes.get 5).toNat_lt
  have hmask : ((bytes.get 3).toUInt16 &&& 0x3F).toNat = (bytes.get 3).toNat % 2 ^ 6 := by
    rw [UInt16.toNat_and, show (0x3F : UInt16).toNat = 2 ^ 6 - 1 from rfl,
      Nat.and_two_pow_sub_one_eq_mod, UInt8.toNat_toUInt16]
  simp only [List.Vector.get_map]
  rw [UInt16.toNat_or,
    toNat_shiftLeft_of_lt (by decide) (by rw [hmask]; simp only [UInt16.reduceToNat]; omega),
    toNat_shiftRight_of_lt (by decide), hmask, UInt8.toNat_toUInt16]
  simp only [UInt16.reduceToNat]
  rw [or_eq_add_of_lt _ (show (bytes.get 4).toNat / 2 ^ 1 < 2 ^ 7 by omega), field_eq,
    bigEndian_eq]
  omega

/-- Adding the offset to a 13-bit field does not wrap the `u16`. -/
theorem toNat_add_offset {y : UInt16} (h : y.toNat < 2 ^ 13) : (y + 1000).toNat = y.toNat + 1000 := by
  rw [UInt16.toNat_add, show (1000 : UInt16).toNat = 1000 from rfl]
  omega

theorem field_lt (bytes : Bytes 6) (s : ℕ) : bigEndian bytes >>> s &&& 0x1FFF < 2 ^ 13 := by
  rw [field_eq]
  exact Nat.mod_lt _ (by decide)

/-- A decimal is in `1000 ..= 9191` when it is a 13-bit field plus 1000. -/
theorem mem_range_of_toNat {d : UInt16} {field : ℕ} (hd : d.toNat = field + 1000)
    (hfield : field < 2 ^ 13) : 1000 ≤ d ∧ d ≤ 9191 := by
  constructor
  · rw [UInt16.le_iff_toNat_le, hd]
    simp
  · rw [UInt16.le_iff_toNat_le, hd]
    simp only [UInt16.reduceToNat]
    omega

/-- The SAS bytes as bit fields of their 48-bit big-endian number `B`: the
`u64` the emoji code builds is `B` itself, so none of its additions wraps;
emoji index `i` is the six bits of `B` from bit `42 - 6 i` on; the decimals are
the 13-bit fields of `B` from bits 35, 22 and 9 plus 1000, computed without a
`u16` wrap; hence every emoji index is below 64 and every decimal in
`1000 ..= 9191`. -/
theorem bytesToEmojiIndex_bytesToDecimal (bytes : Bytes 6) :
    (emojiNum bytes).toNat = bigEndian bytes ∧
      (∀ i : Fin 7, ((bytesToEmojiIndex bytes).get i).toNat =
        bigEndian bytes >>> (42 - 6 * i.val) &&& 63) ∧
      (bytesToDecimal bytes).1.toNat = (bigEndian bytes >>> 35 &&& 0x1FFF) + 1000 ∧
      (bytesToDecimal bytes).2.1.toNat = (bigEndian bytes >>> 22 &&& 0x1FFF) + 1000 ∧
      (bytesToDecimal bytes).2.2.toNat = (bigEndian bytes >>> 9 &&& 0x1FFF) + 1000 ∧
      (∀ i : Fin 7, (bytesToEmojiIndex bytes).get i < 64) ∧
      ∀ d ∈ [(bytesToDecimal bytes).1, (bytesToDecimal bytes).2.1, (bytesToDecimal bytes).2.2],
        1000 ≤ d ∧ d ≤ 9191 := by
  have hfirst : (bytesToDecimal bytes).1.toNat = (bigEndian bytes >>> 35 &&& 0x1FFF) + 1000 := by
    have h := toNat_add_offset (lt_of_eq_of_lt (toNat_first bytes) (field_lt bytes 35))
    rw [toNat_first] at h
    exact h
  have hsecond :
      (bytesToDecimal bytes).2.1.toNat = (bigEndian bytes >>> 22 &&& 0x1FFF) + 1000 := by
    have h := toNat_add_offset (lt_of_eq_of_lt (toNat_second bytes) (field_lt bytes 22))
    rw [toNat_second] at h
    exact h
  have hthird : (bytesToDecimal bytes).2.2.toNat = (bigEndian bytes >>> 9 &&& 0x1FFF) + 1000 := by
    have h := toNat_add_offset (lt_of_eq_of_lt (toNat_third bytes) (field_lt bytes 9))
    rw [toNat_third] at h
    exact h
  refine ⟨toNat_emojiNum bytes, toNat_get_bytesToEmojiIndex bytes, hfirst, hsecond, hthird, ?_, ?_⟩
  · intro i
    rw [UInt8.lt_iff_toNat_lt, toNat_get_bytesToEmojiIndex]
    exact lt_of_le_of_lt Nat.and_le_right (by decide)
  · intro d hd
    simp only [List.mem_cons, List.not_mem_nil, or_false] at hd
    rcases hd with rfl | rfl | rfl
    · exact mem_range_of_toNat hfirst (field_lt bytes 35)
    · exact mem_range_of_toNat hsecond (field_lt bytes 22)
    · exact mem_range_of_toNat hthird (field_lt bytes 9)

/-- The all-ones bytes give the largest decimals, as the source's test has it. -/
example : bytesToDecimal ⟨[0xFF, 0xFF, 0xFF, 0xFF, 0xFF, 0xFF], rfl⟩ = (9191, 9191, 9191) := by
  decide

end SasBytes

end Vodozemac
