import Vodozemac.Primitives

/-!
# Vodozemac.Cipher

The message cipher of `src/cipher`: a 32-byte Olm message key or the 128 bytes
of a Megolm ratchet are expanded by HKDF-SHA-256 (salt `[0]`) into 80 bytes,
read as an AES-256 key, an HMAC key and a CBC IV (`CipherKeys`).

* `encrypt` / `decrypt` are AES-256-CBC with PKCS#7 padding;
* `mac` is HMAC-SHA-256 with the 32-byte MAC key;
* `verifyMac` compares a full tag, `verifyTruncatedMac` a prefix of the MAC
  (`verify_slice` and `verify_truncated_left` of the `hmac` crate: a truncated
  tag of length `0` or above 32 is refused).

The HKDF expansion to 80 bytes and the HMAC key of any size cannot fail, so the
two `expect`s of the source never fire and the model has no error for them.
The pickle cipher (`new_pickle`, `encrypt_pickle`, `decrypt_pickle`) is not
modelled: no modelled function reads an encrypted pickle.
-/

namespace Vodozemac

/-- The ASCII bytes of a string literal (`b"..."`). -/
def asciiBytes (s : String) : List UInt8 := s.toList.map fun c => UInt8.ofNat c.toNat

/-- Bytes `start .. start + len` of a fixed-size array, as the array `[u8; len]`
that `copy_from_slice` fills. -/
def Bytes.slice {n : ℕ} (bytes : Bytes n) (start len : ℕ) (h : start + len ≤ n) : Bytes len :=
  ⟨(bytes.toList.drop start).take len, by simp; omega⟩

/-- `Mac`: a full HMAC-SHA-256 tag. -/
structure Mac where
  bytes : Bytes 32
  deriving DecidableEq

namespace Mac

/-- `Mac::LENGTH`. -/
def length : ℕ := 32

/-- `Mac::TRUNCATED_LEN`. -/
def truncatedLen : ℕ := 8

/-- `Mac::truncate`: the first eight bytes. -/
def truncate (m : Mac) : Bytes 8 := m.bytes.slice 0 8 (by decide)

end Mac

/-- `MessageMac`: the tag a message carries, truncated (Megolm v1, Olm v1) or full. -/
inductive MessageMac
  | truncated (m : Bytes 8)
  | full (m : Mac)
  deriving DecidableEq

/-- `MessageMac::as_bytes`. -/
def MessageMac.asBytes : MessageMac → List UInt8
  | .truncated m => m.toList
  | .full m => m.bytes.toList

/-- `MacError` of the `hmac` crate. -/
structure MacError where
  deriving DecidableEq

/-- `CipherKeys`: the three keys of a message. -/
structure CipherKeys where
  aesKey : Bytes 32
  aesIv : Bytes 16
  macKey : Bytes 32

namespace CipherKeys

/-- `ExpandedKeys::OLM_HKDF_INFO`. -/
def olmHkdfInfo : List UInt8 := asciiBytes "OLM_KEYS"

/-- `ExpandedKeys::MEGOLM_HKDF_INFO`. -/
def megolmHkdfInfo : List UInt8 := asciiBytes "MEGOLM_KEYS"

/-- `ExpandedKeys::new_helper`: HKDF-SHA-256 with salt `[0]` into 80 bytes. -/
def expandedKeys (P : Primitives) (messageKey info : List UInt8) : Bytes 80 :=
  P.hkdfSha256 [0] messageKey info 80

/-- `CipherKeys::from_expanded_keys`: bytes `0..32`, `32..64` and `64..80`. -/
def fromExpandedKeys (expanded : Bytes 80) : CipherKeys :=
  { aesKey := expanded.slice 0 32 (by decide),
    macKey := expanded.slice 32 32 (by decide),
    aesIv := expanded.slice 64 16 (by decide) }

/-- `CipherKeys::new`, for an Olm message key. -/
def new (P : Primitives) (messageKey : Bytes 32) : CipherKeys :=
  fromExpandedKeys (expandedKeys P messageKey.toList olmHkdfInfo)

/-- `CipherKeys::new_megolm`, for the bytes of a Megolm ratchet. -/
def newMegolm (P : Primitives) (messageKey : Bytes 128) : CipherKeys :=
  fromExpandedKeys (expandedKeys P messageKey.toList megolmHkdfInfo)

end CipherKeys

/-- `Cipher`. -/
structure Cipher where
  keys : CipherKeys

namespace Cipher

variable (P : Primitives)

/-- `Cipher::new`. -/
def new (key : Bytes 32) : Cipher := ⟨CipherKeys.new P key⟩

/-- `Cipher::new_megolm`. -/
def newMegolm (key : Bytes 128) : Cipher := ⟨CipherKeys.newMegolm P key⟩

/-- `Cipher::encrypt`. -/
def encrypt (c : Cipher) (plaintext : List UInt8) : List UInt8 :=
  P.aes256CbcEncrypt c.keys.aesKey c.keys.aesIv plaintext

/-- `Cipher::mac`. -/
def mac (c : Cipher) (message : List UInt8) : Mac :=
  ⟨P.hmacSha256 c.keys.macKey.toList message⟩

/-- `Cipher::decrypt`. -/
def decrypt (c : Cipher) (ciphertext : List UInt8) : Except UnpadError (List UInt8) :=
  P.aes256CbcDecrypt c.keys.aesKey c.keys.aesIv ciphertext

/-- `Cipher::verify_mac`: `verify_slice` accepts exactly the full MAC. -/
def verifyMac (c : Cipher) (message : List UInt8) (tag : Mac) : Except MacError Unit :=
  if c.mac P message = tag then .ok () else .error ⟨⟩

/-- `Cipher::verify_truncated_mac`: `verify_truncated_left` refuses an empty tag
or one longer than the MAC, and otherwise compares the tag with as many leading
bytes of the MAC. -/
def verifyTruncatedMac (c : Cipher) (message tag : List UInt8) : Except MacError Unit :=
  if tag.length = 0 ∨ Mac.length < tag.length then .error ⟨⟩
  else if (c.mac P message).bytes.toList.take tag.length = tag then .ok ()
  else .error ⟨⟩

variable {P}

theorem verifyMac_eq_ok_iff (c : Cipher) (message : List UInt8) (tag : Mac) :
    c.verifyMac P message tag = .ok () ↔ tag = c.mac P message := by
  unfold verifyMac
  split_ifs with h
  · exact ⟨fun _ => h.symm, fun _ => rfl⟩
  · exact ⟨fun h' => (nomatch h'), fun h' => absurd h'.symm h⟩

theorem verifyTruncatedMac_eq_ok_iff (c : Cipher) (message tag : List UInt8) :
    c.verifyTruncatedMac P message tag = .ok () ↔
      0 < tag.length ∧ tag.length ≤ Mac.length ∧
        tag = (c.mac P message).bytes.toList.take tag.length := by
  unfold verifyTruncatedMac
  split_ifs with hlen heq
  · refine ⟨fun h => (nomatch h), fun ⟨h0, hle, _⟩ => ?_⟩
    omega
  · exact ⟨fun _ => ⟨by omega, by omega, heq.symm⟩, fun _ => rfl⟩
  · exact ⟨fun h => (nomatch h), fun ⟨_, _, h⟩ => absurd h.symm heq⟩

/-- A message's own MAC passes `verify_mac`. -/
theorem verifyMac_mac (c : Cipher) (message : List UInt8) :
    c.verifyMac P message (c.mac P message) = .ok () :=
  (verifyMac_eq_ok_iff c message _).mpr rfl

/-- The truncation of a message's own MAC passes `verify_truncated_mac`. -/
theorem verifyTruncatedMac_truncate (c : Cipher) (message : List UInt8) :
    c.verifyTruncatedMac P message (c.mac P message).truncate.toList = .ok () := by
  rw [verifyTruncatedMac_eq_ok_iff]
  simp [Mac.truncate, Bytes.slice, Mac.length]

/-- Decryption inverts encryption under the same cipher. -/
theorem decrypt_encrypt (hP : P.AesCbcRoundTrip) (c : Cipher) (plaintext : List UInt8) :
    c.decrypt P (c.encrypt P plaintext) = .ok plaintext :=
  hP _ _ _

end Cipher

end Vodozemac
