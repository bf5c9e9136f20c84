import Vodozemac.Types

/-!
# Vodozemac.Primitives

The cryptographic primitives vodozemac takes from third-party crates: `hmac`
and `sha2` (HMAC-SHA-256, SHA-256), `hkdf` (HKDF-SHA-256), `aes` with `cbc`
(AES-256-CBC with PKCS#7 padding), `x25519-dalek` and `ed25519-dalek`. Their
code is not part of the repository, so the model takes them as a parameter
`P : Primitives` and states separately, as `Prop`s over `P`, the documented
behaviour that proofs rely on:

* `AesCbcRoundTrip` — decryption with the key and IV of an encryption returns
  the plaintext;
* `X25519Agrees` — the Diffie-Hellman agreement of X25519;
* `Ed25519Sound` — Ed25519 verification accepts what signing produces;
* `Ed25519ExpandedAccepts` — `ExpandedSecretKey::from_bytes` of
  `ed25519-dalek` 1.0.1 checks only the length of its input.

A theorem assumes exactly the ones it uses, so that everything else about the
primitives is left arbitrary.
-/

namespace Vodozemac

/-- `SignatureError`: an Ed25519 signature did not verify. -/
structure SignatureError where
  deriving DecidableEq

/-- `KeyError`: a key could not be built. The variant for base64 input is left
out with base64 decoding. -/
inductive KeyError
  | invalidKeyLength (length : ℕ)
  | signature (e : SignatureError)
  | nonContributoryKey
  deriving DecidableEq

/-- `Curve25519PublicKey::from_slice`: any 32 bytes. -/
def Curve25519PublicKey.fromSlice (slice : List UInt8) : Except KeyError Curve25519PublicKey :=
  if h : slice.length = 32 then .ok ⟨⟨slice, h⟩⟩ else .error (.invalidKeyLength slice.length)

@[simp] theorem Curve25519PublicKey.fromSlice_inner (key : Curve25519PublicKey) :
    Curve25519PublicKey.fromSlice key.inner.toList = .ok key := by
  rw [Curve25519PublicKey.fromSlice, dif_pos key.inner.toList_length]
  rfl

/-- `UnpadError` of the `aes` crate: the decrypted data is not PKCS#7 padded. -/
structure UnpadError where
  deriving DecidableEq

/-- The external cryptographic primitives, as functions on bytes. -/
structure Primitives where
  /-- HMAC-SHA-256 keyed with `key` over `message` (`Hmac::<Sha256>::new_from_slice`,
  `update`, `finalize`); any key length is accepted. -/
  hmacSha256 (key message : List UInt8) : Bytes 32
  /-- SHA-256 of a byte string (`Sha256::new`, `chain_update`, `finalize`). -/
  sha256 (bytes : List UInt8) : Bytes 32
  /-- HKDF-SHA-256 (`Hkdf::new(Some(salt), ikm)`) expanded with `info` into `n` bytes. -/
  hkdfSha256 (salt ikm info : List UInt8) (n : ℕ) : Bytes n
  /-- AES-256-CBC encryption with PKCS#7 padding (`encrypt_padded_vec_mut::<Pkcs7>`). -/
  aes256CbcEncrypt (key : Bytes 32) (iv : Bytes 16) (plaintext : List UInt8) : List UInt8
  /-- AES-256-CBC decryption and PKCS#7 unpadding (`decrypt_padded_vec_mut::<Pkcs7>`). -/
  aes256CbcDecrypt (key : Bytes 32) (iv : Bytes 16) (ciphertext : List UInt8) :
    Except UnpadError (List UInt8)
  /-- X25519 `diffie_hellman`: the shared secret of a secret key and a public key. -/
  x25519 : Curve25519SecretKey → Curve25519PublicKey → Bytes 32
  /-- The X25519 public key of a secret key (`PublicKey::from(&secret)`). -/
  x25519PublicKey : Curve25519SecretKey → Curve25519PublicKey
  /-- The Ed25519 public key of a secret key. -/
  ed25519PublicKey : Ed25519SecretKeys → Ed25519PublicKey
  /-- Ed25519 signing (`sign` of a `SecretKey` or an `ExpandedSecretKey`). -/
  ed25519Sign : Ed25519SecretKeys → List UInt8 → Ed25519Signature
  /-- Ed25519 verification (`PublicKey::verify`): `true` when the signature is valid. -/
  ed25519Verify : Ed25519PublicKey → List UInt8 → Ed25519Signature → Bool
  /-- `ExpandedSecretKey::from_bytes`: the expanded secret key of 64 bytes. -/
  ed25519ExpandedSecretKey : Bytes 64 → Except SignatureError (Bytes 64)

namespace Primitives

variable (P : Primitives)

/-- AES-256-CBC decryption inverts encryption under the same key and IV. -/
def AesCbcRoundTrip : Prop :=
  ∀ key iv plaintext,
    P.aes256CbcDecrypt key iv (P.aes256CbcEncrypt key iv plaintext) = .ok plaintext

/-- X25519 Diffie-Hellman agreement: both parties compute the same secret. -/
def X25519Agrees : Prop :=
  ∀ a b, P.x25519 a (P.x25519PublicKey b) = P.x25519 b (P.x25519PublicKey a)

/-- `ExpandedSecretKey::from_bytes` rejects only a slice of the wrong length,
so it takes every 64 bytes as they are. -/
def Ed25519ExpandedAccepts : Prop :=
  ∀ bytes, P.ed25519ExpandedSecretKey bytes = .ok bytes

/-! ### A transparent instance

`toy` runs the model on concrete inputs: it has none of the security of the
real primitives, but every law above. HMAC and HKDF fill their output with a
one-byte digest of their input, and so does SHA-256; AES is the identity, X25519 is the bytewise
exclusive or of the secret and the public key (a public key is the secret
key's bytes), and an Ed25519 signature carries the signer's public key. -/

namespace Toy

/-- A one-byte digest of a byte string. -/
def digest (bytes : List UInt8) : UInt8 := bytes.foldl (fun acc b => acc * 31 + b) 7

def ed25519PublicKey : Ed25519SecretKeys → Ed25519PublicKey
  | .normal key => ⟨key⟩
  | .expanded key => ⟨⟨key.toList.take 32, by simp⟩⟩

def ed25519Sign (key : Ed25519SecretKeys) (_ : List UInt8) : Ed25519Signature :=
  ⟨⟨(ed25519PublicKey key).bytes.toList ++ List.replicate 32 0, by simp⟩⟩

end Toy

/-- The transparent primitives. -/
def toy : Primitives where
  hmacSha256 key message := List.Vector.replicate 32 (Toy.digest (key ++ message))
  sha256 bytes := List.Vector.replicate 32 (Toy.digest bytes)
  hkdfSha256 salt ikm info n := List.Vector.replicate n (Toy.digest (salt ++ ikm ++ info))
  aes256CbcEncrypt _ _ plaintext := plaintext
  aes256CbcDecrypt _ _ ciphertext := .ok ciphertext
  x25519 secret key := List.Vector.map₂ (fun x y => x ^^^ y) secret.bytes key.inner
  x25519PublicKey secret := ⟨secret.bytes⟩
  ed25519PublicKey := Toy.ed25519PublicKey
  ed25519Sign := Toy.ed25519Sign
  ed25519Verify key _ signature := signature.bytes.toList.take 32 == key.bytes.toList
  ed25519ExpandedSecretKey bytes := .ok bytes

theorem toy_aesCbcRoundTrip : toy.AesCbcRoundTrip := fun _ _ _ => rfl

theorem toy_x25519Agrees : toy.X25519Agrees := by
  intro a b
  apply List.Vector.ext
  intro i
  simp only [toy, List.Vector.get_map₂]
  exact UInt8.xor_comm _ _

theorem toy_ed25519ExpandedAccepts : toy.Ed25519ExpandedAccepts := fun _ => rfl

end Primitives

/-- `Ed25519PublicKey::verify`. -/
def Ed25519PublicKey.verify (P : Primitives) (key : Ed25519PublicKey) (message : List UInt8)
    (signature : Ed25519Signature) : Except SignatureError Unit :=
  if P.ed25519Verify key message signature then .ok () else .error ⟨⟩

namespace Ed25519Keypair

/-- `Ed25519Keypair::public_key`. -/
def publicKey (P : Primitives) (k : Ed25519Keypair) : Ed25519PublicKey :=
  P.ed25519PublicKey k.secretKey

/-- `Ed25519Keypair::sign`. -/
def sign (P : Primitives) (k : Ed25519Keypair) (message : List UInt8) : Ed25519Signature :=
  P.ed25519Sign k.secretKey message

end Ed25519Keypair

/-- `Curve25519Keypair::public_key`. -/
def Curve25519Keypair.publicKey (P : Primitives) (k : Curve25519Keypair) : Curve25519PublicKey :=
  P.x25519PublicKey k.secretKey

end Vodozemac
