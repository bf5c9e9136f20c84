import Mathlib

/-!
# Vodozemac.Types

The value types of `src/types`: fixed-size byte arrays and the Curve25519 and
Ed25519 key types built on them, plus the `KeyId` of one-time keys.

Rust `[u8; N]` is `Bytes N` (a list with its length in the type, so a wrongly
sized key cannot be built) and `Vec<u8>`/`&[u8]` is `List UInt8`. The key types
are thin structures over their bytes, as in the source: the curve arithmetic
behind them is provided by the primitives of `Vodozemac.Primitives`.
-/

namespace Vodozemac

/-- A fixed-size byte array `[u8; n]`. -/
abbrev Bytes (n : ℕ) := List.Vector UInt8 n

/-- `n` zero bytes, `[0u8; n]`. -/
def Bytes.zero (n : ℕ) : Bytes n := List.Vector.replicate n 0

/-- `Curve25519PublicKey`: the 32 bytes of an X25519 public key. Every 32-byte
string is accepted (`Curve25519PublicKey::from([u8; 32])`). -/
structure Curve25519PublicKey where
  inner : Bytes 32
  deriving DecidableEq

/-- The derived `Hash` of `Curve25519PublicKey`, the key of a `HashMap`: that
of its bytes. -/
instance : Hashable Curve25519PublicKey := ⟨fun key => hash key.inner.toList⟩

/-- `Curve25519SecretKey`, an X25519 `StaticSecret` (also used for the
`ReusableSecret` base key of an outbound session). -/
structure Curve25519SecretKey where
  bytes : Bytes 32
  deriving DecidableEq

/-- `Ed25519PublicKey`: the compressed 32-byte Ed25519 point. -/
structure Ed25519PublicKey where
  bytes : Bytes 32
  deriving DecidableEq

/-- `Ed25519PublicKey::LENGTH`. -/
def Ed25519PublicKey.length : ℕ := 32

/-- `Ed25519Signature`: a 64-byte Ed25519 signature. -/
structure Ed25519Signature where
  bytes : Bytes 64
  deriving DecidableEq

/-- `Ed25519Signature::LENGTH`. -/
def Ed25519Signature.length : ℕ := 64

/-- `SecretKeys`, the secret half of an `Ed25519Keypair`: a 32-byte seed or, for
keypairs imported from libolm, a 64-byte expanded key. -/
inductive Ed25519SecretKeys
  | normal (key : Bytes 32)
  | expanded (key : Bytes 64)
  deriving DecidableEq

/-- `Ed25519Keypair`. The source stores the public key next to the secret one,
always computed from it (`Keypair::generate`, `from_expanded_key` and the pickle
conversion all derive it), so the model keeps the secret half only and derives
the public key with the primitive. -/
structure Ed25519Keypair where
  secretKey : Ed25519SecretKeys
  deriving DecidableEq

/-- `Curve25519Keypair`. As for `Ed25519Keypair`, the public key the source
stores is always derived from the secret one, so the model keeps the secret. -/
structure Curve25519Keypair where
  secretKey : Curve25519SecretKey
  deriving DecidableEq

/-- `KeyId`, the numeric identifier of a one-time or fallback key. -/
structure KeyId where
  id : UInt64
  deriving DecidableEq, Repr

/-- The derived `Ord` of `KeyId`: that of the `u64` inside. -/
instance : Ord KeyId := ⟨compareOn KeyId.id⟩

instance : Std.TransCmp (compare : KeyId → KeyId → Ordering) :=
  inferInstanceAs (Std.TransCmp (compareOn KeyId.id))

instance : Std.LawfulEqCmp (compare : KeyId → KeyId → Ordering) where
  eq_of_compare {a b} h := by
    obtain ⟨a⟩ := a
    obtain ⟨b⟩ := b
    have h' : compare a b = .eq := h
    rw [Std.LawfulEqCmp.compare_eq_iff_eq] at h'
    rw [h']
  compare_self {a} := show compare a.id a.id = .eq from Std.ReflCmp.compare_self

end Vodozemac
