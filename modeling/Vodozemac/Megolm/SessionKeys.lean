import Vodozemac.Megolm.Ratchet

/-!
# Vodozemac.Megolm.SessionKeys

The two ways of sharing a Megolm session, from `src/megolm/session_keys.rs`:

* `ExportedSessionKey` — version `1`, the ratchet index (big-endian), the 128
  ratchet bytes and the signing key;
* `SessionKey` — the same with version `2`, signed with the signing key.

Both are taken from a ratchet with `ExportedSessionKey::new`, and an inbound
session reads them back with `Ratchet::from_bytes`: `ratchet_exportedKey`
says that this gives the ratchet back.
-/

namespace Vodozemac.Megolm

/-- `u32::to_be_bytes`. -/
def toBeBytes (x : UInt32) : List UInt8 :=
  [(x >>> 24).toUInt8, (x >>> 16).toUInt8, (x >>> 8).toUInt8, x.toUInt8]

/-- `ExportedSessionKey`. -/
structure ExportedSessionKey where
  ratchetIndex : UInt32
  ratchet : Bytes 128
  signingKey : Ed25519PublicKey
  deriving DecidableEq

namespace ExportedSessionKey

/-- `ExportedSessionKey::VERSION`. -/
def version : UInt8 := 1

/-- `ExportedSessionKey::new`: the index and the bytes of the ratchet. -/
def new (ratchet : Ratchet) (signingKey : Ed25519PublicKey) : ExportedSessionKey :=
  { ratchetIndex := ratchet.index, ratchet := ratchet.asBytes, signingKey }

/-- `ExportedSessionKey::to_bytes_with_version`. -/
def toBytesWithVersion (self : ExportedSessionKey) (version : UInt8) : List UInt8 :=
  [version] ++ toBeBytes self.ratchetIndex ++ self.ratchet.toList ++ self.signingKey.bytes.toList

/-- `ExportedSessionKey::to_bytes`. -/
def toBytes (self : ExportedSessionKey) : List UInt8 := self.toBytesWithVersion version

/-- The ratchet a session key describes, as `InboundGroupSession::new` and
`import` rebuild it. -/
def toRatchet (self : ExportedSessionKey) : Ratchet :=
  Ratchet.fromBytes self.ratchet self.ratchetIndex

/-- Exporting a ratchet and reading it back gives the ratchet. -/
@[simp] theorem toRatchet_new (ratchet : Ratchet) (signingKey : Ed25519PublicKey) :
    (new ratchet signingKey).toRatchet = ratchet :=
  Ratchet.fromBytes_asBytes ratchet

@[simp] theorem signingKey_new (ratchet : Ratchet) (signingKey : Ed25519PublicKey) :
    (new ratchet signingKey).signingKey = signingKey := rfl

end ExportedSessionKey

/-- `SessionKey`: an exported key and its signature. -/
structure SessionKey where
  sessionKey : ExportedSessionKey
  signature : Ed25519Signature
  deriving DecidableEq

namespace SessionKey

/-- `SessionKey::VERSION`. -/
def version : UInt8 := 2

/-- `SessionKey::new`, with the zero signature that `session_key` replaces. -/
def new (ratchet : Ratchet) (signingKey : Ed25519PublicKey) : SessionKey :=
  { sessionKey := ExportedSessionKey.new ratchet signingKey, signature := ⟨Bytes.zero 64⟩ }

/-- `SessionKey::to_signature_bytes`. -/
def toSignatureBytes (self : SessionKey) : List UInt8 :=
  self.sessionKey.toBytesWithVersion version

/-- `SessionKey::to_bytes`. -/
def toBytes (self : SessionKey) : List UInt8 :=
  self.toSignatureBytes ++ self.signature.bytes.toList

end SessionKey

end Vodozemac.Megolm
