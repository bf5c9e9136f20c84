import Vodozemac.Olm.Messages
import Vodozemac.Megolm.Message
import Vodozemac.Lib.Fallible

/-!
# Vodozemac.Codecs

The decoders vodozemac takes from other crates, and `DecodeError` of
`src/lib.rs`, the error of its own message decoders.

`prost` derives the Protocol Buffers decoders of `ProtoBufMessage`,
`ProtoBufPreKeyMessage` and `ProtobufMegolmMessage` from their field attributes
(the `fields` of each), and the encoder of `ProtoBufPreKeyMessage`; the `base64`
crate decodes text (`base64_decode`), and `ed25519-dalek` parses public keys
(a point decompression) and signatures. Their code is not part of the
repository, so the model takes them as a parameter `C : Codecs` and states what
the proofs rely on:

* `ProstDecodes` — the three decoders are lawful for the wire format of their
  fields (`Protobuf.Lawful`): they read back every encoding, and the byte
  fields they return are cut out of their input;
* `ProstEncodes` — the pre-key encoder writes the canonical encoding;
* `Base64RoundTrip` — decoding inverts `base64_encode`;
* `Ed25519RoundTrip` — every key and every signature the crate can hold
  (`Ed25519PublicKey.Valid`, `Ed25519Signature.Valid`: one that
  `ed25519-dalek` parsed, or one it made from a secret key) parses back from
  its bytes. Not every 32 bytes are a key: parsing decompresses a point.

`toy` meets them all, with the decoders of `Vodozemac.Lib.Protobuf` and
`Vodozemac.Lib.Base64`.
-/

namespace Vodozemac

/-- `prost::DecodeError`. -/
structure ProtoBufDecodeError where
  deriving DecidableEq

/-- `base64::DecodeError`. -/
structure Base64DecodeError where
  deriving DecidableEq

/-- `DecodeError` of `src/lib.rs`. -/
inductive DecodeError
  | messageType (messageType : ℕ)
  | missingVersion
  | messageTooShort (length : ℕ)
  | invalidVersion (expected got : UInt8)
  | invalidKey (e : KeyError)
  | invalidMacLength (expected got : ℕ)
  | signature (e : SignatureError)
  | protoBufError (e : ProtoBufDecodeError)
  | base64 (e : Base64DecodeError)
  deriving DecidableEq

/-- The external decoders and the `prost` encoder. -/
structure Codecs where
  /-- `ProtoBufMessage::decode`. -/
  decodeMessage : List UInt8 → Except ProtoBufDecodeError Olm.ProtoBufMessage
  /-- `ProtoBufPreKeyMessage::decode`. -/
  decodePreKeyMessage : List UInt8 → Except ProtoBufDecodeError Olm.ProtoBufPreKeyMessage
  /-- `ProtoBufPreKeyMessage::encode`, into a buffer of `encoded_len` bytes. -/
  encodePreKeyMessage : Olm.ProtoBufPreKeyMessage → List UInt8
  /-- `ProtobufMegolmMessage::decode`. -/
  decodeMegolmMessage : List UInt8 → Except ProtoBufDecodeError Megolm.ProtobufMegolmMessage
  /-- `base64::decode_config(input, STANDARD_NO_PAD)`. -/
  base64Decode : List UInt8 → Except Base64DecodeError (List UInt8)
  /-- `ed25519_dalek::PublicKey::from_bytes`, its error as a `SignatureError`. -/
  ed25519PublicKeyFromBytes : List UInt8 → Except SignatureError Ed25519PublicKey
  /-- `Signature::try_from(&[u8])`, its error as a `SignatureError`. -/
  ed25519SignatureFromBytes : List UInt8 → Except SignatureError Ed25519Signature

/-- `base64_decode`. -/
def base64Decode (C : Codecs) (input : List UInt8) : Except Base64DecodeError (List UInt8) :=
  C.base64Decode input

/-- `Ed25519PublicKey::from_slice`. -/
def Ed25519PublicKey.fromSlice (C : Codecs) (bytes : List UInt8) : Except KeyError Ed25519PublicKey :=
  (C.ed25519PublicKeyFromBytes bytes).mapError .signature

/-- `Ed25519Signature::from_slice`. -/
def Ed25519Signature.fromSlice (C : Codecs) (bytes : List UInt8) :
    Except SignatureError Ed25519Signature :=
  C.ed25519SignatureFromBytes bytes

namespace Codecs

variable (C : Codecs)

/-- The `prost` decoders read the wire format of their fields. -/
def ProstDecodes : Prop :=
  Protobuf.Lawful C.decodeMessage Olm.ProtoBufMessage.fields ∧
    Protobuf.Lawful C.decodePreKeyMessage Olm.ProtoBufPreKeyMessage.fields ∧
    Protobuf.Lawful C.decodeMegolmMessage Megolm.ProtobufMegolmMessage.fields

/-- The `prost` encoder writes the canonical encoding. -/
def ProstEncodes : Prop :=
  Protobuf.Encodes C.encodePreKeyMessage Olm.ProtoBufPreKeyMessage.fields

/-- Base64 decoding inverts `base64_encode`. -/
def Base64RoundTrip : Prop :=
  ∀ bytes, C.base64Decode (base64Encode bytes) = .ok bytes

namespace Toy

open Protobuf

/-- The fields of a `ProtoBufMessage`, read by number. -/
def readMessage (fields : List (ℕ × Value)) : Option Olm.ProtoBufMessage := do
  let ratchetKey ← bytesField fields 1
  let chainIndex ← varintField fields 2
  let ciphertext ← bytesField fields 4
  pure ⟨ratchetKey, chainIndex.toUInt64, ciphertext⟩

/-- The fields of a `ProtoBufPreKeyMessage`, read by number. -/
def readPreKeyMessage (fields : List (ℕ × Value)) : Option Olm.ProtoBufPreKeyMessage := do
  let oneTimeKey ← bytesField fields 1
  let baseKey ← bytesField fields 2
  let identityKey ← bytesField fields 3
  let message ← bytesField fields 4
  pure ⟨oneTimeKey, baseKey, identityKey, message⟩

/-- The fields of a `ProtobufMegolmMessage`, read by number. -/
def readMegolmMessage (fields : List (ℕ × Value)) : Option Megolm.ProtobufMegolmMessage := do
  let messageIndex ← varintField fields 1
  let ciphertext ← bytesField fields 2
  pure ⟨messageIndex.toUInt32, ciphertext⟩

/-- Ed25519 keys and signatures of the right length. -/
def ed25519PublicKeyFromBytes (bytes : List UInt8) : Except SignatureError Ed25519PublicKey :=
  if h : bytes.length = 32 then .ok ⟨⟨bytes, h⟩⟩ else .error ⟨⟩

def ed25519SignatureFromBytes (bytes : List UInt8) : Except SignatureError Ed25519Signature :=
  if h : bytes.length = 64 then .ok ⟨⟨bytes, h⟩⟩ else .error ⟨⟩

end Toy

/-- The transparent codecs. -/
def toy : Codecs where
  decodeMessage := Protobuf.decodeWith Toy.readMessage Olm.ProtoBufMessage.fields ⟨⟩
  decodePreKeyMessage := Protobuf.decodeWith Toy.readPreKeyMessage Olm.ProtoBufPreKeyMessage.fields ⟨⟩
  encodePreKeyMessage m := Protobuf.encodeCanonical m.fields
  decodeMegolmMessage :=
    Protobuf.decodeWith Toy.readMegolmMessage Megolm.ProtobufMegolmMessage.fields ⟨⟩
  base64Decode input :=
    match Base64.decode input with
    | some bytes => .ok bytes
    | none => .error ⟨⟩
  ed25519PublicKeyFromBytes := Toy.ed25519PublicKeyFromBytes
  ed25519SignatureFromBytes := Toy.ed25519SignatureFromBytes

namespace Toy

open Protobuf

theorem readMessage_fields (m : Olm.ProtoBufMessage) :
    readMessage m.fields = some m ∧
      readMessage (m.fields.filter fun f => !f.2.isDefault) = some m := by
  have hnd : (m.fields.map Prod.fst).Nodup := by simp [Olm.ProtoBufMessage.fields]
  obtain ⟨h1, h1'⟩ := bytesField_of_mem hnd
    (show (1, .bytes m.ratchetKey) ∈ m.fields by simp [Olm.ProtoBufMessage.fields])
  obtain ⟨h2, h2'⟩ := varintField_of_mem hnd
    (show (2, .varint m.chainIndex.toNat) ∈ m.fields by simp [Olm.ProtoBufMessage.fields])
  obtain ⟨h4, h4'⟩ := bytesField_of_mem hnd
    (show (4, .bytes m.ciphertext) ∈ m.fields by simp [Olm.ProtoBufMessage.fields])
  simp only [readMessage, h1, h1', h2, h2', h4, h4', Option.bind_eq_bind, Option.bind_some,
    UInt64.ofNat_toNat, Option.pure_def, and_self]

theorem readPreKeyMessage_fields (m : Olm.ProtoBufPreKeyMessage) :
    readPreKeyMessage m.fields = some m ∧
      readPreKeyMessage (m.fields.filter fun f => !f.2.isDefault) = some m := by
  have hnd : (m.fields.map Prod.fst).Nodup := by simp [Olm.ProtoBufPreKeyMessage.fields]
  obtain ⟨h1, h1'⟩ := bytesField_of_mem hnd
    (show (1, .bytes m.oneTimeKey) ∈ m.fields by simp [Olm.ProtoBufPreKeyMessage.fields])
  obtain ⟨h2, h2'⟩ := bytesField_of_mem hnd
    (show (2, .bytes m.baseKey) ∈ m.fields by simp [Olm.ProtoBufPreKeyMessage.fields])
  obtain ⟨h3, h3'⟩ := bytesField_of_mem hnd
    (show (3, .bytes m.identityKey) ∈ m.fields by simp [Olm.ProtoBufPreKeyMessage.fields])
  obtain ⟨h4, h4'⟩ := bytesField_of_mem hnd
    (show (4, .bytes m.message) ∈ m.fields by simp [Olm.ProtoBufPreKeyMessage.fields])
  simp only [readPreKeyMessage, h1, h1', h2, h2', h3, h3', h4, h4', Option.bind_eq_bind,
    Option.bind_some, Option.pure_def, and_self]

theorem readMegolmMessage_fields (m : Megolm.ProtobufMegolmMessage) :
    readMegolmMessage m.fields = some m ∧
      readMegolmMessage (m.fields.filter fun f => !f.2.isDefault) = some m := by
  have hnd : (m.fields.map Prod.fst).Nodup := by simp [Megolm.ProtobufMegolmMessage.fields]
  obtain ⟨h1, h1'⟩ := varintField_of_mem hnd
    (show (1, .varint m.messageIndex.toNat) ∈ m.fields by
      simp [Megolm.ProtobufMegolmMessage.fields])
  obtain ⟨h2, h2'⟩ := bytesField_of_mem hnd
    (show (2, .bytes m.ciphertext) ∈ m.fields by simp [Megolm.ProtobufMegolmMessage.fields])
  simp only [readMegolmMessage, h1, h1', h2, h2', Option.bind_eq_bind, Option.bind_some,
    UInt32.ofNat_toNat, Option.pure_def, and_self]

end Toy

theorem toy_prostDecodes : toy.ProstDecodes :=
  ⟨Protobuf.decodeWith_lawful Toy.readMessage_fields,
    Protobuf.decodeWith_lawful Toy.readPreKeyMessage_fields,
    Protobuf.decodeWith_lawful Toy.readMegolmMessage_fields⟩

theorem toy_prostEncodes : toy.ProstEncodes := fun _ => rfl

theorem toy_base64RoundTrip : toy.Base64RoundTrip := by
  intro bytes
  simp only [toy, base64Encode, Base64.decode_encode]

end Codecs

end Vodozemac
