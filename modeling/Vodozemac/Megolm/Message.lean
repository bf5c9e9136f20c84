import Vodozemac.Utilities
import Vodozemac.Lib.Protobuf

/-!
# Vodozemac.Megolm.Message

`MegolmMessage` of `src/megolm/message.rs`: a version byte, a payload with the
message index and the ciphertext in the Protocol Buffers layout
`encode_manual` writes by hand, the MAC and the Ed25519 signature.

The MAC is taken over the encoded payload (`to_mac_bytes`) and the signature
over the payload followed by the MAC (`to_signature_bytes`); neither includes
the fields it is stored in, so the zero placeholders that `encrypt_full_mac`
and `encrypt_truncated_mac` start from are never read (`encryptHelper_eq`).
`Ed25519Signature::from_slice(&[0; 64])` accepts the zero signature, so its
`expect` never fires.
-/

namespace Vodozemac.Megolm

namespace Message

/-- `MAC_TRUNCATED_VERSION`: Megolm v1 messages, with an eight-byte MAC. -/
def macTruncatedVersion : UInt8 := 3

/-- `VERSION`: Megolm v2 messages, with the full MAC. -/
def version : UInt8 := 4

end Message

/-- `MegolmMessage`. -/
structure MegolmMessage where
  version : UInt8
  ciphertext : List UInt8
  messageIndex : UInt32
  mac : MessageMac
  signature : Ed25519Signature
  deriving DecidableEq

/-- `ProtobufMegolmMessage`, the payload. -/
structure ProtobufMegolmMessage where
  messageIndex : UInt32
  ciphertext : List UInt8
  deriving DecidableEq

namespace ProtobufMegolmMessage

/-- `INDEX_TAG`. -/
def indexTag : List UInt8 := [0x08]

/-- `CIPHER_TAG`. -/
def cipherTag : List UInt8 := [0x12]

/-- `ProtobufMegolmMessage::encode_manual`. -/
def encodeManual (self : ProtobufMegolmMessage) (version : UInt8) : List UInt8 :=
  [version] ++ indexTag ++ toVarInt self.messageIndex.toUInt64 ++ cipherTag ++
    toVarInt (UInt64.ofNat self.ciphertext.length) ++ self.ciphertext

/-- The fields of the `prost` attributes: `message_index` (uint32, tag 1) and
`ciphertext` (bytes, tag 2). -/
def fields (self : ProtobufMegolmMessage) : List (ℕ × Protobuf.Value) :=
  [(1, .varint self.messageIndex.toNat), (2, .bytes self.ciphertext)]

/-- `encode_manual` writes the version and then both fields, the message index
even at `0` (which `prost` would leave out), as long as the length fits the
`as u64`. -/
theorem encodeManual_eq (self : ProtobufMegolmMessage) (version : UInt8)
    (hc : self.ciphertext.length < 2 ^ 64) :
    self.encodeManual version = version :: Protobuf.encode self.fields := by
  simp only [encodeManual, fields, Protobuf.encode_cons, Protobuf.encode_nil,
    Protobuf.key_of_lt _ (show 1 < 16 by decide), Protobuf.key_of_lt _ (show 2 < 16 by decide),
    Protobuf.Value.encode, Protobuf.Value.wireType, toVarInt_eq_encode, UInt32.toNat_toUInt64,
    UInt64.toNat_ofNat', Nat.mod_eq_of_lt hc, List.append_assoc, List.cons_append,
    List.nil_append, List.append_nil, indexTag, cipherTag]
  rfl

end ProtobufMegolmMessage

namespace MegolmMessage

/-- `MESSAGE_TRUNCATED_SUFFIX_LENGTH`. -/
def messageTruncatedSuffixLength : ℕ := Mac.truncatedLen + Ed25519Signature.length

/-- `MESSAGE_SUFFIX_LENGTH`. -/
def messageSuffixLength : ℕ := Mac.length + Ed25519Signature.length

/-- `MegolmMessage::encode_message`. -/
def encodeMessage (m : MegolmMessage) : List UInt8 :=
  ProtobufMegolmMessage.encodeManual ⟨m.messageIndex, m.ciphertext⟩ m.version

/-- The encoding of the payload: the version and both fields. -/
theorem encodeMessage_eq (m : MegolmMessage) (hc : m.ciphertext.length < 2 ^ 64) :
    m.encodeMessage = m.version :: Protobuf.encode
      (ProtobufMegolmMessage.fields ⟨m.messageIndex, m.ciphertext⟩) :=
  ProtobufMegolmMessage.encodeManual_eq _ _ hc

/-- `MegolmMessage::to_mac_bytes`. -/
def toMacBytes (m : MegolmMessage) : List UInt8 := m.encodeMessage

/-- `MegolmMessage::to_signature_bytes`. -/
def toSignatureBytes (m : MegolmMessage) : List UInt8 := m.encodeMessage ++ m.mac.asBytes

/-- `MegolmMessage::to_bytes`. -/
def toBytes (m : MegolmMessage) : List UInt8 :=
  m.encodeMessage ++ m.mac.asBytes ++ m.signature.bytes.toList

/-- `MegolmMessage::set_mac`: the new MAC takes the form of the old one. -/
def setMac (m : MegolmMessage) (mac : Mac) : MegolmMessage :=
  match m.mac with
  | .truncated _ => { m with mac := .truncated mac.truncate }
  | .full _ => { m with mac := .full mac }

variable (P : Primitives)

/-- `MegolmMessage::encrypt_helper`: MAC the payload, then sign it with the MAC. -/
def encryptHelper (cipher : Cipher) (signingKey : Ed25519Keypair) (message : MegolmMessage) :
    MegolmMessage :=
  let mac := cipher.mac P message.toMacBytes
  let message := message.setMac mac
  { message with signature := signingKey.sign P message.toSignatureBytes }

/-- `MegolmMessage::encrypt_full_mac`. -/
def encryptFullMac (messageIndex : UInt32) (cipher : Cipher) (signingKey : Ed25519Keypair)
    (plaintext : List UInt8) : MegolmMessage :=
  encryptHelper P cipher signingKey
    { version := Message.version, ciphertext := cipher.encrypt P plaintext, messageIndex,
      mac := .full ⟨Bytes.zero 32⟩, signature := ⟨Bytes.zero 64⟩ }

/-- `MegolmMessage::encrypt_truncated_mac`. -/
def encryptTruncatedMac (messageIndex : UInt32) (cipher : Cipher) (signingKey : Ed25519Keypair)
    (plaintext : List UInt8) : MegolmMessage :=
  encryptHelper P cipher signingKey
    { version := Message.macTruncatedVersion, ciphertext := cipher.encrypt P plaintext,
      messageIndex, mac := .truncated (Bytes.zero 8), signature := ⟨Bytes.zero 64⟩ }

/-! ### The encrypted message -/

variable {P}

@[simp] theorem encodeMessage_setMac (m : MegolmMessage) (mac : Mac) :
    (m.setMac mac).encodeMessage = m.encodeMessage := by
  unfold setMac
  split <;> rfl

/-- The message `encrypt_helper` builds: its MAC is that of its payload, in the
form of the placeholder, and its signature is over the payload and that MAC. -/
theorem encryptHelper_eq (cipher : Cipher) (signingKey : Ed25519Keypair) (m : MegolmMessage) :
    encryptHelper P cipher signingKey m =
      { m.setMac (cipher.mac P m.toMacBytes) with
        signature := signingKey.sign P (m.setMac (cipher.mac P m.toMacBytes)).toSignatureBytes } :=
  rfl

@[simp] theorem messageIndex_encryptHelper (cipher : Cipher) (signingKey : Ed25519Keypair)
    (m : MegolmMessage) : (encryptHelper P cipher signingKey m).messageIndex = m.messageIndex := by
  simp only [encryptHelper, setMac]
  split <;> rfl

@[simp] theorem ciphertext_encryptHelper (cipher : Cipher) (signingKey : Ed25519Keypair)
    (m : MegolmMessage) : (encryptHelper P cipher signingKey m).ciphertext = m.ciphertext := by
  simp only [encryptHelper, setMac]
  split <;> rfl

end MegolmMessage

end Vodozemac.Megolm
