import Vodozemac.Utilities
import Vodozemac.Lib.Protobuf

/-!
# Vodozemac.Olm.Messages

The messages of Olm and the values that travel with them: `src/olm/messages`,
`src/olm/session_keys.rs` and `src/olm/session_config.rs`.

* `Message` — a version byte, the sender's current ratchet key, the index of
  the message in the sender's chain and the ciphertext, in the Protocol
  Buffers layout `encode_manual` writes by hand, followed by the MAC (eight
  bytes for Olm v1, 32 for v2).
* `PreKeyMessage` — a `Message` together with the `SessionKeys` that let the
  receiver build the session: the sender's identity key, its base key and the
  one-time key of the receiver it used.
* `OlmMessage` — one or the other.

The MAC is taken over the encoded message without the MAC (`to_mac_bytes`),
so the zero placeholder that `new` and `new_truncated_mac` start from is never
read. The session ID is the SHA-256 of the three session keys; the base64
encoding that `session_id` applies to it is left out.
-/

namespace Vodozemac.Olm

/-- `Version` of an Olm session. -/
inductive Version
  | v1
  | v2
  deriving DecidableEq, Repr

/-- `SessionConfig`. -/
structure SessionConfig where
  version : Version
  deriving DecidableEq, Repr

namespace SessionConfig

/-- `SessionConfig::version_1`: truncated MACs. -/
def version1 : SessionConfig := ⟨.v1⟩

/-- `SessionConfig::version_2`: full MACs, also the `Default`. -/
def version2 : SessionConfig := ⟨.v2⟩

end SessionConfig

/-- `default_config`, the configuration of a session pickle without one. -/
def defaultConfig : SessionConfig := SessionConfig.version1

/-- `SessionKeys`: the keys that established a session. -/
structure SessionKeys where
  identityKey : Curve25519PublicKey
  baseKey : Curve25519PublicKey
  oneTimeKey : Curve25519PublicKey
  deriving DecidableEq

/-- `SessionKeys::session_id`, before its base64 encoding: the SHA-256 of the
identity key, the base key and the one-time key. -/
def SessionKeys.sessionId (P : Primitives) (keys : SessionKeys) : Bytes 32 :=
  P.sha256 (keys.identityKey.inner.toList ++ keys.baseKey.inner.toList ++
    keys.oneTimeKey.inner.toList)

namespace Messages

/-- `MAC_TRUNCATED_VERSION` of `message.rs`: Olm v1 messages. -/
def macTruncatedVersion : UInt8 := 3

/-- `VERSION` of `message.rs`: Olm v2 messages. -/
def version : UInt8 := 4

end Messages

/-- `Message`, a normal Olm message. -/
structure Message where
  version : UInt8
  ratchetKey : Curve25519PublicKey
  chainIndex : UInt64
  ciphertext : List UInt8
  mac : MessageMac
  deriving DecidableEq

/-- `ProtoBufMessage`, the payload of a `Message`. -/
structure ProtoBufMessage where
  ratchetKey : List UInt8
  chainIndex : UInt64
  ciphertext : List UInt8
  deriving DecidableEq

namespace ProtoBufMessage

/-- `RATCHET_TAG`. -/
def ratchetTag : List UInt8 := [0x0A]

/-- `INDEX_TAG`. -/
def indexTag : List UInt8 := [0x10]

/-- `CIPHER_TAG`. -/
def cipherTag : List UInt8 := [0x22]

/-- `ProtoBufMessage::encode_manual`. -/
def encodeManual (self : ProtoBufMessage) (version : UInt8) : List UInt8 :=
  [version] ++ ratchetTag ++ toVarInt (UInt64.ofNat self.ratchetKey.length) ++ self.ratchetKey ++
    indexTag ++ toVarInt self.chainIndex ++
    cipherTag ++ toVarInt (UInt64.ofNat self.ciphertext.length) ++ self.ciphertext

/-- The fields of the `prost` attributes: `ratchet_key` (bytes, tag 1),
`chain_index` (uint64, tag 2) and `ciphertext` (bytes, tag 4). -/
def fields (self : ProtoBufMessage) : List (ℕ × Protobuf.Value) :=
  [(1, .bytes self.ratchetKey), (2, .varint self.chainIndex.toNat), (4, .bytes self.ciphertext)]

/-- `encode_manual` writes the version and then every field in tag order, the
ones at their default included, as long as the lengths fit the `as u64`. -/
theorem encodeManual_eq (self : ProtoBufMessage) (version : UInt8)
    (hr : self.ratchetKey.length < 2 ^ 64) (hc : self.ciphertext.length < 2 ^ 64) :
    self.encodeManual version = version :: Protobuf.encode self.fields := by
  simp only [encodeManual, fields, Protobuf.encode_cons, Protobuf.encode_nil,
    Protobuf.key_of_lt _ (show 1 < 16 by decide), Protobuf.key_of_lt _ (show 2 < 16 by decide),
    Protobuf.key_of_lt _ (show 4 < 16 by decide), Protobuf.Value.encode, Protobuf.Value.wireType,
    toVarInt_eq_encode, UInt64.toNat_ofNat', Nat.mod_eq_of_lt hr, Nat.mod_eq_of_lt hc,
    List.append_assoc, List.cons_append, List.nil_append, List.append_nil, ratchetTag, indexTag,
    cipherTag]
  rfl

end ProtoBufMessage

namespace Message

/-- `Message::mac_truncated`. -/
def macTruncated (m : Message) : Bool := m.version == Messages.macTruncatedVersion

/-- `Message::new`: a version 2 message with a zero full MAC. -/
def new (ratchetKey : Curve25519PublicKey) (chainIndex : UInt64) (ciphertext : List UInt8) :
    Message :=
  { version := Messages.version, ratchetKey, chainIndex, ciphertext, mac := .full ⟨Bytes.zero 32⟩ }

/-- `Message::new_truncated_mac`: a version 1 message with a zero truncated MAC. -/
def newTruncatedMac (ratchetKey : Curve25519PublicKey) (chainIndex : UInt64)
    (ciphertext : List UInt8) : Message :=
  { version := Messages.macTruncatedVersion, ratchetKey, chainIndex, ciphertext,
    mac := .truncated (Bytes.zero 8) }

/-- `Message::encode`. -/
def encode (m : Message) : List UInt8 :=
  ProtoBufMessage.encodeManual ⟨m.ratchetKey.inner.toList, m.chainIndex, m.ciphertext⟩ m.version

/-- The encoding of a message: the version and the fields of its payload. -/
theorem encode_eq (m : Message) (hc : m.ciphertext.length < 2 ^ 64) :
    m.encode = m.version :: Protobuf.encode
      (ProtoBufMessage.fields ⟨m.ratchetKey.inner.toList, m.chainIndex, m.ciphertext⟩) :=
  ProtoBufMessage.encodeManual_eq _ _ (by simp) hc

/-- `Message::to_mac_bytes`. -/
def toMacBytes (m : Message) : List UInt8 := m.encode

/-- `Message::to_bytes`. -/
def toBytes (m : Message) : List UInt8 := m.encode ++ m.mac.asBytes

/-- `Message::set_mac`: keeps the form of the placeholder. -/
def setMac (m : Message) (mac : Mac) : Message :=
  match m.mac with
  | .truncated _ => { m with mac := .truncated mac.truncate }
  | .full _ => { m with mac := .full mac }

@[simp] theorem toMacBytes_setMac (m : Message) (mac : Mac) :
    (m.setMac mac).toMacBytes = m.toMacBytes := by
  unfold setMac
  split <;> rfl

@[simp] theorem ratchetKey_setMac (m : Message) (mac : Mac) :
    (m.setMac mac).ratchetKey = m.ratchetKey := by
  unfold setMac
  split <;> rfl

@[simp] theorem chainIndex_setMac (m : Message) (mac : Mac) :
    (m.setMac mac).chainIndex = m.chainIndex := by
  unfold setMac
  split <;> rfl

@[simp] theorem ciphertext_setMac (m : Message) (mac : Mac) :
    (m.setMac mac).ciphertext = m.ciphertext := by
  unfold setMac
  split <;> rfl

@[simp] theorem version_setMac (m : Message) (mac : Mac) :
    (m.setMac mac).version = m.version := by
  unfold setMac
  split <;> rfl

end Message

/-- `PreKeyMessage`. -/
structure PreKeyMessage where
  sessionKeys : SessionKeys
  message : Message
  deriving DecidableEq

/-- `ProtoBufPreKeyMessage`, the payload of a `PreKeyMessage`. -/
structure ProtoBufPreKeyMessage where
  oneTimeKey : List UInt8
  baseKey : List UInt8
  identityKey : List UInt8
  message : List UInt8
  deriving DecidableEq

/-- The fields of the `prost` attributes: `one_time_key`, `base_key`,
`identity_key` and `message`, byte fields with tags 1 to 4. -/
def ProtoBufPreKeyMessage.fields (self : ProtoBufPreKeyMessage) : List (ℕ × Protobuf.Value) :=
  [(1, .bytes self.oneTimeKey), (2, .bytes self.baseKey), (3, .bytes self.identityKey),
    (4, .bytes self.message)]

namespace PreKeyMessage

/-- `PreKeyMessage::VERSION`. -/
def version : UInt8 := 3

/-- `PreKeyMessage::new`. -/
def new (sessionKeys : SessionKeys) (message : Message) : PreKeyMessage := ⟨sessionKeys, message⟩

/-- `PreKeyMessage::one_time_key`. -/
def oneTimeKey (m : PreKeyMessage) : Curve25519PublicKey := m.sessionKeys.oneTimeKey

/-- `PreKeyMessage::base_key`. -/
def baseKey (m : PreKeyMessage) : Curve25519PublicKey := m.sessionKeys.baseKey

/-- `PreKeyMessage::identity_key`. -/
def identityKey (m : PreKeyMessage) : Curve25519PublicKey := m.sessionKeys.identityKey

/-- `PreKeyMessage::session_id`. -/
def sessionId (P : Primitives) (m : PreKeyMessage) : Bytes 32 := m.sessionKeys.sessionId P

end PreKeyMessage

/-- `OlmMessage`. -/
inductive OlmMessage
  | normal (m : Message)
  | preKey (m : PreKeyMessage)
  deriving DecidableEq

/-- `MessageType`. -/
inductive MessageType
  | preKey
  | normal
  deriving DecidableEq, Repr

/-- `usize::from(MessageType)`: the discriminant, `0` for pre-key messages. -/
def MessageType.toUsize : MessageType → ℕ
  | .preKey => 0
  | .normal => 1

namespace OlmMessage

/-- `OlmMessage::message`: the ciphertext. -/
def message : OlmMessage → List UInt8
  | .normal m => m.ciphertext
  | .preKey m => m.message.ciphertext

/-- `OlmMessage::message_type`. -/
def messageType : OlmMessage → MessageType
  | .normal _ => .normal
  | .preKey _ => .preKey

end OlmMessage

end Vodozemac.Olm
