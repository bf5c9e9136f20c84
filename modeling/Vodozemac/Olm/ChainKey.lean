import Vodozemac.Olm.Messages

/-!
# Vodozemac.Olm.ChainKey

The symmetric ratchet of Olm, `src/olm/session/chain_key.rs`, and the message
keys it hands out, `src/olm/session/message_key.rs`.

A chain key is 32 bytes and an index. `advance` replaces the key by its
HMAC over `ADVANCEMENT_SEED` and counts the index up; `create_message_key`
takes the HMAC of the key over `MESSAGE_KEY_SEED` as the message key of the
current index and then advances. The sending side (`ChainKey`) tags its
message keys with its ratchet key; the receiving side (`RemoteChainKey`)
does not.

A chain advanced `n` times holds its key advanced `n` times at its index plus
`n` (`RemoteChainKey.iterate_advance`), so the message key at index `n` of a
chain that starts from the key `c` is the expansion of `c` advanced `n` times.
A message encrypted with a message key decrypts with the remote message key of
the same bytes to its plaintext (`RemoteMessageKey.decrypt_encrypt`).
-/

namespace Vodozemac.Olm

variable (P : Primitives)

/-- `MESSAGE_KEY_SEED`. -/
def messageKeySeed : List UInt8 := [0x01]

/-- `ADVANCEMENT_SEED` of `chain_key.rs`. -/
def advancementSeed : List UInt8 := [0x02]

/-- `expand_chain_key`: the message key of a chain key. -/
def expandChainKey (key : Bytes 32) : Bytes 32 := P.hmacSha256 key.toList messageKeySeed

/-- `advance` of `chain_key.rs`: the next chain key. -/
def advance (key : Bytes 32) : Bytes 32 := P.hmacSha256 key.toList advancementSeed

/-- `MessageKey`: a key to encrypt one message with, tagged with the sender's
ratchet key and the index in the chain. -/
structure MessageKey where
  key : Bytes 32
  ratchetKey : Curve25519PublicKey
  index : UInt64

/-- `RemoteMessageKey`: a key to decrypt one message with. -/
structure RemoteMessageKey where
  key : Bytes 32
  index : UInt64
  deriving DecidableEq

/-- `ChainKey`: the sending chain. -/
structure ChainKey where
  key : Bytes 32
  index : UInt64

/-- `RemoteChainKey`: a receiving chain. -/
structure RemoteChainKey where
  key : Bytes 32
  index : UInt64
  deriving DecidableEq

/-- `DecryptionError` of an Olm session. -/
inductive DecryptionError
  | invalidMAC (e : MacError)
  | invalidMACLength (expected got : ℕ)
  | invalidPadding (e : UnpadError)
  | missingMessageKey (index : UInt64)
  | tooBigMessageGap (gap max : UInt64)
  deriving DecidableEq

namespace RemoteChainKey

/-- `RemoteChainKey::new`: index `0`. -/
def new (bytes : Bytes 32) : RemoteChainKey := ⟨bytes, 0⟩

/-- `RemoteChainKey::chain_index`. -/
def chainIndex (c : RemoteChainKey) : UInt64 := c.index

/-- `RemoteChainKey::advance`. -/
def advance (c : RemoteChainKey) : RemoteChainKey := ⟨Olm.advance P c.key, c.index + 1⟩

/-- `RemoteChainKey::create_message_key`: the key of the current index, and
the chain advanced past it. -/
def createMessageKey (c : RemoteChainKey) : RemoteMessageKey × RemoteChainKey :=
  (⟨expandChainKey P c.key, c.index⟩, c.advance P)

end RemoteChainKey

namespace ChainKey

/-- `ChainKey::new`: index `0`. -/
def new (bytes : Bytes 32) : ChainKey := ⟨bytes, 0⟩

/-- `ChainKey::advance`. -/
def advance (c : ChainKey) : ChainKey := ⟨Olm.advance P c.key, c.index + 1⟩

/-- `ChainKey::create_message_key`: the key of the current index, tagged with
the ratchet key, and the chain advanced past it. -/
def createMessageKey (c : ChainKey) (ratchetKey : Curve25519PublicKey) : MessageKey × ChainKey :=
  (⟨expandChainKey P c.key, ratchetKey, c.index⟩, c.advance P)

end ChainKey

namespace MessageKey

/-- `MessageKey::encrypt_truncated_mac`: a version 1 message. -/
def encryptTruncatedMac (k : MessageKey) (plaintext : List UInt8) : Message :=
  let cipher := Cipher.new P k.key
  let message := Message.newTruncatedMac k.ratchetKey k.index (cipher.encrypt P plaintext)
  message.setMac (cipher.mac P message.toMacBytes)

/-- `MessageKey::encrypt`: a version 2 message. -/
def encrypt (k : MessageKey) (plaintext : List UInt8) : Message :=
  let cipher := Cipher.new P k.key
  let message := Message.new k.ratchetKey k.index (cipher.encrypt P plaintext)
  message.setMac (cipher.mac P message.toMacBytes)

end MessageKey

namespace RemoteMessageKey

/-- `RemoteMessageKey::chain_index`. -/
def chainIndex (k : RemoteMessageKey) : UInt64 := k.index

/-- `RemoteMessageKey::decrypt_truncated_mac`. -/
def decryptTruncatedMac (k : RemoteMessageKey) (message : Message) :
    Except DecryptionError (List UInt8) :=
  let cipher := Cipher.new P k.key
  match message.mac with
  | .truncated m =>
      match cipher.verifyTruncatedMac P message.toMacBytes m.toList with
      | .error e => .error (.invalidMAC e)
      | .ok () => (cipher.decrypt P message.ciphertext).mapError .invalidPadding
  | .full _ => .error (.invalidMACLength Mac.truncatedLen Mac.length)

/-- `RemoteMessageKey::decrypt`. -/
def decrypt (k : RemoteMessageKey) (message : Message) : Except DecryptionError (List UInt8) :=
  let cipher := Cipher.new P k.key
  match message.mac with
  | .full m =>
      match cipher.verifyMac P message.toMacBytes m with
      | .error e => .error (.invalidMAC e)
      | .ok () => (cipher.decrypt P message.ciphertext).mapError .invalidPadding
  | .truncated _ => .error (.invalidMACLength Mac.length Mac.truncatedLen)

end RemoteMessageKey

/-! ### Chains -/

variable {P}

namespace RemoteChainKey

@[simp] theorem index_advance (c : RemoteChainKey) : (c.advance P).index = c.index + 1 := rfl

@[simp] theorem key_advance (c : RemoteChainKey) : (c.advance P).key = Olm.advance P c.key := rfl

/-- `n` advances advance the key `n` times and count the index up by `n`. -/
theorem iterate_advance (c : RemoteChainKey) (n : ℕ) :
    (advance P)^[n] c = ⟨(Olm.advance P)^[n] c.key, c.index + UInt64.ofNat n⟩ := by
  induction n with
  | zero => simp
  | succ n ih =>
      rw [Function.iterate_succ_apply', ih, Function.iterate_succ_apply']
      simp only [advance, UInt64.ofNat_add, UInt64.ofNat_one, UInt64.add_assoc]

end RemoteChainKey

namespace ChainKey

/-- `n` advances advance the key `n` times and count the index up by `n`. -/
theorem iterate_advance (c : ChainKey) (n : ℕ) :
    (advance P)^[n] c = ⟨(Olm.advance P)^[n] c.key, c.index + UInt64.ofNat n⟩ := by
  induction n with
  | zero => simp
  | succ n ih =>
      rw [Function.iterate_succ_apply', ih, Function.iterate_succ_apply']
      simp only [advance, UInt64.ofNat_add, UInt64.ofNat_one, UInt64.add_assoc]

end ChainKey

/-! ### Encrypting and decrypting with one key -/

namespace RemoteMessageKey

/-- A version 2 message decrypts, with the remote key of the same bytes, to
its plaintext. -/
theorem decrypt_encrypt (hP : P.AesCbcRoundTrip) (k : MessageKey) (plaintext : List UInt8) :
    (RemoteMessageKey.mk k.key k.index).decrypt P (k.encrypt P plaintext) = .ok plaintext := by
  simp [decrypt, MessageKey.encrypt, Message.setMac, Message.new, Message.toMacBytes,
    Message.encode, Cipher.verifyMac_mac, Cipher.decrypt_encrypt hP, Except.mapError]

/-- A version 1 message decrypts, with the remote key of the same bytes, to
its plaintext. -/
theorem decryptTruncatedMac_encryptTruncatedMac (hP : P.AesCbcRoundTrip) (k : MessageKey)
    (plaintext : List UInt8) :
    (RemoteMessageKey.mk k.key k.index).decryptTruncatedMac P (k.encryptTruncatedMac P plaintext) =
      .ok plaintext := by
  simp [decryptTruncatedMac, MessageKey.encryptTruncatedMac, Message.setMac,
    Message.newTruncatedMac, Message.toMacBytes, Message.encode, Cipher.verifyTruncatedMac_truncate,
    Cipher.decrypt_encrypt hP, Except.mapError]

end RemoteMessageKey

end Vodozemac.Olm
