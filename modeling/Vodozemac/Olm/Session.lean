import Vodozemac.Olm.DoubleRatchet

/-!
# Vodozemac.Olm.Session

An Olm session, `src/olm/session/mod.rs`: the session keys, the sending
double ratchet, up to `MAX_RECEIVING_CHAINS` receiving chains (`ChainStore`,
oldest first) and the configuration.

`decrypt_decoded` looks for the chain of the message's ratchet key. A known
chain decrypts the message in place. Otherwise the sending ratchet is
advanced to the new ratchet key; that call already activates an inactive
sending ratchet in `self`, and only when the new chain decrypts the message
is the sending ratchet replaced by the returned inactive one and the chain
pushed, evicting the oldest when five are held.

`find_ratchet` returns a `&mut` into the store: the model returns the position
of the first chain of the key, and the decrypted chain is written back there.
The pickle is the four fields; its serialization and encryption are left out.
-/

namespace Vodozemac.Olm

variable (P : Primitives)

/-- `MAX_RECEIVING_CHAINS`. -/
def maxReceivingChains : ℕ := 5

instance : NeZero maxReceivingChains := ⟨by decide⟩

/-- `ChainStore`: the receiving chains, oldest first. -/
structure ChainStore where
  inner : ArrayVec ReceiverChain maxReceivingChains

namespace ChainStore

/-- `ChainStore::new`. -/
def new : ChainStore := ⟨ArrayVec.new⟩

/-- `ChainStore::push`: evict the oldest chain when full. -/
def push (s : ChainStore) (ratchet : ReceiverChain) : ChainStore := ⟨s.inner.pushEvicting ratchet⟩

/-- `ChainStore::is_empty`. -/
def isEmpty (s : ChainStore) : Bool := s.inner.toList.isEmpty

/-- `ChainStore::find_ratchet`: the position of the first chain of the ratchet key. -/
def findRatchet (s : ChainStore) (ratchetKey : Curve25519PublicKey) :
    Option (Fin s.inner.toList.length) :=
  s.inner.toList.findFinIdx? fun r => r.belongsTo ratchetKey

end ChainStore

/-- `Session`. -/
structure Session where
  sessionKeys : SessionKeys
  sendingRatchet : DoubleRatchet
  receivingChains : ChainStore
  config : SessionConfig

/-- The `Message` that `Session::decrypt` takes out of an `OlmMessage`. -/
def OlmMessage.inner : OlmMessage → Message
  | .normal m => m
  | .preKey m => m.message

namespace Session

/-- `Session::new`: the session of the side that creates it, with the ratchet
key `Ratchet::new` generates. -/
def new (config : SessionConfig) (sharedSecret : Shared3DHSecret) (sessionKeys : SessionKeys)
    (freshKey : Curve25519SecretKey) : Session :=
  { sessionKeys, sendingRatchet := DoubleRatchet.active P sharedSecret freshKey,
    receivingChains := .new, config }

/-- `Session::new_remote`: the session of the side that receives the first
message, with the chain of the sender's ratchet key. -/
def newRemote (config : SessionConfig) (sharedSecret : RemoteShared3DHSecret)
    (remoteRatchetKey : Curve25519PublicKey) (sessionKeys : SessionKeys) : Session :=
  let (rootKey, remoteChainKey) := sharedSecret.expand P
  let localRatchet := DoubleRatchet.inactive ⟨rootKey⟩ remoteRatchetKey
  let remoteRatchet := ReceiverChain.new remoteRatchetKey (RemoteChainKey.new remoteChainKey)
  { sessionKeys, sendingRatchet := localRatchet, receivingChains := ChainStore.new.push remoteRatchet,
    config }

/-- `Session::session_id`, before its base64 encoding. -/
def sessionId (s : Session) : Bytes 32 := s.sessionKeys.sessionId P

/-- `Session::has_received_message`. -/
def hasReceivedMessage (s : Session) : Bool := !s.receivingChains.isEmpty

/-- `Session::encrypt`: a pre-key message until the session received one. -/
def encrypt (s : Session) (plaintext : List UInt8) (freshKey : Curve25519SecretKey) :
    OlmMessage × Session :=
  let (message, sendingRatchet) := match s.config.version with
    | .v1 => s.sendingRatchet.encryptTruncatedMac P plaintext freshKey
    | .v2 => s.sendingRatchet.encrypt P plaintext freshKey
  let s := { s with sendingRatchet }
  if s.hasReceivedMessage then (.normal message, s)
  else (.preKey (PreKeyMessage.new s.sessionKeys message), s)

/-- `Session::decrypt_decoded`. -/
def decryptDecoded (s : Session) (message : Message) (freshKey : Curve25519SecretKey) :
    Except DecryptionError (List UInt8) × Session :=
  let ratchetKey := message.ratchetKey
  match s.receivingChains.findRatchet ratchetKey with
  | some i =>
      let (result, ratchet) := (s.receivingChains.inner.toList.get i).decrypt P message s.config
      (result, { s with receivingChains := ⟨s.receivingChains.inner.set i ratchet⟩ })
  | none =>
      let ((sendingRatchet, remoteRatchet), activated) :=
        s.sendingRatchet.advance P ratchetKey freshKey
      -- `advance` has already written the activation to `self.sending_ratchet`
      let s := { s with sendingRatchet := activated }
      match remoteRatchet.decrypt P message s.config with
      | (.error e, _) => (.error e, s)
      | (.ok plaintext, remoteRatchet) =>
          (.ok plaintext,
            { s with sendingRatchet, receivingChains := s.receivingChains.push remoteRatchet })

/-- `Session::decrypt`. -/
def decrypt (s : Session) (message : OlmMessage) (freshKey : Curve25519SecretKey) :
    Except DecryptionError (List UInt8) × Session :=
  s.decryptDecoded P message.inner freshKey

end Session

/-- `SessionPickle`. -/
structure SessionPickle where
  sessionKeys : SessionKeys
  sendingRatchet : DoubleRatchet
  receivingChains : ChainStore
  config : SessionConfig

/-- `Session::pickle`. -/
def Session.pickle (s : Session) : SessionPickle :=
  ⟨s.sessionKeys, s.sendingRatchet, s.receivingChains, s.config⟩

/-- `Session::from_pickle`. -/
def Session.fromPickle (pickle : SessionPickle) : Session :=
  ⟨pickle.sessionKeys, pickle.sendingRatchet, pickle.receivingChains, pickle.config⟩

/-! ### What one call does -/

variable {P}

namespace Session

@[simp] theorem fromPickle_pickle (s : Session) : fromPickle s.pickle = s := rfl

/-- `encrypt` changes nothing but the sending ratchet. -/
theorem encrypt_snd (s : Session) (plaintext : List UInt8) (freshKey : Curve25519SecretKey) :
    ∃ sendingRatchet, (s.encrypt P plaintext freshKey).2 = { s with sendingRatchet } := by
  unfold encrypt
  cases s.config.version <;> dsimp only <;> split <;> exact ⟨_, rfl⟩

/-- `encrypt` takes the next message key of the sending ratchet, and keeps the
ratchet that call leaves. -/
theorem encrypt_snd_eq (s : Session) (plaintext : List UInt8) (freshKey : Curve25519SecretKey) :
    (s.encrypt P plaintext freshKey).2 =
      { s with sendingRatchet := (s.sendingRatchet.nextMessageKey P freshKey).2 } := by
  unfold encrypt DoubleRatchet.encrypt DoubleRatchet.encryptTruncatedMac
  cases s.config.version <;> dsimp only <;> split <;> rfl

/-- The message `encrypt` sends, with the MAC form of the configuration. -/
theorem inner_encrypt (s : Session) (plaintext : List UInt8) (freshKey : Curve25519SecretKey) :
    (s.encrypt P plaintext freshKey).1.inner =
      match s.config.version with
      | .v1 => (s.sendingRatchet.nextMessageKey P freshKey).1.encryptTruncatedMac P plaintext
      | .v2 => (s.sendingRatchet.nextMessageKey P freshKey).1.encrypt P plaintext := by
  unfold encrypt DoubleRatchet.encrypt DoubleRatchet.encryptTruncatedMac
  cases s.config.version <;> dsimp only <;> split <;> rfl

/-- `encrypt` wraps the message in a pre-key message with the session keys
until the session has a receiving chain. -/
theorem encrypt_fst (s : Session) (plaintext : List UInt8) (freshKey : Curve25519SecretKey) :
    (s.encrypt P plaintext freshKey).1 =
      if s.hasReceivedMessage then .normal (s.encrypt P plaintext freshKey).1.inner
      else .preKey (PreKeyMessage.new s.sessionKeys (s.encrypt P plaintext freshKey).1.inner) := by
  -- the test reads the chains, which the new sending ratchet leaves as they are
  have hkeep : ∀ d : DoubleRatchet,
      ({ s with sendingRatchet := d } : Session).hasReceivedMessage = s.hasReceivedMessage :=
    fun _ => rfl
  unfold encrypt
  cases s.config.version <;> dsimp only <;> rw [hkeep] <;> split <;> rfl

/-- `decrypt_decoded` through a known chain: the chain decrypts in place. -/
theorem decryptDecoded_of_findRatchet {s : Session} {message : Message}
    {i : Fin s.receivingChains.inner.toList.length}
    (h : s.receivingChains.findRatchet message.ratchetKey = some i) (freshKey : Curve25519SecretKey) :
    s.decryptDecoded P message freshKey =
      (((s.receivingChains.inner.toList.get i).decrypt P message s.config).1,
        { s with receivingChains :=
            ⟨s.receivingChains.inner.set i
              ((s.receivingChains.inner.toList.get i).decrypt P message s.config).2⟩ }) := by
  simp only [decryptDecoded, h]

/-- `decrypt_decoded` through a new chain: the chain `advance` derives
decrypts the message; a success replaces the sending ratchet by the one
`advance` returned and pushes the chain, a failure keeps the activation. -/
theorem decryptDecoded_of_findRatchet_eq_none {s : Session} {message : Message}
    (h : s.receivingChains.findRatchet message.ratchetKey = none) (freshKey : Curve25519SecretKey) :
    s.decryptDecoded P message freshKey =
      match ((s.sendingRatchet.advance P message.ratchetKey freshKey).1.2.decrypt P message
          s.config).1 with
      | .ok plaintext =>
          (.ok plaintext,
            { s with sendingRatchet := (s.sendingRatchet.advance P message.ratchetKey freshKey).1.1,
                     receivingChains := s.receivingChains.push
                      ((s.sendingRatchet.advance P message.ratchetKey freshKey).1.2.decrypt P message
                        s.config).2 })
      | .error e =>
          (.error e,
            { s with sendingRatchet := (s.sendingRatchet.advance P message.ratchetKey freshKey).2 }) := by
  simp only [decryptDecoded, h]
  rcases (s.sendingRatchet.advance P message.ratchetKey freshKey).1.2.decrypt P message s.config
    with ⟨_ | plaintext, chain⟩ <;> rfl

/-- A failure through a new chain leaves the session as `advance` left it:
with the sending ratchet activated if it was inactive. -/
theorem decryptDecoded_snd_of_error {s : Session} {message : Message}
    (h : s.receivingChains.findRatchet message.ratchetKey = none) {freshKey : Curve25519SecretKey}
    {e : DecryptionError} (he : (s.decryptDecoded P message freshKey).1 = .error e) :
    (s.decryptDecoded P message freshKey).2 =
      { s with sendingRatchet := (s.sendingRatchet.advance P message.ratchetKey freshKey).2 } := by
  revert he
  simp only [decryptDecoded, h]
  rcases (s.sendingRatchet.advance P message.ratchetKey freshKey).1.2.decrypt P message s.config
    with ⟨_ | plaintext, chain⟩
  · intro _
    rfl
  · intro he
    cases he

/-- A success through a new chain replaces the sending ratchet by the one
`advance` returned and pushes the chain of the message's ratchet key. -/
theorem decryptDecoded_of_ok {s : Session} {message : Message}
    (h : s.receivingChains.findRatchet message.ratchetKey = none) {freshKey : Curve25519SecretKey}
    {plaintext : List UInt8} (hok : (s.decryptDecoded P message freshKey).1 = .ok plaintext) :
    ∃ chain : ReceiverChain, chain.ratchetKey = message.ratchetKey ∧
      (s.decryptDecoded P message freshKey).2 =
        { s with sendingRatchet := (s.sendingRatchet.advance P message.ratchetKey freshKey).1.1,
                 receivingChains := s.receivingChains.push chain } := by
  obtain ⟨chainKey, hchain⟩ :=
    DoubleRatchet.advance_fst_snd (P := P) s.sendingRatchet message.ratchetKey freshKey
  -- the pushed chain is the decrypted copy of the new chain, on the same key
  have hkey : ((s.sendingRatchet.advance P message.ratchetKey freshKey).1.2.decrypt P message
      s.config).2.ratchetKey = message.ratchetKey := by
    rw [ReceiverChain.ratchetKey_decrypt, hchain]
    rfl
  revert hok hkey
  simp only [decryptDecoded, h]
  rcases (s.sendingRatchet.advance P message.ratchetKey freshKey).1.2.decrypt P message s.config
    with ⟨_ | plaintext', chain⟩
  · intro hok
    cases hok
  · intro _ hkey
    exact ⟨chain, hkey, rfl⟩

end Session

end Vodozemac.Olm
