import Vodozemac.Olm.ReceiverChain

/-!
# Vodozemac.Olm.DoubleRatchet

The key schedule of an Olm session: the triple Diffie-Hellman secret
(`src/olm/shared_secret.rs`), the root key and its `kdf`
(`src/olm/session/root_key.rs`), the ratchet (`ratchet.rs`) and the sending
side's double ratchet (`double_ratchet.rs`).

The double ratchet is inactive while the other side has not seen our current
ratchet key: it holds the remote root key and the other side's ratchet key.
Activating it generates a fresh ratchet key, runs the root `kdf` on the
agreement of that key with the remote one, and keeps the new root key, the
fresh ratchet key and a sending chain. `advance` on a message of a new remote
ratchet key runs the `kdf` of the active ratchet to get the receiving chain of
that key and turns the ratchet inactive again. Advancing an inactive ratchet
first activates it, and the source commits that activation to `self` before
anything else happens (`advance_snd`).

Every `RatchetKey::new()` (in `Ratchet::new` and `RemoteRootKey::advance`)
draws a fresh secret key; the model takes that key as an argument, `freshKey`.
`RatchetKey`, `RatchetPublicKey` and `RemoteRatchetKey` wrap the Curve25519
keys and add nothing; the model uses the keys themselves.

Both ends of a conversation compute the same keys (`shared3DHSecret_agrees`,
`kdf_comm`): the `kdf` is taken over an X25519 agreement, which is symmetric.
-/

namespace Vodozemac.Olm

variable (P : Primitives)

/-! ### The triple Diffie-Hellman secret -/

/-- `Shared3DHSecret`: the secret of the side that creates the session. -/
structure Shared3DHSecret where
  bytes : Bytes 96

/-- `RemoteShared3DHSecret`: the secret of the side that receives the first message. -/
structure RemoteShared3DHSecret where
  bytes : Bytes 96

/-- `merge_secrets`: the three agreements, in order. -/
def mergeSecrets (firstSecret secondSecret thirdSecret : Bytes 32) : Bytes 96 :=
  ⟨firstSecret.toList ++ secondSecret.toList ++ thirdSecret.toList, by simp⟩

/-- `OLM_ROOT`, the HKDF info of `expand`. -/
def olmRootInfo : List UInt8 := asciiBytes "OLM_ROOT"

/-- `expand`: HKDF-SHA-256 with salt `[0]` into 64 bytes, the root key and the
chain key. -/
def expand (sharedSecret : Bytes 96) : Bytes 32 × Bytes 32 :=
  let expandedKeys := P.hkdfSha256 [0] sharedSecret.toList olmRootInfo 64
  (expandedKeys.slice 0 32 (by decide), expandedKeys.slice 32 32 (by decide))

/-- `RemoteShared3DHSecret::new`, from the receiver's identity and one-time keys. -/
def RemoteShared3DHSecret.new (identityKey oneTimeKey : Curve25519SecretKey)
    (remoteIdentityKey remoteOneTimeKey : Curve25519PublicKey) : RemoteShared3DHSecret :=
  ⟨mergeSecrets (P.x25519 oneTimeKey remoteIdentityKey) (P.x25519 identityKey remoteOneTimeKey)
    (P.x25519 oneTimeKey remoteOneTimeKey)⟩

/-- `Shared3DHSecret::new`, from the sender's identity key and base key. -/
def Shared3DHSecret.new (identityKey oneTimeKey : Curve25519SecretKey)
    (remoteIdentityKey remoteOneTimeKey : Curve25519PublicKey) : Shared3DHSecret :=
  ⟨mergeSecrets (P.x25519 identityKey remoteOneTimeKey) (P.x25519 oneTimeKey remoteIdentityKey)
    (P.x25519 oneTimeKey remoteOneTimeKey)⟩

/-- `Shared3DHSecret::expand`. -/
def Shared3DHSecret.expand (s : Shared3DHSecret) : Bytes 32 × Bytes 32 := Olm.expand P s.bytes

/-- `RemoteShared3DHSecret::expand`. -/
def RemoteShared3DHSecret.expand (s : RemoteShared3DHSecret) : Bytes 32 × Bytes 32 :=
  Olm.expand P s.bytes

/-! ### Root keys -/

/-- `RootKey`: the root key of the side whose ratchet is active. -/
structure RootKey where
  key : Bytes 32

/-- `RemoteRootKey`: the root key of an inactive ratchet. -/
structure RemoteRootKey where
  key : Bytes 32

/-- `ADVANCEMENT_SEED` of `root_key.rs`, the HKDF info of `kdf`. -/
def RootKey.advancementSeed : List UInt8 := asciiBytes "OLM_RATCHET"

/-- `kdf`: HKDF-SHA-256 with the root key as salt over the agreement of the two
ratchet keys, into 64 bytes. -/
def kdf (rootKey : Bytes 32) (ratchetKey : Curve25519SecretKey)
    (remoteRatchetKey : Curve25519PublicKey) : Bytes 64 :=
  P.hkdfSha256 rootKey.toList (P.x25519 ratchetKey remoteRatchetKey).toList
    RootKey.advancementSeed 64

/-- `RemoteRootKey::advance`, with the ratchet key it generates: the new root
key is the first half of the `kdf` output, the sending chain key the second. -/
def RemoteRootKey.advance (r : RemoteRootKey) (remoteRatchetKey : Curve25519PublicKey)
    (freshKey : Curve25519SecretKey) : RootKey × ChainKey × Curve25519SecretKey :=
  let output := kdf P r.key freshKey remoteRatchetKey
  (⟨output.slice 0 32 (by decide)⟩, ChainKey.new (output.slice 32 32 (by decide)), freshKey)

/-- `RootKey::advance`: the remote root key and the receiving chain key of a
new remote ratchet key. -/
def RootKey.advance (r : RootKey) (oldRatchetKey : Curve25519SecretKey)
    (remoteRatchetKey : Curve25519PublicKey) : RemoteRootKey × RemoteChainKey :=
  let output := kdf P r.key oldRatchetKey remoteRatchetKey
  (⟨output.slice 0 32 (by decide)⟩, RemoteChainKey.new (output.slice 32 32 (by decide)))

/-! ### The ratchet -/

/-- `Ratchet`: a root key and our current ratchet key. -/
structure Ratchet where
  rootKey : RootKey
  ratchetKey : Curve25519SecretKey

/-- `Ratchet::new_with_ratchet_key`. -/
def Ratchet.newWithRatchetKey (rootKey : RootKey) (ratchetKey : Curve25519SecretKey) : Ratchet :=
  ⟨rootKey, ratchetKey⟩

/-- `Ratchet::new`, with the ratchet key it generates. -/
def Ratchet.new (rootKey : RootKey) (freshKey : Curve25519SecretKey) : Ratchet :=
  Ratchet.newWithRatchetKey rootKey freshKey

/-- `Ratchet::advance`. -/
def Ratchet.advance (r : Ratchet) (remoteKey : Curve25519PublicKey) :
    RemoteRootKey × RemoteChainKey :=
  r.rootKey.advance P r.ratchetKey remoteKey

/-! ### The double ratchet -/

/-- `InactiveDoubleRatchet`. -/
structure InactiveDoubleRatchet where
  rootKey : RemoteRootKey
  ratchetKey : Curve25519PublicKey

/-- `ActiveDoubleRatchet`: the ratchet and the sending chain. -/
structure ActiveDoubleRatchet where
  activeRatchet : Ratchet
  symmetricKeyRatchet : ChainKey

/-- `DoubleRatchetState`. -/
inductive DoubleRatchetState
  | inactive (r : InactiveDoubleRatchet)
  | active (r : ActiveDoubleRatchet)

/-- `DoubleRatchet`. -/
structure DoubleRatchet where
  inner : DoubleRatchetState

namespace InactiveDoubleRatchet

/-- `InactiveDoubleRatchet::activate`, with the ratchet key it generates. -/
def activate (r : InactiveDoubleRatchet) (freshKey : Curve25519SecretKey) : ActiveDoubleRatchet :=
  let (rootKey, chainKey, ratchetKey) := r.rootKey.advance P r.ratchetKey freshKey
  ⟨Ratchet.newWithRatchetKey rootKey ratchetKey, chainKey⟩

end InactiveDoubleRatchet

namespace ActiveDoubleRatchet

/-- `ActiveDoubleRatchet::advance`: the inactive ratchet on the new remote
ratchet key and the receiving chain of that key. -/
def advance (r : ActiveDoubleRatchet) (ratchetKey : Curve25519PublicKey) :
    InactiveDoubleRatchet × ReceiverChain :=
  let (rootKey, remoteChain) := r.activeRatchet.advance P ratchetKey
  (⟨rootKey, ratchetKey⟩, ReceiverChain.new ratchetKey remoteChain)

/-- `ActiveDoubleRatchet::ratchet_key`: our current ratchet public key. -/
def ratchetKey (r : ActiveDoubleRatchet) : Curve25519PublicKey :=
  P.x25519PublicKey r.activeRatchet.ratchetKey

/-- `ActiveDoubleRatchet::next_message_key`. -/
def nextMessageKey (r : ActiveDoubleRatchet) : MessageKey × ActiveDoubleRatchet :=
  let (messageKey, chainKey) := r.symmetricKeyRatchet.createMessageKey P (r.ratchetKey P)
  (messageKey, { r with symmetricKeyRatchet := chainKey })

end ActiveDoubleRatchet

namespace DoubleRatchet

/-- `DoubleRatchet::next_message_key`: an inactive ratchet is activated first. -/
def nextMessageKey (d : DoubleRatchet) (freshKey : Curve25519SecretKey) :
    MessageKey × DoubleRatchet :=
  match d.inner with
  | .inactive r =>
      let (messageKey, ratchet) := (r.activate P freshKey).nextMessageKey P
      (messageKey, ⟨.active ratchet⟩)
  | .active r =>
      let (messageKey, ratchet) := r.nextMessageKey P
      (messageKey, ⟨.active ratchet⟩)

/-- `DoubleRatchet::encrypt`: a version 2 message. -/
def encrypt (d : DoubleRatchet) (plaintext : List UInt8) (freshKey : Curve25519SecretKey) :
    Message × DoubleRatchet :=
  let (messageKey, d) := d.nextMessageKey P freshKey
  (messageKey.encrypt P plaintext, d)

/-- `DoubleRatchet::encrypt_truncated_mac`: a version 1 message. -/
def encryptTruncatedMac (d : DoubleRatchet) (plaintext : List UInt8)
    (freshKey : Curve25519SecretKey) : Message × DoubleRatchet :=
  let (messageKey, d) := d.nextMessageKey P freshKey
  (messageKey.encryptTruncatedMac P plaintext, d)

/-- `DoubleRatchet::active`: the ratchet of the side that creates the session. -/
def active (sharedSecret : Shared3DHSecret) (freshKey : Curve25519SecretKey) : DoubleRatchet :=
  let (rootKey, chainKey) := sharedSecret.expand P
  ⟨.active ⟨Ratchet.new ⟨rootKey⟩ freshKey, ChainKey.new chainKey⟩⟩

/-- `DoubleRatchet::inactive`. -/
def inactive (rootKey : RemoteRootKey) (ratchetKey : Curve25519PublicKey) : DoubleRatchet :=
  ⟨.inactive ⟨rootKey, ratchetKey⟩⟩

/-- `DoubleRatchet::advance`: the new inactive ratchet and the receiving chain
of `ratchetKey`, and `self` afterwards: activated if it was inactive. -/
def advance (d : DoubleRatchet) (ratchetKey : Curve25519PublicKey)
    (freshKey : Curve25519SecretKey) : (DoubleRatchet × ReceiverChain) × DoubleRatchet :=
  match d.inner with
  | .active r =>
      let (ratchet, receiverChain) := r.advance P ratchetKey
      ((⟨.inactive ratchet⟩, receiverChain), d)
  | .inactive r =>
      let ratchet := r.activate P freshKey
      let (ratchet', receiverChain) := ratchet.advance P ratchetKey
      ((⟨.inactive ratchet'⟩, receiverChain), ⟨.active ratchet⟩)

end DoubleRatchet

/-! ### What the two ends compute -/

variable {P}

/-- Under the X25519 agreement both ends of a session hold the same secret. -/
theorem shared3DHSecret_agrees (hX : P.X25519Agrees) (identityKey oneTimeKey : Curve25519SecretKey)
    (remoteIdentityKey remoteOneTimeKey : Curve25519SecretKey) :
    (Shared3DHSecret.new P identityKey oneTimeKey (P.x25519PublicKey remoteIdentityKey)
        (P.x25519PublicKey remoteOneTimeKey)).bytes =
      (RemoteShared3DHSecret.new P remoteIdentityKey remoteOneTimeKey (P.x25519PublicKey identityKey)
        (P.x25519PublicKey oneTimeKey)).bytes := by
  simp only [Shared3DHSecret.new, RemoteShared3DHSecret.new, hX identityKey remoteOneTimeKey,
    hX oneTimeKey remoteIdentityKey, hX oneTimeKey remoteOneTimeKey]

/-- The root `kdf` of two ratchet keys is the same from either end. -/
theorem kdf_comm (hX : P.X25519Agrees) (rootKey : Bytes 32) (a b : Curve25519SecretKey) :
    kdf P rootKey a (P.x25519PublicKey b) = kdf P rootKey b (P.x25519PublicKey a) := by
  rw [kdf, kdf, hX]

namespace DoubleRatchet

/-- `advance` leaves an active ratchet as it is and activates an inactive one. -/
theorem advance_snd (d : DoubleRatchet) (ratchetKey : Curve25519PublicKey)
    (freshKey : Curve25519SecretKey) :
    (d.advance P ratchetKey freshKey).2 =
      match d.inner with
      | .active _ => d
      | .inactive r => ⟨.active (r.activate P freshKey)⟩ := by
  unfold advance
  cases d.inner <;> rfl

/-- The ratchet `advance` returns is inactive on the new remote ratchet key. -/
theorem advance_fst_fst (d : DoubleRatchet) (ratchetKey : Curve25519PublicKey)
    (freshKey : Curve25519SecretKey) :
    ∃ rootKey, (d.advance P ratchetKey freshKey).1.1 = inactive rootKey ratchetKey := by
  unfold advance
  cases d.inner <;> exact ⟨_, rfl⟩

/-- The chain `advance` returns is new, on the remote ratchet key. -/
theorem advance_fst_snd (d : DoubleRatchet) (ratchetKey : Curve25519PublicKey)
    (freshKey : Curve25519SecretKey) :
    ∃ chainKey, (d.advance P ratchetKey freshKey).1.2 = ReceiverChain.new ratchetKey chainKey := by
  unfold advance
  cases d.inner <;> exact ⟨_, rfl⟩

/-- Offered the same fresh key, the next message key of an inactive ratchet
comes from its activation. -/
theorem nextMessageKey_inactive (r : InactiveDoubleRatchet) (freshKey : Curve25519SecretKey) :
    (DoubleRatchet.mk (.inactive r)).nextMessageKey P freshKey =
      (DoubleRatchet.mk (.active (r.activate P freshKey))).nextMessageKey P freshKey := rfl

end DoubleRatchet

end Vodozemac.Olm
