import Vodozemac.Megolm.GroupSession

/-!
# Vodozemac.Megolm.InboundGroupSession

The receiving side of Megolm, `src/megolm/inbound_group_session.rs`. A session
keeps the ratchet at its first known index (`initialRatchet`) and a cache of a
later ratchet (`latestRatchet`) that `find_ratchet` moves forward, or resets
from the initial one, to reach the index it is asked for.

Every method that takes `&mut self` returns the new state next to its result:
`find_ratchet` may move `latestRatchet`, and so may `decrypt`, `export_at`,
`connected`, `compare` and `merge`, which call it, on either session.

`connected` ends in `unreachable!()` when neither session finds a ratchet at
the other's first known index. The model returns `false` there; that branch is
never taken (`not_findRatchet_none_both`).
-/

namespace Vodozemac.Megolm

/-- `SessionOrdering`. -/
inductive SessionOrdering
  | equal
  | better
  | worse
  | unconnected
  deriving DecidableEq, Repr

/-- `DecryptionError` of Megolm. -/
inductive DecryptionError
  | signature (e : SignatureError)
  | invalidMAC (e : MacError)
  | invalidMACLength (expected got : ℕ)
  | invalidPadding (e : UnpadError)
  | unknownMessageIndex (firstKnownIndex messageIndex : UInt32)
  deriving DecidableEq

/-- `InboundGroupSession`. -/
structure InboundGroupSession where
  initialRatchet : Ratchet
  latestRatchet : Ratchet
  signingKey : Ed25519PublicKey
  signingKeyVerified : Bool
  config : SessionConfig

/-- `DecryptedMessage`. -/
structure DecryptedMessage where
  plaintext : List UInt8
  messageIndex : UInt32
  deriving DecidableEq

/-- `InboundGroupSessionPickle`: the latest ratchet is not pickled. -/
structure InboundGroupSessionPickle where
  initialRatchet : Ratchet
  signingKey : Ed25519PublicKey
  signingKeyVerified : Bool
  config : SessionConfig

namespace InboundGroupSession

variable (P : Primitives)

/-- `InboundGroupSession::new`, from a signed session key: verified. -/
def new (key : SessionKey) (sessionConfig : SessionConfig) : InboundGroupSession :=
  let initialRatchet := key.sessionKey.toRatchet
  { initialRatchet, latestRatchet := initialRatchet, signingKey := key.sessionKey.signingKey,
    signingKeyVerified := true, config := sessionConfig }

/-- `InboundGroupSession::import`, from an exported key: not verified. -/
def «import» (sessionKey : ExportedSessionKey) (sessionConfig : SessionConfig) :
    InboundGroupSession :=
  let initialRatchet := sessionKey.toRatchet
  { initialRatchet, latestRatchet := initialRatchet, signingKey := sessionKey.signingKey,
    signingKeyVerified := false, config := sessionConfig }

/-- `InboundGroupSession::first_known_index`. -/
def firstKnownIndex (s : InboundGroupSession) : UInt32 := s.initialRatchet.index

/-- `InboundGroupSession::find_ratchet`: the ratchet at `messageIndex`, if the
session still knows it. -/
def findRatchet (s : InboundGroupSession) (messageIndex : UInt32) :
    Option Ratchet × InboundGroupSession :=
  if s.initialRatchet.index = messageIndex then (some s.initialRatchet, s)
  else if s.latestRatchet.index = messageIndex then (some s.latestRatchet, s)
  else if s.latestRatchet.index < messageIndex then
    let latest := s.latestRatchet.advanceTo P messageIndex
    (some latest, { s with latestRatchet := latest })
  else if s.initialRatchet.index < messageIndex then
    let latest := s.initialRatchet.advanceTo P messageIndex
    (some latest, { s with latestRatchet := latest })
  else (none, s)

/-- `InboundGroupSession::connected`: the same configuration and signing key,
and the ratchets agree at the larger of the two first known indices. -/
def connected (s other : InboundGroupSession) :
    Bool × InboundGroupSession × InboundGroupSession :=
  if s.config ≠ other.config ∨ s.signingKey ≠ other.signingKey then (false, s, other)
  else
    match s.findRatchet P other.firstKnownIndex with
    | (some ratchet, s) => (ratchet.ctEq other.initialRatchet, s, other)
    | (none, s) =>
        match other.findRatchet P s.firstKnownIndex with
        | (some ratchet, other) => (s.initialRatchet.ctEq ratchet, s, other)
        -- `unreachable!()`
        | (none, other) => (false, s, other)

/-- `InboundGroupSession::compare`. -/
def compare (s other : InboundGroupSession) :
    SessionOrdering × InboundGroupSession × InboundGroupSession :=
  match s.connected P other with
  | (true, s, other) =>
      match Ord.compare s.firstKnownIndex other.firstKnownIndex with
      | .lt => (.better, s, other)
      | .eq => (.equal, s, other)
      | .gt => (.worse, s, other)
  | (false, s, other) => (.unconnected, s, other)

/-- `InboundGroupSession::merge`: a session at the better initial ratchet, trusted
if either session is. -/
def merge (s other : InboundGroupSession) :
    Option InboundGroupSession × InboundGroupSession × InboundGroupSession :=
  match s.compare P other with
  | (ordering, s, other) =>
      let bestRatchet : Option Ratchet :=
        match ordering with
        | .equal | .better => some s.initialRatchet
        | .worse => some other.initialRatchet
        | .unconnected => none
      (bestRatchet.map fun best =>
        { initialRatchet := best, latestRatchet := best, signingKey := s.signingKey,
          signingKeyVerified := s.signingKeyVerified || other.signingKeyVerified,
          config := s.config }, s, other)

/-- `InboundGroupSession::advance_to`: forget the indices below `index`. -/
def advanceTo (s : InboundGroupSession) (index : UInt32) : Bool × InboundGroupSession :=
  if s.firstKnownIndex < index then
    let initialRatchet := s.initialRatchet.advanceTo P index
    let latestRatchet := if s.latestRatchet.index < index then initialRatchet else s.latestRatchet
    (true, { s with initialRatchet, latestRatchet })
  else (false, s)

/-- `InboundGroupSession::get_cipher_at`. -/
def getCipherAt (s : InboundGroupSession) (messageIndex : UInt32) : Option Cipher :=
  if s.initialRatchet.index ≤ messageIndex then
    let ratchet :=
      if s.initialRatchet.index < messageIndex then s.initialRatchet.advanceTo P messageIndex
      else s.initialRatchet
    some (Cipher.newMegolm P ratchet.asBytes)
  else none

/-- `InboundGroupSession::verify_mac`: the form of the MAC must match the version. -/
def verifyMac (s : InboundGroupSession) (cipher : Cipher) (message : MegolmMessage) :
    Except DecryptionError Unit :=
  match s.config.version, message.mac with
  | .v1, .truncated m =>
      (cipher.verifyTruncatedMac P message.toMacBytes m.toList).mapError .invalidMAC
  | .v1, .full _ => .error (.invalidMACLength Mac.truncatedLen Mac.length)
  | .v2, .full m => (cipher.verifyMac P message.toMacBytes m).mapError .invalidMAC
  | .v2, .truncated _ => .error (.invalidMACLength Mac.length Mac.truncatedLen)

/-- The end of `InboundGroupSession::decrypt`, once it has the cipher of the
message index: check the MAC, then decrypt. -/
def decryptWithCipher (s : InboundGroupSession) (cipher : Cipher) (message : MegolmMessage) :
    Except DecryptionError DecryptedMessage :=
  match s.verifyMac P cipher message with
  | .error e => .error e
  | .ok () =>
      match cipher.decrypt P message.ciphertext with
      | .error e => .error (.invalidPadding e)
      | .ok plaintext => .ok ⟨plaintext, message.messageIndex⟩

/-- `InboundGroupSession::decrypt`. -/
def decrypt (s : InboundGroupSession) (message : MegolmMessage) :
    Except DecryptionError DecryptedMessage × InboundGroupSession :=
  match s.signingKey.verify P message.toSignatureBytes message.signature with
  | .error e => (.error (.signature e), s)
  | .ok () =>
      match s.findRatchet P message.messageIndex with
      | (some ratchet, s) => (s.decryptWithCipher P (Cipher.newMegolm P ratchet.asBytes) message, s)
      | (none, s) =>
          (.error (.unknownMessageIndex s.initialRatchet.index message.messageIndex), s)

/-- `InboundGroupSession::export_at`. -/
def exportAt (s : InboundGroupSession) (index : UInt32) :
    Option ExportedSessionKey × InboundGroupSession :=
  match s.findRatchet P index with
  | (ratchet, s') => (ratchet.map fun ratchet => ExportedSessionKey.new ratchet s.signingKey, s')

/-- `InboundGroupSession::export_at_first_known_index`. -/
def exportAtFirstKnownIndex (s : InboundGroupSession) : ExportedSessionKey :=
  ExportedSessionKey.new s.initialRatchet s.signingKey

/-- `InboundGroupSession::pickle`. -/
def pickle (s : InboundGroupSession) : InboundGroupSessionPickle :=
  ⟨s.initialRatchet, s.signingKey, s.signingKeyVerified, s.config⟩

/-- `InboundGroupSession::from_pickle`: the latest ratchet restarts at the initial one. -/
def fromPickle (pickle : InboundGroupSessionPickle) : InboundGroupSession :=
  { initialRatchet := pickle.initialRatchet, latestRatchet := pickle.initialRatchet,
    signingKey := pickle.signingKey, signingKeyVerified := pickle.signingKeyVerified,
    config := pickle.config }

/-- `From<&GroupSession>`: the session key of a group session, in its configuration. -/
def ofGroupSession (g : GroupSession) : InboundGroupSession :=
  new (g.sessionKey P) g.sessionConfig

/-! ### What each call changes

`find_ratchet` only moves the latest ratchet, and the other calls change a
session only through it. -/

variable {P}

section findRatchet

variable (s : InboundGroupSession) (i : UInt32)

@[simp] theorem initialRatchet_findRatchet :
    (s.findRatchet P i).2.initialRatchet = s.initialRatchet := by
  unfold findRatchet
  split_ifs <;> rfl

@[simp] theorem signingKey_findRatchet : (s.findRatchet P i).2.signingKey = s.signingKey := by
  unfold findRatchet
  split_ifs <;> rfl

@[simp] theorem signingKeyVerified_findRatchet :
    (s.findRatchet P i).2.signingKeyVerified = s.signingKeyVerified := by
  unfold findRatchet
  split_ifs <;> rfl

@[simp] theorem config_findRatchet : (s.findRatchet P i).2.config = s.config := by
  unfold findRatchet
  split_ifs <;> rfl

@[simp] theorem firstKnownIndex_findRatchet :
    (s.findRatchet P i).2.firstKnownIndex = s.firstKnownIndex := by
  simp [firstKnownIndex]

/-- Without a ratchet at `i`, `find_ratchet` leaves the session as it is. -/
theorem findRatchet_none {s : InboundGroupSession} {i : UInt32}
    (h : (s.findRatchet P i).1 = none) : (s.findRatchet P i).2 = s := by
  unfold findRatchet at h ⊢
  split_ifs at h ⊢
  rfl

end findRatchet

/-- `find_ratchet` finds nothing only below the first known index. -/
theorem lt_of_findRatchet_none {s : InboundGroupSession} {i : UInt32}
    (h : (s.findRatchet P i).1 = none) : i < s.firstKnownIndex := by
  unfold findRatchet at h
  split_ifs at h with h1 h2 h3 h4
  have hne : s.initialRatchet.index.toNat ≠ i.toNat := fun he => h1 (UInt32.toNat_inj.mp he)
  have hnlt := UInt32.lt_iff_toNat_lt.not.mp h4
  exact UInt32.lt_iff_toNat_lt.mpr (by simp only [firstKnownIndex]; omega)

/-- The `unreachable!()` of `connected` is never reached: two sessions cannot
both lack a ratchet at the other's first known index. -/
theorem not_findRatchet_none_both (s other : InboundGroupSession) :
    ¬ ((s.findRatchet P other.firstKnownIndex).1 = none ∧
      (other.findRatchet P s.firstKnownIndex).1 = none) := by
  rintro ⟨hs, ho⟩
  have h1 := UInt32.lt_iff_toNat_lt.mp (lt_of_findRatchet_none hs)
  have h2 := UInt32.lt_iff_toNat_lt.mp (lt_of_findRatchet_none ho)
  omega

/-- `decrypt`'s last steps read only the configuration of the session. -/
theorem decryptWithCipher_congr {s t : InboundGroupSession} (h : s.config = t.config)
    (cipher : Cipher) (message : MegolmMessage) :
    s.decryptWithCipher P cipher message = t.decryptWithCipher P cipher message := by
  simp only [decryptWithCipher, verifyMac, h]

/-- The sessions after `connected`: each is unchanged or has run `find_ratchet`
at the other's first known index. -/
theorem connected_states (s other : InboundGroupSession) :
    ((s.connected P other).2.1 = s ∨
        (s.connected P other).2.1 = (s.findRatchet P other.firstKnownIndex).2) ∧
      ((s.connected P other).2.2 = other ∨
        (s.connected P other).2.2 = (other.findRatchet P s.firstKnownIndex).2) := by
  unfold connected
  split_ifs
  · exact ⟨.inl rfl, .inl rfl⟩
  · generalize hs : s.findRatchet P other.firstKnownIndex = found
    obtain ⟨_ | ratchet, s'⟩ := found
    · -- nothing found: `s` is unchanged and `other` runs `find_ratchet`
      have hs' : s' = s := by
        have := findRatchet_none (s := s) (i := other.firstKnownIndex) (by rw [hs])
        rwa [hs] at this
      subst hs'
      dsimp only
      generalize ho : other.findRatchet P s'.firstKnownIndex = found'
      obtain ⟨_ | ratchet', o'⟩ := found' <;> exact ⟨.inl rfl, .inr rfl⟩
    · exact ⟨.inr rfl, .inl rfl⟩

@[simp] theorem compare_states (s other : InboundGroupSession) :
    (s.compare P other).2 = (s.connected P other).2 := by
  unfold compare
  rcases s.connected P other with ⟨_ | _, s', o'⟩
  · rfl
  · dsimp only
    split <;> rfl

@[simp] theorem merge_states (s other : InboundGroupSession) :
    (s.merge P other).2 = (s.compare P other).2 := rfl

@[simp] theorem exportAt_state (s : InboundGroupSession) (i : UInt32) :
    (s.exportAt P i).2 = (s.findRatchet P i).2 := rfl

/-- The session after `decrypt`: unchanged, or moved by `find_ratchet` at the
message index. -/
theorem decrypt_state (s : InboundGroupSession) (message : MegolmMessage) :
    (s.decrypt P message).2 = s ∨
      (s.decrypt P message).2 = (s.findRatchet P message.messageIndex).2 := by
  unfold decrypt
  split
  · exact .inl rfl
  · rcases s.findRatchet P message.messageIndex with ⟨_ | ratchet, s'⟩ <;> exact .inr rfl

section advanceTo

variable (s : InboundGroupSession) (index : UInt32)

theorem initialRatchet_advanceTo :
    (s.advanceTo P index).2.initialRatchet =
      if s.firstKnownIndex < index then s.initialRatchet.advanceTo P index else s.initialRatchet := by
  unfold advanceTo
  split_ifs <;> rfl

@[simp] theorem signingKey_advanceTo : (s.advanceTo P index).2.signingKey = s.signingKey := by
  unfold advanceTo
  split_ifs <;> rfl

@[simp] theorem config_advanceTo : (s.advanceTo P index).2.config = s.config := by
  unfold advanceTo
  split_ifs <;> rfl

end advanceTo

end InboundGroupSession

end Vodozemac.Megolm
