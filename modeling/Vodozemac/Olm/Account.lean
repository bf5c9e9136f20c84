import Vodozemac.Olm.OneTimeKeys
import Vodozemac.Olm.Session

/-!
# Vodozemac.Olm.Account

An Olm account, `src/olm/account/mod.rs` and `fallback_keys.rs`: the identity
keys, the one-time key store of `Vodozemac.Olm.OneTimeKeys` and the current and
previous fallback key. The keys the source draws with `thread_rng` are
arguments.

`create_inbound_session` looks the message's one-time key up among the
one-time keys and then the fallback keys, builds the session the message
opens, decrypts the message with it, and only after a successful decryption
drops the one-time key; every failure returns before the account is written.
The libolm import (`TryFrom<Pickle>`, under the `libolm-compat` feature)
feeds the pickled one-time keys through `insert_secret_key` with their
pickled ids and takes `next_key_id` from the pickle as it is.
-/

namespace Vodozemac.Olm

variable (P : Primitives)

/-! ### Fallback keys -/

/-- `FallbackKey`. -/
structure FallbackKey where
  keyId : KeyId
  key : Curve25519SecretKey
  published : Bool

namespace FallbackKey

/-- `FallbackKey::new`, with the secret key it draws. -/
def new (keyId : KeyId) (key : Curve25519SecretKey) : FallbackKey := ⟨keyId, key, false⟩

/-- `FallbackKey::public_key`. -/
def publicKey (f : FallbackKey) : Curve25519PublicKey := P.x25519PublicKey f.key

/-- `FallbackKey::mark_as_published`. -/
def markAsPublished (f : FallbackKey) : FallbackKey := { f with published := true }

end FallbackKey

/-- `FallbackKeys`. -/
structure FallbackKeys where
  keyId : UInt64
  fallbackKey : Option FallbackKey
  previousFallbackKey : Option FallbackKey

namespace FallbackKeys

/-- `FallbackKeys::new`. -/
def new : FallbackKeys := ⟨0, none, none⟩

/-- `FallbackKeys::mark_as_published`. -/
def markAsPublished (s : FallbackKeys) : FallbackKeys :=
  { s with fallbackKey := s.fallbackKey.map FallbackKey.markAsPublished }

/-- `FallbackKeys::generate_fallback_key`, with the secret key it draws. The
`+= 1` on the `u64` counter is taken to wrap. -/
def generateFallbackKey (s : FallbackKeys) (key : Curve25519SecretKey) : FallbackKeys :=
  { keyId := s.keyId + 1, previousFallbackKey := s.fallbackKey,
    fallbackKey := some (FallbackKey.new ⟨s.keyId⟩ key) }

/-- `FallbackKeys::get_secret_key`: the current fallback key, then the previous one. -/
def getSecretKey (s : FallbackKeys) (publicKey : Curve25519PublicKey) : Option Curve25519SecretKey :=
  ((s.fallbackKey.filter fun f => f.publicKey P == publicKey).or
    (s.previousFallbackKey.filter fun f => f.publicKey P == publicKey)).map FallbackKey.key

/-- `FallbackKeys::forget_previous_fallback_key`. -/
def forgetPreviousFallbackKey (s : FallbackKeys) : Option FallbackKey × FallbackKeys :=
  (s.previousFallbackKey, { s with previousFallbackKey := none })

/-- `FallbackKeys::unpublished_fallback_key`. -/
def unpublishedFallbackKey (s : FallbackKeys) : Option FallbackKey :=
  s.fallbackKey.filter fun f => !f.published

end FallbackKeys

/-! ### The account -/

/-- `Account`. -/
structure Account where
  signingKey : Ed25519Keypair
  diffieHellmanKey : Curve25519Keypair
  oneTimeKeys : OneTimeKeys
  fallbackKeys : FallbackKeys

/-- `SessionCreationError`. -/
inductive SessionCreationError
  | missingOneTimeKey (key : Curve25519PublicKey)
  | mismatchedIdentityKey (expected got : Curve25519PublicKey)
  | decryption (e : DecryptionError)

/-- `InboundCreationResult`. -/
structure InboundCreationResult where
  session : Session
  plaintext : List UInt8

namespace Account

/-- `Account::new`, with the identity keys it draws. -/
def new (signingKey : Ed25519Keypair) (diffieHellmanKey : Curve25519Keypair) : Account :=
  ⟨signingKey, diffieHellmanKey, .new, .new⟩

/-- `Account::ed25519_key`. -/
def ed25519Key (a : Account) : Ed25519PublicKey := a.signingKey.publicKey P

/-- `Account::curve25519_key`. -/
def curve25519Key (a : Account) : Curve25519PublicKey := a.diffieHellmanKey.publicKey P

/-- `Account::create_outbound_session`, with the base key it draws and the key
`Session::new` draws. -/
def createOutboundSession (a : Account) (sessionConfig : SessionConfig)
    (identityKey oneTimeKey : Curve25519PublicKey) (baseKey freshKey : Curve25519SecretKey) :
    Session :=
  let publicBaseKey := P.x25519PublicKey baseKey
  let sharedSecret :=
    Shared3DHSecret.new P a.diffieHellmanKey.secretKey baseKey identityKey oneTimeKey
  let sessionKeys : SessionKeys := ⟨a.curve25519Key P, publicBaseKey, oneTimeKey⟩
  Session.new P sessionConfig sharedSecret sessionKeys freshKey

/-- `Account::find_one_time_key`: a one-time key, else a fallback key. -/
def findOneTimeKey (a : Account) (publicKey : Curve25519PublicKey) : Option Curve25519SecretKey :=
  (a.oneTimeKeys.getSecretKey publicKey).or (a.fallbackKeys.getSecretKey P publicKey)

/-- `Account::remove_one_time_key_helper`. -/
def removeOneTimeKeyHelper (a : Account) (publicKey : Curve25519PublicKey) :
    Option Curve25519SecretKey × Account :=
  let (key, oneTimeKeys) := a.oneTimeKeys.removeSecretKey publicKey
  (key, { a with oneTimeKeys })

/-- `Account::create_inbound_session`, with the key a new ratchet would draw. -/
def createInboundSession (a : Account) (theirIdentityKey : Curve25519PublicKey)
    (preKeyMessage : PreKeyMessage) (freshKey : Curve25519SecretKey) :
    Except SessionCreationError InboundCreationResult × Account :=
  if theirIdentityKey ≠ preKeyMessage.identityKey then
    (.error (.mismatchedIdentityKey theirIdentityKey preKeyMessage.identityKey), a)
  else
    let publicOtk := preKeyMessage.oneTimeKey
    match a.findOneTimeKey P publicOtk with
    | none => (.error (.missingOneTimeKey publicOtk), a)
    | some privateOtk =>
      let sharedSecret := RemoteShared3DHSecret.new P a.diffieHellmanKey.secretKey privateOtk
        preKeyMessage.identityKey preKeyMessage.baseKey
      let sessionKeys : SessionKeys :=
        ⟨preKeyMessage.identityKey, preKeyMessage.baseKey, preKeyMessage.oneTimeKey⟩
      let config :=
        if preKeyMessage.message.macTruncated then SessionConfig.version1 else SessionConfig.version2
      let session := Session.newRemote P config sharedSecret preKeyMessage.message.ratchetKey
        sessionKeys
      match session.decryptDecoded P preKeyMessage.message freshKey with
      | (.error e, _) => (.error (.decryption e), a)
      | (.ok plaintext, session) =>
        -- the one-time key is dropped only once the message decrypted
        (.ok ⟨session, plaintext⟩, (a.removeOneTimeKeyHelper preKeyMessage.oneTimeKey).2)

/-- `Account::generate_one_time_keys`, with the keys it draws. -/
def generateOneTimeKeys (a : Account) (count : ℕ) (freshKey : ℕ → Curve25519SecretKey) :
    OneTimeKeyGenerationResult × Account :=
  let (result, oneTimeKeys) := a.oneTimeKeys.generate P count freshKey
  (result, { a with oneTimeKeys })

/-- `Account::stored_one_time_key_count`. -/
def storedOneTimeKeyCount (a : Account) : ℕ := a.oneTimeKeys.privateKeys.size

/-- `Account::generate_fallback_key`, with the key it draws. -/
def generateFallbackKey (a : Account) (key : Curve25519SecretKey) : Account :=
  { a with fallbackKeys := a.fallbackKeys.generateFallbackKey key }

/-- `Account::fallback_key`: the unpublished fallback key, if any, as a map of
at most one entry. -/
def fallbackKey (a : Account) : List (KeyId × Curve25519PublicKey) :=
  (a.fallbackKeys.unpublishedFallbackKey.map fun f => (f.keyId, f.publicKey P)).toList

/-- `Account::forget_fallback_key`. -/
def forgetFallbackKey (a : Account) : Bool × Account :=
  let (previous, fallbackKeys) := a.fallbackKeys.forgetPreviousFallbackKey
  (previous.isSome, { a with fallbackKeys })

/-- `Account::mark_keys_as_published`. -/
def markKeysAsPublished (a : Account) : Account :=
  { a with oneTimeKeys := a.oneTimeKeys.markAsPublished,
           fallbackKeys := a.fallbackKeys.markAsPublished }

end Account

/-- `AccountPickle`. The keypairs are pickled as their secret keys, which the
model's keypairs already are. -/
structure AccountPickle where
  signingKey : Ed25519Keypair
  diffieHellmanKey : Curve25519Keypair
  oneTimeKeys : OneTimeKeysPickle
  fallbackKeys : FallbackKeys

namespace Account

/-- `Account::pickle`. -/
def pickle (a : Account) : AccountPickle :=
  ⟨a.signingKey, a.diffieHellmanKey, a.oneTimeKeys.pickle, a.fallbackKeys⟩

/-- `Account::from_pickle`. -/
def fromPickle (pickle : AccountPickle) : Account :=
  ⟨pickle.signingKey, pickle.diffieHellmanKey, OneTimeKeys.fromPickle P pickle.oneTimeKeys,
    pickle.fallbackKeys⟩

end Account

/-! ### The libolm import -/

/-- `Ed25519Keypair::from_expanded_key`. -/
def Ed25519Keypair.fromExpandedKey (secretKey : Bytes 64) : Except KeyError Ed25519Keypair := do
  let secretKey ← (P.ed25519ExpandedSecretKey secretKey).mapError KeyError.signature
  pure ⟨.expanded secretKey⟩

/-- `Curve25519Keypair::from_secret_key`. -/
def Curve25519Keypair.fromSecretKey (key : Bytes 32) : Curve25519Keypair := ⟨⟨key⟩⟩

/-- `LibolmPickleError`: of its variants, the one `TryFrom<Pickle>` returns. -/
inductive LibolmPickleError
  | publicKey (e : KeyError)

namespace Libolm

/-- `OneTimeKey` of the libolm pickle; the pickled public key is not read. -/
structure OneTimeKey where
  keyId : UInt32
  published : Bool
  privateKey : Bytes 32

/-- `From<&OneTimeKey> for FallbackKey`. -/
def OneTimeKey.toFallbackKey (key : OneTimeKey) : FallbackKey :=
  ⟨⟨key.keyId.toUInt64⟩, ⟨key.privateKey⟩, key.published⟩

/-- `FallbackKeysArray`. -/
structure FallbackKeysArray where
  fallbackKey : Option OneTimeKey
  previousFallbackKey : Option OneTimeKey

/-- `Pickle` of `libolm`, decoded; the pickle version, which `unpickle_libolm`
checks, and the pickled public keys are not read. -/
structure Pickle where
  ed25519PrivateKey : Bytes 64
  privateCurve25519Key : Bytes 32
  oneTimeKeys : List OneTimeKey
  fallbackKeys : FallbackKeysArray
  nextKeyId : UInt32

/-- The loop of `TryFrom<Pickle>` over the pickled one-time keys. -/
def insertOneTimeKeys (oneTimeKeys : OneTimeKeys) (keys : List OneTimeKey) : OneTimeKeys :=
  keys.foldl (fun oneTimeKeys key =>
    (oneTimeKeys.insertSecretKey P ⟨key.keyId.toUInt64⟩ ⟨key.privateKey⟩ key.published).2) oneTimeKeys

/-- `TryFrom<Pickle> for Account`. -/
def Pickle.toAccount (pickle : Pickle) : Except LibolmPickleError Account := do
  let oneTimeKeys := insertOneTimeKeys P .new pickle.oneTimeKeys
  let oneTimeKeys := { oneTimeKeys with nextKeyId := pickle.nextKeyId.toUInt64 }
  let fallbackKeys : FallbackKeys :=
    { keyId := ((pickle.fallbackKeys.fallbackKey.map fun (k : OneTimeKey) => k.keyId + 1).getD 0).toUInt64,
      fallbackKey := pickle.fallbackKeys.fallbackKey.map OneTimeKey.toFallbackKey,
      previousFallbackKey := pickle.fallbackKeys.previousFallbackKey.map OneTimeKey.toFallbackKey }
  let signingKey ← (Ed25519Keypair.fromExpandedKey P pickle.ed25519PrivateKey).mapError
    LibolmPickleError.publicKey
  pure
    { signingKey, diffieHellmanKey := Curve25519Keypair.fromSecretKey pickle.privateCurve25519Key,
      oneTimeKeys, fallbackKeys }

/-- The import of a libolm pickle never fails, and the account holds the
pickled one-time keys, inserted in order, under the pickled counter. -/
theorem Pickle.toAccount_ok {P : Primitives} (hE : P.Ed25519ExpandedAccepts) (pickle : Pickle) :
    ∃ a, pickle.toAccount P = .ok a ∧
      a.oneTimeKeys = { insertOneTimeKeys P .new pickle.oneTimeKeys with
        nextKeyId := pickle.nextKeyId.toUInt64 } ∧
      a.diffieHellmanKey = Curve25519Keypair.fromSecretKey pickle.privateCurve25519Key ∧
      a.fallbackKeys.fallbackKey = pickle.fallbackKeys.fallbackKey.map OneTimeKey.toFallbackKey ∧
      a.fallbackKeys.previousFallbackKey =
        pickle.fallbackKeys.previousFallbackKey.map OneTimeKey.toFallbackKey := by
  -- the one step that can fail is the expanded key, which `ed25519-dalek` accepts
  have hkey : Ed25519Keypair.fromExpandedKey P pickle.ed25519PrivateKey =
      .ok ⟨.expanded pickle.ed25519PrivateKey⟩ := by
    rw [Ed25519Keypair.fromExpandedKey, hE]
    rfl
  rw [Pickle.toAccount, hkey]
  exact ⟨_, rfl, rfl, rfl, rfl, rfl⟩

/-- Two pickled one-time keys under one id with different public keys: the
second secret key replaces the first under the id, while the index keeps the
first public key and sends it to that id, where no key has this public key. -/
theorem insertOneTimeKeys_duplicate_keyId (keyId : UInt32) (keyA keyB : Bytes 32)
    (published published' : Bool) (hne : P.x25519PublicKey ⟨keyB⟩ ≠ P.x25519PublicKey ⟨keyA⟩) :
    let s := insertOneTimeKeys P .new [⟨keyId, published, keyA⟩, ⟨keyId, published', keyB⟩]
    s.keyIdsByKey[P.x25519PublicKey ⟨keyA⟩]? = some ⟨keyId.toUInt64⟩ ∧
      s.privateKeys[(⟨keyId.toUInt64⟩ : KeyId)]? = some ⟨keyB⟩ ∧
      ∀ k, s.publicKeyOf P k ≠ some (P.x25519PublicKey ⟨keyA⟩) := by
  intro s
  have hmax : OneTimeKeys.maxOneTimeKeys = 5000 := rfl
  -- neither insertion finds the store full
  have hfirst : OneTimeKeys.new.privateKeys.size < OneTimeKeys.maxOneTimeKeys := by
    simp [OneTimeKeys.new, hmax]
  have hsecond : (OneTimeKeys.new.storeSecretKey P ⟨keyId.toUInt64⟩ ⟨keyA⟩ published).2.privateKeys.size <
      OneTimeKeys.maxOneTimeKeys := by
    rw [OneTimeKeys.privateKeys_storeSecretKey]
    have hle : (OneTimeKeys.new.privateKeys.insert ⟨keyId.toUInt64⟩ ⟨keyA⟩).size ≤
        OneTimeKeys.new.privateKeys.size + 1 := Std.TreeMap.size_insert_le
    simp only [OneTimeKeys.new, Std.TreeMap.size_emptyc] at hle ⊢
    omega
  have hs : s = ((OneTimeKeys.new.storeSecretKey P ⟨keyId.toUInt64⟩ ⟨keyA⟩ published).2.storeSecretKey
      P ⟨keyId.toUInt64⟩ ⟨keyB⟩ published').2 := by
    simp only [s, insertOneTimeKeys, List.foldl_cons, List.foldl_nil]
    rw [OneTimeKeys.insertSecretKey_of_lt hfirst, OneTimeKeys.insertSecretKey_of_lt hsecond]
  have hpriv : ∀ k, s.privateKeys[k]? = if (⟨keyId.toUInt64⟩ : KeyId) = k then some ⟨keyB⟩ else none := by
    intro k
    rw [hs, OneTimeKeys.privateKeys_storeSecretKey, OneTimeKeys.privateKeys_storeSecretKey]
    by_cases hk : (⟨keyId.toUInt64⟩ : KeyId) = k <;>
      simp [OneTimeKeys.new, hk]
  refine ⟨?_, by rw [hpriv, if_pos rfl], fun k hk => ?_⟩
  · rw [hs, OneTimeKeys.keyIdsByKey_storeSecretKey, OneTimeKeys.keyIdsByKey_storeSecretKey,
      Std.HashMap.getElem?_insert, if_neg (by simpa using hne), Std.HashMap.getElem?_insert_self]
  · rw [OneTimeKeys.publicKeyOf_eq, hpriv] at hk
    split at hk
    · exact hne (Option.some.inj hk)
    · cases hk

/-- Two pickled one-time keys under the same id: the second overwrites the
first secret key, but the index keeps the first public key, so the store
returns for it a secret key whose public part is the second one's. -/
theorem toAccount_duplicate_keyId :
    let keyA : Bytes 32 := Bytes.zero 32
    let keyB : Bytes 32 := List.Vector.replicate 32 1
    let pickle : Pickle :=
      ⟨Bytes.zero 64, Bytes.zero 32, [⟨0, false, keyA⟩, ⟨0, false, keyB⟩], ⟨none, none⟩, 1⟩
    ∃ a, pickle.toAccount Primitives.toy = .ok a ∧
      a.oneTimeKeys.getSecretKey ⟨keyA⟩ = some ⟨keyB⟩ ∧
      Primitives.toy.x25519PublicKey ⟨keyB⟩ ≠ ⟨keyA⟩ := by
  intro keyA keyB pickle
  have hne : Primitives.toy.x25519PublicKey ⟨keyB⟩ ≠ Primitives.toy.x25519PublicKey ⟨keyA⟩ := by
    decide
  obtain ⟨hindex, hkey, -⟩ :=
    insertOneTimeKeys_duplicate_keyId Primitives.toy 0 keyA keyB false false hne
  refine ⟨_, rfl, ?_, hne⟩
  show (insertOneTimeKeys Primitives.toy .new pickle.oneTimeKeys).getSecretKey
    (Primitives.toy.x25519PublicKey ⟨keyA⟩) = _
  rw [OneTimeKeys.getSecretKey, hindex, Option.bind_some, hkey]

end Libolm

/-! ### What `create_inbound_session` changes -/

namespace FallbackKeys

variable {P}

theorem getSecretKey_markAsPublished (s : FallbackKeys) (publicKey : Curve25519PublicKey) :
    s.markAsPublished.getSecretKey P publicKey = s.getSecretKey P publicKey := by
  cases h : s.fallbackKey with
  | none => simp [markAsPublished, getSecretKey, h]
  | some f =>
    -- publication changes the flag, not the key the filter looks at
    by_cases hc : (P.x25519PublicKey f.key == publicKey) = true <;>
      simp [markAsPublished, getSecretKey, h, FallbackKey.markAsPublished, FallbackKey.publicKey,
        Option.filter, hc]

theorem getSecretKey_forgetPreviousFallbackKey {s : FallbackKeys} {publicKey : Curve25519PublicKey}
    (h : s.getSecretKey P publicKey = none) :
    s.forgetPreviousFallbackKey.2.getSecretKey P publicKey = none := by
  simp only [getSecretKey, forgetPreviousFallbackKey, Option.map_eq_none_iff,
    Option.or_eq_none_iff] at h ⊢
  exact ⟨h.1, rfl⟩

/-- A fallback key drawn with another public key leaves a public key out of the
fallback keys: the current key becomes the previous one, and the new one is not it. -/
theorem getSecretKey_generateFallbackKey {s : FallbackKeys} {publicKey : Curve25519PublicKey}
    (h : s.getSecretKey P publicKey = none) {key : Curve25519SecretKey}
    (hne : P.x25519PublicKey key ≠ publicKey) :
    (s.generateFallbackKey key).getSecretKey P publicKey = none := by
  simp only [getSecretKey, generateFallbackKey, Option.map_eq_none_iff,
    Option.or_eq_none_iff] at h ⊢
  refine ⟨?_, h.1⟩
  simp [FallbackKey.new, FallbackKey.publicKey, hne]

end FallbackKeys

namespace Account

/-- The accounts later calls lead to when none of them draws a key whose
public key is `publicKey`: inbound sessions, publication, forgetting the
previous fallback key, generating one-time keys or a fallback key, and a
pickle round trip. `from_pickle` rebuilds the index from the stored keys, so
a round trip is taken of an account whose index is the inverse of its keys,
as every store the API reaches has (`oneTimeKeys_reachable_invariant`): a
libolm import with one key under two ids holds it under the id the index
does not name, and a round trip would index it again. -/
inductive Later (P : Primitives) (publicKey : Curve25519PublicKey) : Account → Account → Prop
  | refl (a : Account) : Later P publicKey a a
  | createInboundSession {a a' : Account} (theirIdentityKey : Curve25519PublicKey)
      (m : PreKeyMessage) (freshKey : Curve25519SecretKey) :
      Later P publicKey a a' →
        Later P publicKey a (a'.createInboundSession P theirIdentityKey m freshKey).2
  | markKeysAsPublished {a a' : Account} :
      Later P publicKey a a' → Later P publicKey a a'.markKeysAsPublished
  | forgetFallbackKey {a a' : Account} :
      Later P publicKey a a' → Later P publicKey a a'.forgetFallbackKey.2
  | generateOneTimeKeys {a a' : Account} (count : ℕ) (freshKey : ℕ → Curve25519SecretKey) :
      Later P publicKey a a' → (∀ i < count, P.x25519PublicKey (freshKey i) ≠ publicKey) →
        Later P publicKey a (a'.generateOneTimeKeys P count freshKey).2
  | generateFallbackKey {a a' : Account} (key : Curve25519SecretKey) :
      Later P publicKey a a' → P.x25519PublicKey key ≠ publicKey →
        Later P publicKey a (a'.generateFallbackKey key)
  | pickle {a a' : Account} :
      Later P publicKey a a' →
      (∀ q k, a'.oneTimeKeys.keyIdsByKey[q]? = some k ↔ a'.oneTimeKeys.publicKeyOf P k = some q) →
        Later P publicKey a (Account.fromPickle P a'.pickle)

variable {P}

/-- Every error of `create_inbound_session` leaves the account as it was, and
a session comes with the message's one-time key removed. -/
theorem createInboundSession_eq (a : Account) (theirIdentityKey : Curve25519PublicKey)
    (m : PreKeyMessage) (freshKey : Curve25519SecretKey) :
    (∃ e, a.createInboundSession P theirIdentityKey m freshKey = (.error e, a)) ∨
      ∃ res, a.createInboundSession P theirIdentityKey m freshKey =
        (.ok res, (a.removeOneTimeKeyHelper m.oneTimeKey).2) := by
  unfold createInboundSession
  split
  · exact .inl ⟨_, rfl⟩
  · dsimp only
    cases a.findOneTimeKey P m.oneTimeKey with
    | none => exact .inl ⟨_, rfl⟩
    | some privateOtk =>
      dsimp only
      generalize (if m.message.macTruncated then SessionConfig.version1 else SessionConfig.version2) =
        config
      split
      · exact .inl ⟨_, rfl⟩
      · exact .inr ⟨_, rfl⟩

theorem createInboundSession_of_error {a : Account} {theirIdentityKey : Curve25519PublicKey}
    {m : PreKeyMessage} {freshKey : Curve25519SecretKey} {e : SessionCreationError}
    (h : (a.createInboundSession P theirIdentityKey m freshKey).1 = .error e) :
    (a.createInboundSession P theirIdentityKey m freshKey).2 = a := by
  rcases createInboundSession_eq a theirIdentityKey m freshKey with ⟨e', he⟩ | ⟨res, hres⟩
  · rw [he]
  · rw [hres] at h
    cases h

theorem createInboundSession_of_ok {a : Account} {theirIdentityKey : Curve25519PublicKey}
    {m : PreKeyMessage} {freshKey : Curve25519SecretKey} {res : InboundCreationResult}
    (h : (a.createInboundSession P theirIdentityKey m freshKey).1 = .ok res) :
    (a.createInboundSession P theirIdentityKey m freshKey).2 = (a.removeOneTimeKeyHelper m.oneTimeKey).2 := by
  rcases createInboundSession_eq a theirIdentityKey m freshKey with ⟨e, he⟩ | ⟨res', hres⟩
  · rw [he] at h
    cases h
  · rw [hres]

/-- A message whose one-time key the account cannot find fails, with
`MissingOneTimeKey` when the identity key matches. -/
theorem createInboundSession_of_findOneTimeKey {a : Account} {m : PreKeyMessage}
    (h : a.findOneTimeKey P m.oneTimeKey = none) (theirIdentityKey : Curve25519PublicKey)
    (freshKey : Curve25519SecretKey) :
    (∃ e, (a.createInboundSession P theirIdentityKey m freshKey).1 = .error e) ∧
      (theirIdentityKey = m.identityKey →
        (a.createInboundSession P theirIdentityKey m freshKey).1 = .error (.missingOneTimeKey m.oneTimeKey)) := by
  unfold createInboundSession
  split
  · rename_i hne
    exact ⟨⟨_, rfl⟩, fun heq => absurd heq hne⟩
  · dsimp only
    rw [h]
    exact ⟨⟨_, rfl⟩, fun _ => rfl⟩

/-- `create_inbound_session` on a message whose identity key is the one
expected and whose one-time key the account finds returns what decrypting the
message on the new session returns. -/
theorem createInboundSession_of_found {a : Account} {theirIdentityKey : Curve25519PublicKey}
    {m : PreKeyMessage} {key : Curve25519SecretKey} {freshKey : Curve25519SecretKey}
    {plaintext : List UInt8} {session : Session} (hid : theirIdentityKey = m.identityKey)
    (hfind : a.findOneTimeKey P m.oneTimeKey = some key)
    (hdec : (Session.newRemote P
        (if m.message.macTruncated then SessionConfig.version1 else SessionConfig.version2)
        (RemoteShared3DHSecret.new P a.diffieHellmanKey.secretKey key m.identityKey m.baseKey)
        m.message.ratchetKey ⟨m.identityKey, m.baseKey, m.oneTimeKey⟩).decryptDecoded P m.message
          freshKey = (.ok plaintext, session)) :
    a.createInboundSession P theirIdentityKey m freshKey =
      (.ok ⟨session, plaintext⟩, (a.removeOneTimeKeyHelper m.oneTimeKey).2) := by
  unfold createInboundSession
  rw [if_neg (not_not_intro hid)]
  dsimp only
  rw [hfind]
  dsimp only
  rw [hdec]

/-- Along later calls, a public key that neither the index nor the fallback
keys hold stays out of both. -/
theorem Later.absent {publicKey : Curve25519PublicKey} {a a' : Account} (h : Later P publicKey a a')
    (hk : a.oneTimeKeys.keyIdsByKey[publicKey]? = none)
    (hf : a.fallbackKeys.getSecretKey P publicKey = none) :
    a'.oneTimeKeys.keyIdsByKey[publicKey]? = none ∧ a'.fallbackKeys.getSecretKey P publicKey = none := by
  induction h with
  | refl => exact ⟨hk, hf⟩
  | createInboundSession theirIdentityKey m freshKey _ ih =>
    rcases createInboundSession_eq _ theirIdentityKey m freshKey with ⟨e, he⟩ | ⟨res, hres⟩
    · rw [he]
      exact ih
    · rw [hres]
      refine ⟨?_, ih.2⟩
      simp only [removeOneTimeKeyHelper, OneTimeKeys.keyIdsByKey_removeSecretKey, ih.1, ite_self]
  | markKeysAsPublished _ ih =>
    exact ⟨ih.1, (FallbackKeys.getSecretKey_markAsPublished _ _).trans ih.2⟩
  | forgetFallbackKey _ ih => exact ⟨ih.1, FallbackKeys.getSecretKey_forgetPreviousFallbackKey ih.2⟩
  | generateOneTimeKeys count freshKey _ hne ih =>
    exact ⟨OneTimeKeys.keyIdsByKey_generate_eq_none ih.1 hne, ih.2⟩
  | generateFallbackKey key _ hne ih =>
    exact ⟨ih.1, FallbackKeys.getSecretKey_generateFallbackKey ih.2 hne⟩
  | pickle _ hinv ih =>
    -- with the index the inverse of the keys, no stored key has the public key
    refine ⟨OneTimeKeys.keyIdsByKey_fromPickle_eq_none fun k hk => ?_, ih.2⟩
    rw [(hinv _ k).mpr hk] at ih
    exact Option.some_ne_none _ ih.1

end Account

/-- `create_inbound_session` writes the account only on success, and then only
by removing the message's one-time key: from the index, and under the id the
index gave from the secret and unpublished keys, which in a store whose index
is the inverse of its keys is the key whose public part is the message's one.
A one-time key that is no fallback key then opens no second session: every
later call naming it fails, with `MissingOneTimeKey` once the identity key
matches. -/
theorem createInboundSession_keeps_account (P : Primitives) (a : Account)
    (theirIdentityKey : Curve25519PublicKey) (m : PreKeyMessage) (freshKey : Curve25519SecretKey) :
    let r := a.createInboundSession P theirIdentityKey m freshKey
    (∀ e, r.1 = .error e → r.2 = a) ∧
    ∀ res, r.1 = .ok res →
      r.2.signingKey = a.signingKey ∧ r.2.diffieHellmanKey = a.diffieHellmanKey ∧
      r.2.fallbackKeys = a.fallbackKeys ∧ r.2.oneTimeKeys.nextKeyId = a.oneTimeKeys.nextKeyId ∧
      (∀ q, r.2.oneTimeKeys.keyIdsByKey[q]? =
        if m.oneTimeKey = q then none else a.oneTimeKeys.keyIdsByKey[q]?) ∧
      (∀ k, r.2.oneTimeKeys.privateKeys[k]? =
        if a.oneTimeKeys.keyIdsByKey[m.oneTimeKey]? = some k then none
        else a.oneTimeKeys.privateKeys[k]?) ∧
      (∀ k, r.2.oneTimeKeys.unpublishedPublicKeys[k]? =
        if a.oneTimeKeys.keyIdsByKey[m.oneTimeKey]? = some k then none
        else a.oneTimeKeys.unpublishedPublicKeys[k]?) ∧
      ((∀ q k, a.oneTimeKeys.keyIdsByKey[q]? = some k ↔ a.oneTimeKeys.publicKeyOf P k = some q) →
        ∀ k, r.2.oneTimeKeys.privateKeys[k]? =
          if a.oneTimeKeys.publicKeyOf P k = some m.oneTimeKey then none
          else a.oneTimeKeys.privateKeys[k]?) ∧
      (a.fallbackKeys.getSecretKey P m.oneTimeKey = none →
        ∀ a', Account.Later P m.oneTimeKey r.2 a' →
          ∀ theirIdentityKey' (m' : PreKeyMessage) freshKey', m'.oneTimeKey = m.oneTimeKey →
            (∃ e, (a'.createInboundSession P theirIdentityKey' m' freshKey').1 = .error e) ∧
            (theirIdentityKey' = m'.identityKey →
              (a'.createInboundSession P theirIdentityKey' m' freshKey').1 =
                .error (.missingOneTimeKey m.oneTimeKey))) := by
  intro r
  refine ⟨fun e he => Account.createInboundSession_of_error he, fun res hres => ?_⟩
  have hr : r.2 = (a.removeOneTimeKeyHelper m.oneTimeKey).2 := Account.createInboundSession_of_ok hres
  have hremoved : r.2.oneTimeKeys = (a.oneTimeKeys.removeSecretKey m.oneTimeKey).2 := by
    rw [hr]
    rfl
  refine ⟨by rw [hr]; rfl, by rw [hr]; rfl, by rw [hr]; rfl, by simp [hremoved], ?_, ?_, ?_, ?_, ?_⟩
  · intro q
    rw [hremoved, OneTimeKeys.keyIdsByKey_removeSecretKey]
  · intro k
    rw [hremoved, OneTimeKeys.privateKeys_removeSecretKey]
  · intro k
    rw [hremoved, OneTimeKeys.unpublishedPublicKeys_removeSecretKey]
  · intro hinv k
    rw [hremoved, OneTimeKeys.privateKeys_removeSecretKey]
    exact if_congr (hinv _ _) rfl rfl
  · intro hfallback a' hlater theirIdentityKey' m' freshKey' hm'
    -- the key has left the index, and the fallback keys never held it
    have hk : r.2.oneTimeKeys.keyIdsByKey[m.oneTimeKey]? = none := by
      rw [hremoved, OneTimeKeys.keyIdsByKey_removeSecretKey, if_pos rfl]
    have hf : r.2.fallbackKeys.getSecretKey P m.oneTimeKey = none := by
      rw [hr]
      exact hfallback
    obtain ⟨hk', hf'⟩ := hlater.absent hk hf
    have hfind : a'.findOneTimeKey P m'.oneTimeKey = none := by
      rw [Account.findOneTimeKey, hm', OneTimeKeys.getSecretKey_of_keyIdsByKey_eq_none hk', hf']
      rfl
    rw [← hm']
    exact Account.createInboundSession_of_findOneTimeKey hfind theirIdentityKey' freshKey'

/-- Bob's account in the sample: one one-time key, generated. -/
def onceBob : Account :=
  ((Account.new ⟨.normal (Bytes.zero 32)⟩ ⟨⟨List.Vector.replicate 32 2⟩⟩).generateOneTimeKeys
    Primitives.toy 1 fun _ => ⟨List.Vector.replicate 32 1⟩).2

/-- Alice's account in the sample. -/
def onceAlice : Account := Account.new ⟨.normal (Bytes.zero 32)⟩ ⟨⟨List.Vector.replicate 32 3⟩⟩

/-- Alice's session to Bob's identity key and one-time key. -/
def onceSession : Session :=
  onceAlice.createOutboundSession Primitives.toy SessionConfig.version2 ⟨List.Vector.replicate 32 2⟩
    ⟨List.Vector.replicate 32 1⟩ ⟨List.Vector.replicate 32 4⟩ ⟨List.Vector.replicate 32 5⟩

/-- Alice's first message on it, as a pre-key message to Bob's one-time key. -/
def onceMessage : PreKeyMessage :=
  PreKeyMessage.new
    ⟨onceAlice.curve25519Key Primitives.toy, onceSession.sessionKeys.baseKey, ⟨List.Vector.replicate 32 1⟩⟩
    (onceSession.encrypt Primitives.toy [7, 8, 9] ⟨List.Vector.replicate 32 6⟩).1.inner

/-- Bob's store holds the one key, under id 0. -/
theorem onceBob_oneTimeKeys : onceBob.oneTimeKeys =
    { (OneTimeKeys.new.storeSecretKey Primitives.toy ⟨0⟩ ⟨List.Vector.replicate 32 1⟩ false).2 with
      nextKeyId := 1 } := by
  have hlt : OneTimeKeys.new.privateKeys.size < OneTimeKeys.maxOneTimeKeys := by
    simp [OneTimeKeys.new, OneTimeKeys.maxOneTimeKeys, publicMaxOneTimeKeys]
  show (OneTimeKeys.new.generate Primitives.toy (0 + 1) fun _ => ⟨List.Vector.replicate 32 1⟩).2 = _
  rw [OneTimeKeys.generate_succ, OneTimeKeys.generate_zero, OneTimeKeys.generateStep_eq,
    OneTimeKeys.removeOldestKey_of_lt hlt]
  rfl

/-- Bob accepts Alice's message once; after drawing a fallback key and a
pickle round trip he refuses it for want of the one-time key. -/
theorem createInboundSession_keeps_account_once :
    (∃ res, (onceBob.createInboundSession Primitives.toy (onceAlice.curve25519Key Primitives.toy)
        onceMessage ⟨Bytes.zero 32⟩).1 = .ok res) ∧
      ((Account.fromPickle Primitives.toy ((onceBob.createInboundSession Primitives.toy
          (onceAlice.curve25519Key Primitives.toy) onceMessage ⟨Bytes.zero 32⟩).2.generateFallbackKey
            ⟨List.Vector.replicate 32 7⟩).pickle).createInboundSession Primitives.toy
          (onceAlice.curve25519Key Primitives.toy) onceMessage ⟨Bytes.zero 32⟩).1 =
        .error (.missingOneTimeKey onceMessage.oneTimeKey) := by
  -- Bob holds the message's key under id 0
  have hindex : ∀ q, onceBob.oneTimeKeys.keyIdsByKey[q]? =
      if onceMessage.oneTimeKey = q then some ⟨0⟩ else none := by
    intro q
    have hpub : Primitives.toy.x25519PublicKey ⟨List.Vector.replicate 32 1⟩ = onceMessage.oneTimeKey :=
      rfl
    rw [onceBob_oneTimeKeys, OneTimeKeys.storeSecretKey_false]
    dsimp only
    rw [hpub]
    by_cases hq : onceMessage.oneTimeKey = q <;> simp [OneTimeKeys.new, hq]
  have hprivate : ∀ k, onceBob.oneTimeKeys.privateKeys[k]? =
      if (⟨0⟩ : KeyId) = k then some ⟨List.Vector.replicate 32 1⟩ else none := by
    intro k
    rw [onceBob_oneTimeKeys, OneTimeKeys.storeSecretKey_false]
    by_cases hk : (⟨0⟩ : KeyId) = k <;> simp [OneTimeKeys.new, hk]
  have hfallback : onceBob.fallbackKeys.getSecretKey Primitives.toy onceMessage.oneTimeKey = none := rfl
  have hfind : onceBob.findOneTimeKey Primitives.toy onceMessage.oneTimeKey =
      some ⟨List.Vector.replicate 32 1⟩ := by
    rw [Account.findOneTimeKey, OneTimeKeys.getSecretKey, hindex, if_pos rfl, Option.bind_some, hprivate,
      if_pos rfl, hfallback]
    rfl
  -- the message Alice encrypted to the key decrypts with it
  have hok : onceBob.createInboundSession Primitives.toy (onceAlice.curve25519Key Primitives.toy)
      onceMessage ⟨Bytes.zero 32⟩ = (.ok ⟨_, [7, 8, 9]⟩, _) :=
    Account.createInboundSession_of_found rfl hfind (Prod.ext (by decide +kernel) rfl)
  -- afterwards no map holds the key, so the index is the inverse of the keys
  have hinv : ∀ q k, (onceBob.createInboundSession Primitives.toy (onceAlice.curve25519Key Primitives.toy)
      onceMessage ⟨Bytes.zero 32⟩).2.oneTimeKeys.keyIdsByKey[q]? = some k ↔
        (onceBob.createInboundSession Primitives.toy (onceAlice.curve25519Key Primitives.toy)
          onceMessage ⟨Bytes.zero 32⟩).2.oneTimeKeys.publicKeyOf Primitives.toy k = some q := by
    intro q k
    rw [hok]
    show (onceBob.oneTimeKeys.removeSecretKey onceMessage.oneTimeKey).2.keyIdsByKey[q]? = some k ↔
      ((onceBob.oneTimeKeys.removeSecretKey onceMessage.oneTimeKey).2.privateKeys[k]?).map _ = some q
    rw [OneTimeKeys.keyIdsByKey_removeSecretKey, OneTimeKeys.privateKeys_removeSecretKey,
      hindex onceMessage.oneTimeKey, if_pos rfl, hindex q, hprivate]
    by_cases hq : onceMessage.oneTimeKey = q <;> by_cases hk : (⟨0⟩ : KeyId) = k <;> simp [hq, hk]
  refine ⟨⟨_, by rw [hok]⟩, ?_⟩
  exact (((createInboundSession_keeps_account Primitives.toy onceBob _ onceMessage _).2 _
    (by rw [hok])).2.2.2.2.2.2.2.2 hfallback _
    (.pickle (.generateFallbackKey _ (.refl _) (by decide)) hinv) _ onceMessage _ rfl).2 rfl

/-- The removal follows the index, not the keys: in an account imported from a
libolm pickle holding two keys under one id, a pre-key message naming the first
public key but encrypted to the second one decrypts, and it removes the second
secret key, though no stored key has the public part the message names. -/
theorem createInboundSession_stale_index :
    let keyA : Bytes 32 := Bytes.zero 32
    let keyB : Bytes 32 := List.Vector.replicate 32 1
    let pickle : Libolm.Pickle :=
      ⟨Bytes.zero 64, List.Vector.replicate 32 2, [⟨0, false, keyA⟩, ⟨0, false, keyB⟩],
        ⟨none, none⟩, 1⟩
    let alice := Account.new ⟨.normal (Bytes.zero 32)⟩ ⟨⟨List.Vector.replicate 32 3⟩⟩
    let session := alice.createOutboundSession Primitives.toy SessionConfig.version2
      ⟨List.Vector.replicate 32 2⟩ ⟨keyB⟩ ⟨List.Vector.replicate 32 4⟩ ⟨List.Vector.replicate 32 5⟩
    let m := PreKeyMessage.new ⟨alice.curve25519Key Primitives.toy, session.sessionKeys.baseKey, ⟨keyA⟩⟩
      (session.encrypt Primitives.toy [7, 8, 9] ⟨List.Vector.replicate 32 6⟩).1.inner
    ∃ bob, pickle.toAccount Primitives.toy = .ok bob ∧
      bob.oneTimeKeys.privateKeys[(⟨0⟩ : KeyId)]? = some ⟨keyB⟩ ∧
      Primitives.toy.x25519PublicKey ⟨keyB⟩ ≠ m.oneTimeKey ∧
      (∀ k, bob.oneTimeKeys.publicKeyOf Primitives.toy k ≠ some m.oneTimeKey) ∧
      bob.fallbackKeys.getSecretKey Primitives.toy m.oneTimeKey = none ∧
      let r := bob.createInboundSession Primitives.toy (alice.curve25519Key Primitives.toy) m
        ⟨Bytes.zero 32⟩
      (∃ res, r.1 = .ok res) ∧ r.2.oneTimeKeys.privateKeys[(⟨0⟩ : KeyId)]? = none := by
  intro keyA keyB pickle alice session m
  have hne : Primitives.toy.x25519PublicKey ⟨keyB⟩ ≠ Primitives.toy.x25519PublicKey ⟨keyA⟩ := by
    decide
  obtain ⟨hindex, hkey, hnone⟩ :=
    Libolm.insertOneTimeKeys_duplicate_keyId Primitives.toy 0 keyA keyB false false hne
  obtain ⟨bob, hbob, hkeys, hdh, hfallback, hprevious⟩ :=
    Libolm.Pickle.toAccount_ok Primitives.toy_ed25519ExpandedAccepts pickle
  have hindex' : bob.oneTimeKeys.keyIdsByKey[m.oneTimeKey]? = some ⟨0⟩ := by
    rw [hkeys]
    exact hindex
  have hkey' : bob.oneTimeKeys.privateKeys[(⟨0⟩ : KeyId)]? = some ⟨keyB⟩ := by
    rw [hkeys]
    exact hkey
  have hnofallback : bob.fallbackKeys.getSecretKey Primitives.toy m.oneTimeKey = none := by
    rw [FallbackKeys.getSecretKey, hfallback, hprevious]
    rfl
  -- the index sends the message's key to the id where the second key now is
  have hfind : bob.findOneTimeKey Primitives.toy m.oneTimeKey = some ⟨keyB⟩ := by
    rw [Account.findOneTimeKey, OneTimeKeys.getSecretKey, hindex', Option.bind_some, hkey',
      hnofallback]
    rfl
  have hok : ∃ res, (bob.createInboundSession Primitives.toy (alice.curve25519Key Primitives.toy) m
      ⟨Bytes.zero 32⟩).1 = .ok res := by
    rw [Account.createInboundSession,
      if_neg (show ¬(alice.curve25519Key Primitives.toy ≠ m.identityKey) from fun h => h rfl)]
    dsimp only
    rw [hfind]
    dsimp only
    rw [hdh, if_neg (show ¬(m.message.macTruncated = true) by decide +kernel)]
    split
    · -- the message Alice encrypted to the second key decrypts with it
      rename_i e _ hdec
      have h := congrArg (fun r => r.1.isOk) hdec
      change _ = false at h
      exfalso
      revert h
      decide +kernel
    · exact ⟨_, rfl⟩
  refine ⟨bob, hbob, hkey', hne, fun k => by rw [hkeys]; exact hnone k, hnofallback, ?_⟩
  intro r
  obtain ⟨res, hres⟩ := hok
  refine ⟨⟨res, hres⟩, ?_⟩
  have hr : r.2.oneTimeKeys = (bob.oneTimeKeys.removeSecretKey m.oneTimeKey).2 := by
    rw [Account.createInboundSession_of_ok hres]
    rfl
  rw [hr, OneTimeKeys.privateKeys_removeSecretKey, if_pos hindex']

end Vodozemac.Olm
