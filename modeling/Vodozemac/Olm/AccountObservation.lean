import Mathlib
import Vodozemac.Olm.Account

/-!
# What a program observes of an account

A program holds an `Account` and makes calls of its public API on it, one
after another (`Account.Request`); each call returns a value
(`Account.Response`) and leaves the account the next call sees.

`Account::pickle` drops `key_ids_by_key`, the index from public one-time keys
to their ids, and `Account::from_pickle` rebuilds it from the secret keys.
Every call reads the index only through lookups and changes it only by insert
and erase, so two accounts whose indices agree on every lookup
(`SameLookups`) give the same response to every call and stay so
(`Account.SameLookups.run_fst`, `Account.SameLookups.run_snd`). The rebuilt
index agrees with the original on every lookup exactly when the original is
the inverse of the map from ids to the public parts of their secret keys,
which every store reachable from `OneTimeKeys::new` is. So on an account with
a reachable store a pickle round trip changes none of the responses to any
later sequence of calls (`responses_fromPickle_pickle`). The libolm import
does not give such a store (`createInboundSession_stale_index`).
-/

namespace Vodozemac.Olm

/-! ### Stores with the same lookups -/

namespace OneTimeKeys

/-- `t` is `s` up to the layout of the hash map `key_ids_by_key`: every lookup
agrees. -/
structure SameLookups (s t : OneTimeKeys) : Prop where
  nextKeyId_eq : t.nextKeyId = s.nextKeyId
  unpublishedPublicKeys_eq : t.unpublishedPublicKeys = s.unpublishedPublicKeys
  privateKeys_eq : t.privateKeys = s.privateKeys
  keyIdsByKey_equiv : t.keyIdsByKey.Equiv s.keyIdsByKey

variable {P : Primitives}

namespace SameLookups

variable {s t : OneTimeKeys}

theorem refl (s : OneTimeKeys) : SameLookups s s := ⟨rfl, rfl, rfl, .rfl⟩

theorem getElem?_keyIdsByKey (h : SameLookups s t) (publicKey : Curve25519PublicKey) :
    t.keyIdsByKey[publicKey]? = s.keyIdsByKey[publicKey]? :=
  h.keyIdsByKey_equiv.getElem?_eq

theorem markAsPublished (h : SameLookups s t) : SameLookups s.markAsPublished t.markAsPublished :=
  ⟨h.nextKeyId_eq, rfl, h.privateKeys_eq, h.keyIdsByKey_equiv⟩

theorem pickle_eq (h : SameLookups s t) : t.pickle = s.pickle := by
  rw [pickle, pickle, h.nextKeyId_eq, h.unpublishedPublicKeys_eq, h.privateKeys_eq]

theorem getSecretKey_eq (h : SameLookups s t) (publicKey : Curve25519PublicKey) :
    t.getSecretKey publicKey = s.getSecretKey publicKey := by
  rw [getSecretKey, getSecretKey, h.getElem?_keyIdsByKey, h.privateKeys_eq]

theorem removeSecretKey (h : SameLookups s t) (publicKey : Curve25519PublicKey) :
    (t.removeSecretKey publicKey).1 = (s.removeSecretKey publicKey).1 ∧
      SameLookups (s.removeSecretKey publicKey).2 (t.removeSecretKey publicKey).2 := by
  -- both stores find the same id, if any, and erase the same entries
  cases hk : s.keyIdsByKey[publicKey]? with
  | none =>
      rw [removeSecretKey_of_none hk, removeSecretKey_of_none ((h.getElem?_keyIdsByKey _).trans hk)]
      exact ⟨rfl, h.nextKeyId_eq, h.unpublishedPublicKeys_eq, h.privateKeys_eq,
        h.keyIdsByKey_equiv.erase publicKey⟩
  | some keyId =>
      rw [removeSecretKey_of_some hk, removeSecretKey_of_some ((h.getElem?_keyIdsByKey _).trans hk),
        h.privateKeys_eq]
      exact ⟨rfl, h.nextKeyId_eq, by rw [h.unpublishedPublicKeys_eq], rfl,
        h.keyIdsByKey_equiv.erase publicKey⟩

theorem removeOldestKey (h : SameLookups s t) :
    (t.removeOldestKey P).1 = (s.removeOldestKey P).1 ∧
      SameLookups (s.removeOldestKey P).2 (t.removeOldestKey P).2 := by
  obtain ⟨hn, hu, hp, hk⟩ := h
  unfold OneTimeKeys.removeOldestKey
  rw [hp]
  -- the oldest entry is read off the secret keys, which the two stores share
  split_ifs
  · cases s.privateKeys.keys.head? with
    | none => exact ⟨rfl, hn, hu, hp, hk⟩
    | some keyId =>
        dsimp only
        cases s.privateKeys[keyId]? with
        | none => exact ⟨rfl, hn, by rw [hu], hp, hk⟩
        | some privateKey => exact ⟨rfl, hn, by rw [hu], rfl, hk.erase _⟩
  · exact ⟨rfl, hn, hu, hp, hk⟩

theorem storeSecretKey (h : SameLookups s t) (keyId : KeyId) (key : Curve25519SecretKey)
    (published : Bool) :
    SameLookups (s.storeSecretKey P keyId key published).2 (t.storeSecretKey P keyId key published).2 := by
  obtain ⟨hn, hu, hp, hk⟩ := h
  unfold OneTimeKeys.storeSecretKey
  split
  · exact ⟨hn, by rw [hu], by rw [hp], hk.insert _ _⟩
  · exact ⟨hn, hu, by rw [hp], hk.insert _ _⟩

theorem generateStep {acc acc' : OneTimeKeyGenerationResult × OneTimeKeys} (h₁ : acc'.1 = acc.1)
    (h : SameLookups acc.2 acc'.2) (key : Curve25519SecretKey) :
    (generateStep P acc' key).1 = (generateStep P acc key).1 ∧
      SameLookups (generateStep P acc key).2 (generateStep P acc' key).2 := by
  obtain ⟨hfst, hsnd⟩ := h.removeOldestKey (P := P)
  have hstore := hsnd.storeSecretKey (P := P) ⟨acc.2.nextKeyId⟩ key false
  rw [generateStep_eq, generateStep_eq, h₁, hfst, h.nextKeyId_eq]
  refine ⟨rfl, ?_⟩
  exact ⟨rfl, hstore.unpublishedPublicKeys_eq, hstore.privateKeys_eq,
    hstore.keyIdsByKey_equiv⟩

theorem generate (h : SameLookups s t) (count : ℕ) (freshKey : ℕ → Curve25519SecretKey) :
    (t.generate P count freshKey).1 = (s.generate P count freshKey).1 ∧
      SameLookups (s.generate P count freshKey).2 (t.generate P count freshKey).2 := by
  -- on the turns of the loop: each turn keeps the results equal and the stores alike
  induction count with
  | zero => exact ⟨rfl, h⟩
  | succ count ih =>
      rw [generate_succ, generate_succ]
      exact SameLookups.generateStep ih.1 ih.2 (freshKey count)

end SameLookups

/-- The index rebuilt from the pickle of a reachable store has the same lookups:
both are the inverse of the map from ids to the public parts of the secret keys. -/
theorem Invariant.sameLookups_fromPickle {s : OneTimeKeys} {used : List Curve25519PublicKey}
    {sinceMark : List KeyId} (h : Invariant P s used sinceMark) :
    SameLookups s (OneTimeKeys.fromPickle P s.pickle) := by
  refine ⟨rfl, rfl, rfl, Std.HashMap.Equiv.of_forall_getElem?_eq fun publicKey => ?_⟩
  refine Option.ext fun keyId => ?_
  rw [h.fromPickle.keyIdsByKey_iff publicKey keyId, h.keyIdsByKey_iff publicKey keyId]
  rfl

end OneTimeKeys

/-! ### The calls of an account -/

/-- `IdentityKeys`. -/
structure IdentityKeys where
  ed25519 : Ed25519PublicKey
  curve25519 : Curve25519PublicKey

namespace Account

variable (P : Primitives)

/-- `Account::identity_keys`. -/
def identityKeys (a : Account) : IdentityKeys := ⟨a.ed25519Key P, a.curve25519Key P⟩

/-- `Account::one_time_keys`: the unpublished one-time keys, as the entries of the
map it collects. The field of the model holds the name. -/
def unpublishedOneTimeKeys (a : Account) : List (KeyId × Curve25519PublicKey) :=
  a.oneTimeKeys.unpublishedPublicKeys.toList

/-- `Account::remove_one_time_key`, of the low-level API. -/
def removeOneTimeKey (a : Account) (publicKey : Curve25519PublicKey) :
    Option Curve25519SecretKey × Account :=
  a.removeOneTimeKeyHelper publicKey

/-- A call of the public API of `Account`, with the keys it draws. -/
inductive Request
  | createOutboundSession (sessionConfig : SessionConfig) (identityKey oneTimeKey : Curve25519PublicKey)
      (baseKey freshKey : Curve25519SecretKey)
  | createInboundSession (theirIdentityKey : Curve25519PublicKey) (preKeyMessage : PreKeyMessage)
      (freshKey : Curve25519SecretKey)
  | removeOneTimeKey (publicKey : Curve25519PublicKey)
  | generateOneTimeKeys (count : ℕ) (freshKey : ℕ → Curve25519SecretKey)
  | storedOneTimeKeyCount
  | oneTimeKeys
  | generateFallbackKey (key : Curve25519SecretKey)
  | fallbackKey
  | forgetFallbackKey
  | markKeysAsPublished
  | identityKeys
  | pickle

/-- What a call returns; `done` for the calls that return nothing. -/
inductive Response
  | session (session : Session)
  | inboundSession (result : Except SessionCreationError InboundCreationResult)
  | removedKey (key : Option Curve25519SecretKey)
  | generated (result : OneTimeKeyGenerationResult)
  | count (count : ℕ)
  | keys (keys : List (KeyId × Curve25519PublicKey))
  | forgotten (forgotten : Bool)
  | done
  | identityKeys (keys : IdentityKeys)
  | pickled (pickle : AccountPickle)

/-- A call on `a`: what it returns, and the account it leaves. -/
def Request.run (a : Account) : Request → Response × Account
  | .createOutboundSession sessionConfig identityKey oneTimeKey baseKey freshKey =>
      (.session (a.createOutboundSession P sessionConfig identityKey oneTimeKey baseKey freshKey), a)
  | .createInboundSession theirIdentityKey preKeyMessage freshKey =>
      (.inboundSession (a.createInboundSession P theirIdentityKey preKeyMessage freshKey).1,
        (a.createInboundSession P theirIdentityKey preKeyMessage freshKey).2)
  | .removeOneTimeKey publicKey =>
      (.removedKey (a.removeOneTimeKey publicKey).1, (a.removeOneTimeKey publicKey).2)
  | .generateOneTimeKeys count freshKey =>
      (.generated (a.generateOneTimeKeys P count freshKey).1, (a.generateOneTimeKeys P count freshKey).2)
  | .storedOneTimeKeyCount => (.count a.storedOneTimeKeyCount, a)
  | .oneTimeKeys => (.keys a.unpublishedOneTimeKeys, a)
  | .generateFallbackKey key => (.done, a.generateFallbackKey key)
  | .fallbackKey => (.keys (a.fallbackKey P), a)
  | .forgetFallbackKey => (.forgotten a.forgetFallbackKey.1, a.forgetFallbackKey.2)
  | .markKeysAsPublished => (.done, a.markKeysAsPublished)
  | .identityKeys => (.identityKeys (a.identityKeys P), a)
  | .pickle => (.pickled a.pickle, a)

/-- The responses to a sequence of calls, each made on the account the one
before left. -/
def responses (a : Account) : List Request → List Response
  | [] => []
  | request :: requests => (request.run P a).1 :: responses (request.run P a).2 requests

/-- `b` is `a` up to the layout of the hash map of its one-time keys. -/
structure SameLookups (a b : Account) : Prop where
  signingKey_eq : b.signingKey = a.signingKey
  diffieHellmanKey_eq : b.diffieHellmanKey = a.diffieHellmanKey
  oneTimeKeys_sameLookups : a.oneTimeKeys.SameLookups b.oneTimeKeys
  fallbackKeys_eq : b.fallbackKeys = a.fallbackKeys

variable {P}

/-- What `create_inbound_session` leaves: the account with the one-time key
removed if a session came out, else the account as it was. -/
theorem createInboundSession_snd (a : Account) (theirIdentityKey : Curve25519PublicKey)
    (m : PreKeyMessage) (freshKey : Curve25519SecretKey) :
    (a.createInboundSession P theirIdentityKey m freshKey).2 =
      if (a.createInboundSession P theirIdentityKey m freshKey).1.isOk then
        (a.removeOneTimeKeyHelper m.oneTimeKey).2
      else a := by
  rcases createInboundSession_eq (P := P) a theirIdentityKey m freshKey with ⟨e, h⟩ | ⟨res, h⟩ <;>
    rw [h] <;> rfl

/-- What `create_inbound_session` returns depends on the account only through
the key it finds for the message and the identity key of the account. -/
theorem createInboundSession_fst_congr {a b : Account} {theirIdentityKey : Curve25519PublicKey}
    {m : PreKeyMessage} {freshKey : Curve25519SecretKey}
    (hfind : b.findOneTimeKey P m.oneTimeKey = a.findOneTimeKey P m.oneTimeKey)
    (hdh : b.diffieHellmanKey = a.diffieHellmanKey) :
    (b.createInboundSession P theirIdentityKey m freshKey).1 =
      (a.createInboundSession P theirIdentityKey m freshKey).1 := by
  unfold createInboundSession
  simp only [hfind, hdh]
  -- the two calls take the same branches: only the accounts they return differ
  split
  · rfl
  · split
    · rfl
    · split <;> rfl

namespace SameLookups

variable {a b : Account}

theorem findOneTimeKey_eq (h : SameLookups a b) (publicKey : Curve25519PublicKey) :
    b.findOneTimeKey P publicKey = a.findOneTimeKey P publicKey := by
  rw [findOneTimeKey, findOneTimeKey, h.oneTimeKeys_sameLookups.getSecretKey_eq, h.fallbackKeys_eq]

theorem removeOneTimeKeyHelper (h : SameLookups a b) (publicKey : Curve25519PublicKey) :
    (b.removeOneTimeKeyHelper publicKey).1 = (a.removeOneTimeKeyHelper publicKey).1 ∧
      SameLookups (a.removeOneTimeKeyHelper publicKey).2 (b.removeOneTimeKeyHelper publicKey).2 := by
  obtain ⟨hkey, hstore⟩ := h.oneTimeKeys_sameLookups.removeSecretKey publicKey
  exact ⟨hkey, h.signingKey_eq, h.diffieHellmanKey_eq, hstore, h.fallbackKeys_eq⟩

theorem createInboundSession_fst (h : SameLookups a b) (theirIdentityKey : Curve25519PublicKey)
    (m : PreKeyMessage) (freshKey : Curve25519SecretKey) :
    (b.createInboundSession P theirIdentityKey m freshKey).1 =
      (a.createInboundSession P theirIdentityKey m freshKey).1 :=
  createInboundSession_fst_congr (h.findOneTimeKey_eq _) h.diffieHellmanKey_eq

theorem createInboundSession_snd (h : SameLookups a b) (theirIdentityKey : Curve25519PublicKey)
    (m : PreKeyMessage) (freshKey : Curve25519SecretKey) :
    SameLookups (a.createInboundSession P theirIdentityKey m freshKey).2
      (b.createInboundSession P theirIdentityKey m freshKey).2 := by
  rw [Account.createInboundSession_snd, Account.createInboundSession_snd,
    h.createInboundSession_fst]
  split
  · exact (h.removeOneTimeKeyHelper m.oneTimeKey).2
  · exact h

theorem generateOneTimeKeys (h : SameLookups a b) (count : ℕ) (freshKey : ℕ → Curve25519SecretKey) :
    (b.generateOneTimeKeys P count freshKey).1 = (a.generateOneTimeKeys P count freshKey).1 ∧
      SameLookups (a.generateOneTimeKeys P count freshKey).2 (b.generateOneTimeKeys P count freshKey).2 := by
  obtain ⟨hresult, hstore⟩ := h.oneTimeKeys_sameLookups.generate (P := P) count freshKey
  exact ⟨hresult, h.signingKey_eq, h.diffieHellmanKey_eq, hstore, h.fallbackKeys_eq⟩

theorem createOutboundSession_eq (h : SameLookups a b) (sessionConfig : SessionConfig)
    (identityKey oneTimeKey : Curve25519PublicKey) (baseKey freshKey : Curve25519SecretKey) :
    b.createOutboundSession P sessionConfig identityKey oneTimeKey baseKey freshKey =
      a.createOutboundSession P sessionConfig identityKey oneTimeKey baseKey freshKey := by
  simp only [createOutboundSession, curve25519Key, h.diffieHellmanKey_eq]

theorem identityKeys_eq (h : SameLookups a b) : b.identityKeys P = a.identityKeys P := by
  rw [identityKeys, identityKeys, ed25519Key, ed25519Key, curve25519Key, curve25519Key,
    h.signingKey_eq, h.diffieHellmanKey_eq]

theorem storedOneTimeKeyCount_eq (h : SameLookups a b) :
    b.storedOneTimeKeyCount = a.storedOneTimeKeyCount := by
  rw [storedOneTimeKeyCount, storedOneTimeKeyCount, h.oneTimeKeys_sameLookups.privateKeys_eq]

theorem unpublishedOneTimeKeys_eq (h : SameLookups a b) :
    b.unpublishedOneTimeKeys = a.unpublishedOneTimeKeys := by
  rw [unpublishedOneTimeKeys, unpublishedOneTimeKeys,
    h.oneTimeKeys_sameLookups.unpublishedPublicKeys_eq]

theorem fallbackKey_eq (h : SameLookups a b) : b.fallbackKey P = a.fallbackKey P := by
  rw [fallbackKey, fallbackKey, h.fallbackKeys_eq]

theorem forgetFallbackKey_fst (h : SameLookups a b) :
    b.forgetFallbackKey.1 = a.forgetFallbackKey.1 := by
  simp only [forgetFallbackKey, h.fallbackKeys_eq]

theorem pickle_eq (h : SameLookups a b) : b.pickle = a.pickle := by
  rw [pickle, pickle, h.signingKey_eq, h.diffieHellmanKey_eq, h.oneTimeKeys_sameLookups.pickle_eq,
    h.fallbackKeys_eq]

theorem generateFallbackKey (h : SameLookups a b) (key : Curve25519SecretKey) :
    SameLookups (a.generateFallbackKey key) (b.generateFallbackKey key) :=
  ⟨h.signingKey_eq, h.diffieHellmanKey_eq, h.oneTimeKeys_sameLookups,
    by simp only [Account.generateFallbackKey, h.fallbackKeys_eq]⟩

theorem forgetFallbackKey (h : SameLookups a b) :
    SameLookups a.forgetFallbackKey.2 b.forgetFallbackKey.2 :=
  ⟨h.signingKey_eq, h.diffieHellmanKey_eq, h.oneTimeKeys_sameLookups,
    by simp only [Account.forgetFallbackKey, h.fallbackKeys_eq]⟩

theorem markKeysAsPublished (h : SameLookups a b) :
    SameLookups a.markKeysAsPublished b.markKeysAsPublished :=
  ⟨h.signingKey_eq, h.diffieHellmanKey_eq, h.oneTimeKeys_sameLookups.markAsPublished,
    by simp only [Account.markKeysAsPublished, h.fallbackKeys_eq]⟩

/-- One call: the same response. -/
theorem run_fst (h : SameLookups a b) (request : Request) :
    (request.run P b).1 = (request.run P a).1 := by
  cases request with
  | createOutboundSession sessionConfig identityKey oneTimeKey baseKey freshKey =>
      exact congrArg Response.session (h.createOutboundSession_eq _ _ _ _ _)
  | createInboundSession theirIdentityKey m freshKey =>
      exact congrArg Response.inboundSession (h.createInboundSession_fst _ _ _)
  | removeOneTimeKey publicKey =>
      exact congrArg Response.removedKey (h.removeOneTimeKeyHelper publicKey).1
  | generateOneTimeKeys count freshKey =>
      exact congrArg Response.generated (h.generateOneTimeKeys count freshKey).1
  | storedOneTimeKeyCount => exact congrArg Response.count h.storedOneTimeKeyCount_eq
  | oneTimeKeys => exact congrArg Response.keys h.unpublishedOneTimeKeys_eq
  | fallbackKey => exact congrArg Response.keys h.fallbackKey_eq
  | forgetFallbackKey => exact congrArg Response.forgotten h.forgetFallbackKey_fst
  | identityKeys => exact congrArg Response.identityKeys h.identityKeys_eq
  | pickle => exact congrArg Response.pickled h.pickle_eq
  | generateFallbackKey key => rfl
  | markKeysAsPublished => rfl

/-- One call: the accounts it leaves again have the same lookups. -/
theorem run_snd (h : SameLookups a b) (request : Request) :
    SameLookups (request.run P a).2 (request.run P b).2 := by
  cases request with
  | createInboundSession theirIdentityKey m freshKey => exact h.createInboundSession_snd _ _ _
  | removeOneTimeKey publicKey => exact (h.removeOneTimeKeyHelper publicKey).2
  | generateOneTimeKeys count freshKey => exact (h.generateOneTimeKeys count freshKey).2
  | generateFallbackKey key => exact h.generateFallbackKey key
  | forgetFallbackKey => exact h.forgetFallbackKey
  | markKeysAsPublished => exact h.markKeysAsPublished
  | _ => exact h

/-- Every sequence of calls: the same responses. -/
theorem responses_eq (h : SameLookups a b) (requests : List Request) :
    responses P b requests = responses P a requests := by
  induction requests generalizing a b with
  | nil => rfl
  | cons request requests ih =>
      simp only [Account.responses]
      rw [h.run_fst request, ih (h.run_snd request)]

end SameLookups

theorem sameLookups_fromPickle {a : Account} {used : List Curve25519PublicKey} {sinceMark : List KeyId}
    (h : OneTimeKeys.Invariant P a.oneTimeKeys used sinceMark) : SameLookups a (fromPickle P a.pickle) :=
  ⟨rfl, rfl, h.sameLookups_fromPickle, rfl⟩

/-- A pickle round trip of an account whose one-time keys form a reachable
store changes none of the responses to any sequence of calls. -/
theorem responses_fromPickle_pickle {a : Account} {used : List Curve25519PublicKey}
    {sinceMark : List KeyId} (h : OneTimeKeys.Reachable P a.oneTimeKeys used sinceMark)
    (requests : List Request) : responses P (fromPickle P a.pickle) requests = responses P a requests :=
  (sameLookups_fromPickle h.invariant).responses_eq requests

/-- A new account, pickled and restored, generates and lists the same keys. -/
theorem responses_fromPickle_pickle_new :
    let a := Account.new ⟨.normal (Bytes.zero 32)⟩ ⟨⟨.replicate 32 4⟩⟩
    responses Primitives.toy (fromPickle Primitives.toy a.pickle)
        [.generateOneTimeKeys 1 fun _ => ⟨.replicate 32 5⟩, .oneTimeKeys, .storedOneTimeKeyCount] =
      responses Primitives.toy a
        [.generateOneTimeKeys 1 fun _ => ⟨.replicate 32 5⟩, .oneTimeKeys, .storedOneTimeKeyCount] :=
  responses_fromPickle_pickle OneTimeKeys.Reachable.new _

end Account

end Vodozemac.Olm
