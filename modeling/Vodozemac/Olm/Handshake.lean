import Mathlib
import Vodozemac.Olm.AccountObservation
import Vodozemac.Olm.ConversationSafety

/-!
# Vodozemac.Olm.Handshake

The sessions that two accounts establish are those of a conversation. Alice
calls `Account::create_outbound_session` on Bob's identity key and one of his
one-time keys, and encrypts a first message, which is a pre-key message. Bob
calls `Account::create_inbound_session` on it. Bob finds a one-time key for
the message's public one-time key. If that key's public key is the message's
own, the call succeeds with Alice's plaintext. Alice's session and Bob's new
one are then the two sessions of a reachable `Conversation`: the start on the
secrets the two sides compute, followed by Alice's message and its delivery
(`handshake_conversation`). Every result of `ConversationSafety` therefore
holds for the sessions the accounts make, under every interleaving after the
handshake.

Bob needs the public key of the one-time key he finds to be the message's. A
reachable account keeps that property, but the libolm import need not
(`createInboundSession_stale_index`).
-/

namespace Vodozemac.Olm

variable {P : Primitives}

/-- A message keeps the MAC form of its configuration, so the receiver that
reads the configuration off the message reads back the sender's. -/
theorem config_honestMessage (k : Curve25519PublicKey) (c0 : Bytes 32) (config : SessionConfig)
    (j : UInt64) (plaintext : List UInt8) :
    (if (honestMessage P k c0 config j plaintext).macTruncated then SessionConfig.version1
      else SessionConfig.version2) = config := by
  obtain ⟨version⟩ := config
  cases version <;>
    simp [honestMessage, MessageKey.encrypt, MessageKey.encryptTruncatedMac, Message.macTruncated,
      Message.new, Message.newTruncatedMac, SessionConfig.version1, SessionConfig.version2,
      Messages.version, Messages.macTruncatedVersion]

/-- The first message of a session that `Session::new` made: a pre-key
message of the session keys, on the first turn at index 0. -/
theorem Session.encrypt_new (config : SessionConfig) (sharedSecret : Shared3DHSecret)
    (sessionKeys : SessionKeys) (ratchetKey : Curve25519SecretKey) (plaintext : List UInt8)
    (freshKey : Curve25519SecretKey) :
    let s := Session.new P config sharedSecret sessionKeys ratchetKey
    (s.encrypt P plaintext freshKey).1 =
      .preKey (PreKeyMessage.new sessionKeys
        (honestMessage P (P.x25519PublicKey ratchetKey) (sharedSecret.expand P).2 config 0 plaintext)) := by
  intro s
  have hkey : s.sendingRatchet.nextMessageKey P freshKey =
      ((Epoch.first P sharedSecret ratchetKey).sender P 0).nextMessageKey P freshKey := rfl
  have hinner := (Session.encrypt_sender hkey (by norm_num) plaintext).1
  -- a new session has no receiving chain yet
  have hnone : s.hasReceivedMessage = false := rfl
  rw [Session.encrypt_fst, hnone, hinner]
  rfl

/-- The sessions that Alice's `create_outbound_session` and Bob's
`create_inbound_session` on her first message make are the two sessions of a
reachable conversation in which that message was sent and decrypted, and Bob's
call returns her plaintext. -/
theorem handshake_conversation (hX : P.X25519Agrees) (hA : P.AesCbcRoundTrip) (alice bob : Account)
    (config : SessionConfig) {oneTimeKey : Curve25519PublicKey} {key : Curve25519SecretKey}
    (hfind : bob.findOneTimeKey P oneTimeKey = some key) (hkey : P.x25519PublicKey key = oneTimeKey)
    (baseKey ratchetKey freshKey freshKey' : Curve25519SecretKey) (plaintext : List UInt8) :
    let s := alice.createOutboundSession P config (bob.curve25519Key P) oneTimeKey baseKey ratchetKey
    ∃ m, (s.encrypt P plaintext freshKey).1 = .preKey m ∧
      ∃ (c : Conversation) (epochs : List Epoch), c.Reachable P epochs ∧
        c.alice = (s.encrypt P plaintext freshKey).2 ∧
        c.sent = [⟨.alice, .preKey m, plaintext⟩] ∧ c.accepted = c.sent ∧
        bob.createInboundSession P (alice.curve25519Key P) m freshKey' =
          (.ok ⟨c.bob, plaintext⟩, (bob.removeOneTimeKeyHelper oneTimeKey).2) := by
  subst hkey
  intro s
  let sharedSecret := Shared3DHSecret.new P alice.diffieHellmanKey.secretKey baseKey
    (bob.curve25519Key P) (P.x25519PublicKey key)
  let remoteSharedSecret := RemoteShared3DHSecret.new P bob.diffieHellmanKey.secretKey key
    (alice.curve25519Key P) (P.x25519PublicKey baseKey)
  let sessionKeys : SessionKeys :=
    ⟨alice.curve25519Key P, P.x25519PublicKey baseKey, P.x25519PublicKey key⟩
  -- the triple Diffie-Hellman agreement gives both sides one secret
  have hsecret : sharedSecret.bytes = remoteSharedSecret.bytes :=
    shared3DHSecret_agrees hX alice.diffieHellmanKey.secretKey baseKey bob.diffieHellmanKey.secretKey key
  let c₀ := Conversation.start P config sessionKeys sharedSecret remoteSharedSecret ratchetKey
  let c₁ := c₀.encrypt P .alice plaintext freshKey
  let inner := honestMessage P (P.x25519PublicKey ratchetKey) (sharedSecret.expand P).2 config 0 plaintext
  have hmessage : (s.encrypt P plaintext freshKey).1 = .preKey (PreKeyMessage.new sessionKeys inner) :=
    Session.encrypt_new config sharedSecret sessionKeys ratchetKey plaintext freshKey
  let m : Sent := ⟨.alice, .preKey (PreKeyMessage.new sessionKeys inner), plaintext⟩
  have h₁ : c₁.Reachable P [Epoch.first P sharedSecret ratchetKey] :=
    .encrypt .alice plaintext freshKey (fun h => absurd h Bool.false_ne_true)
      (by
        rw [show c₀.session .alice = s from rfl, hmessage]
        simp [inner, OlmMessage.inner, PreKeyMessage.new])
      (.start config sessionKeys sharedSecret remoteSharedSecret ratchetKey hsecret)
  have hsent : c₁.sent = [m] := by
    rw [Conversation.sent_encrypt, show c₀.session .alice = s from rfl, hmessage]
    rfl
  have hm : m ∈ c₁.sent := by
    rw [hsent]
    exact List.mem_singleton_self _
  -- Bob holds one chain, that of Alice's first ratchet key
  have hbob : ∀ r ∈ (c₁.session .bob).receivingChains.inner.toList,
      r = ReceiverChain.new (P.x25519PublicKey ratchetKey)
        (RemoteChainKey.new (remoteSharedSecret.expand P).2) := by
    intro r hr
    exact List.mem_singleton.mp hr
  have hstored : m.message.inner.ratchetKey ∈ (c₁.session .bob).chainKeys := by
    refine List.mem_map.mpr ⟨_, List.mem_singleton_self _, ?_⟩
    show P.x25519PublicKey ratchetKey = inner.ratchetKey
    rw [ratchetKey_honestMessage]
  obtain ⟨i, hfindChain⟩ := Option.ne_none_iff_exists'.mp
    (mt Session.findRatchet_eq_none_iff.mp (not_not_intro hstored))
  have hwindow : (c₁.session m.sender.other).InWindow m.message.inner := by
    show (c₁.session .bob).InWindow m.message.inner
    rw [Session.inWindow_of_findRatchet hfindChain, hbob _ (List.get_mem _ _),
      ReceiverChain.inWindow_new]
    show inner.chainIndex.toNat ≤ 2000
    rw [ReceiverChain.chainIndex_honestMessage]
    decide
  obtain ⟨config', sessionKeys', e, older, hepochs, hinv⟩ := h₁.inv hX
  have hok := (hinv.deliver_fst hX hA hm (.inl hstored) freshKey').2 hwindow
  let c₂ := (c₁.deliver P m freshKey').2
  refine ⟨_, hmessage, c₂, _, .deliver m freshKey' hm (.inl hstored) h₁, ?_, ?_, ?_, ?_⟩
  · -- Alice's session is the one that sent the message
    exact (Conversation.session_deliver_sender P c₁ m freshKey').trans
      (Conversation.session_encrypt_self P c₀ .alice plaintext freshKey)
  · rw [Conversation.sent_deliver, hsent]
  · rw [Conversation.accepted_deliver, ← Conversation.fst_deliver, hok, Conversation.sent_deliver,
      hsent]
    rfl
  · -- Bob's call decrypts on the session of the conversation's start
    have hconfig : (if inner.macTruncated then SessionConfig.version1 else SessionConfig.version2) =
        config := config_honestMessage _ _ _ _ _
    refine Account.createInboundSession_of_found rfl hfind ?_
    rw [show (PreKeyMessage.new sessionKeys inner).message = inner from rfl, hconfig,
      show inner.ratchetKey = P.x25519PublicKey ratchetKey from ratchetKey_honestMessage _ _ _ _ _]
    rw [Conversation.fst_deliver, Session.decrypt] at hok
    exact Prod.ext hok (Conversation.session_deliver_self P c₁ m freshKey').symm

/-- Bob, holding only a fallback key, accepts Alice's first message to it. -/
theorem handshake_conversation_fallback :
    let alice := Account.new ⟨.normal (Bytes.zero 32)⟩ ⟨⟨.replicate 32 3⟩⟩
    let bob : Account := { Account.new ⟨.normal (Bytes.zero 32)⟩ ⟨⟨.replicate 32 4⟩⟩ with
      fallbackKeys := FallbackKeys.new.generateFallbackKey ⟨.replicate 32 5⟩ }
    let s := alice.createOutboundSession Primitives.toy SessionConfig.version2
      (bob.curve25519Key Primitives.toy) (Primitives.toy.x25519PublicKey ⟨.replicate 32 5⟩)
      ⟨.replicate 32 6⟩ ⟨.replicate 32 7⟩
    ∃ m, (s.encrypt Primitives.toy [1, 2, 3] ⟨.replicate 32 8⟩).1 = .preKey m ∧
      ∃ session bob', bob.createInboundSession Primitives.toy (alice.curve25519Key Primitives.toy) m
        ⟨.replicate 32 9⟩ = (.ok ⟨session, [1, 2, 3]⟩, bob') := by
  intro alice bob s
  have hfind : bob.findOneTimeKey Primitives.toy (Primitives.toy.x25519PublicKey ⟨.replicate 32 5⟩) =
      some ⟨.replicate 32 5⟩ := by
    simp [bob, Account.findOneTimeKey, Account.new, OneTimeKeys.getSecretKey, OneTimeKeys.new,
      FallbackKeys.getSecretKey, FallbackKeys.generateFallbackKey, FallbackKeys.new,
      FallbackKey.publicKey, FallbackKey.new]
  obtain ⟨m, hm, c, -, -, -, -, -, hbob⟩ := handshake_conversation Primitives.toy_x25519Agrees
    Primitives.toy_aesCbcRoundTrip alice bob SessionConfig.version2 hfind rfl ⟨.replicate 32 6⟩
    ⟨.replicate 32 7⟩ ⟨.replicate 32 8⟩ ⟨.replicate 32 9⟩ [1, 2, 3]
  exact ⟨m, hm, c.bob, _, hbob⟩

/-! ### Fallback keys are not used up -/

/-- A pre-key message to a fallback key, and to no one-time key, that opens a
session opens the same session again on the account the call leaves:
`create_inbound_session` removes only one-time keys, so it does not refuse a
replayed message to a fallback key. -/
theorem createInboundSession_fallback_replay {a : Account} {theirIdentityKey : Curve25519PublicKey}
    {m : PreKeyMessage} {freshKey : Curve25519SecretKey}
    (hok : (a.createInboundSession P theirIdentityKey m freshKey).1.isOk)
    (hotk : a.oneTimeKeys.getSecretKey m.oneTimeKey = none) :
    ((a.createInboundSession P theirIdentityKey m freshKey).2.createInboundSession P theirIdentityKey m
        freshKey).1 = (a.createInboundSession P theirIdentityKey m freshKey).1 := by
  have hstate : (a.createInboundSession P theirIdentityKey m freshKey).2 =
      (a.removeOneTimeKeyHelper m.oneTimeKey).2 := by
    rw [Account.createInboundSession_snd, if_pos hok]
  -- the removal found no one-time key, and the fallback keys are kept
  have hremoved : (a.removeOneTimeKeyHelper m.oneTimeKey).2.oneTimeKeys.getSecretKey m.oneTimeKey =
      none := by
    apply OneTimeKeys.getSecretKey_of_keyIdsByKey_eq_none
    show (a.oneTimeKeys.removeSecretKey m.oneTimeKey).2.keyIdsByKey[m.oneTimeKey]? = none
    rw [OneTimeKeys.keyIdsByKey_removeSecretKey, if_pos rfl]
  apply Account.createInboundSession_fst_congr
  · rw [hstate, Account.findOneTimeKey, Account.findOneTimeKey, hremoved, hotk]
    rfl
  · rw [hstate]
    rfl

/-- Bob's account in the sample: a fallback key and no one-time key. -/
def fallbackBob : Account :=
  { Account.new ⟨.normal (Bytes.zero 32)⟩ ⟨⟨.replicate 32 4⟩⟩ with
    fallbackKeys := FallbackKeys.new.generateFallbackKey ⟨.replicate 32 5⟩ }

/-- Alice's account in the sample. -/
def fallbackAlice : Account := Account.new ⟨.normal (Bytes.zero 32)⟩ ⟨⟨.replicate 32 3⟩⟩

/-- Alice's first message to Bob's fallback key, as `Session.encrypt_new` gives it. -/
def fallbackMessage : PreKeyMessage :=
  PreKeyMessage.new
    ⟨fallbackAlice.curve25519Key Primitives.toy, Primitives.toy.x25519PublicKey ⟨.replicate 32 6⟩,
      Primitives.toy.x25519PublicKey ⟨.replicate 32 5⟩⟩
    (honestMessage Primitives.toy (Primitives.toy.x25519PublicKey ⟨.replicate 32 7⟩)
      ((Shared3DHSecret.new Primitives.toy fallbackAlice.diffieHellmanKey.secretKey ⟨.replicate 32 6⟩
        (fallbackBob.curve25519Key Primitives.toy)
        (Primitives.toy.x25519PublicKey ⟨.replicate 32 5⟩)).expand Primitives.toy).2
      SessionConfig.version2 0 [1, 2, 3])

/-- Bob accepts the message to his fallback key, and accepts it again. -/
theorem createInboundSession_fallback_replay_twice :
    ((fallbackBob.createInboundSession Primitives.toy (fallbackAlice.curve25519Key Primitives.toy)
        fallbackMessage ⟨.replicate 32 9⟩).2.createInboundSession Primitives.toy
          (fallbackAlice.curve25519Key Primitives.toy) fallbackMessage ⟨.replicate 32 9⟩).1 =
      (fallbackBob.createInboundSession Primitives.toy (fallbackAlice.curve25519Key Primitives.toy)
        fallbackMessage ⟨.replicate 32 9⟩).1 := by
  have hfind : fallbackBob.findOneTimeKey Primitives.toy fallbackMessage.oneTimeKey =
      some ⟨.replicate 32 5⟩ := by
    simp [fallbackBob, fallbackMessage, PreKeyMessage.new, PreKeyMessage.oneTimeKey,
      Account.findOneTimeKey, Account.new, OneTimeKeys.getSecretKey, OneTimeKeys.new,
      FallbackKeys.getSecretKey, FallbackKeys.generateFallbackKey, FallbackKeys.new,
      FallbackKey.publicKey, FallbackKey.new]
  have hok : fallbackBob.createInboundSession Primitives.toy
      (fallbackAlice.curve25519Key Primitives.toy) fallbackMessage ⟨.replicate 32 9⟩ =
        (.ok ⟨_, [1, 2, 3]⟩, _) :=
    Account.createInboundSession_of_found rfl hfind (Prod.ext (by decide +kernel) rfl)
  have hotk : fallbackBob.oneTimeKeys.getSecretKey fallbackMessage.oneTimeKey = none := by
    simp [fallbackBob, Account.new, OneTimeKeys.getSecretKey, OneTimeKeys.new]
  exact createInboundSession_fallback_replay (by rw [hok]; rfl) hotk

end Vodozemac.Olm
