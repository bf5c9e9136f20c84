import Mathlib
import Vodozemac.Olm.ConversationInvariant

/-!
# Vodozemac.Olm.ConversationSafety

What two sessions guarantee over every interleaving of `encrypt` calls and
deliveries (`Conversation.Reachable`), given the agreement law of X25519 and
the round trip of AES-CBC:

* a deliverable message decrypts exactly when its chain index is in the
  receiver's window for it (`Session.InWindow`: the window of the stored chain
  of its ratchet key, or the first `MAX_MESSAGE_GAP` indices of a new chain),
  and then to the plaintext it was encrypted from (`conversation_decrypts`);
* a message that decrypted once never decrypts again while it is deliverable
  (`conversation_no_replay`);
* a side sends pre-key messages exactly until a message decrypted there
  (`conversation_preKey_iff`).

The runs include refused redeliveries of messages whose chains were evicted
(`Conversation.Reachable.redeliver`), which change only the receiver's sending
ratchet.

Proof shape: the first and third read the answer off `Conversation.Inv`. The
second rests on two more invariants, each with a step lemma per move:
the chains of a side have distinct ratchet keys (`ChainsDistinct`), and every
message that decrypted is spent, in the sense of `ReceiverChain.Spent`, on
every chain of its ratchet key at its receiver, whose chain it has received
(`AcceptedSpent`). A new chain is pushed only for a ratchet key never received
there, so it is never the chain of an accepted message.
-/

namespace Vodozemac.Olm

variable (P : Primitives)

/-- The chain indices a chain accepts: from its index up to `MAX_MESSAGE_GAP`
past it, or one whose key it stores. -/
def ReceiverChain.InWindow (r : ReceiverChain) (j : UInt64) : Prop :=
  (r.hkdfRatchet.index.toNat ≤ j.toNat ∧ j.toNat ≤ r.hkdfRatchet.index.toNat + 2000) ∨
    j ∈ r.skippedMessageKeys.inner.toList.map RemoteMessageKey.index

instance (r : ReceiverChain) (j : UInt64) : Decidable (r.InWindow j) := by
  unfold ReceiverChain.InWindow
  infer_instance

/-- The messages a session accepts: in the window of the chain of the
message's ratchet key, or within `MAX_MESSAGE_GAP` of the start of a new one. -/
def Session.InWindow (s : Session) (message : Message) : Prop :=
  match s.receivingChains.findRatchet message.ratchetKey with
  | some i => (s.receivingChains.inner.toList.get i).InWindow message.chainIndex
  | none => message.chainIndex.toNat ≤ 2000

instance (s : Session) (message : Message) : Decidable (s.InWindow message) := by
  unfold Session.InWindow
  split <;> infer_instance

/-- The chains of each side have distinct ratchet keys. -/
def Conversation.ChainsDistinct (c : Conversation) : Prop :=
  ∀ p, Session.ChainsDistinct (c.session p)

/-- Every message that decrypted is of a chain its receiver has received, and
its chain index is spent on every chain of its ratchet key there. -/
def Conversation.AcceptedSpent (c : Conversation) : Prop :=
  ∀ m ∈ c.accepted, (m.sender.other, m.message.inner.ratchetKey) ∈ c.received ∧
    ∀ r ∈ (c.session m.sender.other).receivingChains.inner.toList,
      r.ratchetKey = m.message.inner.ratchetKey → ReceiverChain.Spent r m.message.inner.chainIndex

variable {P}

/-! ### Windows -/

theorem Session.inWindow_of_findRatchet {s : Session} {message : Message}
    {i : Fin s.receivingChains.inner.toList.length}
    (h : s.receivingChains.findRatchet message.ratchetKey = some i) :
    s.InWindow message ↔ (s.receivingChains.inner.toList.get i).InWindow message.chainIndex := by
  simp only [InWindow, h]

theorem Session.inWindow_of_findRatchet_eq_none {s : Session} {message : Message}
    (h : s.receivingChains.findRatchet message.ratchetKey = none) :
    s.InWindow message ↔ message.chainIndex.toNat ≤ 2000 := by
  simp only [InWindow, h]

/-- A new chain accepts the first `MAX_MESSAGE_GAP + 1` indices. -/
theorem ReceiverChain.inWindow_new (k : Curve25519PublicKey) (c0 : Bytes 32) (j : UInt64) :
    (ReceiverChain.new k (RemoteChainKey.new c0)).InWindow j ↔ j.toNat ≤ 2000 := by
  simp [InWindow, ReceiverChain.new, RemoteChainKey.new, MessageKeyStore.new]

/-- `decrypt_honestMessage_ok_iff` with the window named. -/
theorem ReceiverChain.Inv.decrypt_honestMessage_inWindow (hA : P.AesCbcRoundTrip) {c0 : Bytes 32}
    {r : ReceiverChain} (hinv : ReceiverChain.Inv P c0 r) (k : Curve25519PublicKey)
    (config : SessionConfig) (j : UInt64) (plaintext : List UInt8) :
    ((∃ q, (r.decrypt P (honestMessage P k c0 config j plaintext) config).1 = .ok q) ↔
        r.InWindow j) ∧
      (r.InWindow j → (r.decrypt P (honestMessage P k c0 config j plaintext) config).1 = .ok plaintext) :=
  hinv.decrypt_honestMessage_ok_iff hA k config j plaintext

/-- Through a stored chain, the decrypted chain is stored afterwards. -/
theorem Session.mem_decryptDecoded_found {s : Session} {message : Message}
    {i : Fin s.receivingChains.inner.toList.length}
    (hf : s.receivingChains.findRatchet message.ratchetKey = some i) (freshKey : Curve25519SecretKey) :
    ((s.receivingChains.inner.toList.get i).decrypt P message s.config).2 ∈
      (s.decryptDecoded P message freshKey).2.receivingChains.inner.toList := by
  rw [decryptDecoded_of_findRatchet hf]
  exact List.mem_set i.2 _

namespace Conversation

variable {config : SessionConfig} {sessionKeys : SessionKeys} {c : Conversation} {e : Epoch}
  {older : List Epoch}

/-! ### A sample run

Over the toy primitives: the start, Alice's first message on the wire, and
the conversation once Bob has decrypted it. -/

/-- The start of the sample run. -/
def sampleStart : Conversation :=
  start Primitives.toy SessionConfig.version2
    ⟨⟨.replicate 32 3⟩, ⟨.replicate 32 4⟩, ⟨.replicate 32 5⟩⟩ ⟨.replicate 96 9⟩ ⟨.replicate 96 9⟩
    ⟨.replicate 32 1⟩

/-- Alice's first message. -/
def sampleMessage : Sent :=
  ⟨.alice, ((sampleStart.session .alice).encrypt Primitives.toy [7, 8, 9] ⟨.replicate 32 2⟩).1,
    [7, 8, 9]⟩

/-- The run once Alice has sent her first message. -/
def sampleSent : Conversation := sampleStart.encrypt Primitives.toy .alice [7, 8, 9] ⟨.replicate 32 2⟩

/-- The run once Bob has decrypted it. -/
def sampleDelivered : Conversation := (sampleSent.deliver Primitives.toy sampleMessage ⟨.replicate 32 6⟩).2

theorem reachable_sampleStart : ∃ epochs, sampleStart.Reachable Primitives.toy epochs :=
  ⟨_, .start _ _ _ _ _ rfl⟩

theorem reachable_sampleSent : ∃ epochs, sampleSent.Reachable Primitives.toy epochs :=
  ⟨_, .encrypt .alice [7, 8, 9] _ (fun h => absurd h (by decide +kernel)) (by decide +kernel)
    (.start _ _ _ _ _ rfl)⟩

theorem sampleMessage_mem_sent : sampleMessage ∈ sampleSent.sent := by
  rw [sampleSent, sent_encrypt]
  exact List.mem_append_right _ (List.mem_singleton_self _)

theorem deliverable_sampleMessage : sampleSent.Deliverable sampleMessage := .inl (by decide +kernel)

/-! ### Decryption -/

/-- A deliverable message decrypts exactly in the receiver's window, and then
to its plaintext. -/
theorem Inv.deliver_fst (hX : P.X25519Agrees) (hA : P.AesCbcRoundTrip)
    (hinv : c.Inv P config sessionKeys e older) {m : Sent} (hm : m ∈ c.sent)
    (hdeliver : c.Deliverable m) (freshKey : Curve25519SecretKey) :
    ((∃ q, (c.deliver P m freshKey).1 = .ok q) ↔ (c.session m.sender.other).InWindow m.message.inner) ∧
      ((c.session m.sender.other).InWindow m.message.inner →
        (c.deliver P m freshKey).1 = .ok m.plaintext) := by
  obtain ⟨f, hf, hfo, j, -, hmsg⟩ := hinv.sent m hm
  have hkey : m.message.inner.ratchetKey = P.x25519PublicKey f.ratchetKey := by
    rw [hmsg, ratchetKey_honestMessage]
  rw [fst_deliver, Session.decrypt]
  cases hfind : (c.session m.sender.other).receivingChains.findRatchet m.message.inner.ratchetKey with
  | some i =>
      -- the chain found is a chain of the message's turn
      have hrecv := hinv.receivesOn_findRatchet hf (hkey ▸ hfind)
      rw [Session.decryptDecoded_of_findRatchet hfind, Session.inWindow_of_findRatchet hfind,
        hinv.config, hmsg, ReceiverChain.chainIndex_honestMessage]
      exact hrecv.2.decrypt_honestMessage_inWindow hA _ _ _ _
  | none =>
      -- with no chain stored the message is of the newest turn, one ahead of the receiver
      have hnot := hdeliver.resolve_left (Session.findRatchet_eq_none_iff.mp hfind)
      obtain ⟨hfe, e', older', -, hnext, n, -, hsend⟩ :=
        hinv.behind_of_not_received hf hfo hkey hnot
      rw [hfe] at hfo hkey hmsg
      have hq : e.owner.other = m.sender.other := by rw [hfo]
      rw [hq] at hsend
      have hnew := (ReceiverChain.inv_new (P := P) (P.x25519PublicKey e.ratchetKey)
        e.chainKey).decrypt_honestMessage_inWindow hA (P.x25519PublicKey e.ratchetKey) config j
          m.plaintext
      rw [ReceiverChain.inWindow_new] at hnew
      rw [Session.decryptDecoded_behind_fst hX hsend hnext hkey hfind,
        Session.inWindow_of_findRatchet_eq_none hfind, hinv.config, hmsg,
        ReceiverChain.chainIndex_honestMessage]
      exact hnew

/-- Over every interleaving of sends and deliveries, a deliverable message
decrypts exactly when its chain index is in the receiver's window, and then to
the plaintext it was encrypted from. -/
theorem conversation_decrypts (hX : P.X25519Agrees) (hA : P.AesCbcRoundTrip) {c : Conversation}
    {epochs : List Epoch} (h : c.Reachable P epochs) {m : Sent} (hm : m ∈ c.sent)
    (hdeliver : c.Deliverable m) (freshKey : Curve25519SecretKey) :
    ((∃ q, (c.deliver P m freshKey).1 = .ok q) ↔ (c.session m.sender.other).InWindow m.message.inner) ∧
      ((c.session m.sender.other).InWindow m.message.inner →
        (c.deliver P m freshKey).1 = .ok m.plaintext) := by
  obtain ⟨config, sessionKeys, e, older, -, hinv⟩ := h.inv hX
  exact hinv.deliver_fst hX hA hm hdeliver freshKey

/-- Bob decrypts Alice's first message to its plaintext. -/
theorem conversation_decrypts_sample :
    (sampleSent.deliver Primitives.toy sampleMessage ⟨.replicate 32 6⟩).1 = .ok [7, 8, 9] := by
  obtain ⟨epochs, h⟩ := reachable_sampleSent
  exact (conversation_decrypts Primitives.toy_x25519Agrees Primitives.toy_aesCbcRoundTrip h
    sampleMessage_mem_sent deliverable_sampleMessage _).2 (by decide +kernel)

/-! ### Pre-key messages -/

/-- A side sends pre-key messages exactly until a message decrypted there. -/
theorem Inv.encrypt_preKey_iff (hinv : c.Inv P config sessionKeys e older) (p : Party)
    (plaintext : List UInt8) (freshKey : Curve25519SecretKey) :
    (∃ message, ((c.session p).encrypt P plaintext freshKey).1 = .preKey message) ↔
      ∀ k, (p, k) ∉ c.received := by
  rw [← hinv.chainsEmpty p, Session.encrypt_fst]
  by_cases hempty : (c.session p).receivingChains.inner.toList = []
  · have hfalse : (c.session p).hasReceivedMessage = false := by
      simp [Session.hasReceivedMessage, ChainStore.isEmpty, hempty]
    rw [hfalse]
    exact iff_of_true ⟨_, rfl⟩ hempty
  · have htrue : (c.session p).hasReceivedMessage = true := by
      simpa [Session.hasReceivedMessage, ChainStore.isEmpty] using hempty
    rw [htrue]
    exact iff_of_false (fun ⟨_, h⟩ => by simp at h) hempty

theorem conversation_preKey_iff (hX : P.X25519Agrees) {c : Conversation} {epochs : List Epoch}
    (h : c.Reachable P epochs) (p : Party) (plaintext : List UInt8) (freshKey : Curve25519SecretKey) :
    (∃ message, ((c.session p).encrypt P plaintext freshKey).1 = .preKey message) ↔
      ∀ k, (p, k) ∉ c.received := by
  obtain ⟨config, sessionKeys, e, older, -, hinv⟩ := h.inv hX
  exact hinv.encrypt_preKey_iff p plaintext freshKey

/-- At the start Alice sends a pre-key message and Bob, who has received her
chain, a normal one. -/
theorem conversation_preKey_iff_start :
    (∃ message, ((sampleStart.session .alice).encrypt Primitives.toy [1] ⟨.replicate 32 2⟩).1 =
        .preKey message) ∧
      ¬ ∃ message, ((sampleStart.session .bob).encrypt Primitives.toy [1] ⟨.replicate 32 2⟩).1 =
        .preKey message := by
  obtain ⟨epochs, h⟩ := reachable_sampleStart
  refine ⟨(conversation_preKey_iff Primitives.toy_x25519Agrees h .alice _ _).mpr ?_,
    fun hpre => (conversation_preKey_iff Primitives.toy_x25519Agrees h .bob _ _).mp hpre
      (Primitives.toy.x25519PublicKey ⟨.replicate 32 1⟩) ?_⟩
  · intro k hk
    simp [sampleStart, start] at hk
  · exact List.mem_singleton_self _

/-! ### Distinct chains -/

theorem chainsDistinct_start (config : SessionConfig) (sessionKeys : SessionKeys)
    (sharedSecret : Shared3DHSecret) (remoteSharedSecret : RemoteShared3DHSecret)
    (ratchetKey : Curve25519SecretKey) :
    (start P config sessionKeys sharedSecret remoteSharedSecret ratchetKey).ChainsDistinct := by
  intro p
  cases p with
  | alice => exact Session.chainsDistinct_new _ _ _ _
  | bob => exact Session.chainsDistinct_newRemote _ _ _ _

theorem ChainsDistinct.encrypt (hd : c.ChainsDistinct) (sender : Party) (plaintext : List UInt8)
    (freshKey : Curve25519SecretKey) : (c.encrypt P sender plaintext freshKey).ChainsDistinct := by
  intro p
  unfold Session.ChainsDistinct
  rw [receivingChains_encrypt]
  exact hd p

theorem ChainsDistinct.deliver (hd : c.ChainsDistinct) (m : Sent) (freshKey : Curve25519SecretKey) :
    (c.deliver P m freshKey).2.ChainsDistinct := by
  intro p
  by_cases hp : p = m.sender.other
  · subst hp
    rw [session_deliver_self]
    exact (hd _).decryptDecoded _ _
  · rw [session_deliver_of_ne P hp]
    exact hd p

theorem Reachable.chainsDistinct {c : Conversation} {epochs : List Epoch} (h : c.Reachable P epochs) :
    c.ChainsDistinct := by
  induction h with
  | start config sessionKeys sharedSecret remoteSharedSecret ratchetKey _ =>
      exact chainsDistinct_start config sessionKeys sharedSecret remoteSharedSecret ratchetKey
  | encrypt sender plaintext freshKey _ _ _ ih => exact ih.encrypt sender plaintext freshKey
  | deliver m freshKey _ _ _ ih => exact ih.deliver m freshKey
  | redeliver m freshKey _ _ _ _ _ ih => exact ih.deliver m freshKey

/-! ### Spent messages -/

theorem acceptedSpent_start (config : SessionConfig) (sessionKeys : SessionKeys)
    (sharedSecret : Shared3DHSecret) (remoteSharedSecret : RemoteShared3DHSecret)
    (ratchetKey : Curve25519SecretKey) :
    (start P config sessionKeys sharedSecret remoteSharedSecret ratchetKey).AcceptedSpent :=
  fun _ h => absurd h List.not_mem_nil

theorem AcceptedSpent.encrypt (hs : c.AcceptedSpent) (sender : Party) (plaintext : List UInt8)
    (freshKey : Curve25519SecretKey) : (c.encrypt P sender plaintext freshKey).AcceptedSpent := by
  intro m hm
  rw [accepted_encrypt] at hm
  rw [received_encrypt, receivingChains_encrypt]
  exact hs m hm

/-- A delivery keeps the messages that decrypted spent when, at the receiver,
their indices stay spent on the chains of their keys, and the message
delivered, if it decrypts, is spent on the chains of its own. -/
theorem AcceptedSpent.deliver_of (hs : c.AcceptedSpent) {m : Sent} {freshKey : Curve25519SecretKey}
    (hold : ∀ m' ∈ c.accepted, m'.sender.other = m.sender.other →
      ∀ r ∈ ((c.deliver P m freshKey).2.session m.sender.other).receivingChains.inner.toList,
        r.ratchetKey = m'.message.inner.ratchetKey → ReceiverChain.Spent r m'.message.inner.chainIndex)
    (hnew : ∀ q, (c.deliver P m freshKey).1 = .ok q →
      ∀ r ∈ ((c.deliver P m freshKey).2.session m.sender.other).receivingChains.inner.toList,
        r.ratchetKey = m.message.inner.ratchetKey → ReceiverChain.Spent r m.message.inner.chainIndex) :
    (c.deliver P m freshKey).2.AcceptedSpent := by
  -- an old message, at its own receiver
  have hkeep : ∀ m' ∈ c.accepted, (m'.sender.other, m'.message.inner.ratchetKey) ∈
      (c.deliver P m freshKey).2.received ∧
      ∀ r ∈ ((c.deliver P m freshKey).2.session m'.sender.other).receivingChains.inner.toList,
        r.ratchetKey = m'.message.inner.ratchetKey →
          ReceiverChain.Spent r m'.message.inner.chainIndex := by
    intro m' hm'
    refine ⟨mem_received_deliver P (hs m' hm').1, ?_⟩
    by_cases hq : m'.sender.other = m.sender.other
    · rw [hq]
      exact hold m' hm' hq
    · rw [session_deliver_of_ne P hq]
      exact (hs m' hm').2
  intro m' hm'
  rw [accepted_deliver] at hm'
  split at hm'
  · next q hok =>
      rcases List.mem_append.mp hm' with hm' | hm'
      · exact hkeep m' hm'
      · -- the message just delivered
        rw [List.mem_singleton] at hm'
        subst hm'
        refine ⟨?_, hnew q hok⟩
        rw [received_deliver, hok]
        exact List.mem_append_right _ (List.mem_singleton_self _)
  · exact hkeep m' hm'

/-- Through a stored chain: the chain written back keeps every spent index
spent, and it is the only chain of the message's key, so the message's index
is spent once it decrypts there. -/
theorem AcceptedSpent.deliver_known (hinv : c.Inv P config sessionKeys e older)
    (hd : c.ChainsDistinct) (hs : c.AcceptedSpent) {m : Sent}
    {i : Fin (c.session m.sender.other).receivingChains.inner.toList.length}
    (hfind : (c.session m.sender.other).receivingChains.findRatchet m.message.inner.ratchetKey =
      some i)
    (hb : m.message.inner.chainIndex.toNat + 1 < 2 ^ 64) (freshKey : Curve25519SecretKey) :
    (c.deliver P m freshKey).2.AcceptedSpent := by
  obtain ⟨-, -, -, hmem⟩ := Session.decryptDecoded_found (P := P) hfind freshKey
  obtain ⟨f, -, -, hinvf⟩ := hinv.chains _ _ (List.get_mem _ _)
  have hsession : (c.deliver P m freshKey).2.session m.sender.other =
      ((c.session m.sender.other).decryptDecoded P m.message.inner freshKey).2 := by
    rw [session_deliver_self, Session.decrypt]
  refine hs.deliver_of ?_ ?_
  · intro m' hm' hq r hr hkey
    rw [hsession] at hr
    rcases hmem r hr with hold | rfl
    · exact (hs m' hm').2 r (by rw [hq]; exact hold) hkey
    · -- the chain written back was a chain of the key of `m'`, spent before
      rw [ReceiverChain.ratchetKey_decrypt] at hkey
      exact hinvf.spent_decrypt hb ((hs m' hm').2 _ (by rw [hq]; exact List.get_mem _ _) hkey)
  · intro q hok r hr hkey
    rw [fst_deliver, Session.decrypt, Session.decryptDecoded_of_findRatchet hfind] at hok
    have hdist := hd.deliver (P := P) m freshKey m.sender.other
    rw [hsession] at hr hdist
    -- the chain written back is the one chain of the message's key
    have hx := Session.mem_decryptDecoded_found (P := P) hfind freshKey
    have hxkey : ((c.session m.sender.other).receivingChains.inner.toList.get i).ratchetKey =
        m.message.inner.ratchetKey := Session.findRatchet_eq_some hfind
    have hr' := List.inj_on_of_nodup_map hdist hr hx
      (by rw [hkey, ReceiverChain.ratchetKey_decrypt, hxkey])
    rw [hr']
    exact hinvf.spent_of_ok hb hok

/-- Through a new chain: the chain is pushed on a ratchet key its receiver
never received, so no message that decrypted before is of it. -/
theorem AcceptedSpent.deliver_new (hX : P.X25519Agrees) (hinv : c.Inv P config sessionKeys e older)
    (hs : c.AcceptedSpent) {m : Sent} (hm : m ∈ c.sent)
    (hfind : (c.session m.sender.other).receivingChains.findRatchet m.message.inner.ratchetKey = none)
    (hnot : (m.sender.other, m.message.inner.ratchetKey) ∉ c.received)
    (freshKey : Curve25519SecretKey) :
    (c.deliver P m freshKey).2.AcceptedSpent := by
  obtain ⟨f, hf, hfo, j, hj, hmsg⟩ := hinv.sent m hm
  have hkey : m.message.inner.ratchetKey = P.x25519PublicKey f.ratchetKey := by
    rw [hmsg, ratchetKey_honestMessage]
  obtain ⟨hfe, e', older', -, hnext, n, -, hsend⟩ := hinv.behind_of_not_received hf hfo hkey hnot
  rw [hfe] at hfo hkey
  have hq : e.owner.other = m.sender.other := by rw [hfo]
  rw [hq] at hsend
  have hb : m.message.inner.chainIndex.toNat + 1 < 2 ^ 64 := by
    rw [hmsg, ReceiverChain.chainIndex_honestMessage]
    exact hj
  rcases hres : ((ReceiverChain.new (P.x25519PublicKey e.ratchetKey)
      (RemoteChainKey.new e.chainKey)).decrypt P m.message.inner
        (c.session m.sender.other).config).1 with err | plaintext
  · -- a failure changes nothing
    have hdec := Session.decryptDecoded_behind_error hX hsend hnext hkey hfind freshKey hres
    have he : ((c.session m.sender.other).decrypt P m.message freshKey).1 = .error err := by
      rw [Session.decrypt, hdec]
    have hsame : ((c.session m.sender.other).decrypt P m.message freshKey).2 =
        c.session m.sender.other := by
      rw [Session.decrypt, hdec]
    rw [deliver_snd_of_error P he hsame]
    exact hs
  · have hdec := Session.decryptDecoded_behind_ok hX hsend hnext hkey hfind freshKey hres
    have hsession : (c.deliver P m freshKey).2.session m.sender.other =
        ((c.session m.sender.other).decryptDecoded P m.message.inner freshKey).2 := by
      rw [session_deliver_self, Session.decrypt]
    refine hs.deliver_of ?_ ?_
    · intro m' hm' hq' r hr hkey'
      rw [hsession, hdec] at hr
      rcases ArrayVec.mem_pushEvicting hr with hold | rfl
      · exact (hs m' hm').2 r (by rw [hq']; exact hold) hkey'
      · -- the new chain's key was never received there, and that of `m'` was
        rw [ReceiverChain.ratchetKey_decrypt] at hkey'
        have hrec := (hs m' hm').1
        rw [hq', ← hkey'] at hrec
        exact absurd (hkey ▸ hrec) hnot
    · intro q hok r hr hkey'
      rw [hsession, hdec] at hr
      rcases ArrayVec.mem_pushEvicting hr with hold | rfl
      · -- no stored chain was of the message's key
        exact absurd (List.mem_map.mpr ⟨r, hold, hkey'⟩) (Session.findRatchet_eq_none_iff.mp hfind)
      · exact (ReceiverChain.inv_new _ _).spent_of_ok hb hres

/-- Every delivery the run allows keeps the messages that decrypted spent. -/
theorem AcceptedSpent.deliver (hX : P.X25519Agrees) (hinv : c.Inv P config sessionKeys e older)
    (hd : c.ChainsDistinct) (hs : c.AcceptedSpent) {m : Sent} (hm : m ∈ c.sent)
    (hdeliver : c.Deliverable m) (freshKey : Curve25519SecretKey) :
    (c.deliver P m freshKey).2.AcceptedSpent := by
  cases hfind : (c.session m.sender.other).receivingChains.findRatchet m.message.inner.ratchetKey with
  | some i =>
      obtain ⟨f, -, -, j, hj, hmsg⟩ := hinv.sent m hm
      refine hs.deliver_known hinv hd hfind ?_ freshKey
      rw [hmsg, ReceiverChain.chainIndex_honestMessage]
      exact hj
  | none =>
      have hnot := hdeliver.resolve_left (Session.findRatchet_eq_none_iff.mp hfind)
      exact hs.deliver_new hX hinv hm hfind hnot freshKey

/-- A refused redelivery moves no chain and records nothing. -/
theorem AcceptedSpent.redeliver (hs : c.AcceptedSpent) {m : Sent} (hevicted : ¬ c.Deliverable m)
    {freshKey : Curve25519SecretKey} (hrefused : c.Refuses P m freshKey) :
    (c.deliver P m freshKey).2.AcceptedSpent := by
  have hfind := findRatchet_eq_none_of_not_deliverable hevicted
  refine hs.deliver_of ?_ ?_
  · intro m' hm' hq r hr hkey
    rw [deliver_snd_of_refuses P hfind hrefused, ← hq, receivingChains_setSession_sendingRatchet] at hr
    exact (hs m' hm').2 r hr hkey
  · obtain ⟨err, he⟩ := hrefused
    intro q hok
    rw [fst_deliver, he] at hok
    cases hok

theorem Reachable.acceptedSpent (hX : P.X25519Agrees) {c : Conversation} {epochs : List Epoch}
    (h : c.Reachable P epochs) : c.AcceptedSpent := by
  induction h with
  | start config sessionKeys sharedSecret remoteSharedSecret ratchetKey _ =>
      exact acceptedSpent_start config sessionKeys sharedSecret remoteSharedSecret ratchetKey
  | encrypt sender plaintext freshKey _ _ _ ih => exact ih.encrypt sender plaintext freshKey
  | deliver m freshKey hm hdeliver hr ih =>
      obtain ⟨config, sessionKeys, e, older, -, hinv⟩ := hr.inv hX
      exact ih.deliver hX hinv hr.chainsDistinct hm hdeliver freshKey
  | redeliver m freshKey _ hevicted hrefused _ _ ih => exact ih.redeliver hevicted hrefused

/-- Over every interleaving, a message that decrypted once does not decrypt
again while it is deliverable: its chain is stored, and its index is spent
there. -/
theorem conversation_no_replay (hX : P.X25519Agrees) {c : Conversation} {epochs : List Epoch}
    (h : c.Reachable P epochs) {m : Sent} (hm : m ∈ c.accepted) (hdeliver : c.Deliverable m)
    (freshKey : Curve25519SecretKey) (plaintext : List UInt8) :
    (c.deliver P m freshKey).1 ≠ .ok plaintext := by
  obtain ⟨hrec, hspent⟩ := h.acceptedSpent hX m hm
  have hstored := hdeliver.resolve_right (not_not_intro hrec)
  obtain ⟨i, hfind⟩ := Option.ne_none_iff_exists'.mp
    (mt Session.findRatchet_eq_none_iff.mp (not_not_intro hstored))
  rw [fst_deliver, Session.decrypt, Session.decryptDecoded_of_findRatchet hfind]
  exact ReceiverChain.not_ok_of_spent
    (hspent _ (List.get_mem _ _) (Session.findRatchet_eq_some hfind)) plaintext

/-- Bob, having decrypted Alice's first message, does not decrypt it again. -/
theorem conversation_no_replay_sample :
    (sampleDelivered.deliver Primitives.toy sampleMessage ⟨.replicate 32 7⟩).1 ≠ .ok [7, 8, 9] := by
  obtain ⟨epochs, h⟩ := reachable_sampleSent
  have hok : ((sampleSent.session sampleMessage.sender.other).decrypt Primitives.toy
      sampleMessage.message ⟨.replicate 32 6⟩).1 = .ok [7, 8, 9] := by decide +kernel
  have hm : sampleMessage ∈ sampleDelivered.accepted := by
    rw [sampleDelivered, accepted_deliver, hok]
    exact List.mem_append_right _ (List.mem_singleton_self _)
  exact conversation_no_replay Primitives.toy_x25519Agrees
    (.deliver _ _ sampleMessage_mem_sent deliverable_sampleMessage h) hm (.inl (by decide +kernel)) _ _

end Conversation

end Vodozemac.Olm
