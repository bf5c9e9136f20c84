import Mathlib
import Vodozemac.Olm.Conversation
import Vodozemac.Olm.ReceiverChainInvariant
import Vodozemac.Olm.SessionInvariant

/-!
# Vodozemac.Olm.ConversationInvariant

In every reachable conversation, a deliverable message decrypts on the other
side to exactly the plaintext it was encrypted from whenever the receiving
chain's window admits its index, and fails otherwise (`conversation_decrypts`).
Both sides keep the session id and the configuration of the start, and
Alice's messages are pre-key messages with her session keys exactly until a
message decrypted on her side.

## Proof shape

The invariant `Conversation.Inv` ties both sessions to the turns of the root
ratchet, the newest turn `e` first:

* the side that owns `e` sends on it (`SendsOn`): its ratchet is active on
  `e`'s root and ratchet keys, and its sending chain is `e`'s chain key
  advanced once per message sent;
* the other side has received `e`, and its ratchet is inactive on `e`'s root
  key and public ratchet key; or it has not, and then it still sends on the
  turn before `e`, whose next turn `e` is, and holds no chain of `e`'s key;
* every receiving chain of either side is on some turn's public ratchet key
  and carries the invariant of a chain from that turn's chain key
  (`ReceivesOn`);
* every turn before `e` has been received by the side that does not own it;
* every message sent is the honest message of a turn its sender owns;
* the turns' public ratchet keys are distinct, and both sides keep the
  configuration and the session keys of the start.

A message whose chain is stored decrypts in place, where
`Inv.decrypt_honestMessage` says what it answers. A refused redelivery of a
message whose chain was dropped changes only the receiver's sending ratchet:
an inactive one is activated and opens the next turn with no message sent
(`Inv.activate`), as a send would open it (`Inv.encrypt_opens`). A message of no stored
chain that was never received is of the newest turn, sent by its owner to a
side that has not received it: that side still sends on the turn before, and
the chain its `advance` derives is the turn's own, by the agreement of X25519
(`kdf_comm`).
-/

namespace Vodozemac.Olm

variable (P : Primitives)

/-- The double ratchet of the side that sends on a turn, after `n` messages:
active on the turn's root and ratchet keys, with the turn's chain key advanced
`n` times. -/
def Epoch.sender (e : Epoch) (n : ℕ) : DoubleRatchet :=
  ⟨.active ⟨Ratchet.newWithRatchetKey ⟨e.rootKey⟩ e.ratchetKey,
    (ChainKey.advance P)^[n] (ChainKey.new e.chainKey)⟩⟩

/-- A double ratchet sends on a turn, with fewer than `2 ^ 64` messages sent. -/
def SendsOn (d : DoubleRatchet) (e : Epoch) : Prop :=
  ∃ n < 2 ^ 64, d = e.sender P n

/-- A receiving chain of a turn: on the turn's public ratchet key, with the
invariant of a chain from the turn's chain key. -/
def ReceivesOn (r : ReceiverChain) (e : Epoch) : Prop :=
  r.ratchetKey = P.x25519PublicKey e.ratchetKey ∧ ReceiverChain.Inv P e.chainKey r

/-- The ratchet keys of the receiving chains of a session. -/
def Session.chainKeys (s : Session) : List Curve25519PublicKey :=
  s.receivingChains.inner.toList.map ReceiverChain.ratchetKey

/-- The side that does not own the newest turn `e`: it has received `e`, and
its ratchet is inactive on `e`'s root key and public ratchet key, or it has
not, and it still sends on the turn before `e`, whose next turn `e` is. -/
def Conversation.OtherSide (c : Conversation) (e : Epoch) (older : List Epoch) : Prop :=
  ((c.session e.owner.other).sendingRatchet =
        DoubleRatchet.inactive ⟨e.rootKey⟩ (P.x25519PublicKey e.ratchetKey) ∧
      (e.owner.other, P.x25519PublicKey e.ratchetKey) ∈ c.received) ∨
    ∃ e' older', older = e' :: older' ∧ e = e'.next P e.ratchetKey ∧
      SendsOn P (c.session e.owner.other).sendingRatchet e' ∧
      P.x25519PublicKey e.ratchetKey ∉ (c.session e.owner.other).chainKeys

/-- The invariant of a conversation whose newest turn is `e`, after the turns
`older`, newest first. -/
structure Conversation.Inv (config : SessionConfig) (sessionKeys : SessionKeys) (c : Conversation)
    (e : Epoch) (older : List Epoch) : Prop where
  distinct : (Epoch.publicKeys P (e :: older)).Nodup
  owner : SendsOn P (c.session e.owner).sendingRatchet e
  other : c.OtherSide P e older
  chains : ∀ p, ∀ r ∈ (c.session p).receivingChains.inner.toList, ∃ e' ∈ e :: older,
    ReceivesOn P r e'
  received : ∀ e' ∈ older, (e'.owner.other, P.x25519PublicKey e'.ratchetKey) ∈ c.received
  sent : ∀ m ∈ c.sent, ∃ e' ∈ e :: older, e'.owner = m.sender ∧ ∃ j : UInt64,
    j.toNat + 1 < 2 ^ 64 ∧
      m.message.inner = honestMessage P (P.x25519PublicKey e'.ratchetKey) e'.chainKey config j
        m.plaintext
  config : ∀ p, (c.session p).config = config
  sessionKeys : ∀ p, (c.session p).sessionKeys = sessionKeys
  chainsEmpty : ∀ p, (c.session p).receivingChains.inner.toList = [] ↔ ∀ k, (p, k) ∉ c.received

variable {P}

/-! ### Sending on a turn -/

namespace Epoch

/-- The next message key of a turn's sender is the turn's chain key advanced as
often as it sent, and the sender moves one message on. -/
theorem nextMessageKey_sender (e : Epoch) (n : ℕ) (freshKey : Curve25519SecretKey) :
    (e.sender P n).nextMessageKey P freshKey =
      ((((ChainKey.advance P)^[n] (ChainKey.new e.chainKey)).createMessageKey P
        (P.x25519PublicKey e.ratchetKey)).1, e.sender P (n + 1)) := by
  simp only [sender, DoubleRatchet.nextMessageKey, ActiveDoubleRatchet.nextMessageKey,
    ActiveDoubleRatchet.ratchetKey, Ratchet.newWithRatchetKey, ChainKey.createMessageKey,
    Function.iterate_succ_apply']

/-- Activating the ratchet that received a turn opens the next turn with the
fresh key: the ratchet then sends on it. -/
theorem activate_inactive (e : Epoch) (freshKey : Curve25519SecretKey) :
    (DoubleRatchet.inactive ⟨e.rootKey⟩ (P.x25519PublicKey e.ratchetKey)).nextMessageKey P freshKey =
      ((e.next P freshKey).sender P 0).nextMessageKey P freshKey := rfl

/-- `advance` on the sender of the turn before `e`, with `e`'s public ratchet
key, derives `e`'s root and chain keys, and leaves the sender as it is. -/
theorem advance_sender (hX : P.X25519Agrees) (e' : Epoch) (n : ℕ) (ratchetKey : Curve25519SecretKey)
    (freshKey : Curve25519SecretKey) :
    (e'.sender P n).advance P (P.x25519PublicKey ratchetKey) freshKey =
      ((DoubleRatchet.inactive ⟨(e'.next P ratchetKey).rootKey⟩ (P.x25519PublicKey ratchetKey),
        ReceiverChain.new (P.x25519PublicKey ratchetKey)
          (RemoteChainKey.new (e'.next P ratchetKey).chainKey)), e'.sender P n) := by
  simp only [sender, DoubleRatchet.advance, ActiveDoubleRatchet.advance, Ratchet.advance,
    Ratchet.newWithRatchetKey, RootKey.advance, next, DoubleRatchet.inactive,
    kdf_comm hX e'.rootKey e'.ratchetKey ratchetKey]

/-- `advance` leaves the ratchet of a turn's sender as it is. -/
@[simp] theorem advance_sender_snd (e : Epoch) (n : ℕ) (ratchetKey : Curve25519PublicKey)
    (freshKey : Curve25519SecretKey) :
    ((e.sender P n).advance P ratchetKey freshKey).2 = e.sender P n := rfl

/-- `advance` on the ratchet that received a turn activates it: it then sends
on the turn the fresh key opens, with no message sent. -/
theorem advance_inactive_snd (e : Epoch) (ratchetKey : Curve25519PublicKey)
    (freshKey : Curve25519SecretKey) :
    ((DoubleRatchet.inactive ⟨e.rootKey⟩ (P.x25519PublicKey e.ratchetKey)).advance P ratchetKey
      freshKey).2 = (e.next P freshKey).sender P 0 := rfl

end Epoch

/-- The message of index `n` on a chain, for an `n` that fits in a `u64`. -/
theorem honestMessage_ofNat {n : ℕ} (hn : n < 2 ^ 64) (k : Curve25519PublicKey) (c0 : Bytes 32)
    (config : SessionConfig) (plaintext : List UInt8) :
    honestMessage P k c0 config (UInt64.ofNat n) plaintext =
      match config.version with
      | .v1 => (((ChainKey.advance P)^[n] (ChainKey.new c0)).createMessageKey P k).1.encryptTruncatedMac
          P plaintext
      | .v2 => (((ChainKey.advance P)^[n] (ChainKey.new c0)).createMessageKey P k).1.encrypt P
          plaintext := by
  cases hv : config.version <;> simp only [honestMessage, hv, UInt64.toNat_ofNat_of_lt' hn]

/-- The message the sender of a chain encrypts carries the chain's ratchet key. -/
@[simp] theorem ratchetKey_honestMessage (k : Curve25519PublicKey) (c0 : Bytes 32)
    (config : SessionConfig) (j : UInt64) (plaintext : List UInt8) :
    (honestMessage P k c0 config j plaintext).ratchetKey = k := by
  simp only [honestMessage, ReceiverChain.createMessageKey_iterate_new]
  cases config.version <;>
    simp [MessageKey.encrypt, MessageKey.encryptTruncatedMac, Message.new, Message.newTruncatedMac]

/-- `encrypt` reads the sending ratchet only through its next message key: on
a ratchet whose next key is that of a turn's sender after `n` messages, it
sends the turn's message of index `n` and leaves that sender one message on. -/
theorem Session.encrypt_sender {s : Session} {f : Epoch} {n : ℕ} {freshKey : Curve25519SecretKey}
    (hs : s.sendingRatchet.nextMessageKey P freshKey = (f.sender P n).nextMessageKey P freshKey)
    (hn : n < 2 ^ 64) (plaintext : List UInt8) :
    (s.encrypt P plaintext freshKey).1.inner =
        honestMessage P (P.x25519PublicKey f.ratchetKey) f.chainKey s.config (UInt64.ofNat n)
          plaintext ∧
      (s.encrypt P plaintext freshKey).2 = { s with sendingRatchet := f.sender P (n + 1) } := by
  rw [Session.inner_encrypt, Session.encrypt_snd_eq, hs, Epoch.nextMessageKey_sender,
    honestMessage_ofNat hn]
  exact ⟨rfl, rfl⟩

/-- The index of the message a sender sends after `n` messages is `n`. -/
theorem toNat_chainIndex_encrypt_sender {s : Session} {f : Epoch} {n : ℕ}
    {freshKey : Curve25519SecretKey}
    (hs : s.sendingRatchet.nextMessageKey P freshKey = (f.sender P n).nextMessageKey P freshKey)
    (hn : n < 2 ^ 64) (plaintext : List UInt8) :
    (s.encrypt P plaintext freshKey).1.inner.chainIndex.toNat = n := by
  rw [(Session.encrypt_sender hs hn plaintext).1, ReceiverChain.chainIndex_honestMessage,
    UInt64.toNat_ofNat_of_lt' hn]

@[simp] theorem Epoch.owner_next (e : Epoch) (freshKey : Curve25519SecretKey) :
    (e.next P freshKey).owner = e.owner.other := rfl

@[simp] theorem Epoch.ratchetKey_next (e : Epoch) (freshKey : Curve25519SecretKey) :
    (e.next P freshKey).ratchetKey = freshKey := rfl

/-! ### Decrypting on a session -/

namespace Session

/-- `decrypt_decoded` keeps the configuration and the session keys. -/
theorem frame_decryptDecoded (s : Session) (message : Message) (freshKey : Curve25519SecretKey) :
    (s.decryptDecoded P message freshKey).2.config = s.config ∧
      (s.decryptDecoded P message freshKey).2.sessionKeys = s.sessionKeys := by
  cases hf : s.receivingChains.findRatchet message.ratchetKey with
  | some i =>
      rw [decryptDecoded_of_findRatchet hf]
      exact ⟨rfl, rfl⟩
  | none =>
      rw [decryptDecoded_of_findRatchet_eq_none hf]
      split <;> exact ⟨rfl, rfl⟩

/-- Through a stored chain, `decrypt_decoded` leaves the sending ratchet, the
chain keys and the number of chains as they were, and every chain it holds is
an old one or the decrypted chain. -/
theorem decryptDecoded_found {s : Session} {message : Message}
    {i : Fin s.receivingChains.inner.toList.length}
    (hf : s.receivingChains.findRatchet message.ratchetKey = some i) (freshKey : Curve25519SecretKey) :
    (s.decryptDecoded P message freshKey).2.sendingRatchet = s.sendingRatchet ∧
      (s.decryptDecoded P message freshKey).2.chainKeys = s.chainKeys ∧
      (s.decryptDecoded P message freshKey).2.receivingChains.inner.toList.length =
        s.receivingChains.inner.toList.length ∧
      ∀ r ∈ (s.decryptDecoded P message freshKey).2.receivingChains.inner.toList,
        r ∈ s.receivingChains.inner.toList ∨
          r = ((s.receivingChains.inner.toList.get i).decrypt P message s.config).2 := by
  rw [decryptDecoded_of_findRatchet hf]
  refine ⟨rfl, ?_, List.length_set, fun r hr => List.mem_or_eq_of_mem_set hr⟩
  exact map_ratchetKey_set _ _ (ReceiverChain.ratchetKey_decrypt _ _ _)

section Behind

variable (hX : P.X25519Agrees) {s : Session} {e' e : Epoch} {n : ℕ} {message : Message}
  (hsend : s.sendingRatchet = e'.sender P n) (hnext : e = e'.next P e.ratchetKey)
  (hkey : message.ratchetKey = P.x25519PublicKey e.ratchetKey)
  (hf : s.receivingChains.findRatchet message.ratchetKey = none) (freshKey : Curve25519SecretKey)

include hX hsend hnext hkey in
/-- A session one turn behind, meeting the next turn's ratchet key, derives
that turn's chain and gets back its own ratchet. -/
theorem advance_behind :
    s.sendingRatchet.advance P message.ratchetKey freshKey =
      ((DoubleRatchet.inactive ⟨e.rootKey⟩ (P.x25519PublicKey e.ratchetKey),
        ReceiverChain.new (P.x25519PublicKey e.ratchetKey) (RemoteChainKey.new e.chainKey)),
        s.sendingRatchet) := by
  rw [hsend, hkey, Epoch.advance_sender hX, ← hnext]

include hX hsend hnext hkey hf in
/-- A failure there leaves the session as it was. -/
theorem decryptDecoded_behind_error {err : DecryptionError}
    (hr : ((ReceiverChain.new (P.x25519PublicKey e.ratchetKey) (RemoteChainKey.new e.chainKey)).decrypt
      P message s.config).1 = .error err) :
    s.decryptDecoded P message freshKey = (.error err, s) := by
  rw [decryptDecoded_of_findRatchet_eq_none hf, advance_behind hX hsend hnext hkey]
  simp only [hr]

include hX hsend hnext hkey hf in
/-- A success there turns the ratchet inactive on the new turn and pushes its chain. -/
theorem decryptDecoded_behind_ok {plaintext : List UInt8}
    (hr : ((ReceiverChain.new (P.x25519PublicKey e.ratchetKey) (RemoteChainKey.new e.chainKey)).decrypt
      P message s.config).1 = .ok plaintext) :
    s.decryptDecoded P message freshKey =
      (.ok plaintext,
        { s with sendingRatchet := DoubleRatchet.inactive ⟨e.rootKey⟩ (P.x25519PublicKey e.ratchetKey),
                 receivingChains := s.receivingChains.push
                  ((ReceiverChain.new (P.x25519PublicKey e.ratchetKey)
                    (RemoteChainKey.new e.chainKey)).decrypt P message s.config).2 }) := by
  rw [decryptDecoded_of_findRatchet_eq_none hf, advance_behind hX hsend hnext hkey]
  simp only [hr]

include hX hsend hnext hkey hf in
/-- Either way the result is that of the new turn's chain. -/
theorem decryptDecoded_behind_fst :
    (s.decryptDecoded P message freshKey).1 =
      ((ReceiverChain.new (P.x25519PublicKey e.ratchetKey) (RemoteChainKey.new e.chainKey)).decrypt
        P message s.config).1 := by
  rcases hr : ((ReceiverChain.new (P.x25519PublicKey e.ratchetKey)
      (RemoteChainKey.new e.chainKey)).decrypt P message s.config).1 with err | plaintext
  · rw [decryptDecoded_behind_error hX hsend hnext hkey hf freshKey hr]
  · rw [decryptDecoded_behind_ok hX hsend hnext hkey hf freshKey hr]

end Behind

end Session

namespace Conversation

variable {config : SessionConfig} {sessionKeys : SessionKeys} {c : Conversation} {e : Epoch}
  {older : List Epoch}

/-! ### What a delivery keeps -/

/-- A message that is not deliverable has no stored chain at its receiver. -/
theorem findRatchet_eq_none_of_not_deliverable {c : Conversation} {m : Sent}
    (h : ¬ c.Deliverable m) :
    (c.session m.sender.other).receivingChains.findRatchet m.message.inner.ratchetKey = none :=
  Session.findRatchet_eq_none_iff.mpr (not_or.mp h).1

@[simp] theorem config_deliver (c : Conversation) (m : Sent) (freshKey : Curve25519SecretKey)
    (p : Party) : ((c.deliver P m freshKey).2.session p).config = (c.session p).config := by
  by_cases hp : p = m.sender.other
  · subst hp
    rw [session_deliver_self, Session.decrypt, (Session.frame_decryptDecoded _ _ _).1]
  · rw [session_deliver_of_ne P hp]

@[simp] theorem sessionKeys_deliver (c : Conversation) (m : Sent) (freshKey : Curve25519SecretKey)
    (p : Party) : ((c.deliver P m freshKey).2.session p).sessionKeys = (c.session p).sessionKeys := by
  by_cases hp : p = m.sender.other
  · subst hp
    rw [session_deliver_self, Session.decrypt, (Session.frame_decryptDecoded _ _ _).2]
  · rw [session_deliver_of_ne P hp]

/-! ### `encrypt` -/

@[simp] theorem isInactive_sender (e : Epoch) (n : ℕ) : (e.sender P n).isInactive = false := rfl

@[simp] theorem isInactive_inactive (rootKey : RemoteRootKey) (ratchetKey : Curve25519PublicKey) :
    (DoubleRatchet.inactive rootKey ratchetKey).isInactive = true := rfl

/-- What an `encrypt` on the sender of a turn keeps of the invariant, over
turns `e₁ :: older₁` that extend the old ones: all but the distinctness of the
turns, what the earlier turns' receivers hold, and the two sending ratchets,
which the caller gives. -/
theorem Inv.encrypt_of (hinv : c.Inv P config sessionKeys e older) {e₁ : Epoch}
    {older₁ : List Epoch} (hsub : ∀ x ∈ e :: older, x ∈ e₁ :: older₁) {sender : Party}
    {f : Epoch} {n : ℕ} (hf : f ∈ e₁ :: older₁) (hfo : f.owner = sender)
    (plaintext : List UInt8) {freshKey : Curve25519SecretKey}
    (hs : (c.session sender).sendingRatchet.nextMessageKey P freshKey =
      (f.sender P n).nextMessageKey P freshKey) (hn : n < 2 ^ 64)
    (hindex : ((c.session sender).encrypt P plaintext freshKey).1.inner.chainIndex.toNat + 1 < 2 ^ 64)
    (hdistinct : (Epoch.publicKeys P (e₁ :: older₁)).Nodup)
    (hreceived : ∀ x ∈ older₁, (x.owner.other, P.x25519PublicKey x.ratchetKey) ∈ c.received)
    (howner : SendsOn P ((c.encrypt P sender plaintext freshKey).session e₁.owner).sendingRatchet e₁)
    (hother : (c.encrypt P sender plaintext freshKey).OtherSide P e₁ older₁) :
    (c.encrypt P sender plaintext freshKey).Inv P config sessionKeys e₁ older₁ where
  distinct := hdistinct
  owner := howner
  other := hother
  chains p r hr := by
    rw [receivingChains_encrypt] at hr
    obtain ⟨x, hx, hrx⟩ := hinv.chains p r hr
    exact ⟨x, hsub x hx, hrx⟩
  received x hx := by
    rw [received_encrypt]
    exact hreceived x hx
  sent m hm := by
    rw [sent_encrypt, List.mem_append, List.mem_singleton] at hm
    rcases hm with hold | rfl
    · obtain ⟨x, hx, hxo, hmsg⟩ := hinv.sent m hold
      exact ⟨x, hsub x hx, hxo, hmsg⟩
    · -- the new message is the turn's message at the sender's index
      refine ⟨f, hf, hfo, UInt64.ofNat n, ?_, ?_⟩
      · rw [UInt64.toNat_ofNat_of_lt' hn]
        rwa [toNat_chainIndex_encrypt_sender hs hn] at hindex
      · rw [(Session.encrypt_sender hs hn plaintext).1, hinv.config sender]
  config p := by
    rw [config_encrypt]
    exact hinv.config p
  sessionKeys p := by
    rw [sessionKeys_encrypt]
    exact hinv.sessionKeys p
  chainsEmpty p := by
    rw [receivingChains_encrypt, received_encrypt]
    exact hinv.chainsEmpty p

/-- The owner of the newest turn sends on it. -/
theorem Inv.encrypt_owner (hinv : c.Inv P config sessionKeys e older) (plaintext : List UInt8)
    (freshKey : Curve25519SecretKey)
    (hindex : ((c.session e.owner).encrypt P plaintext freshKey).1.inner.chainIndex.toNat + 1 <
      2 ^ 64) :
    (c.encrypt P e.owner plaintext freshKey).Inv P config sessionKeys e older := by
  obtain ⟨n, hn, hs⟩ := hinv.owner
  have hkey : (c.session e.owner).sendingRatchet.nextMessageKey P freshKey =
      (e.sender P n).nextMessageKey P freshKey := by rw [hs]
  have hn' : n + 1 < 2 ^ 64 := by rwa [toNat_chainIndex_encrypt_sender hkey hn] at hindex
  refine hinv.encrypt_of (fun x hx => hx) List.mem_cons_self rfl plaintext hkey hn hindex
    hinv.distinct hinv.received ⟨n + 1, hn', ?_⟩ ?_
  · rw [session_encrypt_self, (Session.encrypt_sender hkey hn plaintext).2]
  · -- the other side is untouched
    unfold OtherSide
    rw [session_encrypt_of_ne (P := P) (Party.other_ne _), received_encrypt]
    exact hinv.other

/-- The side that has not received the newest turn sends on the turn before. -/
theorem Inv.encrypt_behind (hinv : c.Inv P config sessionKeys e older) {e' : Epoch}
    {older' : List Epoch} (holder : older = e' :: older') (hnext : e = e'.next P e.ratchetKey)
    (hsends : SendsOn P (c.session e.owner.other).sendingRatchet e')
    (hnew : P.x25519PublicKey e.ratchetKey ∉ (c.session e.owner.other).chainKeys)
    (plaintext : List UInt8) (freshKey : Curve25519SecretKey)
    (hindex : ((c.session e.owner.other).encrypt P plaintext freshKey).1.inner.chainIndex.toNat + 1 <
      2 ^ 64) :
    (c.encrypt P e.owner.other plaintext freshKey).Inv P config sessionKeys e older := by
  obtain ⟨n, hn, hs⟩ := hsends
  have hkey : (c.session e.owner.other).sendingRatchet.nextMessageKey P freshKey =
      (e'.sender P n).nextMessageKey P freshKey := by rw [hs]
  have hn' : n + 1 < 2 ^ 64 := by rwa [toNat_chainIndex_encrypt_sender hkey hn] at hindex
  -- the turn before is the other side's: `e` is its next turn
  have howner : e'.owner = e.owner.other := by
    rw [hnext, Epoch.owner_next, Party.other_other]
  have hsnd := (Session.encrypt_sender hkey hn plaintext).2
  refine hinv.encrypt_of (fun x hx => hx) (holder ▸ List.mem_cons_of_mem _ List.mem_cons_self)
    howner plaintext hkey hn hindex hinv.distinct hinv.received ?_ ?_
  · rw [session_encrypt_of_ne (P := P) (Party.ne_other _)]
    exact hinv.owner
  · refine .inr ⟨e', older', holder, hnext, ⟨n + 1, hn', ?_⟩, ?_⟩
    · rw [session_encrypt_self, hsnd]
    · rw [session_encrypt_self, hsnd]
      exact hnew

/-- No stored chain is on a fresh key: every chain is of an old turn. -/
theorem Inv.not_mem_chainKeys (hinv : c.Inv P config sessionKeys e older)
    {freshKey : Curve25519SecretKey}
    (hfresh : P.x25519PublicKey freshKey ∉ Epoch.publicKeys P (e :: older)) (p : Party) :
    P.x25519PublicKey freshKey ∉ (c.session p).chainKeys := by
  intro hmem
  obtain ⟨r, hr, hkr⟩ := List.mem_map.mp hmem
  obtain ⟨x, hx, hrx, -⟩ := hinv.chains p r hr
  exact hfresh (List.mem_map.mpr ⟨x, hx, by rw [← hrx, hkr]⟩)

/-- The side that has received the newest turn opens the next one: the fresh
key's turn is the newest, and the old owner is one turn behind. -/
theorem Inv.encrypt_opens (hinv : c.Inv P config sessionKeys e older)
    (hinactive : (c.session e.owner.other).sendingRatchet =
      DoubleRatchet.inactive ⟨e.rootKey⟩ (P.x25519PublicKey e.ratchetKey))
    (hreceived : (e.owner.other, P.x25519PublicKey e.ratchetKey) ∈ c.received)
    (plaintext : List UInt8) (freshKey : Curve25519SecretKey)
    (hfresh : P.x25519PublicKey freshKey ∉ Epoch.publicKeys P (e :: older))
    (hindex : ((c.session e.owner.other).encrypt P plaintext freshKey).1.inner.chainIndex.toNat + 1 <
      2 ^ 64) :
    (c.encrypt P e.owner.other plaintext freshKey).Inv P config sessionKeys (e.next P freshKey)
      (e :: older) := by
  have hkey : (c.session e.owner.other).sendingRatchet.nextMessageKey P freshKey =
      ((e.next P freshKey).sender P 0).nextMessageKey P freshKey := by
    rw [hinactive, Epoch.activate_inactive]
  have hsnd := (Session.encrypt_sender hkey (by norm_num) plaintext).2
  refine hinv.encrypt_of (f := e.next P freshKey) (n := 0) (fun x hx => List.mem_cons_of_mem _ hx)
    List.mem_cons_self rfl plaintext hkey (by norm_num) hindex
    (List.nodup_cons.mpr ⟨hfresh, hinv.distinct⟩) ?_ ?_ ?_
  · intro x hx
    rcases List.mem_cons.mp hx with rfl | hold
    · exact hreceived
    · exact hinv.received x hold
  · rw [Epoch.owner_next, session_encrypt_self, hsnd]
    exact ⟨1, by norm_num, rfl⟩
  · refine .inr ⟨e, older, rfl, rfl, ?_, ?_⟩
    · rw [Epoch.owner_next, Party.other_other, session_encrypt_of_ne (P := P) (Party.ne_other _)]
      exact hinv.owner
    · rw [Epoch.owner_next, Party.other_other, session_encrypt_of_ne (P := P) (Party.ne_other _),
        Epoch.ratchetKey_next]
      exact hinv.not_mem_chainKeys hfresh e.owner

/-- The side that has received the newest turn and activates its ratchet
without sending opens the next turn, on which it has sent nothing. -/
theorem Inv.activate (hinv : c.Inv P config sessionKeys e older)
    (hreceived : (e.owner.other, P.x25519PublicKey e.ratchetKey) ∈ c.received)
    {freshKey : Curve25519SecretKey}
    (hfresh : P.x25519PublicKey freshKey ∉ Epoch.publicKeys P (e :: older)) :
    (c.setSession e.owner.other
      { c.session e.owner.other with sendingRatchet := (e.next P freshKey).sender P 0 }).Inv P config
        sessionKeys (e.next P freshKey) (e :: older) where
  distinct := List.nodup_cons.mpr ⟨hfresh, hinv.distinct⟩
  owner := ⟨0, by norm_num, by rw [Epoch.owner_next, session_setSession_self]⟩
  other := by
    -- the old owner has not received the new turn: it still sends on `e`
    refine .inr ⟨e, older, rfl, rfl, ?_, ?_⟩
    · rw [Epoch.owner_next, session_setSession_other, Party.other_other]
      exact hinv.owner
    · rw [Epoch.owner_next, session_setSession_other, Party.other_other, Epoch.ratchetKey_next]
      exact hinv.not_mem_chainKeys hfresh e.owner
  chains p r hr := by
    rw [receivingChains_setSession_sendingRatchet] at hr
    obtain ⟨x, hx, hrx⟩ := hinv.chains p r hr
    exact ⟨x, List.mem_cons_of_mem _ hx, hrx⟩
  received x hx := by
    rw [received_setSession]
    rcases List.mem_cons.mp hx with rfl | hold
    · exact hreceived
    · exact hinv.received x hold
  sent m hm := by
    rw [sent_setSession] at hm
    obtain ⟨x, hx, hxm⟩ := hinv.sent m hm
    exact ⟨x, List.mem_cons_of_mem _ hx, hxm⟩
  config p := by
    rw [config_setSession_sendingRatchet]
    exact hinv.config p
  sessionKeys p := by
    rw [sessionKeys_setSession_sendingRatchet]
    exact hinv.sessionKeys p
  chainsEmpty p := by
    rw [receivingChains_setSession_sendingRatchet, received_setSession]
    exact hinv.chainsEmpty p

/-! ### Delivery -/

/-- Two turns with one public ratchet key are the same turn. -/
theorem Inv.eq_of_publicKey (hinv : c.Inv P config sessionKeys e older) {x y : Epoch}
    (hx : x ∈ e :: older) (hy : y ∈ e :: older)
    (h : P.x25519PublicKey x.ratchetKey = P.x25519PublicKey y.ratchetKey) : x = y :=
  List.inj_on_of_nodup_map hinv.distinct hx hy h

/-- The chain a side finds for a turn's public ratchet key is a chain of that turn. -/
theorem Inv.receivesOn_findRatchet (hinv : c.Inv P config sessionKeys e older) {p : Party}
    {f : Epoch} (hf : f ∈ e :: older) {i : Fin (c.session p).receivingChains.inner.toList.length}
    (hfind : (c.session p).receivingChains.findRatchet (P.x25519PublicKey f.ratchetKey) = some i) :
    ReceivesOn P ((c.session p).receivingChains.inner.toList.get i) f := by
  obtain ⟨x, hx, hkey, hinvx⟩ := hinv.chains p _ (List.get_mem _ _)
  have hxf : x = f :=
    hinv.eq_of_publicKey hx hf (by rw [← hkey, Session.findRatchet_eq_some hfind])
  subst hxf
  exact ⟨hkey, hinvx⟩

/-- A message its receiver never received is of the newest turn, and the
receiver is one turn behind. -/
theorem Inv.behind_of_not_received (hinv : c.Inv P config sessionKeys e older) {m : Sent}
    {f : Epoch} (hf : f ∈ e :: older) (hfo : f.owner = m.sender)
    (hkey : m.message.inner.ratchetKey = P.x25519PublicKey f.ratchetKey)
    (hnot : (m.sender.other, m.message.inner.ratchetKey) ∉ c.received) :
    f = e ∧ ∃ e' older', older = e' :: older' ∧ e = e'.next P e.ratchetKey ∧
      SendsOn P (c.session e.owner.other).sendingRatchet e' := by
  rw [hkey, ← hfo] at hnot
  -- every older turn has been received by the side that does not own it
  have hfe : f = e := by
    rcases List.mem_cons.mp hf with h | hold
    · exact h
    · exact absurd (hinv.received f hold) hnot
  subst hfe
  refine ⟨rfl, ?_⟩
  rcases hinv.other with ⟨-, hrec⟩ | ⟨e', older', holder, hnext, hsends, -⟩
  · exact absurd hrec hnot
  · exact ⟨e', older', holder, hnext, hsends⟩

/-- A side whose chains are nonempty before and after a step has received a
chain, so both sides of its `chainsEmpty` are false. -/
theorem chainsEmpty_of_ne_nil {c' : Conversation} {p : Party}
    (hinv : c.Inv P config sessionKeys e older) (hne : (c.session p).receivingChains.inner.toList ≠ [])
    (hne' : (c'.session p).receivingChains.inner.toList ≠ [])
    (hsub : ∀ x ∈ c.received, x ∈ c'.received) :
    (c'.session p).receivingChains.inner.toList = [] ↔ ∀ k, (p, k) ∉ c'.received := by
  obtain ⟨k, hk⟩ : ∃ k, (p, k) ∈ c.received := by
    by_contra hnone
    exact hne ((hinv.chainsEmpty p).mpr fun k hk => hnone ⟨k, hk⟩)
  exact iff_of_false hne' fun hall => hall k (hsub _ hk)

/-- A delivery keeps the invariant when the receiver's new session sends and
receives as the invariant asks: the turns, the messages and the sender's
session do not change. -/
theorem Inv.deliver_of (hinv : c.Inv P config sessionKeys e older) {m : Sent}
    {freshKey : Curve25519SecretKey}
    (howner : SendsOn P ((c.deliver P m freshKey).2.session e.owner).sendingRatchet e)
    (hother : (c.deliver P m freshKey).2.OtherSide P e older)
    (hchains : ∀ r ∈ ((c.deliver P m freshKey).2.session m.sender.other).receivingChains.inner.toList,
      ∃ e' ∈ e :: older, ReceivesOn P r e')
    (hempty : ((c.deliver P m freshKey).2.session m.sender.other).receivingChains.inner.toList = [] ↔
      ∀ k, (m.sender.other, k) ∉ (c.deliver P m freshKey).2.received) :
    (c.deliver P m freshKey).2.Inv P config sessionKeys e older where
  distinct := hinv.distinct
  owner := howner
  other := hother
  chains p := by
    by_cases hp : p = m.sender.other
    · subst hp
      exact hchains
    · rw [session_deliver_of_ne P hp]
      exact hinv.chains p
  received x hx := mem_received_deliver P (hinv.received x hx)
  sent m' hm' := hinv.sent m' (by rwa [sent_deliver] at hm')
  config p := by
    rw [config_deliver]
    exact hinv.config p
  sessionKeys p := by
    rw [sessionKeys_deliver]
    exact hinv.sessionKeys p
  chainsEmpty p := by
    by_cases hp : p = m.sender.other
    · subst hp
      exact hempty
    · rw [session_deliver_of_ne P hp]
      simp only [mem_received_deliver_of_ne P hp]
      exact hinv.chainsEmpty p

/-- A delivery through a stored chain decrypts in place: only that chain
moves, and it stays a chain of its turn. -/
theorem Inv.deliver_known (hinv : c.Inv P config sessionKeys e older) {m : Sent}
    {i : Fin (c.session m.sender.other).receivingChains.inner.toList.length}
    (hfind : (c.session m.sender.other).receivingChains.findRatchet m.message.inner.ratchetKey =
      some i)
    (hb : m.message.inner.chainIndex.toNat + 1 < 2 ^ 64) (freshKey : Curve25519SecretKey) :
    (c.deliver P m freshKey).2.Inv P config sessionKeys e older := by
  obtain ⟨hsend, hkeys, hlen, hmem⟩ := Session.decryptDecoded_found (P := P) hfind freshKey
  -- no side's sending ratchet or chain keys move
  have hsend' : ∀ p, ((c.deliver P m freshKey).2.session p).sendingRatchet =
      (c.session p).sendingRatchet := by
    intro p
    by_cases hp : p = m.sender.other
    · subst hp
      rw [session_deliver_self, Session.decrypt]
      exact hsend
    · rw [session_deliver_of_ne P hp]
  have hkeys' : ∀ p, ((c.deliver P m freshKey).2.session p).chainKeys = (c.session p).chainKeys := by
    intro p
    by_cases hp : p = m.sender.other
    · subst hp
      rw [session_deliver_self, Session.decrypt]
      exact hkeys
    · rw [session_deliver_of_ne P hp]
  refine hinv.deliver_of ?_ ?_ ?_ ?_
  · rw [hsend']
    exact hinv.owner
  · unfold OtherSide
    rw [hsend', hkeys']
    exact hinv.other.imp (fun h => ⟨h.1, mem_received_deliver P h.2⟩) id
  · intro r hr
    rw [session_deliver_self, Session.decrypt] at hr
    rcases hmem r hr with hold | rfl
    · exact hinv.chains _ r hold
    · -- the decrypted chain keeps its key and the invariant of its turn
      obtain ⟨f, hf, hkey, hinvf⟩ := hinv.chains _ _ (List.get_mem _ _)
      exact ⟨f, hf, by rw [ReceiverChain.ratchetKey_decrypt]; exact hkey, hinvf.decrypt _ _ hb⟩
  · -- the receiver holds the chain found, before and after
    have hpos : 0 < (c.session m.sender.other).receivingChains.inner.toList.length :=
      Nat.lt_of_le_of_lt (Nat.zero_le _) i.2
    refine chainsEmpty_of_ne_nil hinv (List.ne_nil_of_length_pos hpos) ?_
      fun x hx => mem_received_deliver P hx
    rw [session_deliver_self, Session.decrypt]
    exact List.ne_nil_of_length_pos (hlen ▸ hpos)

/-- A delivery of a message with no stored chain that its receiver never
received: the message is of the newest turn, the receiver one turn behind
derives that turn's chain, and on success it records the chain and turns its
ratchet inactive on the new turn; on failure nothing changes. -/
theorem Inv.deliver_new (hX : P.X25519Agrees) (hinv : c.Inv P config sessionKeys e older)
    {m : Sent} (hm : m ∈ c.sent)
    (hfind : (c.session m.sender.other).receivingChains.findRatchet m.message.inner.ratchetKey = none)
    (hnot : (m.sender.other, m.message.inner.ratchetKey) ∉ c.received)
    (freshKey : Curve25519SecretKey) :
    (c.deliver P m freshKey).2.Inv P config sessionKeys e older := by
  obtain ⟨f, hf, hfo, j, hj, hmsg⟩ := hinv.sent m hm
  have hkey : m.message.inner.ratchetKey = P.x25519PublicKey f.ratchetKey := by
    rw [hmsg, ratchetKey_honestMessage]
  obtain ⟨hfe, e', older', -, hnext, n, -, hsend⟩ := hinv.behind_of_not_received hf hfo hkey hnot
  rw [hfe] at hfo hkey
  -- the receiver is the side that does not own the newest turn
  have hq : e.owner.other = m.sender.other := by rw [hfo]
  have hown : e.owner ≠ m.sender.other := hfo ▸ (Party.ne_other _)
  rw [hq] at hsend
  have hb : m.message.inner.chainIndex.toNat + 1 < 2 ^ 64 := by
    rw [hmsg, ReceiverChain.chainIndex_honestMessage]
    exact hj
  rcases hr : ((ReceiverChain.new (P.x25519PublicKey e.ratchetKey) (RemoteChainKey.new e.chainKey)).decrypt
      P m.message.inner (c.session m.sender.other).config).1 with err | plaintext
  · -- a failure leaves the whole conversation as it was
    have hdec := Session.decryptDecoded_behind_error hX hsend hnext hkey hfind freshKey hr
    have he : ((c.session m.sender.other).decrypt P m.message freshKey).1 = .error err := by
      rw [Session.decrypt, hdec]
    have hs : ((c.session m.sender.other).decrypt P m.message freshKey).2 = c.session m.sender.other := by
      rw [Session.decrypt, hdec]
    rw [deliver_snd_of_error P he hs]
    exact hinv
  · have hdec := Session.decryptDecoded_behind_ok hX hsend hnext hkey hfind freshKey hr
    have hs' : (c.deliver P m freshKey).2.session m.sender.other =
        ((c.session m.sender.other).decryptDecoded P m.message.inner freshKey).2 := by
      rw [session_deliver_self, Session.decrypt]
    have hrec : (c.deliver P m freshKey).2.received =
        c.received ++ [(m.sender.other, m.message.inner.ratchetKey)] := by
      rw [received_deliver, Session.decrypt, hdec]
    have hmem : (m.sender.other, m.message.inner.ratchetKey) ∈ (c.deliver P m freshKey).2.received := by
      rw [hrec]
      exact List.mem_append_right _ (List.mem_singleton_self _)
    refine hinv.deliver_of ?_ ?_ ?_ ?_
    · rw [session_deliver_of_ne P hown]
      exact hinv.owner
    · -- the receiver is now inactive on the newest turn, which it has received
      refine .inl ⟨?_, ?_⟩
      · rw [hq, hs', hdec]
      · rw [hq, ← hkey]
        exact hmem
    · intro r hr'
      rw [hs', hdec] at hr'
      rcases ArrayVec.mem_pushEvicting hr' with hold | rfl
      · exact hinv.chains _ r hold
      · exact ⟨e, List.mem_cons_self, by rw [ReceiverChain.ratchetKey_decrypt]; rfl,
          (ReceiverChain.inv_new _ _).decrypt _ _ hb⟩
    · refine iff_of_false ?_ fun hall => hall _ hmem
      rw [hs', hdec]
      exact List.ne_nil_of_mem (ArrayVec.mem_pushEvicting_self _ _)

/-- Every delivery the run allows keeps the invariant. -/
theorem Inv.deliver (hX : P.X25519Agrees) (hinv : c.Inv P config sessionKeys e older) {m : Sent}
    (hm : m ∈ c.sent) (hdeliver : c.Deliverable m) (freshKey : Curve25519SecretKey) :
    (c.deliver P m freshKey).2.Inv P config sessionKeys e older := by
  cases hfind : (c.session m.sender.other).receivingChains.findRatchet m.message.inner.ratchetKey with
  | some i =>
      obtain ⟨f, -, -, j, hj, hmsg⟩ := hinv.sent m hm
      refine hinv.deliver_known hfind ?_ freshKey
      rw [hmsg, ReceiverChain.chainIndex_honestMessage]
      exact hj
  | none =>
      -- with no chain stored, a deliverable message was never received
      have hnot := hdeliver.resolve_left (Session.findRatchet_eq_none_iff.mp hfind)
      exact hinv.deliver_new hX hm hfind hnot freshKey

/-- A refused redelivery of a message whose chain its receiver dropped keeps
the invariant: an active receiver is left as it was, and an inactive one,
activated by `advance`, opens the next turn on the fresh key. -/
theorem Inv.redeliver (hinv : c.Inv P config sessionKeys e older) {m : Sent}
    (hevicted : ¬ c.Deliverable m) {freshKey : Curve25519SecretKey}
    (hrefused : c.Refuses P m freshKey)
    (hfresh : (c.session m.sender.other).sendingRatchet.isInactive →
      P.x25519PublicKey freshKey ∉ Epoch.publicKeys P (e :: older)) :
    ∃ e₁ older₁, (if (c.session m.sender.other).sendingRatchet.isInactive then
        e.next P freshKey :: e :: older else e :: older) = e₁ :: older₁ ∧
      (c.deliver P m freshKey).2.Inv P config sessionKeys e₁ older₁ := by
  rw [deliver_snd_of_refuses P (findRatchet_eq_none_of_not_deliverable hevicted) hrefused]
  generalize m.sender.other = p at hfresh ⊢
  rcases Party.eq_or_eq_other e.owner p with rfl | rfl
  · -- the owner of the newest turn is active on it: nothing changes
    obtain ⟨n, -, hs⟩ := hinv.owner
    rw [hs, isInactive_sender, if_neg Bool.false_ne_true, Epoch.advance_sender_snd,
      setSession_sendingRatchet_eq hs]
    exact ⟨e, older, rfl, hinv⟩
  · rcases hinv.other with ⟨hinactive, hreceived⟩ | ⟨e', older', -, -, ⟨n, -, hs⟩, -⟩
    · -- an inactive receiver opens the next turn
      rw [hinactive, isInactive_inactive] at hfresh
      rw [hinactive, isInactive_inactive, if_pos rfl, Epoch.advance_inactive_snd]
      exact ⟨_, _, rfl, hinv.activate hreceived (hfresh rfl)⟩
    · -- a receiver one turn behind is active on the turn before: nothing changes
      rw [hs, isInactive_sender, if_neg Bool.false_ne_true, Epoch.advance_sender_snd,
        setSession_sendingRatchet_eq hs]
      exact ⟨e, older, rfl, hinv⟩

/-! ### Runs -/

/-- The start: Alice sends on the first turn, and Bob, inactive on it, holds
its chain. -/
theorem inv_start (config : SessionConfig) (sessionKeys : SessionKeys)
    (sharedSecret : Shared3DHSecret) (remoteSharedSecret : RemoteShared3DHSecret)
    (ratchetKey : Curve25519SecretKey) (hsecret : sharedSecret.bytes = remoteSharedSecret.bytes) :
    (start P config sessionKeys sharedSecret remoteSharedSecret ratchetKey).Inv P config sessionKeys
      (Epoch.first P sharedSecret ratchetKey) [] := by
  -- both sides expand the same secret
  have hexpand : remoteSharedSecret.expand P = sharedSecret.expand P := by
    rw [RemoteShared3DHSecret.expand, Shared3DHSecret.expand, hsecret]
  have hbob : (Session.newRemote P config remoteSharedSecret (P.x25519PublicKey ratchetKey)
      sessionKeys).receivingChains.inner.toList =
      [ReceiverChain.new (P.x25519PublicKey ratchetKey) (RemoteChainKey.new (sharedSecret.expand P).2)] := by
    rw [← hexpand]
    rfl
  refine ⟨List.nodup_singleton _, ⟨0, by norm_num, rfl⟩, .inl ⟨?_, List.mem_singleton_self _⟩,
    ?_, fun _ h => absurd h List.not_mem_nil, fun _ h => absurd h List.not_mem_nil,
    fun p => by cases p <;> rfl, fun p => by cases p <;> rfl, ?_⟩
  · show DoubleRatchet.inactive ⟨(remoteSharedSecret.expand P).1⟩ (P.x25519PublicKey ratchetKey) = _
    rw [hexpand]
    rfl
  · intro p r hr
    cases p with
    | alice => exact absurd hr List.not_mem_nil
    | bob =>
        change r ∈ (Session.newRemote P config remoteSharedSecret _ sessionKeys).receivingChains.inner.toList
          at hr
        rw [hbob, List.mem_singleton] at hr
        subst hr
        exact ⟨_, List.mem_singleton_self _, rfl, ReceiverChain.inv_new _ _⟩
  · intro p
    cases p with
    | alice => exact iff_of_true rfl (by simp [start])
    | bob =>
        refine iff_of_false ?_ fun hall => hall _ (List.mem_singleton_self _)
        change (Session.newRemote P config remoteSharedSecret _ sessionKeys).receivingChains.inner.toList ≠ []
        rw [hbob]
        exact List.cons_ne_nil _ _

/-- One `encrypt` on either side keeps the invariant: the owner of the newest
turn and a side one turn behind send on their turns, and an inactive side
opens the next turn. -/
theorem Inv.encrypt (hinv : c.Inv P config sessionKeys e older) (sender : Party)
    (plaintext : List UInt8) (freshKey : Curve25519SecretKey)
    (hfresh : (c.session sender).sendingRatchet.isInactive →
      P.x25519PublicKey freshKey ∉ Epoch.publicKeys P (e :: older))
    (hindex : ((c.session sender).encrypt P plaintext freshKey).1.inner.chainIndex.toNat + 1 <
      2 ^ 64) :
    ∃ e₁ older₁, (if (c.session sender).sendingRatchet.isInactive then e.next P freshKey :: e :: older
        else e :: older) = e₁ :: older₁ ∧
      (c.encrypt P sender plaintext freshKey).Inv P config sessionKeys e₁ older₁ := by
  rcases Party.eq_or_eq_other e.owner sender with rfl | rfl
  · -- the owner of the newest turn sends on it
    obtain ⟨n, -, hs⟩ := hinv.owner
    rw [hs, isInactive_sender, if_neg Bool.false_ne_true]
    exact ⟨e, older, rfl, hinv.encrypt_owner plaintext freshKey hindex⟩
  · rcases hinv.other with ⟨hinactive, hreceived⟩ | ⟨e', older', holder, hnext, hsends, hnew⟩
    · -- an inactive side opens the next turn
      rw [hinactive, isInactive_inactive, if_pos rfl]
      rw [hinactive, isInactive_inactive] at hfresh
      exact ⟨_, _, rfl,
        hinv.encrypt_opens hinactive hreceived plaintext freshKey (hfresh rfl) hindex⟩
    · -- a side one turn behind sends on the turn before
      obtain ⟨n, hn, hs⟩ := hsends
      rw [hs, isInactive_sender, if_neg Bool.false_ne_true]
      exact ⟨e, older, rfl,
        hinv.encrypt_behind holder hnext ⟨n, hn, hs⟩ hnew plaintext freshKey hindex⟩

/-- Every reachable conversation keeps the invariant, on its turns. -/
theorem Reachable.inv (hX : P.X25519Agrees) {c : Conversation} {epochs : List Epoch}
    (h : c.Reachable P epochs) :
    ∃ config sessionKeys e older, epochs = e :: older ∧ c.Inv P config sessionKeys e older := by
  induction h with
  | start config sessionKeys sharedSecret remoteSharedSecret ratchetKey hsecret =>
      exact ⟨config, sessionKeys, _, [], rfl,
        inv_start config sessionKeys sharedSecret remoteSharedSecret ratchetKey hsecret⟩
  | encrypt sender plaintext freshKey hfresh hindex _ ih =>
      obtain ⟨config, sessionKeys, e, older, hepochs, hinv⟩ := ih
      cases hepochs
      obtain ⟨e₁, older₁, heq, hinv₁⟩ := hinv.encrypt sender plaintext freshKey hfresh hindex
      exact ⟨config, sessionKeys, e₁, older₁, heq, hinv₁⟩
  | deliver m freshKey hm hdeliver _ ih =>
      obtain ⟨config, sessionKeys, e, older, rfl, hinv⟩ := ih
      exact ⟨config, sessionKeys, e, older, rfl, hinv.deliver hX hm hdeliver freshKey⟩
  | redeliver m freshKey _ hevicted hrefused hfresh _ ih =>
      obtain ⟨config, sessionKeys, e, older, hepochs, hinv⟩ := ih
      cases hepochs
      obtain ⟨e₁, older₁, heq, hinv₁⟩ := hinv.redeliver hevicted hrefused hfresh
      exact ⟨config, sessionKeys, e₁, older₁, heq, hinv₁⟩

end Conversation

end Vodozemac.Olm
