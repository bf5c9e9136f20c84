import Mathlib
import Vodozemac.Olm.Session

/-!
# Vodozemac.Olm.Conversation

Two Olm sessions talking to each other. Alice's session is the one
`Session::new` makes (as `Account::create_outbound_session` does), Bob's the
one `Session::new_remote` makes on Alice's first ratchet key (as
`Account::create_inbound_session` does from the first pre-key message Bob
receives). A run interleaves `encrypt` calls on either side with deliveries,
to the other side's `decrypt`, of any message sent so far: in any order, any
message as often as wanted or never.

The state holds the two sessions and three records of the run that are not
state of the code: every message sent, with its sender and plaintext, for
every successful decryption the receiver and the message's ratchet key, and
the messages that decrypted. A
chain "has been received" by a side once a message of it decrypted there;
Bob's first chain was received when his session was made, since
`create_inbound_session` keeps the session only after decrypting the
pre-key message. A message is `Deliverable` while its chain is stored at the
receiver or was never received there. A message of a chain that was received
and then evicted is decrypted on a chain that `advance` derives from the
receiver's current root key, and its MAC was made under another key: that the
receiver refuses it is what HMAC gives unless it verifies under two keys, a
law the model does not state (for the 8-byte MACs of version 1 none holds), so
a run states the refusal for each such redelivery (`Refuses`). The refusal
still runs `advance`, which activates an inactive sending ratchet on the fresh
key: the redelivery then opens a turn, as a send would.

The run carries, as a ghost, the turns of the root ratchet (`Epoch`), newest
first: each is opened by a ratchet key, and its root and chain keys are the
root `kdf` of the previous turn's root key over the agreement of the two
ratchet keys. `encrypt` on an inactive ratchet opens a turn; the fresh keys
drawn for it are assumed to have public keys no earlier turn had, and no
message may carry the chain index `2 ^ 64 - 1`, past which the receiving
chain's index wraps (`decryptRun_key_wraps`).
-/

namespace Vodozemac.Olm

variable (P : Primitives)

/-- The two ends of a conversation. -/
inductive Party
  | alice
  | bob
  deriving DecidableEq

/-- The other end. -/
def Party.other : Party → Party
  | .alice => .bob
  | .bob => .alice

@[simp] theorem Party.other_other (p : Party) : p.other.other = p := by
  cases p <;> rfl

@[simp] theorem Party.other_ne (p : Party) : p.other ≠ p := by
  cases p <;> decide

@[simp] theorem Party.ne_other (p : Party) : p ≠ p.other := (Party.other_ne p).symm

/-- A party is one end or the other. -/
theorem Party.eq_or_eq_other (p q : Party) : q = p ∨ q = p.other := by
  cases p <;> cases q <;> simp [Party.other]

/-- A message on the wire, with its sender and the plaintext it was encrypted from. -/
structure Sent where
  sender : Party
  message : OlmMessage
  plaintext : List UInt8

/-- The two sessions, the messages sent so far, for each successful
decryption the receiver and the ratchet key of the message, and the messages
that decrypted, in order. -/
structure Conversation where
  alice : Session
  bob : Session
  sent : List Sent
  received : List (Party × Curve25519PublicKey)
  accepted : List Sent

namespace Conversation

/-- The session of one side. -/
def session (c : Conversation) : Party → Session
  | .alice => c.alice
  | .bob => c.bob

/-- Replace the session of one side. -/
def setSession (c : Conversation) : Party → Session → Conversation
  | .alice, s => { c with alice := s }
  | .bob, s => { c with bob := s }

@[simp] theorem session_setSession_self (c : Conversation) (p : Party) (s : Session) :
    (c.setSession p s).session p = s := by
  cases p <;> rfl

@[simp] theorem session_setSession_other (c : Conversation) (p : Party) (s : Session) :
    (c.setSession p s).session p.other = c.session p.other := by
  cases p <;> rfl

@[simp] theorem sent_setSession (c : Conversation) (p : Party) (s : Session) :
    (c.setSession p s).sent = c.sent := by
  cases p <;> rfl

@[simp] theorem received_setSession (c : Conversation) (p : Party) (s : Session) :
    (c.setSession p s).received = c.received := by
  cases p <;> rfl

@[simp] theorem accepted_setSession (c : Conversation) (p : Party) (s : Session) :
    (c.setSession p s).accepted = c.accepted := by
  cases p <;> rfl

/-- The start: Alice's session on the shared secret and her first ratchet key,
Bob's on the remote secret and that key's public part. Bob has received the
chain of that key: his session exists only once a message of it decrypted. -/
def start (config : SessionConfig) (sessionKeys : SessionKeys) (sharedSecret : Shared3DHSecret)
    (remoteSharedSecret : RemoteShared3DHSecret) (ratchetKey : Curve25519SecretKey) : Conversation :=
  { alice := Session.new P config sharedSecret sessionKeys ratchetKey
    bob := Session.newRemote P config remoteSharedSecret (P.x25519PublicKey ratchetKey) sessionKeys
    sent := []
    received := [(.bob, P.x25519PublicKey ratchetKey)]
    accepted := [] }

/-- `Session::encrypt` on one side; the message goes on the wire. -/
def encrypt (c : Conversation) (sender : Party) (plaintext : List UInt8)
    (freshKey : Curve25519SecretKey) : Conversation :=
  let (message, s) := (c.session sender).encrypt P plaintext freshKey
  { c.setSession sender s with sent := c.sent ++ [⟨sender, message, plaintext⟩] }

/-- The delivery of a message to the other side: `Session::decrypt` there, and
the decrypted chain recorded as received. -/
def deliver (c : Conversation) (m : Sent) (freshKey : Curve25519SecretKey) :
    Except DecryptionError (List UInt8) × Conversation :=
  let receiver := m.sender.other
  let (result, s) := (c.session receiver).decrypt P m.message freshKey
  let c := c.setSession receiver s
  (result, match result with
    | .ok _ =>
        { c with received := c.received ++ [(receiver, m.message.inner.ratchetKey)],
                 accepted := c.accepted ++ [m] }
    | .error _ => c)

theorem session_encrypt (c : Conversation) (sender p : Party) (plaintext : List UInt8)
    (freshKey : Curve25519SecretKey) :
    (c.encrypt P sender plaintext freshKey).session p =
      if p = sender then ((c.session sender).encrypt P plaintext freshKey).2 else c.session p := by
  cases sender <;> cases p <;> rfl

@[simp] theorem session_encrypt_self (c : Conversation) (sender : Party) (plaintext : List UInt8)
    (freshKey : Curve25519SecretKey) :
    (c.encrypt P sender plaintext freshKey).session sender =
      ((c.session sender).encrypt P plaintext freshKey).2 := by
  rw [session_encrypt, if_pos rfl]

theorem session_encrypt_of_ne {c : Conversation} {sender p : Party} (h : p ≠ sender)
    (plaintext : List UInt8) (freshKey : Curve25519SecretKey) :
    (c.encrypt P sender plaintext freshKey).session p = c.session p := by
  rw [session_encrypt, if_neg h]

/-- `encrypt` changes no receiving chain, configuration or session keys. -/
@[simp] theorem receivingChains_encrypt (c : Conversation) (sender p : Party)
    (plaintext : List UInt8) (freshKey : Curve25519SecretKey) :
    ((c.encrypt P sender plaintext freshKey).session p).receivingChains =
      (c.session p).receivingChains := by
  rw [session_encrypt]
  split
  · subst p
    rw [Session.encrypt_snd_eq]
  · rfl

@[simp] theorem config_encrypt (c : Conversation) (sender p : Party) (plaintext : List UInt8)
    (freshKey : Curve25519SecretKey) :
    ((c.encrypt P sender plaintext freshKey).session p).config = (c.session p).config := by
  rw [session_encrypt]
  split
  · subst p
    rw [Session.encrypt_snd_eq]
  · rfl

@[simp] theorem sessionKeys_encrypt (c : Conversation) (sender p : Party) (plaintext : List UInt8)
    (freshKey : Curve25519SecretKey) :
    ((c.encrypt P sender plaintext freshKey).session p).sessionKeys = (c.session p).sessionKeys := by
  rw [session_encrypt]
  split
  · subst p
    rw [Session.encrypt_snd_eq]
  · rfl

@[simp] theorem sent_encrypt (c : Conversation) (sender : Party) (plaintext : List UInt8)
    (freshKey : Curve25519SecretKey) :
    (c.encrypt P sender plaintext freshKey).sent =
      c.sent ++ [⟨sender, ((c.session sender).encrypt P plaintext freshKey).1, plaintext⟩] := by
  cases sender <;> rfl

@[simp] theorem received_encrypt (c : Conversation) (sender : Party) (plaintext : List UInt8)
    (freshKey : Curve25519SecretKey) :
    (c.encrypt P sender plaintext freshKey).received = c.received := by
  cases sender <;> rfl

@[simp] theorem accepted_encrypt (c : Conversation) (sender : Party) (plaintext : List UInt8)
    (freshKey : Curve25519SecretKey) :
    (c.encrypt P sender plaintext freshKey).accepted = c.accepted := by
  cases sender <;> rfl

@[simp] theorem fst_deliver (c : Conversation) (m : Sent) (freshKey : Curve25519SecretKey) :
    (c.deliver P m freshKey).1 = ((c.session m.sender.other).decrypt P m.message freshKey).1 := rfl

theorem session_deliver (c : Conversation) (m : Sent) (freshKey : Curve25519SecretKey)
    (p : Party) :
    (c.deliver P m freshKey).2.session p =
      if p = m.sender.other then ((c.session m.sender.other).decrypt P m.message freshKey).2
      else c.session p := by
  unfold deliver
  dsimp only
  split <;> cases m.sender <;> cases p <;> rfl

@[simp] theorem session_deliver_self (c : Conversation) (m : Sent) (freshKey : Curve25519SecretKey) :
    (c.deliver P m freshKey).2.session m.sender.other =
      ((c.session m.sender.other).decrypt P m.message freshKey).2 := by
  rw [session_deliver, if_pos rfl]

@[simp] theorem session_deliver_sender (c : Conversation) (m : Sent) (freshKey : Curve25519SecretKey) :
    (c.deliver P m freshKey).2.session m.sender = c.session m.sender := by
  rw [session_deliver, if_neg (Party.other_ne m.sender).symm]

theorem session_deliver_of_ne {c : Conversation} {m : Sent} {freshKey : Curve25519SecretKey}
    {p : Party} (hp : p ≠ m.sender.other) : (c.deliver P m freshKey).2.session p = c.session p := by
  rw [session_deliver, if_neg hp]

@[simp] theorem sent_deliver (c : Conversation) (m : Sent) (freshKey : Curve25519SecretKey) :
    (c.deliver P m freshKey).2.sent = c.sent := by
  unfold deliver
  dsimp only
  split <;> simp

/-- A delivery records the receiver and the chain when the message decrypts. -/
theorem received_deliver (c : Conversation) (m : Sent) (freshKey : Curve25519SecretKey) :
    (c.deliver P m freshKey).2.received =
      match ((c.session m.sender.other).decrypt P m.message freshKey).1 with
      | .ok _ => c.received ++ [(m.sender.other, m.message.inner.ratchetKey)]
      | .error _ => c.received := by
  unfold deliver
  dsimp only
  split <;> simp_all

/-- A delivery records the message when it decrypts. -/
theorem accepted_deliver (c : Conversation) (m : Sent) (freshKey : Curve25519SecretKey) :
    (c.deliver P m freshKey).2.accepted =
      match ((c.session m.sender.other).decrypt P m.message freshKey).1 with
      | .ok _ => c.accepted ++ [m]
      | .error _ => c.accepted := by
  unfold deliver
  dsimp only
  split <;> simp_all

/-- A delivery records nothing for the sender's side. -/
theorem mem_received_deliver_of_ne {c : Conversation} {m : Sent} {freshKey : Curve25519SecretKey}
    {p : Party} (hp : p ≠ m.sender.other) (k : Curve25519PublicKey) :
    (p, k) ∈ (c.deliver P m freshKey).2.received ↔ (p, k) ∈ c.received := by
  rw [received_deliver]
  split
  · simp [hp]
  · rfl

@[simp] theorem setSession_session (c : Conversation) (p : Party) : c.setSession p (c.session p) = c := by
  cases p <;> rfl

theorem mem_received_deliver {c : Conversation} {m : Sent} {freshKey : Curve25519SecretKey}
    {x : Party × Curve25519PublicKey} (hx : x ∈ c.received) :
    x ∈ (c.deliver P m freshKey).2.received := by
  rw [received_deliver]
  split
  · exact List.mem_append_left _ hx
  · exact hx

/-- A failed delivery that leaves the receiver's session as it was changes nothing. -/
theorem deliver_snd_of_error {c : Conversation} {m : Sent} {freshKey : Curve25519SecretKey}
    {e : DecryptionError} (he : ((c.session m.sender.other).decrypt P m.message freshKey).1 = .error e)
    (hs : ((c.session m.sender.other).decrypt P m.message freshKey).2 = c.session m.sender.other) :
    (c.deliver P m freshKey).2 = c := by
  unfold deliver
  dsimp only
  rw [he]
  dsimp only
  rw [hs, setSession_session]

/-- A message may be delivered while its chain is stored at the receiver, or
was never received there. -/
def Deliverable (c : Conversation) (m : Sent) : Prop :=
  m.message.inner.ratchetKey ∈
      (c.session m.sender.other).receivingChains.inner.toList.map ReceiverChain.ratchetKey ∨
    (m.sender.other, m.message.inner.ratchetKey) ∉ c.received

/-- The receiver refuses a message: its `decrypt` fails. -/
def Refuses (c : Conversation) (m : Sent) (freshKey : Curve25519SecretKey) : Prop :=
  ∃ err, ((c.session m.sender.other).decrypt P m.message freshKey).1 = .error err

/-- A refused message of no stored chain leaves the receiver as `advance` left
its sending ratchet: activated if it was inactive. -/
theorem deliver_snd_of_refuses {c : Conversation} {m : Sent} {freshKey : Curve25519SecretKey}
    (hfind : (c.session m.sender.other).receivingChains.findRatchet m.message.inner.ratchetKey = none)
    (hrefused : c.Refuses P m freshKey) :
    (c.deliver P m freshKey).2 = c.setSession m.sender.other
      { c.session m.sender.other with
        sendingRatchet := ((c.session m.sender.other).sendingRatchet.advance P
          m.message.inner.ratchetKey freshKey).2 } := by
  obtain ⟨err, he⟩ := hrefused
  have hdec := Session.decryptDecoded_of_findRatchet_eq_none (P := P) hfind freshKey
  rw [Session.decrypt, hdec] at he
  unfold deliver
  dsimp only
  rw [Session.decrypt, hdec]
  split at he
  · cases he
  · rfl

/-- Replacing a side's sending ratchet changes no receiving chain,
configuration or session keys. -/
@[simp] theorem receivingChains_setSession_sendingRatchet (c : Conversation) (q p : Party)
    (d : DoubleRatchet) :
    ((c.setSession q { c.session q with sendingRatchet := d }).session p).receivingChains =
      (c.session p).receivingChains := by
  cases q <;> cases p <;> rfl

@[simp] theorem config_setSession_sendingRatchet (c : Conversation) (q p : Party)
    (d : DoubleRatchet) :
    ((c.setSession q { c.session q with sendingRatchet := d }).session p).config =
      (c.session p).config := by
  cases q <;> cases p <;> rfl

@[simp] theorem sessionKeys_setSession_sendingRatchet (c : Conversation) (q p : Party)
    (d : DoubleRatchet) :
    ((c.setSession q { c.session q with sendingRatchet := d }).session p).sessionKeys =
      (c.session p).sessionKeys := by
  cases q <;> cases p <;> rfl

/-- Writing back the sending ratchet a side already has changes nothing. -/
theorem setSession_sendingRatchet_eq {c : Conversation} {p : Party} {d : DoubleRatchet}
    (h : (c.session p).sendingRatchet = d) :
    c.setSession p { c.session p with sendingRatchet := d } = c := by
  rw [← h]
  exact setSession_session c p

end Conversation

/-! ### The turns of the root ratchet -/

/-- One turn of the root ratchet: who sends on it, the ratchet key that opened
it, and the root key and the chain key it yields. -/
structure Epoch where
  owner : Party
  ratchetKey : Curve25519SecretKey
  rootKey : Bytes 32
  chainKey : Bytes 32

/-- The halves of the 64 bytes of a root `kdf`, as named facts so that every
module that unfolds `Epoch.next` sees the same proofs. -/
theorem Epoch.firstHalf_le : 0 + 32 ≤ 64 := by decide

theorem Epoch.secondHalf_le : 32 + 32 ≤ 64 := by decide

/-- The turn that `freshKey` opens after `e`, on the other side: the root
`kdf` of `e`'s root key over the agreement of `freshKey` with `e`'s ratchet key. -/
def Epoch.next (e : Epoch) (freshKey : Curve25519SecretKey) : Epoch :=
  let output := kdf P e.rootKey freshKey (P.x25519PublicKey e.ratchetKey)
  ⟨e.owner.other, freshKey, output.slice 0 32 Epoch.firstHalf_le,
    output.slice 32 32 Epoch.secondHalf_le⟩

/-- The first turn: Alice's, on her first ratchet key and the expansion of the
shared secret. -/
def Epoch.first (sharedSecret : Shared3DHSecret) (ratchetKey : Curve25519SecretKey) : Epoch :=
  ⟨.alice, ratchetKey, (sharedSecret.expand P).1, (sharedSecret.expand P).2⟩

/-- The public ratchet keys of the turns. -/
def Epoch.publicKeys (epochs : List Epoch) : List Curve25519PublicKey :=
  epochs.map fun e => P.x25519PublicKey e.ratchetKey

/-- Whether a double ratchet is inactive: its next `encrypt` opens a turn. -/
def DoubleRatchet.isInactive (d : DoubleRatchet) : Bool :=
  d.inner matches .inactive _

/-- The conversations a run reaches, with the turns of the root ratchet so
far, newest first. The secrets of the two sides agree; each fresh key that
opens a turn has a public key no earlier turn had, and no message carries the
chain index `2 ^ 64 - 1`. Any message sent may be delivered again; one whose
chain was received and evicted is refused (`redeliver`), and the fresh key of
that `decrypt` opens a turn when the receiver's ratchet is inactive. -/
inductive Conversation.Reachable : Conversation → List Epoch → Prop
  | start (config : SessionConfig) (sessionKeys : SessionKeys) (sharedSecret : Shared3DHSecret)
      (remoteSharedSecret : RemoteShared3DHSecret) (ratchetKey : Curve25519SecretKey)
      (hsecret : sharedSecret.bytes = remoteSharedSecret.bytes) :
      Reachable (Conversation.start P config sessionKeys sharedSecret remoteSharedSecret ratchetKey)
        [Epoch.first P sharedSecret ratchetKey]
  | encrypt {c : Conversation} {e : Epoch} {older : List Epoch} (sender : Party)
      (plaintext : List UInt8) (freshKey : Curve25519SecretKey)
      (hfresh : (c.session sender).sendingRatchet.isInactive →
        P.x25519PublicKey freshKey ∉ Epoch.publicKeys P (e :: older))
      (hindex : ((c.session sender).encrypt P plaintext freshKey).1.inner.chainIndex.toNat + 1 <
        2 ^ 64) :
      Reachable c (e :: older) →
      Reachable (c.encrypt P sender plaintext freshKey)
        (if (c.session sender).sendingRatchet.isInactive then e.next P freshKey :: e :: older
          else e :: older)
  | deliver {c : Conversation} {epochs : List Epoch} (m : Sent) (freshKey : Curve25519SecretKey)
      (hm : m ∈ c.sent) (hdeliver : c.Deliverable m) :
      Reachable c epochs → Reachable (c.deliver P m freshKey).2 epochs
  | redeliver {c : Conversation} {e : Epoch} {older : List Epoch} (m : Sent)
      (freshKey : Curve25519SecretKey) (hm : m ∈ c.sent) (hevicted : ¬ c.Deliverable m)
      (hrefused : c.Refuses P m freshKey)
      (hfresh : (c.session m.sender.other).sendingRatchet.isInactive →
        P.x25519PublicKey freshKey ∉ Epoch.publicKeys P (e :: older)) :
      Reachable c (e :: older) →
      Reachable (c.deliver P m freshKey).2
        (if (c.session m.sender.other).sendingRatchet.isInactive then e.next P freshKey :: e :: older
          else e :: older)

end Vodozemac.Olm
