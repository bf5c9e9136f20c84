import Vodozemac.Olm.Session

/-!
# Vodozemac.Olm.SessionInvariant

What `Session::decrypt` does to the receiving chains and the sending ratchet,
over every session that the constructors, `encrypt`, `decrypt` and pickle
round trips reach (`Session.Reachable`).

The chains of a reachable session have pairwise distinct ratchet keys
(`ChainsDistinct`): a chain is pushed only for a ratchet key no chain has, and
decrypting in place keeps a chain's key. A failed `decrypt` leaves the chains
as they were: through a known chain because `ReceiverChain::decrypt` commits
nothing on failure, through a new chain because the chain is pushed only on
success. The sending ratchet differs between the two paths: a known chain
never touches it, while the new-chain path activates an inactive one before
the decryption that fails (`decrypt_error_keeps_chains`); an inactive ratchet
that meets a failure on a known chain stays inactive
(`decrypt_known_chain_keeps_inactive`).
-/

namespace Vodozemac.Olm

variable (P : Primitives)

namespace Session

/-- The receiving chains have pairwise distinct ratchet keys. -/
def ChainsDistinct (s : Session) : Prop :=
  (s.receivingChains.inner.toList.map ReceiverChain.ratchetKey).Nodup

/-- The sessions reached from `Session::new` and `Session::new_remote` by
`encrypt`, `decrypt` and pickle round trips. -/
inductive Reachable : Session → Prop
  | new (config : SessionConfig) (sharedSecret : Shared3DHSecret) (sessionKeys : SessionKeys)
      (freshKey : Curve25519SecretKey) : Reachable (Session.new P config sharedSecret sessionKeys freshKey)
  | newRemote (config : SessionConfig) (sharedSecret : RemoteShared3DHSecret)
      (remoteRatchetKey : Curve25519PublicKey) (sessionKeys : SessionKeys) :
      Reachable (Session.newRemote P config sharedSecret remoteRatchetKey sessionKeys)
  | encrypt {s : Session} (plaintext : List UInt8) (freshKey : Curve25519SecretKey) :
      Reachable s → Reachable (s.encrypt P plaintext freshKey).2
  | decrypt {s : Session} (message : OlmMessage) (freshKey : Curve25519SecretKey) :
      Reachable s → Reachable (s.decrypt P message freshKey).2
  | fromPickle {s : Session} : Reachable s → Reachable (Session.fromPickle s.pickle)

variable {P}

/-! ### The chain store -/

theorem findRatchet_eq_none_iff {c : ChainStore} {ratchetKey : Curve25519PublicKey} :
    c.findRatchet ratchetKey = none ↔ ratchetKey ∉ c.inner.toList.map ReceiverChain.ratchetKey := by
  simp [ChainStore.findRatchet, List.findFinIdx?_eq_none_iff, ReceiverChain.belongsTo]

/-- The chain `find_ratchet` finds is on the ratchet key it was asked for. -/
theorem findRatchet_eq_some {c : ChainStore} {ratchetKey : Curve25519PublicKey}
    {i : Fin c.inner.toList.length} (h : c.findRatchet ratchetKey = some i) :
    (c.inner.toList.get i).ratchetKey = ratchetKey := by
  have hfound := (List.findFinIdx?_eq_some_iff.mp h).1
  simpa [ReceiverChain.belongsTo] using hfound

/-- Writing a chain back in place keeps the ratchet keys when the chain keeps its own. -/
theorem map_ratchetKey_set (l : List ReceiverChain) (i : Fin l.length) {c : ReceiverChain}
    (hc : c.ratchetKey = (l.get i).ratchetKey) :
    (l.set i c).map ReceiverChain.ratchetKey = l.map ReceiverChain.ratchetKey := by
  rw [List.map_set, hc]
  have hi : (i : ℕ) < (l.map ReceiverChain.ratchetKey).length := by simp
  have hget : (l.get i).ratchetKey = (l.map ReceiverChain.ratchetKey)[(i : ℕ)] := by simp
  rw [hget, List.set_getElem_self hi]

/-- Pushing a chain of a new ratchet key keeps the keys distinct. -/
theorem nodup_push {c : ChainStore} {chain : ReceiverChain}
    (h : (c.inner.toList.map ReceiverChain.ratchetKey).Nodup)
    (hnew : chain.ratchetKey ∉ c.inner.toList.map ReceiverChain.ratchetKey) :
    ((c.push chain).inner.toList.map ReceiverChain.ratchetKey).Nodup := by
  rw [ChainStore.push, ArrayVec.toList_pushEvicting, List.map_drop]
  refine List.Nodup.sublist (List.drop_sublist _ _) ?_
  rw [List.map_append, List.map_singleton, List.nodup_append]
  exact ⟨h, List.nodup_singleton _, fun a ha b hb => by
    rw [List.mem_singleton] at hb
    rintro rfl
    exact hnew (hb ▸ ha)⟩

/-! ### One call -/

theorem chainsDistinct_new (config : SessionConfig) (sharedSecret : Shared3DHSecret)
    (sessionKeys : SessionKeys) (freshKey : Curve25519SecretKey) :
    ChainsDistinct (Session.new P config sharedSecret sessionKeys freshKey) := by
  simp [ChainsDistinct, Session.new, ChainStore.new]

theorem chainsDistinct_newRemote (config : SessionConfig) (sharedSecret : RemoteShared3DHSecret)
    (remoteRatchetKey : Curve25519PublicKey) (sessionKeys : SessionKeys) :
    ChainsDistinct (Session.newRemote P config sharedSecret remoteRatchetKey sessionKeys) := by
  simp only [ChainsDistinct, Session.newRemote, ChainStore.new, ChainStore.push,
    ArrayVec.toList_pushEvicting_eq_ite, ArrayVec.toList_new, List.tail_nil]
  exact List.nodup_singleton _

theorem ChainsDistinct.encrypt {s : Session} (h : ChainsDistinct s) (plaintext : List UInt8)
    (freshKey : Curve25519SecretKey) : ChainsDistinct (s.encrypt P plaintext freshKey).2 := by
  obtain ⟨sendingRatchet, hs⟩ := encrypt_snd (P := P) s plaintext freshKey
  rw [hs]
  exact h

theorem ChainsDistinct.decryptDecoded {s : Session} (h : ChainsDistinct s) (message : Message)
    (freshKey : Curve25519SecretKey) : ChainsDistinct (s.decryptDecoded P message freshKey).2 := by
  cases hf : s.receivingChains.findRatchet message.ratchetKey with
  | some i =>
      -- the chain decrypts in place and keeps its ratchet key
      rw [decryptDecoded_of_findRatchet hf]
      unfold ChainsDistinct
      dsimp only
      rw [ArrayVec.toList_set, map_ratchetKey_set _ _ (ReceiverChain.ratchetKey_decrypt _ _ _)]
      exact h
  | none =>
      rcases hr : (s.decryptDecoded P message freshKey).1 with e | plaintext
      · rw [decryptDecoded_snd_of_error hf hr]
        exact h
      · -- the new chain is of a ratchet key no stored chain has
        obtain ⟨chain, hkey, hs⟩ := decryptDecoded_of_ok hf hr
        rw [hs]
        exact nodup_push h (hkey ▸ findRatchet_eq_none_iff.mp hf)

theorem Reachable.chainsDistinct {s : Session} (hs : Reachable P s) : ChainsDistinct s := by
  induction hs with
  | new config sharedSecret sessionKeys freshKey => exact chainsDistinct_new _ _ _ _
  | newRemote config sharedSecret remoteRatchetKey sessionKeys => exact chainsDistinct_newRemote _ _ _ _
  | encrypt plaintext freshKey _ ih => exact ih.encrypt plaintext freshKey
  | decrypt message freshKey _ ih => exact ih.decryptDecoded message.inner freshKey
  | fromPickle _ ih => exact ih

/-- A failed `decrypt_decoded` leaves the chains as they were; through a known
chain it leaves the whole session as it was. -/
theorem decryptDecoded_snd_of_error_found {s : Session} {message : Message}
    {i : Fin s.receivingChains.inner.toList.length}
    (hf : s.receivingChains.findRatchet message.ratchetKey = some i) {freshKey : Curve25519SecretKey}
    {e : DecryptionError} (he : (s.decryptDecoded P message freshKey).1 = .error e) :
    (s.decryptDecoded P message freshKey).2 = s := by
  rw [decryptDecoded_of_findRatchet hf] at he ⊢
  dsimp only at he ⊢
  rw [ReceiverChain.decrypt_snd_of_error he, ArrayVec.set_get_self]

/-! ### Every reachable session -/

/-- On every reachable session the chains have distinct ratchet keys and are at
most five. A failed `decrypt` changes neither the chains, the session keys
nor the configuration; the sending ratchet is left as it is when it is active
or the message's ratchet key has a chain, and otherwise an inactive one is
replaced by its activation, after which the next `encrypt` makes no activation
of its own. A success for a ratchet key without a chain appends one chain of
that key, evicting the oldest of five, and leaves the sending ratchet inactive
on the key. -/
theorem decrypt_error_keeps_chains {s : Session} (hs : Reachable P s) (message : OlmMessage)
    (freshKey : Curve25519SecretKey) :
    let r := s.decrypt P message freshKey
    let ratchetKey := message.inner.ratchetKey
    (s.receivingChains.inner.toList.map ReceiverChain.ratchetKey).Nodup ∧
    s.receivingChains.inner.toList.length ≤ 5 ∧
    (∀ e, r.1 = .error e →
      r.2.receivingChains = s.receivingChains ∧ r.2.sessionKeys = s.sessionKeys ∧
      r.2.config = s.config ∧
      ((∃ a, s.sendingRatchet.inner = .active a) ∨ (s.receivingChains.findRatchet ratchetKey).isSome →
        r.2.sendingRatchet = s.sendingRatchet) ∧
      (∀ i, s.sendingRatchet.inner = .inactive i → s.receivingChains.findRatchet ratchetKey = none →
        r.2.sendingRatchet = ⟨.active (i.activate P freshKey)⟩ ∧
        ∀ freshKey', r.2.sendingRatchet.nextMessageKey P freshKey' =
          s.sendingRatchet.nextMessageKey P freshKey)) ∧
    (∀ plaintext, r.1 = .ok plaintext → s.receivingChains.findRatchet ratchetKey = none →
      ∃ chain : ReceiverChain, chain.ratchetKey = ratchetKey ∧
        r.2.receivingChains.inner.toList =
          (if s.receivingChains.inner.toList.length = 5 then s.receivingChains.inner.toList.tail
            else s.receivingChains.inner.toList) ++ [chain] ∧
        ∃ rootKey, r.2.sendingRatchet = DoubleRatchet.inactive rootKey ratchetKey) := by
  intro r ratchetKey
  simp only [r, ratchetKey, decrypt]
  refine ⟨hs.chainsDistinct, s.receivingChains.inner.length_le, ?_, ?_⟩
  · intro e he
    cases hf : s.receivingChains.findRatchet message.inner.ratchetKey with
    | some i =>
        -- a known chain: nothing changes
        rw [decryptDecoded_snd_of_error_found hf he]
        refine ⟨rfl, rfl, rfl, fun _ => rfl, ?_⟩
        intro i' _ hnone
        cases hnone
    | none =>
        -- a new chain: the state `advance` left behind
        have hsnd :=
          DoubleRatchet.advance_snd (P := P) s.sendingRatchet message.inner.ratchetKey freshKey
        rw [decryptDecoded_snd_of_error hf he]
        refine ⟨rfl, rfl, rfl, ?_, ?_⟩
        · rintro (⟨a, ha⟩ | hsome)
          · dsimp only
            rw [hsnd, ha]
          · simp at hsome
        · intro i hi _
          have hact : ({ s with sendingRatchet :=
              (s.sendingRatchet.advance P message.inner.ratchetKey freshKey).2 } : Session).sendingRatchet =
                ⟨.active (i.activate P freshKey)⟩ := by
            dsimp only
            rw [hsnd, hi]
          refine ⟨hact, fun freshKey' => ?_⟩
          rw [hact]
          simp only [DoubleRatchet.nextMessageKey, hi]
  · intro plaintext hok hf
    obtain ⟨chain, hkey, hs'⟩ := decryptDecoded_of_ok hf hok
    obtain ⟨rootKey, hroot⟩ :=
      DoubleRatchet.advance_fst_fst (P := P) s.sendingRatchet message.inner.ratchetKey freshKey
    rw [hs']
    exact ⟨chain, hkey, ArrayVec.toList_pushEvicting_eq_ite _ _, rootKey, hroot⟩

theorem decrypt_error_keeps_chains_newRemote :
    let s := Session.newRemote Primitives.toy SessionConfig.version2 ⟨Bytes.zero 96⟩
      ⟨Bytes.zero 32⟩ ⟨⟨Bytes.zero 32⟩, ⟨Bytes.zero 32⟩, ⟨Bytes.zero 32⟩⟩
    let message := OlmMessage.normal ⟨Messages.version, ⟨Bytes.zero 32⟩, 0, [], .truncated (Bytes.zero 8)⟩
    let freshKey : Curve25519SecretKey := ⟨Bytes.zero 32⟩
    let r := s.decrypt Primitives.toy message freshKey
    let ratchetKey := message.inner.ratchetKey
    (s.receivingChains.inner.toList.map ReceiverChain.ratchetKey).Nodup ∧
    s.receivingChains.inner.toList.length ≤ 5 ∧
    (∀ e, r.1 = .error e →
      r.2.receivingChains = s.receivingChains ∧ r.2.sessionKeys = s.sessionKeys ∧
      r.2.config = s.config ∧
      ((∃ a, s.sendingRatchet.inner = .active a) ∨ (s.receivingChains.findRatchet ratchetKey).isSome →
        r.2.sendingRatchet = s.sendingRatchet) ∧
      (∀ i, s.sendingRatchet.inner = .inactive i → s.receivingChains.findRatchet ratchetKey = none →
        r.2.sendingRatchet = ⟨.active (i.activate Primitives.toy freshKey)⟩ ∧
        ∀ freshKey', r.2.sendingRatchet.nextMessageKey Primitives.toy freshKey' =
          s.sendingRatchet.nextMessageKey Primitives.toy freshKey)) ∧
    (∀ plaintext, r.1 = .ok plaintext → s.receivingChains.findRatchet ratchetKey = none →
      ∃ chain : ReceiverChain, chain.ratchetKey = ratchetKey ∧
        r.2.receivingChains.inner.toList =
          (if s.receivingChains.inner.toList.length = 5 then s.receivingChains.inner.toList.tail
            else s.receivingChains.inner.toList) ++ [chain] ∧
        ∃ rootKey, r.2.sendingRatchet = DoubleRatchet.inactive rootKey ratchetKey) := by
  intro s message freshKey
  exact decrypt_error_keeps_chains (Reachable.newRemote _ _ _ _) message freshKey

/-- The session `Session::new_remote` builds holds the chain of the sender's
ratchet key and an inactive sending ratchet. A message on that key whose MAC
has the wrong length fails, and the sending ratchet stays inactive: it is not
replaced by its activation. -/
theorem decrypt_known_chain_keeps_inactive :
    let s := Session.newRemote Primitives.toy SessionConfig.version2 ⟨Bytes.zero 96⟩
      ⟨Bytes.zero 32⟩ ⟨⟨Bytes.zero 32⟩, ⟨Bytes.zero 32⟩, ⟨Bytes.zero 32⟩⟩
    let message := OlmMessage.normal ⟨Messages.version, ⟨Bytes.zero 32⟩, 0, [], .truncated (Bytes.zero 8)⟩
    let freshKey : Curve25519SecretKey := ⟨Bytes.zero 32⟩
    Reachable Primitives.toy s ∧
      (s.decrypt Primitives.toy message freshKey).1 = .error (.invalidMACLength 32 8) ∧
      ∃ i, s.sendingRatchet.inner = .inactive i ∧
        (s.decrypt Primitives.toy message freshKey).2.sendingRatchet ≠
          ⟨.active (i.activate Primitives.toy freshKey)⟩ := by
  intro s message freshKey
  have hsame : (s.decrypt Primitives.toy message freshKey).2.sendingRatchet = s.sendingRatchet := rfl
  refine ⟨.newRemote _ _ _ _, by decide, _, rfl, ?_⟩
  rw [hsame]
  intro h
  cases h

end Session

end Vodozemac.Olm
