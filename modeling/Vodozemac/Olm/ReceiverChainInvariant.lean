import Mathlib
import Vodozemac.Olm.ReceiverChain

/-!
# Vodozemac.Olm.ReceiverChainInvariant

What a receiving chain holds after any sequence of `decrypt` calls, with
honest or forged messages, from `ReceiverChain::new(k, RemoteChainKey::new(c0))`.

The chain key at index `n` is `c0` advanced `n` times (`OnChain`), and the
stored keys are the message keys of the chain of `c0` at their indices,
strictly increasing and all behind `n` (`ReceiverChain.Inv`). The invariant
needs the chain index not to wrap: a message of chain index `2 ^ 64 - 1` that
decrypts moves the index to `0` while the key is advanced past it
(`receiverChain_key_wraps`), so the runs here carry messages of chain index
below `2 ^ 64 - 1`.

From the invariant:

* the message of index `j` that the sender encrypts decrypts exactly when `j`
  lies in `n ..= n + MAX_MESSAGE_GAP` or a key of `j` is stored
  (`decrypt_honestMessage`);
* a success at or past `n` moves the chain to `j + 1` and appends the keys of
  `max(n, j - MAX_MESSAGE_KEYS) .. j - 1`, keeping the newest
  `MAX_MESSAGE_KEYS` (`Inv.decrypt_ok_of_le`); a success behind `n` removes the
  one key of `j` (`Inv.decrypt_ok_of_lt`);
* an index that decrypted is spent, behind the chain with no key stored, and
  stays spent (`Spent`), so no chain index decrypts twice in a run
  (`Inv.nodup_decryptRun`).
-/

namespace Vodozemac.Olm

variable (P : Primitives)

/-! ### The chain of `c0` -/

/-- The message key of index `i` on the chain that starts from the key `c0`:
the expansion of `c0` advanced `i` times. -/
def chainMessageKey (c0 : Bytes 32) (i : ℕ) : RemoteMessageKey :=
  ⟨expandChainKey P ((Olm.advance P)^[i] c0), UInt64.ofNat i⟩

/-- The message keys of the indices `a, …, b - 1` on the chain of `c0`. -/
def chainMessageKeys (c0 : Bytes 32) (a b : ℕ) : List RemoteMessageKey :=
  (List.range (b - a)).map fun u => chainMessageKey P c0 (a + u)

/-- A chain key is on the chain of `c0` when it is `c0` advanced as often as
its index says. -/
def OnChain (c0 : Bytes 32) (r : RemoteChainKey) : Prop :=
  r.key = (Olm.advance P)^[r.index.toNat] c0

/-- The message of index `j` that the sender of the chain of `c0` encrypts: the
sending chain `ChainKey::new(c0)` advanced to `j` creates the message key, and
the message has the MAC form of the configuration. -/
def honestMessage (ratchetKey : Curve25519PublicKey) (c0 : Bytes 32) (config : SessionConfig)
    (j : UInt64) (plaintext : List UInt8) : Message :=
  let key := (((ChainKey.advance P)^[j.toNat] (ChainKey.new c0)).createMessageKey P ratchetKey).1
  match config.version with
  | .v1 => key.encryptTruncatedMac P plaintext
  | .v2 => key.encrypt P plaintext

namespace ReceiverChain

/-- Decrypt `calls` in order: the chain at the end, and the chain indices of
the messages that decrypted, in order. -/
def decryptRun (c : ReceiverChain) : List (Message × SessionConfig) → ReceiverChain × List UInt64
  | [] => (c, [])
  | (m, config) :: calls =>
      let step := c.decrypt P m config
      let rest := decryptRun step.2 calls
      (rest.1, match step.1 with
        | .ok _ => m.chainIndex :: rest.2
        | .error _ => rest.2)

/-- The invariant of a receiving chain started from `c0`. -/
structure Inv (c0 : Bytes 32) (c : ReceiverChain) : Prop where
  onChain : OnChain P c0 c.hkdfRatchet
  skipped_eq : ∀ key ∈ c.skippedMessageKeys.inner.toList, key = chainMessageKey P c0 key.index.toNat
  skipped_lt : ∀ key ∈ c.skippedMessageKeys.inner.toList, key.index < c.hkdfRatchet.index
  sorted : c.skippedMessageKeys.inner.toList.Pairwise fun a b => a.index < b.index

/-- A chain index is spent when it is behind the chain and no key of it is
stored: no message of it can decrypt any more. -/
def Spent (c : ReceiverChain) (j : UInt64) : Prop :=
  j < c.hkdfRatchet.index ∧ j ∉ c.skippedMessageKeys.inner.toList.map RemoteMessageKey.index

end ReceiverChain

variable {P} {c0 : Bytes 32}

theorem index_chainMessageKey {i : ℕ} (hi : i < 2 ^ 64) :
    (chainMessageKey P c0 i).index.toNat = i := by
  simp only [chainMessageKey, UInt64.toNat_ofNat']
  exact Nat.mod_eq_of_lt hi

theorem mem_chainMessageKeys {key : RemoteMessageKey} {a b : ℕ} :
    key ∈ chainMessageKeys P c0 a b ↔ ∃ i, a ≤ i ∧ i < b ∧ key = chainMessageKey P c0 i := by
  simp only [chainMessageKeys, List.mem_map, List.mem_range]
  constructor
  · rintro ⟨u, hu, rfl⟩
    exact ⟨a + u, by omega, by omega, rfl⟩
  · rintro ⟨i, hai, hib, rfl⟩
    exact ⟨i - a, by omega, by rw [Nat.add_sub_cancel' hai]⟩

/-- The keys of a stretch of the chain have strictly increasing indices. -/
theorem pairwise_chainMessageKeys {a b : ℕ} (hb : b ≤ 2 ^ 64) :
    (chainMessageKeys P c0 a b).Pairwise fun x y => x.index < y.index := by
  unfold chainMessageKeys
  rw [List.pairwise_map]
  refine List.pairwise_lt_range.imp_of_mem ?_
  intro u v hu hv huv
  rw [List.mem_range] at hu hv
  rw [UInt64.lt_iff_toNat_lt, index_chainMessageKey (by omega), index_chainMessageKey (by omega)]
  omega

theorem onChain_new (c0 : Bytes 32) : OnChain P c0 (RemoteChainKey.new c0) := rfl

theorem index_iterate_advance {r : RemoteChainKey} {t : ℕ} (hb : r.index.toNat + t < 2 ^ 64) :
    ((RemoteChainKey.advance P)^[t] r).index.toNat = r.index.toNat + t := by
  simp only [RemoteChainKey.iterate_advance, UInt64.toNat_add, UInt64.toNat_ofNat']
  rw [Nat.mod_eq_of_lt (by omega : t < 2 ^ 64), Nat.mod_eq_of_lt hb]

namespace OnChain

theorem iterate_advance {r : RemoteChainKey} (h : OnChain P c0 r) {t : ℕ}
    (hb : r.index.toNat + t < 2 ^ 64) : OnChain P c0 ((RemoteChainKey.advance P)^[t] r) := by
  unfold OnChain
  rw [index_iterate_advance hb, RemoteChainKey.iterate_advance]
  dsimp only
  rw [h, ← Function.iterate_add_apply, Nat.add_comm]

theorem createMessageKey {r : RemoteChainKey} (h : OnChain P c0 r) :
    (r.createMessageKey P).1 = chainMessageKey P c0 r.index.toNat := by
  have hkey : r.key = (Olm.advance P)^[r.index.toNat] c0 := h
  simp only [RemoteChainKey.createMessageKey, chainMessageKey, ← hkey, UInt64.ofNat_toNat]

/-- The keys the loop of `find_message_key` stores on its way from a chain key
on the chain of `c0` are the message keys of that chain at their indices. -/
theorem skippedKeys {r : RemoteChainKey} (h : OnChain P c0 r) {g : ℕ}
    (hb : r.index.toNat + g < 2 ^ 64) :
    ReceiverChain.skippedKeys P r g =
      chainMessageKeys P c0 (r.index.toNat + g - min g maxMessageKeys) (r.index.toNat + g) := by
  unfold ReceiverChain.skippedKeys chainMessageKeys
  rw [show r.index.toNat + g - (r.index.toNat + g - min g maxMessageKeys) = min g maxMessageKeys
    by omega]
  apply List.map_congr_left
  intro u hu
  rw [List.mem_range] at hu
  rw [(h.iterate_advance (by omega)).createMessageKey, index_iterate_advance (by omega)]
  congr 1
  omega

end OnChain

/-- Within reach of the chain, the gap check passes exactly up to
`MAX_MESSAGE_GAP` indices ahead. -/
theorem not_gap_iff {n j : UInt64} (hle : n ≤ j) :
    ¬ maxMessageGap < j - n ↔ j.toNat ≤ n.toNat + 2000 := by
  have h2000 : maxMessageGap.toNat = 2000 := rfl
  rw [UInt64.lt_iff_toNat_lt, UInt64.toNat_sub_of_le _ _ hle, h2000]
  have := UInt64.le_iff_toNat_le.mp hle
  omega

namespace MessageKeyStore

theorem getMessageKey_eq_some {s : MessageKeyStore} {j : UInt64} {key : RemoteMessageKey}
    (h : s.getMessageKey j = some key) : key ∈ s.inner.toList ∧ key.index = j := by
  unfold getMessageKey at h
  exact ⟨List.mem_of_find?_eq_some h, by simpa [RemoteMessageKey.chainIndex] using List.find?_some h⟩

theorem getMessageKey_eq_none {s : MessageKeyStore} {j : UInt64}
    (h : j ∉ s.inner.toList.map RemoteMessageKey.index) : s.getMessageKey j = none := by
  unfold getMessageKey
  rw [List.find?_eq_none]
  intro key hkey hj
  exact h (List.mem_map.mpr ⟨key, hkey, by simpa [RemoteMessageKey.chainIndex] using hj⟩)

@[simp] theorem toList_removeMessageKey (s : MessageKeyStore) (j : UInt64) :
    (s.removeMessageKey j).inner.toList = s.inner.toList.filter fun k => k.chainIndex != j := rfl

end MessageKeyStore

namespace ReceiverChain

variable {c : ReceiverChain}

theorem inv_new (k : Curve25519PublicKey) (c0 : Bytes 32) :
    Inv P c0 (ReceiverChain.new k (RemoteChainKey.new c0)) where
  onChain := onChain_new c0
  skipped_eq := by simp [ReceiverChain.new, MessageKeyStore.new]
  skipped_lt := by simp [ReceiverChain.new, MessageKeyStore.new]
  sorted := by simp [ReceiverChain.new, MessageKeyStore.new]

/-! ### One call -/

theorem Inv.getMessageKey_of_mem (hinv : Inv P c0 c) {j : UInt64}
    (hj : j ∈ c.skippedMessageKeys.inner.toList.map RemoteMessageKey.index) :
    c.skippedMessageKeys.getMessageKey j = some (chainMessageKey P c0 j.toNat) := by
  cases hk : c.skippedMessageKeys.getMessageKey j with
  | none =>
      rw [MessageKeyStore.getMessageKey, List.find?_eq_none] at hk
      obtain ⟨key, hkey, rfl⟩ := List.mem_map.mp hj
      exact absurd (by simp [RemoteMessageKey.chainIndex]) (hk key hkey)
  | some key =>
      obtain ⟨hmem, rfl⟩ := MessageKeyStore.getMessageKey_eq_some hk
      rw [← hinv.skipped_eq key hmem]

/-- Moving the chain from `n` to `j + 1` appends the keys of the indices from
`max n (j - MAX_MESSAGE_KEYS)` up to `j` and keeps the newest
`MAX_MESSAGE_KEYS`. -/
theorem Inv.toList_foldl_push_skippedKeys (hinv : Inv P c0 c) {j : UInt64}
    (hle : c.hkdfRatchet.index ≤ j) :
    ((skippedKeys P c.hkdfRatchet (j - c.hkdfRatchet.index).toNat).foldl MessageKeyStore.push
        c.skippedMessageKeys).inner.toList =
      (c.skippedMessageKeys.inner.toList ++
        chainMessageKeys P c0 (max c.hkdfRatchet.index.toNat (j.toNat - maxMessageKeys))
          j.toNat).rtake maxMessageKeys := by
  have hnj := UInt64.le_iff_toNat_le.mp hle
  have hj := j.toNat_lt
  have hfrom : c.hkdfRatchet.index.toNat + (j.toNat - c.hkdfRatchet.index.toNat) -
      min (j.toNat - c.hkdfRatchet.index.toNat) maxMessageKeys =
        max c.hkdfRatchet.index.toNat (j.toNat - maxMessageKeys) := by omega
  have hto : c.hkdfRatchet.index.toNat + (j.toNat - c.hkdfRatchet.index.toNat) = j.toNat := by
    omega
  rw [UInt64.toNat_sub_of_le _ _ hle, hinv.onChain.skippedKeys (by omega), hfrom, hto,
    inner_foldl_push, ArrayVec.toList_foldl_pushEvicting, List.rtake, List.length_append]

theorem Inv.mem_skip (hinv : Inv P c0 c) {j : UInt64} (hle : c.hkdfRatchet.index ≤ j)
    {key : RemoteMessageKey}
    (hkey : key ∈ ((skippedKeys P c.hkdfRatchet (j - c.hkdfRatchet.index).toNat).foldl
      MessageKeyStore.push c.skippedMessageKeys).inner.toList) :
    key ∈ c.skippedMessageKeys.inner.toList ∨
      ∃ i, c.hkdfRatchet.index.toNat ≤ i ∧ i < j.toNat ∧ key = chainMessageKey P c0 i := by
  rw [hinv.toList_foldl_push_skippedKeys hle] at hkey
  rcases List.mem_append.mp (List.mem_of_mem_drop hkey) with hold | hnew
  · exact .inl hold
  · obtain ⟨i, hi, hij, rfl⟩ := mem_chainMessageKeys.mp hnew
    exact .inr ⟨i, (le_max_left _ _).trans hi, hij, rfl⟩

theorem toNat_index_skip {r : RemoteChainKey} {j : UInt64} (hle : r.index ≤ j)
    (hb : j.toNat + 1 < 2 ^ 64) :
    ((RemoteChainKey.advance P)^[(j - r.index).toNat + 1] r).index.toNat = j.toNat + 1 := by
  have hnj := UInt64.le_iff_toNat_le.mp hle
  rw [index_iterate_advance (by rw [UInt64.toNat_sub_of_le _ _ hle]; omega),
    UInt64.toNat_sub_of_le _ _ hle]
  omega

/-- Moving the chain to `j + 1` keeps the invariant while `j + 1` does not wrap. -/
theorem Inv.skip (hinv : Inv P c0 c) {j : UInt64} (hle : c.hkdfRatchet.index ≤ j)
    (hb : j.toNat + 1 < 2 ^ 64) :
    Inv P c0 { c with
      hkdfRatchet := (RemoteChainKey.advance P)^[(j - c.hkdfRatchet.index).toNat + 1] c.hkdfRatchet,
      skippedMessageKeys := (skippedKeys P c.hkdfRatchet (j - c.hkdfRatchet.index).toNat).foldl
        MessageKeyStore.push c.skippedMessageKeys } := by
  have hnj := UInt64.le_iff_toNat_le.mp hle
  have hidx := toNat_index_skip (P := P) hle hb
  refine ⟨hinv.onChain.iterate_advance (by rw [UInt64.toNat_sub_of_le _ _ hle]; omega), ?_, ?_, ?_⟩
  · intro key hkey
    rcases hinv.mem_skip hle hkey with hold | ⟨i, -, hi, rfl⟩
    · exact hinv.skipped_eq key hold
    · rw [index_chainMessageKey (by omega)]
  · intro key hkey
    dsimp only
    rw [UInt64.lt_iff_toNat_lt, hidx]
    rcases hinv.mem_skip hle hkey with hold | ⟨i, -, hi, rfl⟩
    · have := UInt64.lt_iff_toNat_lt.mp (hinv.skipped_lt key hold)
      omega
    · rw [index_chainMessageKey (by omega)]
      omega
  · -- the old keys are behind the old index, the new ones at or past it
    dsimp only
    rw [hinv.toList_foldl_push_skippedKeys hle]
    refine List.Pairwise.sublist (List.drop_sublist _ _)
      (List.pairwise_append.mpr ⟨hinv.sorted, pairwise_chainMessageKeys (by omega), ?_⟩)
    intro a ha b hb'
    obtain ⟨i, hni, hi, rfl⟩ := mem_chainMessageKeys.mp hb'
    have := UInt64.lt_iff_toNat_lt.mp (hinv.skipped_lt a ha)
    rw [UInt64.lt_iff_toNat_lt, index_chainMessageKey (by omega)]
    omega

theorem Inv.remove (hinv : Inv P c0 c) (j : UInt64) :
    Inv P c0 { c with skippedMessageKeys := c.skippedMessageKeys.removeMessageKey j } := by
  have hsub : (c.skippedMessageKeys.removeMessageKey j).inner.toList.Sublist
      c.skippedMessageKeys.inner.toList := List.filter_sublist
  exact ⟨hinv.onChain, fun key hkey => hinv.skipped_eq key (hsub.subset hkey),
    fun key hkey => hinv.skipped_lt key (hsub.subset hkey), hinv.sorted.sublist hsub⟩

/-- One call of `decrypt`, with any message whose chain index is below
`2 ^ 64 - 1`, keeps the invariant. -/
theorem Inv.decrypt (hinv : Inv P c0 c) (m : Message) (config : SessionConfig)
    (hb : m.chainIndex.toNat + 1 < 2 ^ 64) : Inv P c0 (c.decrypt P m config).2 := by
  rcases hr : (c.decrypt P m config).1 with e | plaintext
  · rw [decrypt_snd_of_error hr]
    exact hinv
  · rcases decrypt_ok_cases hr with ⟨hle, -, -, hc⟩ | ⟨-, key, -, -, hc⟩
    · rw [hc]
      exact hinv.skip hle hb
    · rw [hc]
      exact hinv.remove _

/-! ### Honest messages -/

theorem createMessageKey_iterate_new (c0 : Bytes 32) (ratchetKey : Curve25519PublicKey) (i : ℕ) :
    (((ChainKey.advance P)^[i] (ChainKey.new c0)).createMessageKey P ratchetKey).1 =
      ⟨(chainMessageKey P c0 i).key, ratchetKey, UInt64.ofNat i⟩ := by
  rw [ChainKey.iterate_advance]
  simp [ChainKey.createMessageKey, ChainKey.new, chainMessageKey]

@[simp] theorem chainIndex_honestMessage (k : Curve25519PublicKey) (config : SessionConfig)
    (j : UInt64) (plaintext : List UInt8) :
    (honestMessage P k c0 config j plaintext).chainIndex = j := by
  simp only [honestMessage, createMessageKey_iterate_new]
  cases config.version <;>
    simp [MessageKey.encrypt, MessageKey.encryptTruncatedMac, Message.new, Message.newTruncatedMac]

/-- The message key of index `j` on the chain decrypts the message the sender
encrypted at `j`. -/
theorem decrypt_key_honestMessage (hP : P.AesCbcRoundTrip) (k : Curve25519PublicKey)
    (config : SessionConfig) (j : UInt64) (plaintext : List UInt8) :
    (FoundMessageKey.existing (chainMessageKey P c0 j.toNat)).decrypt P
      (honestMessage P k c0 config j plaintext) config = .ok plaintext := by
  obtain ⟨version⟩ := config
  cases version
  · simp only [honestMessage, FoundMessageKey.decrypt, createMessageKey_iterate_new]
    exact RemoteMessageKey.decryptTruncatedMac_encryptTruncatedMac hP
      ⟨(chainMessageKey P c0 j.toNat).key, k, UInt64.ofNat j.toNat⟩ plaintext
  · simp only [honestMessage, FoundMessageKey.decrypt, createMessageKey_iterate_new]
    exact RemoteMessageKey.decrypt_encrypt hP
      ⟨(chainMessageKey P c0 j.toNat).key, k, UInt64.ofNat j.toNat⟩ plaintext

/-- What `decrypt` answers to the message the sender encrypted at `j`: the
plaintext within `MAX_MESSAGE_GAP` past the chain or with a stored key, and
otherwise the error of the branch. -/
theorem Inv.decrypt_honestMessage (hP : P.AesCbcRoundTrip) (hinv : Inv P c0 c)
    (k : Curve25519PublicKey) (config : SessionConfig) (j : UInt64) (plaintext : List UInt8) :
    (c.decrypt P (honestMessage P k c0 config j plaintext) config).1 =
      if c.hkdfRatchet.index ≤ j then
        if maxMessageGap < j - c.hkdfRatchet.index then
          .error (.tooBigMessageGap (j - c.hkdfRatchet.index) maxMessageGap)
        else .ok plaintext
      else if j ∈ c.skippedMessageKeys.inner.toList.map RemoteMessageKey.index then .ok plaintext
      else .error (.missingMessageKey j) := by
  rw [decrypt_eq, chainIndex_honestMessage]
  split_ifs with hle hgap hmem
  · rfl
  · -- the chain advanced to `j` creates the key the sender used
    have hnj := UInt64.le_iff_toNat_le.mp hle
    have hj := j.toNat_lt
    have hkey : (((RemoteChainKey.advance P)^[(j - c.hkdfRatchet.index).toNat]
        c.hkdfRatchet).createMessageKey P).1 = chainMessageKey P c0 j.toNat := by
      rw [UInt64.toNat_sub_of_le _ _ hle, (hinv.onChain.iterate_advance (by omega)).createMessageKey,
        index_iterate_advance (by omega)]
      congr 1
      omega
    dsimp only
    rw [hkey, decrypt_key_honestMessage hP]
  · rw [hinv.getMessageKey_of_mem hmem]
    dsimp only
    rw [decrypt_key_honestMessage hP]
  · rw [MessageKeyStore.getMessageKey_eq_none hmem]

/-- The message the sender encrypted at `j` decrypts exactly in the window
`n ..= n + MAX_MESSAGE_GAP` or with a stored key, and then to its plaintext. -/
theorem Inv.decrypt_honestMessage_ok_iff (hP : P.AesCbcRoundTrip) (hinv : Inv P c0 c)
    (k : Curve25519PublicKey) (config : SessionConfig) (j : UInt64) (plaintext : List UInt8) :
    let window := (c.hkdfRatchet.index.toNat ≤ j.toNat ∧ j.toNat ≤ c.hkdfRatchet.index.toNat + 2000) ∨
      j ∈ c.skippedMessageKeys.inner.toList.map RemoteMessageKey.index
    ((∃ q, (c.decrypt P (honestMessage P k c0 config j plaintext) config).1 = .ok q) ↔ window) ∧
      (window → (c.decrypt P (honestMessage P k c0 config j plaintext) config).1 = .ok plaintext) := by
  intro window
  -- a stored key is behind the chain
  have hstored : j ∈ c.skippedMessageKeys.inner.toList.map RemoteMessageKey.index →
      j < c.hkdfRatchet.index := by
    intro hj
    obtain ⟨key, hkey, rfl⟩ := List.mem_map.mp hj
    exact hinv.skipped_lt key hkey
  rw [hinv.decrypt_honestMessage hP]
  split_ifs with hle hgap hmem
  · -- past the window
    have hfar : ¬ j.toNat ≤ c.hkdfRatchet.index.toNat + 2000 := fun h =>
      (not_gap_iff hle).mpr h hgap
    have hout : ¬ window := fun hw =>
      hw.elim (fun h => hfar h.2) fun hj => UInt64.not_lt.mpr hle (hstored hj)
    exact ⟨⟨fun ⟨_, hq⟩ => (by cases hq), fun hw => absurd hw hout⟩, fun hw => absurd hw hout⟩
  · -- within the window
    have hwin : c.hkdfRatchet.index.toNat ≤ j.toNat ∧ j.toNat ≤ c.hkdfRatchet.index.toNat + 2000 :=
      ⟨UInt64.le_iff_toNat_le.mp hle, (not_gap_iff hle).mp hgap⟩
    exact ⟨⟨fun _ => .inl hwin, fun _ => ⟨_, rfl⟩⟩, fun _ => rfl⟩
  · -- behind the chain, with a stored key
    exact ⟨⟨fun _ => .inr hmem, fun _ => ⟨_, rfl⟩⟩, fun _ => rfl⟩
  · -- behind the chain, without one
    have hout : ¬ window := fun hw =>
      hw.elim (fun h => hle (UInt64.le_iff_toNat_le.mpr h.1)) hmem
    exact ⟨⟨fun ⟨_, hq⟩ => (by cases hq), fun hw => absurd hw hout⟩, fun hw => absurd hw hout⟩

/-! ### What a success changes -/

/-- A success at or past the chain index moves the chain to `j + 1` and
appends the keys of `max n (j - MAX_MESSAGE_KEYS) .. j - 1`, keeping the newest
`MAX_MESSAGE_KEYS`. -/
theorem Inv.decrypt_ok_of_le (hinv : Inv P c0 c) {m : Message} {config : SessionConfig}
    {plaintext : List UInt8} (h : (c.decrypt P m config).1 = .ok plaintext)
    (hle : c.hkdfRatchet.index ≤ m.chainIndex) :
    (c.decrypt P m config).2.hkdfRatchet.index = m.chainIndex + 1 ∧
      (c.decrypt P m config).2.skippedMessageKeys.inner.toList =
        (c.skippedMessageKeys.inner.toList ++
          chainMessageKeys P c0 (max c.hkdfRatchet.index.toNat (m.chainIndex.toNat - maxMessageKeys))
            m.chainIndex.toNat).rtake maxMessageKeys := by
  rcases decrypt_ok_cases h with ⟨-, -, -, hc⟩ | ⟨hlt, -⟩
  · rw [hc]
    refine ⟨?_, hinv.toList_foldl_push_skippedKeys hle⟩
    rw [RemoteChainKey.iterate_advance]
    dsimp only
    rw [UInt64.ofNat_add, UInt64.ofNat_toNat, UInt64.ofNat_one]
    grind
  · exact absurd hle (UInt64.not_le.mpr hlt)

/-- A success behind the chain index removes exactly the one stored key of the
index, and leaves the chain key as it is. -/
theorem Inv.decrypt_ok_of_lt (hinv : Inv P c0 c) {m : Message} {config : SessionConfig}
    {plaintext : List UInt8} (h : (c.decrypt P m config).1 = .ok plaintext)
    (hlt : m.chainIndex < c.hkdfRatchet.index) :
    (c.decrypt P m config).2.hkdfRatchet = c.hkdfRatchet ∧
      ∃ l₁ key l₂, c.skippedMessageKeys.inner.toList = l₁ ++ key :: l₂ ∧
        key.index = m.chainIndex ∧ (c.decrypt P m config).2.skippedMessageKeys.inner.toList = l₁ ++ l₂ := by
  rcases decrypt_ok_cases h with ⟨hle, -⟩ | ⟨-, key, hkey, -, hc⟩
  · exact absurd hle (UInt64.not_le.mpr hlt)
  · obtain ⟨hmem, hidx⟩ := MessageKeyStore.getMessageKey_eq_some hkey
    -- the stored indices are distinct, so only the key found is removed
    have hkeys : (c.skippedMessageKeys.inner.toList.map RemoteMessageKey.chainIndex).Nodup :=
      List.pairwise_map.mpr (hinv.sorted.imp UInt64.ne_of_lt)
    obtain ⟨l₁, l₂, hsplit, hremove⟩ := c.skippedMessageKeys.inner.toList_retain_key_ne hkeys hmem
    rw [hc]
    exact ⟨rfl, l₁, key, l₂, hsplit, hidx, hremove⟩

/-! ### Spent indices -/

theorem not_ok_of_spent {m : Message} {config : SessionConfig} (h : Spent c m.chainIndex)
    (plaintext : List UInt8) : (c.decrypt P m config).1 ≠ .ok plaintext := by
  intro hok
  rcases decrypt_ok_cases hok with ⟨hle, -⟩ | ⟨-, key, hkey, -⟩
  · exact UInt64.not_lt.mpr hle h.1
  · obtain ⟨hmem, hidx⟩ := MessageKeyStore.getMessageKey_eq_some hkey
    exact h.2 (List.mem_map.mpr ⟨key, hmem, hidx⟩)

/-- A spent index stays spent: the chain only moves forward, and the keys it
stores are of indices at or past the old chain index. -/
theorem Inv.spent_decrypt (hinv : Inv P c0 c) {m : Message} {config : SessionConfig}
    (hb : m.chainIndex.toNat + 1 < 2 ^ 64) {j : UInt64} (h : Spent c j) :
    Spent (c.decrypt P m config).2 j := by
  rcases hr : (c.decrypt P m config).1 with e | plaintext
  · rw [decrypt_snd_of_error hr]
    exact h
  · have hj := UInt64.lt_iff_toNat_lt.mp h.1
    rcases decrypt_ok_cases hr with ⟨hle, -, -, hc⟩ | ⟨-, key, -, -, hc⟩
    · rw [hc]
      have hnj := UInt64.le_iff_toNat_le.mp hle
      refine ⟨?_, ?_⟩
      · rw [UInt64.lt_iff_toNat_lt, toNat_index_skip hle hb]
        omega
      · intro hmem
        obtain ⟨key', hkey', hidx⟩ := List.mem_map.mp hmem
        rcases hinv.mem_skip hle hkey' with hold | ⟨i, hi, hij, rfl⟩
        · exact h.2 (List.mem_map.mpr ⟨key', hold, hidx⟩)
        · rw [← hidx, index_chainMessageKey (by omega)] at hj
          omega
    · rw [hc]
      exact ⟨h.1, fun hmem => h.2 (List.map_subset _ List.filter_sublist.subset hmem)⟩

/-- The index of a message that decrypted is spent afterwards. -/
theorem Inv.spent_of_ok (hinv : Inv P c0 c) {m : Message} {config : SessionConfig}
    {plaintext : List UInt8} (hb : m.chainIndex.toNat + 1 < 2 ^ 64)
    (h : (c.decrypt P m config).1 = .ok plaintext) : Spent (c.decrypt P m config).2 m.chainIndex := by
  rcases decrypt_ok_cases h with ⟨hle, -, -, hc⟩ | ⟨hlt, key, hkey, -, hc⟩
  · rw [hc]
    have hnj := UInt64.le_iff_toNat_le.mp hle
    refine ⟨?_, ?_⟩
    · rw [UInt64.lt_iff_toNat_lt, toNat_index_skip hle hb]
      omega
    · intro hmem
      obtain ⟨key', hkey', hidx⟩ := List.mem_map.mp hmem
      rcases hinv.mem_skip hle hkey' with hold | ⟨i, -, hij, rfl⟩
      · have := UInt64.lt_iff_toNat_lt.mp (hinv.skipped_lt key' hold)
        rw [hidx] at this
        omega
      · have hi : i < 2 ^ 64 := by
          have := m.chainIndex.toNat_lt
          omega
        rw [← hidx, index_chainMessageKey hi] at hij
        omega
  · rw [hc]
    refine ⟨hlt, fun hmem => ?_⟩
    obtain ⟨key', hkey', hidx⟩ := List.mem_map.mp hmem
    rw [MessageKeyStore.toList_removeMessageKey, List.mem_filter] at hkey'
    have hkidx := (MessageKeyStore.getMessageKey_eq_some hkey).2
    simp [RemoteMessageKey.chainIndex, hidx, hkidx] at hkey'

/-! ### Runs -/

theorem Inv.decryptRun_fst (hinv : Inv P c0 c) (calls : List (Message × SessionConfig))
    (hcalls : ∀ call ∈ calls, call.1.chainIndex.toNat + 1 < 2 ^ 64) :
    Inv P c0 (decryptRun P c calls).1 := by
  induction calls generalizing c with
  | nil => exact hinv
  | cons call calls ih =>
      obtain ⟨m, config⟩ := call
      exact ih (hinv.decrypt m config (hcalls (m, config) (by simp)))
        fun call h => hcalls call (List.mem_cons_of_mem _ h)

/-- Along a run the indices that decrypt are distinct, and none of them was
spent before the run. -/
theorem Inv.nodup_decryptRun (hinv : Inv P c0 c) (calls : List (Message × SessionConfig))
    (hcalls : ∀ call ∈ calls, call.1.chainIndex.toNat + 1 < 2 ^ 64) :
    (decryptRun P c calls).2.Nodup ∧ ∀ j, Spent c j → j ∉ (decryptRun P c calls).2 := by
  induction calls generalizing c with
  | nil => simp [decryptRun]
  | cons call calls ih =>
      obtain ⟨m, config⟩ := call
      have hb := hcalls (m, config) (by simp)
      obtain ⟨hnodup, hfresh⟩ :=
        ih (hinv.decrypt m config hb) fun call h => hcalls call (List.mem_cons_of_mem _ h)
      simp only [decryptRun]
      rcases hr : (c.decrypt P m config).1 with e | plaintext
      · -- a failure changes nothing that is spent
        exact ⟨hnodup, fun j hj => hfresh j (hinv.spent_decrypt hb hj)⟩
      · refine ⟨List.nodup_cons.mpr ⟨hfresh _ (hinv.spent_of_ok hb hr), hnodup⟩, ?_⟩
        intro j hj hmem
        rcases List.mem_cons.mp hmem with rfl | hmem
        · exact not_ok_of_spent hj plaintext hr
        · exact hfresh j (hinv.spent_decrypt hb hj) hmem

theorem decryptRun_append_fst (c : ReceiverChain) (xs ys : List (Message × SessionConfig)) :
    (decryptRun P c (xs ++ ys)).1 = (decryptRun P (decryptRun P c xs).1 ys).1 := by
  induction xs generalizing c with
  | nil => rfl
  | cons call xs ih =>
      obtain ⟨m, config⟩ := call
      exact ih _

/-- The message the sender encrypted `d ≤ MAX_MESSAGE_GAP` indices past the
chain moves the chain by `d + 1`. -/
theorem Inv.hkdfRatchet_decrypt_honestMessage (hP : P.AesCbcRoundTrip) (hinv : Inv P c0 c)
    (k : Curve25519PublicKey) (config : SessionConfig) (plaintext : List UInt8) {d : ℕ}
    (hd : d ≤ 2000) (hb : c.hkdfRatchet.index.toNat + d < 2 ^ 64) :
    (c.decrypt P (honestMessage P k c0 config (UInt64.ofNat (c.hkdfRatchet.index.toNat + d))
      plaintext) config).2.hkdfRatchet = (RemoteChainKey.advance P)^[d + 1] c.hkdfRatchet := by
  have hj : (UInt64.ofNat (c.hkdfRatchet.index.toNat + d)).toNat = c.hkdfRatchet.index.toNat + d := by
    rw [UInt64.toNat_ofNat', Nat.mod_eq_of_lt hb]
  have hle : c.hkdfRatchet.index ≤ UInt64.ofNat (c.hkdfRatchet.index.toNat + d) :=
    UInt64.le_iff_toNat_le.mpr (by omega)
  have hok := (hinv.decrypt_honestMessage_ok_iff hP k config
    (UInt64.ofNat (c.hkdfRatchet.index.toNat + d)) plaintext).2 (.inl ⟨by omega, by omega⟩)
  rcases decrypt_ok_cases hok with ⟨-, -, -, hc⟩ | ⟨hlt, -⟩
  · rw [hc]
    dsimp only
    rw [chainIndex_honestMessage, UInt64.toNat_sub_of_le _ _ hle, hj, Nat.add_sub_cancel_left]
  · rw [chainIndex_honestMessage] at hlt
    exact absurd hle (UInt64.not_le.mpr hlt)

/-! ### Every run from `ReceiverChain::new` -/

/-- Every chain that runs of `decrypt` reach from `ReceiverChain::new(k,
RemoteChainKey::new(c0))`, with any messages of chain index below
`2 ^ 64 - 1`, keeps the invariant; it decrypts the sender's messages exactly
in the window or with a stored key, a success moves or prunes it as
`find_message_key` says, and no index decrypts twice along the run. -/
theorem decryptRun_window_exactly_once (hP : P.AesCbcRoundTrip) (k : Curve25519PublicKey)
    (c0 : Bytes 32) (calls : List (Message × SessionConfig))
    (hcalls : ∀ call ∈ calls, call.1.chainIndex.toNat < 2 ^ 64 - 1) :
    let run := decryptRun P (ReceiverChain.new k (RemoteChainKey.new c0)) calls
    let c := run.1
    let n := c.hkdfRatchet.index
    let stored := c.skippedMessageKeys.inner.toList
    (c.hkdfRatchet.key = (Olm.advance P)^[n.toNat] c0 ∧
      stored.Pairwise (fun a b => a.index < b.index) ∧ (∀ key ∈ stored, key.index < n) ∧
      stored.length ≤ 40 ∧ ∀ key ∈ stored, key = chainMessageKey P c0 key.index.toNat) ∧
    (∀ config j plaintext,
      let m := honestMessage P k c0 config j plaintext
      let window := (n.toNat ≤ j.toNat ∧ j.toNat ≤ n.toNat + 2000) ∨
        j ∈ stored.map RemoteMessageKey.index
      ((∃ q, (c.decrypt P m config).1 = .ok q) ↔ window) ∧
        (window → (c.decrypt P m config).1 = .ok plaintext)) ∧
    (∀ m config q, (c.decrypt P m config).1 = .ok q → n ≤ m.chainIndex →
      (c.decrypt P m config).2.hkdfRatchet.index = m.chainIndex + 1 ∧
      (c.decrypt P m config).2.skippedMessageKeys.inner.toList =
        (stored ++ chainMessageKeys P c0 (max n.toNat (m.chainIndex.toNat - 40))
          m.chainIndex.toNat).rtake 40) ∧
    (∀ m config q, (c.decrypt P m config).1 = .ok q → m.chainIndex < n →
      (c.decrypt P m config).2.hkdfRatchet = c.hkdfRatchet ∧
      ∃ l₁ key l₂, stored = l₁ ++ key :: l₂ ∧ key.index = m.chainIndex ∧
        (c.decrypt P m config).2.skippedMessageKeys.inner.toList = l₁ ++ l₂) ∧
    run.2.Nodup := by
  intro run c n stored
  have hcalls' : ∀ call ∈ calls, call.1.chainIndex.toNat + 1 < 2 ^ 64 := fun call h => by
    have := hcalls call h
    omega
  have hinv : Inv P c0 c := (inv_new k c0).decryptRun_fst calls hcalls'
  exact ⟨⟨hinv.onChain, hinv.sorted, hinv.skipped_lt, c.skippedMessageKeys.inner.length_le,
      hinv.skipped_eq⟩,
    fun config j plaintext => hinv.decrypt_honestMessage_ok_iff hP k config j plaintext,
    fun _ _ _ h hle => hinv.decrypt_ok_of_le h hle,
    fun _ _ _ h hlt => hinv.decrypt_ok_of_lt h hlt,
    ((inv_new k c0).nodup_decryptRun calls hcalls').1⟩

theorem decryptRun_window_exactly_once_honest :
    let k : Curve25519PublicKey := ⟨Bytes.zero 32⟩
    let c0 : Bytes 32 := Bytes.zero 32
    let calls := [(honestMessage Primitives.toy k c0 SessionConfig.version2 3 [7],
      SessionConfig.version2)]
    let run := decryptRun Primitives.toy (ReceiverChain.new k (RemoteChainKey.new c0)) calls
    let c := run.1
    let n := c.hkdfRatchet.index
    let stored := c.skippedMessageKeys.inner.toList
    (c.hkdfRatchet.key = (Olm.advance Primitives.toy)^[n.toNat] c0 ∧
      stored.Pairwise (fun a b => a.index < b.index) ∧ (∀ key ∈ stored, key.index < n) ∧
      stored.length ≤ 40 ∧ ∀ key ∈ stored, key = chainMessageKey Primitives.toy c0 key.index.toNat) ∧
    (∀ config j plaintext,
      let m := honestMessage Primitives.toy k c0 config j plaintext
      let window := (n.toNat ≤ j.toNat ∧ j.toNat ≤ n.toNat + 2000) ∨
        j ∈ stored.map RemoteMessageKey.index
      ((∃ q, (c.decrypt Primitives.toy m config).1 = .ok q) ↔ window) ∧
        (window → (c.decrypt Primitives.toy m config).1 = .ok plaintext)) ∧
    (∀ m config q, (c.decrypt Primitives.toy m config).1 = .ok q → n ≤ m.chainIndex →
      (c.decrypt Primitives.toy m config).2.hkdfRatchet.index = m.chainIndex + 1 ∧
      (c.decrypt Primitives.toy m config).2.skippedMessageKeys.inner.toList =
        (stored ++ chainMessageKeys Primitives.toy c0 (max n.toNat (m.chainIndex.toNat - 40))
          m.chainIndex.toNat).rtake 40) ∧
    (∀ m config q, (c.decrypt Primitives.toy m config).1 = .ok q → m.chainIndex < n →
      (c.decrypt Primitives.toy m config).2.hkdfRatchet = c.hkdfRatchet ∧
      ∃ l₁ key l₂, stored = l₁ ++ key :: l₂ ∧ key.index = m.chainIndex ∧
        (c.decrypt Primitives.toy m config).2.skippedMessageKeys.inner.toList = l₁ ++ l₂) ∧
    run.2.Nodup := by
  intro k c0 calls
  exact decryptRun_window_exactly_once Primitives.toy_aesCbcRoundTrip k c0 calls (by simp [calls])

/-- Without the bound on the chain index the invariant breaks: `2001 · 9218762655527012`
honest messages, each `MAX_MESSAGE_GAP` past the chain, move it to
`2 ^ 64 - 604`, and the message of index `2 ^ 64 - 1` then decrypts and moves
it to index `0` with the key advanced `2 ^ 64` times. -/
theorem decryptRun_key_wraps :
    let c0 : Bytes 32 := ⟨1 :: List.replicate 31 0, rfl⟩
    let k : Curve25519PublicKey := ⟨Bytes.zero 32⟩
    let honest := fun j : UInt64 =>
      (honestMessage Primitives.toy k c0 SessionConfig.version2 j [], SessionConfig.version2)
    let calls := (List.range 9218762655527012).map (fun t => honest (UInt64.ofNat (2001 * t + 2000))) ++
      [honest (UInt64.ofNat (2 ^ 64 - 1))]
    let c := (decryptRun Primitives.toy (ReceiverChain.new k (RemoteChainKey.new c0)) calls).1
    c.hkdfRatchet.index = 0 ∧
      c.hkdfRatchet.key ≠ (Olm.advance Primitives.toy)^[c.hkdfRatchet.index.toNat] c0 := by
  intro c0 k honest calls c
  have hP := Primitives.toy_aesCbcRoundTrip
  -- after `t` of the first messages the chain is at `2001 t`, with the invariant
  have hrun : ∀ t ≤ 9218762655527012,
      Inv Primitives.toy c0 (decryptRun Primitives.toy (ReceiverChain.new k (RemoteChainKey.new c0))
        ((List.range t).map fun t => honest (UInt64.ofNat (2001 * t + 2000)))).1 ∧
      (decryptRun Primitives.toy (ReceiverChain.new k (RemoteChainKey.new c0))
        ((List.range t).map fun t => honest (UInt64.ofNat (2001 * t + 2000)))).1.hkdfRatchet =
          (RemoteChainKey.advance Primitives.toy)^[2001 * t] (RemoteChainKey.new c0) := by
    intro t
    induction t with
    | zero => exact fun _ => ⟨inv_new k c0, rfl⟩
    | succ t ih =>
        intro ht
        obtain ⟨hinv, hr⟩ := ih (by omega)
        rw [List.range_succ, List.map_append, decryptRun_append_fst]
        generalize (decryptRun Primitives.toy (ReceiverChain.new k (RemoteChainKey.new c0))
          ((List.range t).map fun t => honest (UInt64.ofNat (2001 * t + 2000)))).1 = ct at hinv hr
        have hidx : ct.hkdfRatchet.index.toNat = 2001 * t := by
          rw [hr, index_iterate_advance (by simp [RemoteChainKey.new]; omega)]
          exact Nat.zero_add _
        have hj : UInt64.ofNat (2001 * t + 2000) =
            UInt64.ofNat (ct.hkdfRatchet.index.toNat + 2000) :=
          congrArg UInt64.ofNat (by omega)
        refine ⟨hinv.decrypt _ _ ?_, ?_⟩
        · rw [chainIndex_honestMessage, UInt64.toNat_ofNat', Nat.mod_eq_of_lt (by omega)]
          omega
        · change (ct.decrypt Primitives.toy (honestMessage Primitives.toy k c0 SessionConfig.version2
            (UInt64.ofNat (2001 * t + 2000)) []) SessionConfig.version2).2.hkdfRatchet = _
          rw [hj, hinv.hkdfRatchet_decrypt_honestMessage hP k _ [] le_rfl (by omega), hr,
            ← Function.iterate_add_apply, show 2000 + 1 + 2001 * t = 2001 * (t + 1) by omega]
  -- the last message, `603` past the chain, moves it by `604` to `2 ^ 64`
  have hstep : ∀ ct : ReceiverChain, Inv Primitives.toy c0 ct →
      ct.hkdfRatchet = (RemoteChainKey.advance Primitives.toy)^[2001 * 9218762655527012]
        (RemoteChainKey.new c0) →
      (decryptRun Primitives.toy ct [honest (UInt64.ofNat (2 ^ 64 - 1))]).1.hkdfRatchet =
        (RemoteChainKey.advance Primitives.toy)^[2 ^ 64] (RemoteChainKey.new c0) := by
    intro ct hinv hr
    have hn : ct.hkdfRatchet.index.toNat = 2001 * 9218762655527012 := by
      rw [hr, index_iterate_advance (by simp [RemoteChainKey.new])]
      exact Nat.zero_add _
    have hj : UInt64.ofNat (2 ^ 64 - 1) = UInt64.ofNat (ct.hkdfRatchet.index.toNat + 603) :=
      congrArg UInt64.ofNat (by omega)
    change (ct.decrypt Primitives.toy (honestMessage Primitives.toy k c0 SessionConfig.version2
      (UInt64.ofNat (2 ^ 64 - 1)) []) SessionConfig.version2).2.hkdfRatchet = _
    rw [hj, hinv.hkdfRatchet_decrypt_honestMessage hP k _ [] (by omega) (by omega), hr,
      ← Function.iterate_add_apply, show 603 + 1 + 2001 * 9218762655527012 = 2 ^ 64 by omega]
  obtain ⟨hinv, hr⟩ := hrun _ le_rfl
  have hlast := hstep _ hinv hr
  rw [← decryptRun_append_fst] at hlast
  -- rewrite the names of the run away: a check against the run itself would
  -- unfold its first `9218762655527012` calls
  have hc : c = (decryptRun Primitives.toy (ReceiverChain.new k (RemoteChainKey.new c0)) calls).1 :=
    rfl
  have hcalls : calls = (List.range 9218762655527012).map
      (fun t => honest (UInt64.ofNat (2001 * t + 2000))) ++ [honest (UInt64.ofNat (2 ^ 64 - 1))] :=
    rfl
  rw [hc, hcalls, hlast, RemoteChainKey.iterate_advance]
  have hwrap : (RemoteChainKey.new c0).index + UInt64.ofNat (2 ^ 64) = 0 := by decide
  dsimp only
  rw [hwrap]
  refine ⟨rfl, ?_⟩
  -- every advanced key fills its 32 bytes with one digest byte, and `c0` does not
  intro hkey
  rw [UInt64.toNat_zero, Function.iterate_zero_apply, show 2 ^ 64 = 2 ^ 64 - 1 + 1 by omega,
    Function.iterate_succ_apply'] at hkey
  generalize (Olm.advance Primitives.toy)^[2 ^ 64 - 1] (RemoteChainKey.new c0).key = x at hkey
  have hbytes := congrArg List.Vector.toList hkey
  change List.replicate 32 (Primitives.Toy.digest (x.toList ++ advancementSeed)) =
    1 :: List.replicate 31 0 at hbytes
  simp only [List.replicate_succ, List.cons.injEq] at hbytes
  exact absurd (hbytes.1.symm.trans hbytes.2.1) (by decide)

end ReceiverChain

end Vodozemac.Olm
