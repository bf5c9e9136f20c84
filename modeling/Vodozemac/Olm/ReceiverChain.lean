import Vodozemac.Lib.ArrayVec
import Vodozemac.Olm.ChainKey

/-!
# Vodozemac.Olm.ReceiverChain

A receiving chain of an Olm session, `src/olm/session/receiver_chain.rs`: the
sender's ratchet key, the chain key at the next index expected
(`hkdf_ratchet`) and up to `MAX_MESSAGE_KEYS` keys of messages that were
skipped over (`MessageKeyStore`, oldest first).

`find_message_key` looks for the key of a chain index:

* more than `MAX_MESSAGE_GAP` ahead of the chain: `TooBigMessageGap`;
* behind the chain: a skipped key, or `MissingMessageKey`;
* otherwise a copy of the chain is advanced to the index, storing the keys of
  the last `MAX_MESSAGE_KEYS` indices it passes, and the key of the index is
  created (`FoundMessageKey::New`).

`decrypt` commits the found key only when the message decrypts: it removes
a skipped key that was used, or moves the chain to the copy and appends the
keys it stored. The `while` loop of `find_message_key` is `skipLoop`, run with
as many iterations as the index is ahead of the chain: each iteration moves the
chain by one, so exactly then the loop condition fails (`skipLoop_spec`).

`RemoteRatchetKey` wraps a `Curve25519PublicKey` and adds nothing; the model
uses the public key itself.
-/

namespace Vodozemac.Olm

variable (P : Primitives)

/-- `MAX_MESSAGE_GAP`. -/
def maxMessageGap : UInt64 := 2000

/-- `MAX_MESSAGE_KEYS`. -/
def maxMessageKeys : ℕ := 40

instance : NeZero maxMessageKeys := ⟨by decide⟩

/-- `MessageKeyStore`: the keys of skipped messages, oldest first. -/
structure MessageKeyStore where
  inner : ArrayVec RemoteMessageKey maxMessageKeys

namespace MessageKeyStore

/-- `MessageKeyStore::new`. -/
def new : MessageKeyStore := ⟨ArrayVec.new⟩

/-- `MessageKeyStore::push`: evict the oldest key when full. -/
def push (s : MessageKeyStore) (key : RemoteMessageKey) : MessageKeyStore :=
  ⟨s.inner.pushEvicting key⟩

/-- `MessageKeyStore::merge`: push the keys of `store` in order. -/
def merge (s store : MessageKeyStore) : MessageKeyStore :=
  store.inner.toList.foldl push s

/-- `MessageKeyStore::get_message_key`: the first key of the index. -/
def getMessageKey (s : MessageKeyStore) (chainIndex : UInt64) : Option RemoteMessageKey :=
  s.inner.toList.find? fun k => k.chainIndex == chainIndex

/-- `MessageKeyStore::remove_message_key`: drop every key of the index. -/
def removeMessageKey (s : MessageKeyStore) (chainIndex : UInt64) : MessageKeyStore :=
  ⟨s.inner.retain fun k => k.chainIndex != chainIndex⟩

end MessageKeyStore

/-- `FoundMessageKey`: a skipped key, or the advanced chain, the keys it
stored on the way and the key of the index. -/
inductive FoundMessageKey
  | existing (key : RemoteMessageKey)
  | new (ratchet : RemoteChainKey) (skippedKeys : MessageKeyStore) (messageKey : RemoteMessageKey)

/-- `FoundMessageKey::decrypt`: with the MAC form of the configuration. -/
def FoundMessageKey.decrypt (found : FoundMessageKey) (message : Message)
    (config : SessionConfig) : Except DecryptionError (List UInt8) :=
  let messageKey := match found with
    | .existing m => m
    | .new _ _ m => m
  match config.version with
  | .v1 => messageKey.decryptTruncatedMac P message
  | .v2 => messageKey.decrypt P message

/-- The key of the index, for each form of found key. -/
def FoundMessageKey.key : FoundMessageKey → RemoteMessageKey
  | .existing m => m
  | .new _ _ m => m

/-- `ReceiverChain`. -/
structure ReceiverChain where
  ratchetKey : Curve25519PublicKey
  hkdfRatchet : RemoteChainKey
  skippedMessageKeys : MessageKeyStore

namespace ReceiverChain

/-- `ReceiverChain::new`: no skipped keys. -/
def new (ratchetKey : Curve25519PublicKey) (chainKey : RemoteChainKey) : ReceiverChain :=
  { ratchetKey, hkdfRatchet := chainKey, skippedMessageKeys := .new }

/-- The `while ratchet.chain_index() < chain_index` loop of `find_message_key`,
with `fuel` the iterations left: advance the copy of the chain, storing the
keys of the last `MAX_MESSAGE_KEYS` indices before `chainIndex`. -/
def skipLoop (chainIndex : UInt64) :
    ℕ → RemoteChainKey × MessageKeyStore → RemoteChainKey × MessageKeyStore
  | 0, state => state
  | fuel + 1, (ratchet, skippedKeys) =>
      if ratchet.chainIndex < chainIndex then
        if chainIndex - ratchet.chainIndex > UInt64.ofNat maxMessageKeys then
          skipLoop chainIndex fuel (ratchet.advance P, skippedKeys)
        else
          let (key, ratchet) := ratchet.createMessageKey P
          skipLoop chainIndex fuel (ratchet, skippedKeys.push key)
      else (ratchet, skippedKeys)

/-- `u64::saturating_sub`. -/
def saturatingSub (a b : UInt64) : UInt64 := if b ≤ a then a - b else 0

/-- `ReceiverChain::find_message_key`. -/
def findMessageKey (c : ReceiverChain) (chainIndex : UInt64) :
    Except DecryptionError FoundMessageKey :=
  let messageGap := saturatingSub chainIndex c.hkdfRatchet.chainIndex
  if messageGap > maxMessageGap then .error (.tooBigMessageGap messageGap maxMessageGap)
  else if c.hkdfRatchet.chainIndex > chainIndex then
    match c.skippedMessageKeys.getMessageKey chainIndex with
    | some key => .ok (.existing key)
    | none => .error (.missingMessageKey chainIndex)
  else
    let (ratchet, skippedKeys) :=
      skipLoop P chainIndex messageGap.toNat (c.hkdfRatchet, MessageKeyStore.new)
    let (messageKey, ratchet) := ratchet.createMessageKey P
    .ok (.new ratchet skippedKeys messageKey)

/-- `ReceiverChain::decrypt`: the state changes only when the message decrypts. -/
def decrypt (c : ReceiverChain) (message : Message) (config : SessionConfig) :
    Except DecryptionError (List UInt8) × ReceiverChain :=
  match c.findMessageKey P message.chainIndex with
  | .error e => (.error e, c)
  | .ok found =>
      match found.decrypt P message config with
      | .error e => (.error e, c)
      | .ok plaintext =>
          match found with
          | .existing m =>
              (.ok plaintext,
                { c with skippedMessageKeys := c.skippedMessageKeys.removeMessageKey m.chainIndex })
          | .new ratchet skippedKeys _ =>
              (.ok plaintext,
                { c with hkdfRatchet := ratchet,
                         skippedMessageKeys := c.skippedMessageKeys.merge skippedKeys })

/-- `ReceiverChain::belongs_to`. -/
def belongsTo (c : ReceiverChain) (ratchetKey : Curve25519PublicKey) : Bool :=
  c.ratchetKey == ratchetKey

/-- The keys the loop of `find_message_key` stores on its way across `g`
indices from the chain key `r`: those of the last `MAX_MESSAGE_KEYS` of them. -/
def skippedKeys (r : RemoteChainKey) (g : ℕ) : List RemoteMessageKey :=
  (List.range (min g maxMessageKeys)).map fun u =>
    (((RemoteChainKey.advance P)^[g - min g maxMessageKeys + u] r).createMessageKey P).1

/-! ### What `find_message_key` and `decrypt` compute -/

variable {P}

/-- `FoundMessageKey::decrypt` reads only the key of the index. -/
theorem decrypt_eq_key (found : FoundMessageKey) (message : Message)
    (config : SessionConfig) :
    found.decrypt P message config = (FoundMessageKey.existing found.key).decrypt P message config := by
  cases found <;> rfl

/-- One move of the loop shortens the gap to the index by one. -/
theorem gap_advance {r : RemoteChainKey} {j : UInt64} {g : ℕ} (hg : (j - r.index).toNat = g + 1)
    (hle : r.index ≤ j) : (j - (r.advance P).index).toNat = g ∧ (r.advance P).index ≤ j := by
  have hle' := UInt64.le_iff_toNat_le.mp hle
  rw [UInt64.toNat_sub_of_le _ _ hle] at hg
  have hlt : r.index.toNat + 1 < 2 ^ 64 := by have := j.toNat_lt; omega
  have hidx : (r.advance P).index.toNat = r.index.toNat + 1 := by
    rw [RemoteChainKey.index_advance, UInt64.toNat_add, UInt64.toNat_one, Nat.mod_eq_of_lt hlt]
  have hle'' : (r.advance P).index ≤ j := UInt64.le_iff_toNat_le.mpr (by omega)
  exact ⟨by rw [UInt64.toNat_sub_of_le _ _ hle'']; omega, hle''⟩

/-- Run for as many iterations as the index is ahead, the loop of
`find_message_key` advances the chain to the index and stores the keys of the
last `MAX_MESSAGE_KEYS` indices before it. -/
theorem skipLoop_spec (j : UInt64) :
    ∀ (g : ℕ) (r : RemoteChainKey) (s : MessageKeyStore), (j - r.index).toNat = g → r.index ≤ j →
      skipLoop P j g (r, s) =
        ((RemoteChainKey.advance P)^[g] r, (skippedKeys P r g).foldl MessageKeyStore.push s)
  | 0, _, _, _, _ => rfl
  | g + 1, r, s, hg, hle => by
      obtain ⟨hg', hle'⟩ := gap_advance (P := P) hg hle
      have hlt : r.chainIndex < j := by
        refine UInt64.lt_iff_toNat_lt.mpr ?_
        have := UInt64.toNat_sub_of_le _ _ hle
        simp only [RemoteChainKey.chainIndex]
        omega
      have hgap : (j - r.chainIndex > UInt64.ofNat maxMessageKeys) ↔ maxMessageKeys < g + 1 := by
        rw [gt_iff_lt, UInt64.lt_iff_toNat_lt, UInt64.toNat_ofNat', RemoteChainKey.chainIndex, hg]
        simp [maxMessageKeys]
      simp only [skipLoop, if_pos hlt]
      split_ifs with hfar
      · -- far from the index: advance without storing
        rw [skipLoop_spec j g _ s hg' hle', ← Function.iterate_succ_apply]
        have hmin : min g maxMessageKeys = min (g + 1) maxMessageKeys := by
          have := hgap.mp hfar
          omega
        congr 2
        simp only [skippedKeys, hmin]
        apply List.map_congr_left
        intro u _
        rw [← Function.iterate_succ_apply]
        congr 3
        have := hgap.mp hfar
        omega
      · -- within `MAX_MESSAGE_KEYS` of the index: store the key of every index
        have hnear : g + 1 ≤ maxMessageKeys := by
          have := hgap.not.mp hfar
          omega
        change skipLoop P j g (r.advance P, s.push (r.createMessageKey P).1) = _
        rw [skipLoop_spec j g _ _ hg' hle', ← Function.iterate_succ_apply]
        congr 1
        simp only [skippedKeys, Nat.min_eq_left hnear, Nat.min_eq_left (Nat.le_of_succ_le hnear),
          Nat.sub_self, Nat.zero_add, List.range_succ_eq_map, List.map_cons, List.map_map,
          List.foldl_cons]
        rfl

theorem findMessageKey_eq (c : ReceiverChain) (j : UInt64) :
    c.findMessageKey P j =
      if c.hkdfRatchet.index ≤ j then
        if maxMessageGap < j - c.hkdfRatchet.index then
          .error (.tooBigMessageGap (j - c.hkdfRatchet.index) maxMessageGap)
        else
          let g := (j - c.hkdfRatchet.index).toNat
          .ok (.new ((RemoteChainKey.advance P)^[g + 1] c.hkdfRatchet)
            ((skippedKeys P c.hkdfRatchet g).foldl MessageKeyStore.push .new)
            (((RemoteChainKey.advance P)^[g] c.hkdfRatchet).createMessageKey P).1)
      else
        match c.skippedMessageKeys.getMessageKey j with
        | some key => .ok (.existing key)
        | none => .error (.missingMessageKey j) := by
  unfold findMessageKey
  by_cases hle : c.hkdfRatchet.index ≤ j
  · have hsat : saturatingSub j c.hkdfRatchet.chainIndex = j - c.hkdfRatchet.index := if_pos hle
    have hnlt : ¬ c.hkdfRatchet.chainIndex > j := UInt64.not_lt.mpr hle
    simp only [hsat, if_pos hle, hnlt, if_false, gt_iff_lt]
    split_ifs
    · rfl
    · rw [skipLoop_spec _ _ _ _ rfl hle]
      simp only [RemoteChainKey.createMessageKey, Function.iterate_succ_apply']
  · have hsat : saturatingSub j c.hkdfRatchet.chainIndex = 0 := if_neg hle
    have hgt : c.hkdfRatchet.chainIndex > j := UInt64.not_le.mp hle
    have hzero : ¬ maxMessageGap < 0 := by decide
    simp only [hsat, if_neg hle, hgt, if_true, gt_iff_lt, hzero, if_false]

/-- A failed decryption leaves the chain as it is. -/
theorem decrypt_snd_of_error {c : ReceiverChain} {message : Message} {config : SessionConfig}
    {e : DecryptionError} (h : (c.decrypt P message config).1 = .error e) :
    (c.decrypt P message config).2 = c := by
  revert h
  unfold decrypt
  rcases c.findMessageKey P message.chainIndex with e' | found
  · intro _
    rfl
  · dsimp only
    rcases found.decrypt P message config with e' | plaintext
    · intro _
      rfl
    · cases found <;> simp

theorem length_skippedKeys (r : RemoteChainKey) (g : ℕ) :
    (skippedKeys P r g).length = min g maxMessageKeys := by
  simp [skippedKeys]

@[simp] theorem inner_foldl_push (keys : List RemoteMessageKey) (s : MessageKeyStore) :
    (keys.foldl MessageKeyStore.push s).inner = keys.foldl ArrayVec.pushEvicting s.inner := by
  induction keys generalizing s with
  | nil => rfl
  | cons k keys ih => exact ih _

/-- Merging the keys the loop stored appends them. -/
theorem merge_skippedKeys (s : MessageKeyStore) (r : RemoteChainKey) (g : ℕ) :
    s.merge ((skippedKeys P r g).foldl MessageKeyStore.push .new) =
      (skippedKeys P r g).foldl MessageKeyStore.push s := by
  have hlen := length_skippedKeys (P := P) r g
  have hstored : ((skippedKeys P r g).foldl MessageKeyStore.push .new).inner.toList =
      skippedKeys P r g := by
    rw [inner_foldl_push, ArrayVec.toList_foldl_pushEvicting]
    simp only [MessageKeyStore.new, ArrayVec.toList_new, List.nil_append, List.length_nil,
      Nat.zero_add]
    rw [Nat.sub_eq_zero_of_le (by omega), List.drop_zero]
  rw [MessageKeyStore.merge, hstored]

/-- `decrypt` with the loop evaluated: the key of an index at or past the chain
is the chain advanced to it, and a success moves the chain past the index and
appends the keys stored on the way; behind the chain only a stored key helps,
and a success removes it. -/
theorem decrypt_eq (c : ReceiverChain) (m : Message) (config : SessionConfig) :
    c.decrypt P m config =
      if c.hkdfRatchet.index ≤ m.chainIndex then
        if maxMessageGap < m.chainIndex - c.hkdfRatchet.index then
          (.error (.tooBigMessageGap (m.chainIndex - c.hkdfRatchet.index) maxMessageGap), c)
        else
          let g := (m.chainIndex - c.hkdfRatchet.index).toNat
          match (FoundMessageKey.existing
              (((RemoteChainKey.advance P)^[g] c.hkdfRatchet).createMessageKey P).1).decrypt P
              m config with
          | .error e => (.error e, c)
          | .ok plaintext =>
              (.ok plaintext,
                { c with hkdfRatchet := (RemoteChainKey.advance P)^[g + 1] c.hkdfRatchet,
                         skippedMessageKeys :=
                           (skippedKeys P c.hkdfRatchet g).foldl MessageKeyStore.push
                             c.skippedMessageKeys })
      else
        match c.skippedMessageKeys.getMessageKey m.chainIndex with
        | none => (.error (.missingMessageKey m.chainIndex), c)
        | some key =>
            match (FoundMessageKey.existing key).decrypt P m config with
            | .error e => (.error e, c)
            | .ok plaintext =>
                (.ok plaintext,
                  { c with skippedMessageKeys :=
                      c.skippedMessageKeys.removeMessageKey key.chainIndex }) := by
  unfold decrypt
  rw [findMessageKey_eq]
  split_ifs with hle hgap
  · rfl
  · dsimp only
    rw [decrypt_eq_key]
    dsimp only [FoundMessageKey.key]
    split
    · rfl
    · rw [merge_skippedKeys]
  · cases c.skippedMessageKeys.getMessageKey m.chainIndex <;> rfl

/-- What a successful `decrypt` did: it used the chain advanced to an index at
or past it, or a stored key of an index behind it. -/
theorem decrypt_ok_cases {c : ReceiverChain} {m : Message} {config : SessionConfig}
    {plaintext : List UInt8} (h : (c.decrypt P m config).1 = .ok plaintext) :
    (c.hkdfRatchet.index ≤ m.chainIndex ∧ ¬ maxMessageGap < m.chainIndex - c.hkdfRatchet.index ∧
      (FoundMessageKey.existing (((RemoteChainKey.advance P)^[(m.chainIndex -
        c.hkdfRatchet.index).toNat] c.hkdfRatchet).createMessageKey P).1).decrypt P m config =
          .ok plaintext ∧
      (c.decrypt P m config).2 =
        { c with hkdfRatchet :=
                   (RemoteChainKey.advance P)^[(m.chainIndex - c.hkdfRatchet.index).toNat + 1]
                     c.hkdfRatchet,
                 skippedMessageKeys :=
                   (skippedKeys P c.hkdfRatchet (m.chainIndex - c.hkdfRatchet.index).toNat).foldl
                     MessageKeyStore.push c.skippedMessageKeys }) ∨
    (m.chainIndex < c.hkdfRatchet.index ∧ ∃ key,
      c.skippedMessageKeys.getMessageKey m.chainIndex = some key ∧
      (FoundMessageKey.existing key).decrypt P m config = .ok plaintext ∧
      (c.decrypt P m config).2 =
        { c with skippedMessageKeys := c.skippedMessageKeys.removeMessageKey key.chainIndex }) := by
  rw [decrypt_eq] at h ⊢
  -- the gap error is closed by splitting: it contradicts the success
  split_ifs at h ⊢ with hle hgap
  · left
    refine ⟨hle, hgap, ?_⟩
    dsimp only at h ⊢
    split at h
    · cases h
    · rename_i plaintext' hd
      cases h
      simp only [hd, and_self]
  · right
    refine ⟨UInt64.not_le.mp hle, ?_⟩
    rcases hk : c.skippedMessageKeys.getMessageKey m.chainIndex with _ | key
    · simp only [hk] at h
      cases h
    · simp only [hk] at h ⊢
      split at h
      · cases h
      · rename_i plaintext' hd
        cases h
        exact ⟨key, rfl, hd, rfl⟩

/-- `decrypt` keeps the ratchet key of the chain. -/
@[simp] theorem ratchetKey_decrypt (c : ReceiverChain) (m : Message) (config : SessionConfig) :
    (c.decrypt P m config).2.ratchetKey = c.ratchetKey := by
  rcases hr : (c.decrypt P m config).1 with e | plaintext
  · rw [decrypt_snd_of_error hr]
  · rcases decrypt_ok_cases hr with ⟨-, -, -, hc⟩ | ⟨-, _, -, -, hc⟩ <;> rw [hc]

end ReceiverChain

end Vodozemac.Olm
