import Vodozemac.Primitives
import Vodozemac.Lib.Maps
import Vodozemac.Lib.ArrayVec

/-!
# Vodozemac.Olm.OneTimeKeys

The one-time keys of an account, `src/olm/account/one_time_keys.rs`. The
store keeps three maps: the secret keys by key id (`private_keys`, a
`BTreeMap`, so walked in id order), the public keys not yet published, also by
id, and the key id of each public key (`key_ids_by_key`, a `HashMap`). They
are `Std.TreeMap` and `Std.HashMap` here. The secret keys that
`Curve25519SecretKey::new` draws are arguments: `generate` takes one for each
turn of its loop.

`insert_secret_key` first drops the key with the smallest id when the store
holds `MAX_ONE_TIME_KEYS`; the model names its two halves
(`removeOldestKey`, `storeSecretKey`).

Over every run from `new` (`Reachable`), with fresh secret keys whose public
keys are new and a counter that does not wrap, `Invariant` holds:
`key_ids_by_key` is the inverse of the map from an id to the public key of its
secret key, the unpublished keys are that map on the ids generated since the
last `mark_as_published`, there are at most `MAX_ONE_TIME_KEYS` keys, and
every id is below `next_key_id`. Independently of the keys drawn, `generate`
treats `private_keys` as a bounded queue (`ArrayVec.pushEvicting`): it
appends the new entries and drops the oldest, and returns the public keys of
the dropped ones (`generate_spec`).
-/

namespace Vodozemac.Olm

variable (P : Primitives)

/-- `PUBLIC_MAX_ONE_TIME_KEYS` of `account/mod.rs`. -/
def publicMaxOneTimeKeys : ℕ := 50

/-- `OneTimeKeys`. -/
structure OneTimeKeys where
  nextKeyId : UInt64
  unpublishedPublicKeys : Std.TreeMap KeyId Curve25519PublicKey compare
  privateKeys : Std.TreeMap KeyId Curve25519SecretKey compare
  keyIdsByKey : Std.HashMap Curve25519PublicKey KeyId

/-- `OneTimeKeyGenerationResult`. -/
structure OneTimeKeyGenerationResult where
  created : List Curve25519PublicKey
  removed : List Curve25519PublicKey

namespace OneTimeKeys

/-- `OneTimeKeys::MAX_ONE_TIME_KEYS`. -/
def maxOneTimeKeys : ℕ := 100 * publicMaxOneTimeKeys

instance : NeZero maxOneTimeKeys := ⟨by decide⟩

/-- `OneTimeKeys::new`. -/
def new : OneTimeKeys := ⟨0, ∅, ∅, ∅⟩

/-- `OneTimeKeys::mark_as_published`. -/
def markAsPublished (s : OneTimeKeys) : OneTimeKeys := { s with unpublishedPublicKeys := ∅ }

/-- `OneTimeKeys::get_secret_key`. -/
def getSecretKey (s : OneTimeKeys) (publicKey : Curve25519PublicKey) :
    Option Curve25519SecretKey :=
  s.keyIdsByKey[publicKey]?.bind fun keyId => s.privateKeys[keyId]?

/-- `OneTimeKeys::remove_secret_key`. -/
def removeSecretKey (s : OneTimeKeys) (publicKey : Curve25519PublicKey) :
    Option Curve25519SecretKey × OneTimeKeys :=
  let keyIdsByKey := s.keyIdsByKey.erase publicKey
  match s.keyIdsByKey[publicKey]? with
  | some keyId =>
    (s.privateKeys[keyId]?,
      { s with keyIdsByKey, unpublishedPublicKeys := s.unpublishedPublicKeys.erase keyId,
               privateKeys := s.privateKeys.erase keyId })
  | none => (none, { s with keyIdsByKey })

/-- The first half of `insert_secret_key`: when the store is full, the key with
the smallest id (the first of `private_keys.keys()`) is dropped from the three
maps, and its public key returned. -/
def removeOldestKey (s : OneTimeKeys) : Option Curve25519PublicKey × OneTimeKeys :=
  if maxOneTimeKeys ≤ s.privateKeys.size then
    match s.privateKeys.keys.head? with
    | some keyId =>
      let (publicKey, s) :=
        match s.privateKeys[keyId]? with
        | some privateKey =>
          let publicKey := P.x25519PublicKey privateKey
          (some publicKey, { s with privateKeys := s.privateKeys.erase keyId,
                                    keyIdsByKey := s.keyIdsByKey.erase publicKey })
        | none => (none, s)
      (publicKey, { s with unpublishedPublicKeys := s.unpublishedPublicKeys.erase keyId })
    | none => (none, s)
  else (none, s)

/-- The second half of `insert_secret_key`: the key is stored under its id, its
public key indexed, and listed as unpublished unless `published`. -/
def storeSecretKey (s : OneTimeKeys) (keyId : KeyId) (key : Curve25519SecretKey)
    (published : Bool) : Curve25519PublicKey × OneTimeKeys :=
  let publicKey := P.x25519PublicKey key
  let s := { s with privateKeys := s.privateKeys.insert keyId key,
                    keyIdsByKey := s.keyIdsByKey.insert publicKey keyId }
  (publicKey,
    if !published then { s with unpublishedPublicKeys := s.unpublishedPublicKeys.insert keyId publicKey }
    else s)

/-- `OneTimeKeys::insert_secret_key`: the new public key and the one dropped
to make room. -/
def insertSecretKey (s : OneTimeKeys) (keyId : KeyId) (key : Curve25519SecretKey)
    (published : Bool) : (Curve25519PublicKey × Option Curve25519PublicKey) × OneTimeKeys :=
  let (removed, s) := s.removeOldestKey P
  let (publicKey, s) := s.storeSecretKey P keyId key published
  ((publicKey, removed), s)

/-- `OneTimeKeys::generate_one_time_key`, with the secret key it draws. -/
def generateOneTimeKey (s : OneTimeKeys) (key : Curve25519SecretKey) :
    (Curve25519PublicKey × Option Curve25519PublicKey) × OneTimeKeys :=
  s.insertSecretKey P ⟨s.nextKeyId⟩ key false

/-- One turn of the loop of `generate`. -/
def generateStep (acc : OneTimeKeyGenerationResult × OneTimeKeys) (key : Curve25519SecretKey) :
    OneTimeKeyGenerationResult × OneTimeKeys :=
  let ((created, removed), s) := acc.2.generateOneTimeKey P key
  (⟨acc.1.created ++ [created], acc.1.removed ++ removed.toList⟩,
    { s with nextKeyId := s.nextKeyId + 1 })

/-- `OneTimeKeys::generate`: turn `i` of the loop draws `freshKey i`. -/
def generate (s : OneTimeKeys) (count : ℕ) (freshKey : ℕ → Curve25519SecretKey) :
    OneTimeKeyGenerationResult × OneTimeKeys :=
  (List.range count).foldl (fun acc i => generateStep P acc (freshKey i)) (⟨[], []⟩, s)

end OneTimeKeys

/-- `OneTimeKeysPickle`. -/
structure OneTimeKeysPickle where
  nextKeyId : UInt64
  publicKeys : Std.TreeMap KeyId Curve25519PublicKey compare
  privateKeys : Std.TreeMap KeyId Curve25519SecretKey compare

namespace OneTimeKeys

/-- `From<OneTimeKeys> for OneTimeKeysPickle`. Collecting the unpublished
keys into a new `BTreeMap` copies the map. -/
def pickle (s : OneTimeKeys) : OneTimeKeysPickle :=
  ⟨s.nextKeyId, s.unpublishedPublicKeys, s.privateKeys⟩

/-- `From<OneTimeKeysPickle> for OneTimeKeys`: the key id of every public key
is rebuilt from the secret keys, in id order. -/
def fromPickle (pickle : OneTimeKeysPickle) : OneTimeKeys :=
  { nextKeyId := pickle.nextKeyId, unpublishedPublicKeys := pickle.publicKeys,
    privateKeys := pickle.privateKeys,
    keyIdsByKey := pickle.privateKeys.foldl (fun m k v => m.insert (P.x25519PublicKey v) k) ∅ }

/-! ### What each operation does -/

/-- The public key of the secret key stored under an id. -/
def publicKeyOf (s : OneTimeKeys) (keyId : KeyId) : Option Curve25519PublicKey :=
  s.privateKeys[keyId]?.map P.x25519PublicKey

/-- The entries the first `count` turns of `generate` store: the ids from
`next_key_id` on, with the keys drawn. -/
def newEntries (s : OneTimeKeys) (count : ℕ) (freshKey : ℕ → Curve25519SecretKey) :
    List (KeyId × Curve25519SecretKey) :=
  (List.range count).map fun i => (⟨s.nextKeyId + UInt64.ofNat i⟩, freshKey i)

/-- The public keys of the first `count` keys drawn. -/
def freshPublicKeys (count : ℕ) (freshKey : ℕ → Curve25519SecretKey) : List Curve25519PublicKey :=
  (List.range count).map fun i => P.x25519PublicKey (freshKey i)

variable {P}

theorem compare_keyId_eq_lt {a b : KeyId} : compare a b = .lt ↔ a.id < b.id := by
  show compare a.id b.id = .lt ↔ _
  exact Std.compare_eq_lt

theorem removeSecretKey_of_none {s : OneTimeKeys} {publicKey : Curve25519PublicKey}
    (h : s.keyIdsByKey[publicKey]? = none) :
    s.removeSecretKey publicKey = (none, { s with keyIdsByKey := s.keyIdsByKey.erase publicKey }) := by
  simp only [removeSecretKey, h]

theorem removeSecretKey_of_some {s : OneTimeKeys} {publicKey : Curve25519PublicKey} {keyId : KeyId}
    (h : s.keyIdsByKey[publicKey]? = some keyId) :
    s.removeSecretKey publicKey =
      (s.privateKeys[keyId]?,
        { s with keyIdsByKey := s.keyIdsByKey.erase publicKey,
                 unpublishedPublicKeys := s.unpublishedPublicKeys.erase keyId,
                 privateKeys := s.privateKeys.erase keyId }) := by
  simp only [removeSecretKey, h]

theorem removeOldestKey_of_lt {s : OneTimeKeys} (h : s.privateKeys.size < maxOneTimeKeys) :
    s.removeOldestKey P = (none, s) := by
  simp only [removeOldestKey, if_neg (Nat.not_le_of_lt h)]

/-- A full store drops its first entry. -/
theorem removeOldestKey_of_toList_eq_cons {s : OneTimeKeys} (h : maxOneTimeKeys ≤ s.privateKeys.size)
    {keyId : KeyId} {key : Curve25519SecretKey} {l : List (KeyId × Curve25519SecretKey)}
    (hl : s.privateKeys.toList = (keyId, key) :: l) :
    s.removeOldestKey P =
      (some (P.x25519PublicKey key),
        { s with privateKeys := s.privateKeys.erase keyId,
                 keyIdsByKey := s.keyIdsByKey.erase (P.x25519PublicKey key),
                 unpublishedPublicKeys := s.unpublishedPublicKeys.erase keyId }) := by
  have hhead : s.privateKeys.keys.head? = some keyId := by
    rw [← Std.TreeMap.map_fst_toList_eq_keys, hl]
    rfl
  have hkey : s.privateKeys[keyId]? = some key := by
    rw [← Std.TreeMap.mem_toList_iff_getElem?_eq_some, hl]
    exact List.mem_cons_self
  simp only [removeOldestKey, if_pos h, hhead, hkey]

@[simp] theorem nextKeyId_removeOldestKey (s : OneTimeKeys) :
    (s.removeOldestKey P).2.nextKeyId = s.nextKeyId := by
  unfold removeOldestKey
  split
  · cases s.privateKeys.keys.head? with
    | none => rfl
    | some keyId =>
      dsimp only
      cases s.privateKeys[keyId]? <;> rfl
  · rfl

@[simp] theorem nextKeyId_storeSecretKey (s : OneTimeKeys) (keyId : KeyId)
    (key : Curve25519SecretKey) (published : Bool) :
    (s.storeSecretKey P keyId key published).2.nextKeyId = s.nextKeyId := by
  unfold storeSecretKey
  split <;> rfl

@[simp] theorem privateKeys_storeSecretKey (s : OneTimeKeys) (keyId : KeyId)
    (key : Curve25519SecretKey) (published : Bool) :
    (s.storeSecretKey P keyId key published).2.privateKeys = s.privateKeys.insert keyId key := by
  unfold storeSecretKey
  split <;> rfl

@[simp] theorem keyIdsByKey_storeSecretKey (s : OneTimeKeys) (keyId : KeyId)
    (key : Curve25519SecretKey) (published : Bool) :
    (s.storeSecretKey P keyId key published).2.keyIdsByKey =
      s.keyIdsByKey.insert (P.x25519PublicKey key) keyId := by
  unfold storeSecretKey
  split <;> rfl

/-- Storing a key that is not published lists it in the three maps. -/
theorem storeSecretKey_false (s : OneTimeKeys) (keyId : KeyId) (key : Curve25519SecretKey) :
    (s.storeSecretKey P keyId key false).2 =
      { s with privateKeys := s.privateKeys.insert keyId key,
               keyIdsByKey := s.keyIdsByKey.insert (P.x25519PublicKey key) keyId,
               unpublishedPublicKeys := s.unpublishedPublicKeys.insert keyId (P.x25519PublicKey key) } :=
  rfl

@[simp] theorem fst_storeSecretKey (s : OneTimeKeys) (keyId : KeyId)
    (key : Curve25519SecretKey) (published : Bool) :
    (s.storeSecretKey P keyId key published).1 = P.x25519PublicKey key := rfl

theorem insertSecretKey_of_lt {s : OneTimeKeys} (h : s.privateKeys.size < maxOneTimeKeys)
    (keyId : KeyId) (key : Curve25519SecretKey) (published : Bool) :
    s.insertSecretKey P keyId key published =
      ((P.x25519PublicKey key, none), (s.storeSecretKey P keyId key published).2) := by
  simp only [insertSecretKey, removeOldestKey_of_lt h, fst_storeSecretKey]

theorem generateStep_eq (acc : OneTimeKeyGenerationResult × OneTimeKeys) (key : Curve25519SecretKey) :
    generateStep P acc key =
      (⟨acc.1.created ++ [P.x25519PublicKey key], acc.1.removed ++ (acc.2.removeOldestKey P).1.toList⟩,
        { ((acc.2.removeOldestKey P).2.storeSecretKey P ⟨acc.2.nextKeyId⟩ key false).2 with
            nextKeyId := acc.2.nextKeyId + 1 }) := by
  simp only [generateStep, generateOneTimeKey, insertSecretKey, fst_storeSecretKey,
    nextKeyId_storeSecretKey, nextKeyId_removeOldestKey]

@[simp] theorem generate_zero (s : OneTimeKeys) (freshKey : ℕ → Curve25519SecretKey) :
    s.generate P 0 freshKey = (⟨[], []⟩, s) := rfl

theorem generate_succ (s : OneTimeKeys) (count : ℕ) (freshKey : ℕ → Curve25519SecretKey) :
    s.generate P (count + 1) freshKey = generateStep P (s.generate P count freshKey) (freshKey count) := by
  simp only [generate, List.range_succ, List.foldl_append, List.foldl_cons, List.foldl_nil]

theorem nextKeyId_generate (s : OneTimeKeys) (count : ℕ) (freshKey : ℕ → Curve25519SecretKey) :
    (s.generate P count freshKey).2.nextKeyId = s.nextKeyId + UInt64.ofNat count := by
  induction count with
  | zero => simp
  | succ n ih =>
    rw [generate_succ, generateStep_eq, ih, UInt64.ofNat_add, UInt64.add_assoc]
    rfl

theorem toNat_nextKeyId_generate (s : OneTimeKeys) {count : ℕ} (freshKey : ℕ → Curve25519SecretKey)
    (hwrap : s.nextKeyId.toNat + count < 2 ^ 64) :
    (s.generate P count freshKey).2.nextKeyId.toNat = s.nextKeyId.toNat + count := by
  rw [nextKeyId_generate, UInt64.toNat_add, UInt64.toNat_ofNat',
    Nat.mod_eq_of_lt (show count < 2 ^ 64 by omega), Nat.mod_eq_of_lt hwrap]

theorem newEntries_succ (s : OneTimeKeys) (count : ℕ) (freshKey : ℕ → Curve25519SecretKey) :
    newEntries s (count + 1) freshKey =
      newEntries s count freshKey ++ [(⟨s.nextKeyId + UInt64.ofNat count⟩, freshKey count)] := by
  simp only [newEntries, List.range_succ, List.map_append, List.map_cons, List.map_nil]

theorem freshPublicKeys_succ (count : ℕ) (freshKey : ℕ → Curve25519SecretKey) :
    freshPublicKeys P (count + 1) freshKey =
      freshPublicKeys P count freshKey ++ [P.x25519PublicKey (freshKey count)] := by
  simp only [freshPublicKeys, List.range_succ, List.map_append, List.map_cons, List.map_nil]

@[simp] theorem publicKeyOf_eq (s : OneTimeKeys) (keyId : KeyId) :
    s.publicKeyOf P keyId = s.privateKeys[keyId]?.map P.x25519PublicKey := rfl

/-! ### Removal and lookup in any store -/

/-- `remove_secret_key` drops the public key from the index. -/
theorem keyIdsByKey_removeSecretKey (s : OneTimeKeys) (publicKey q : Curve25519PublicKey) :
    (s.removeSecretKey publicKey).2.keyIdsByKey[q]? =
      if publicKey = q then none else s.keyIdsByKey[q]? := by
  cases hk : s.keyIdsByKey[publicKey]? with
  | none => simp [removeSecretKey_of_none hk, Std.HashMap.getElem?_erase]
  | some keyId => simp [removeSecretKey_of_some hk, Std.HashMap.getElem?_erase]

/-- `remove_secret_key` drops the secret key under the id the index gives. -/
theorem privateKeys_removeSecretKey (s : OneTimeKeys) (publicKey : Curve25519PublicKey)
    (k : KeyId) : (s.removeSecretKey publicKey).2.privateKeys[k]? =
      if s.keyIdsByKey[publicKey]? = some k then none else s.privateKeys[k]? := by
  cases hk : s.keyIdsByKey[publicKey]? with
  | none => simp [removeSecretKey_of_none hk]
  | some keyId => simp [removeSecretKey_of_some hk, Std.TreeMap.getElem?_erase]

/-- `remove_secret_key` drops the unpublished key under the id the index gives. -/
theorem unpublishedPublicKeys_removeSecretKey (s : OneTimeKeys) (publicKey : Curve25519PublicKey)
    (k : KeyId) : (s.removeSecretKey publicKey).2.unpublishedPublicKeys[k]? =
      if s.keyIdsByKey[publicKey]? = some k then none else s.unpublishedPublicKeys[k]? := by
  cases hk : s.keyIdsByKey[publicKey]? with
  | none => simp [removeSecretKey_of_none hk]
  | some keyId => simp [removeSecretKey_of_some hk, Std.TreeMap.getElem?_erase]

@[simp] theorem nextKeyId_removeSecretKey (s : OneTimeKeys) (publicKey : Curve25519PublicKey) :
    (s.removeSecretKey publicKey).2.nextKeyId = s.nextKeyId := by
  cases hk : s.keyIdsByKey[publicKey]? with
  | none => rw [removeSecretKey_of_none hk]
  | some keyId => rw [removeSecretKey_of_some hk]

theorem getSecretKey_of_keyIdsByKey_eq_none {s : OneTimeKeys} {publicKey : Curve25519PublicKey}
    (h : s.keyIdsByKey[publicKey]? = none) : s.getSecretKey publicKey = none := by
  simp [getSecretKey, h]

theorem keyIdsByKey_removeOldestKey_eq_none {s : OneTimeKeys} {publicKey : Curve25519PublicKey}
    (h : s.keyIdsByKey[publicKey]? = none) : (s.removeOldestKey P).2.keyIdsByKey[publicKey]? = none := by
  unfold removeOldestKey
  split
  · cases s.privateKeys.keys.head? with
    | none => exact h
    | some keyId =>
      dsimp only
      cases s.privateKeys[keyId]? with
      | none => exact h
      | some key => simp [Std.HashMap.getElem?_erase, h]
  · exact h

/-- A public key the index does not hold stays out of it through `generate`,
unless a key drawn has it. -/
theorem keyIdsByKey_generate_eq_none {s : OneTimeKeys} {publicKey : Curve25519PublicKey}
    (h : s.keyIdsByKey[publicKey]? = none) {count : ℕ} {freshKey : ℕ → Curve25519SecretKey}
    (hne : ∀ i < count, P.x25519PublicKey (freshKey i) ≠ publicKey) :
    (s.generate P count freshKey).2.keyIdsByKey[publicKey]? = none := by
  induction count with
  | zero => exact h
  | succ n ih =>
    rw [generate_succ, generateStep_eq, storeSecretKey_false]
    dsimp only
    rw [Std.HashMap.getElem?_insert, if_neg (by simpa using hne n (Nat.lt_succ_self n))]
    exact keyIdsByKey_removeOldestKey_eq_none (ih fun i hi => hne i (by omega))

/-- The index rebuilt from a pickle holds no public key that no stored key has. -/
theorem keyIdsByKey_fromPickle_eq_none {s : OneTimeKeys} {publicKey : Curve25519PublicKey}
    (h : ∀ keyId, s.publicKeyOf P keyId ≠ some publicKey) :
    (fromPickle P s.pickle).keyIdsByKey[publicKey]? = none := by
  simp only [fromPickle, pickle, Std.TreeMap.foldl_eq_foldl_toList]
  rw [Std.HashMap.getElem?_foldl_insert_of_forall_ne, Std.HashMap.getElem?_empty]
  rintro ⟨keyId, key⟩ he hkey
  rw [Std.TreeMap.mem_toList_iff_getElem?_eq_some] at he
  exact h keyId (by rw [publicKeyOf_eq, he, Option.map_some, hkey])

/-! ### The invariant of a run -/

/-- What every reachable store satisfies. `used` holds the public keys of the
keys generated so far, `sinceMark` the ids generated since the last
`mark_as_published`. -/
structure Invariant (P : Primitives) (s : OneTimeKeys) (used : List Curve25519PublicKey)
    (sinceMark : List KeyId) : Prop where
  keyIdsByKey_iff : ∀ publicKey keyId,
    s.keyIdsByKey[publicKey]? = some keyId ↔ s.publicKeyOf P keyId = some publicKey
  unpublished_iff : ∀ keyId publicKey, s.unpublishedPublicKeys[keyId]? = some publicKey ↔
    keyId ∈ sinceMark ∧ s.publicKeyOf P keyId = some publicKey
  size_le : s.privateKeys.size ≤ maxOneTimeKeys
  lt_nextKeyId : ∀ keyId ∈ s.privateKeys, keyId.id < s.nextKeyId
  mem_used : ∀ keyId publicKey, s.publicKeyOf P keyId = some publicKey → publicKey ∈ used

variable {s : OneTimeKeys} {used : List Curve25519PublicKey} {sinceMark : List KeyId}

theorem invariant_new : Invariant P new [] [] where
  keyIdsByKey_iff _ _ := by simp [new]
  unpublished_iff _ _ := by simp [new]
  size_le := by simp [new]
  lt_nextKeyId _ h := by simp [new] at h
  mem_used _ _ h := by simp [new] at h

theorem Invariant.markAsPublished (h : Invariant P s used sinceMark) :
    Invariant P s.markAsPublished used [] where
  keyIdsByKey_iff := h.keyIdsByKey_iff
  unpublished_iff _ _ := by simp [OneTimeKeys.markAsPublished]
  size_le := h.size_le
  lt_nextKeyId := h.lt_nextKeyId
  mem_used := h.mem_used

/-- Removing a public key takes its entry out of the three maps and keeps the
rest in step. -/
theorem Invariant.removeSecretKey (h : Invariant P s used sinceMark)
    (publicKey : Curve25519PublicKey) : Invariant P (s.removeSecretKey publicKey).2 used sinceMark := by
  cases hk : s.keyIdsByKey[publicKey]? with
  | none =>
    -- no stored key has this public key
    have hnone : ∀ keyId, s.publicKeyOf P keyId ≠ some publicKey := fun keyId hp => by
      rw [← h.keyIdsByKey_iff, hk] at hp
      cases hp
    rw [removeSecretKey_of_none hk]
    refine ⟨?_, h.unpublished_iff, h.size_le, h.lt_nextKeyId, h.mem_used⟩
    intro q keyId
    rw [Std.HashMap.getElem?_erase]
    by_cases hq : publicKey = q
    · subst hq
      simpa using hnone keyId
    · simpa [hq] using h.keyIdsByKey_iff q keyId
  | some keyId =>
    have hp : s.publicKeyOf P keyId = some publicKey := (h.keyIdsByKey_iff _ _).mp hk
    rw [removeSecretKey_of_some hk]
    refine ⟨?_, ?_, ?_, ?_, ?_⟩
    case refine_1 =>
      intro q k
      rw [Std.HashMap.getElem?_erase]
      simp only [publicKeyOf_eq, Std.TreeMap.getElem?_erase, Std.LawfulEqCmp.compare_eq_iff_eq,
        beq_iff_eq]
      by_cases hq : publicKey = q
      · subst hq
        -- the only id of this public key is the one erased
        rw [if_pos rfl]
        simp only [reduceCtorEq, false_iff]
        split
        · simp
        · rename_i hne
          rw [← publicKeyOf_eq, ← h.keyIdsByKey_iff, hk]
          exact fun heq => hne (Option.some.inj heq)
      · rw [if_neg hq]
        split
        · rename_i heq
          subst heq
          simp only [Option.map_none, reduceCtorEq, iff_false]
          rw [h.keyIdsByKey_iff, hp]
          exact fun heq => hq (Option.some.inj heq)
        · exact h.keyIdsByKey_iff q k
    case refine_2 =>
      intro k q
      simp only [publicKeyOf_eq, Std.TreeMap.getElem?_erase, Std.LawfulEqCmp.compare_eq_iff_eq]
      split
      · simp
      · exact h.unpublished_iff k q
    case refine_3 => exact Nat.le_trans Std.TreeMap.size_erase_le h.size_le
    case refine_4 =>
      intro k hmem
      exact h.lt_nextKeyId k (Std.TreeMap.mem_of_mem_erase hmem)
    case refine_5 =>
      intro k q hq
      simp only [publicKeyOf_eq, Std.TreeMap.getElem?_erase, Std.LawfulEqCmp.compare_eq_iff_eq] at hq
      split at hq
      · cases hq
      · exact h.mem_used k q hq

theorem exists_toList_eq_cons (s : OneTimeKeys) (h : maxOneTimeKeys ≤ s.privateKeys.size) :
    ∃ keyId key l, s.privateKeys.toList = (keyId, key) :: l := by
  cases hl : s.privateKeys.toList with
  | nil =>
    rw [← Std.TreeMap.length_toList, hl] at h
    cases h
  | cons e l => exact ⟨e.1, e.2, l, rfl⟩

/-- When the store is full, dropping the oldest key is `remove_secret_key` of
its public key; either way there is room for one more key. -/
theorem Invariant.removeOldestKey (h : Invariant P s used sinceMark) :
    Invariant P (s.removeOldestKey P).2 used sinceMark ∧
      (s.removeOldestKey P).2.privateKeys.size < maxOneTimeKeys := by
  by_cases hfull : maxOneTimeKeys ≤ s.privateKeys.size
  · have hsize : s.privateKeys.size = maxOneTimeKeys := Nat.le_antisymm h.size_le hfull
    obtain ⟨keyId, key, l, hl⟩ := exists_toList_eq_cons s hfull
    have hkey : s.privateKeys[keyId]? = some key := by
      rw [← Std.TreeMap.mem_toList_iff_getElem?_eq_some, hl]
      exact List.mem_cons_self
    have hk : s.keyIdsByKey[P.x25519PublicKey key]? = some keyId :=
      (h.keyIdsByKey_iff _ _).mpr (by simp [hkey])
    have heq : (s.removeOldestKey P).2 = (s.removeSecretKey (P.x25519PublicKey key)).2 := by
      rw [removeOldestKey_of_toList_eq_cons hfull hl, removeSecretKey_of_some hk]
    refine ⟨heq ▸ h.removeSecretKey _, ?_⟩
    have hmem : keyId ∈ s.privateKeys := Std.TreeMap.mem_iff_isSome_getElem?.mpr (by simp [hkey])
    rw [heq, removeSecretKey_of_some hk]
    show (s.privateKeys.erase keyId).size < maxOneTimeKeys
    rw [Std.TreeMap.size_erase, if_pos (Std.TreeMap.contains_iff_mem.mpr hmem), hsize]
    exact Nat.sub_lt (Nat.pos_of_ne_zero (NeZero.ne _)) Nat.one_pos
  · rw [removeOldestKey_of_lt (Nat.lt_of_not_le hfull)]
    exact ⟨h, Nat.lt_of_not_le hfull⟩

/-- One turn of `generate` with a key whose public key is new. -/
theorem Invariant.generateStep {acc : OneTimeKeyGenerationResult × OneTimeKeys}
    (h : Invariant P acc.2 used sinceMark) {key : Curve25519SecretKey}
    (hwrap : acc.2.nextKeyId.toNat + 1 < 2 ^ 64) (hfresh : P.x25519PublicKey key ∉ used) :
    Invariant P (generateStep P acc key).2 (used ++ [P.x25519PublicKey key])
      (sinceMark ++ [⟨acc.2.nextKeyId⟩]) := by
  obtain ⟨h0, hsize0⟩ := h.removeOldestKey
  have hnext0 : (acc.2.removeOldestKey P).2.nextKeyId = acc.2.nextKeyId :=
    nextKeyId_removeOldestKey _
  -- the new id is above every stored one, and the new public key is no stored key's
  have hnew : (⟨acc.2.nextKeyId⟩ : KeyId) ∉ (acc.2.removeOldestKey P).2.privateKeys :=
    fun hmem => by simpa [hnext0] using h0.lt_nextKeyId _ hmem
  have hnone : (acc.2.removeOldestKey P).2.privateKeys[(⟨acc.2.nextKeyId⟩ : KeyId)]? = none :=
    Std.TreeMap.getElem?_eq_none hnew
  have hunused : ∀ k, (acc.2.removeOldestKey P).2.publicKeyOf P k ≠ some (P.x25519PublicKey key) :=
    fun k hk => hfresh (h0.mem_used k _ hk)
  have hsucc : (acc.2.nextKeyId + 1).toNat = acc.2.nextKeyId.toNat + 1 := by
    rw [UInt64.toNat_add, UInt64.toNat_one, Nat.mod_eq_of_lt hwrap]
  rw [generateStep_eq, storeSecretKey_false]
  refine ⟨?_, ?_, ?_, ?_, ?_⟩
  case refine_1 =>
    intro q k
    simp only [publicKeyOf_eq, Std.HashMap.getElem?_insert, Std.TreeMap.getElem?_insert,
      Std.LawfulEqCmp.compare_eq_iff_eq, beq_iff_eq]
    by_cases hq : P.x25519PublicKey key = q
    · subst hq
      rw [if_pos rfl]
      split
      · simp [*]
      · rename_i hne
        simp only [Option.some.injEq]
        exact ⟨fun heq => absurd heq hne, fun hk => absurd hk (hunused k)⟩
    · rw [if_neg hq]
      split
      · rename_i heq
        subst heq
        rw [h0.keyIdsByKey_iff, publicKeyOf_eq, hnone]
        simp [hq]
      · exact h0.keyIdsByKey_iff q k
  case refine_2 =>
    intro k q
    simp only [publicKeyOf_eq, Std.TreeMap.getElem?_insert, Std.LawfulEqCmp.compare_eq_iff_eq,
      List.mem_append, List.mem_singleton]
    split
    · rename_i heq
      subst heq
      simp
    · rename_i hne
      rw [h0.unpublished_iff]
      simp [Ne.symm hne]
  case refine_3 =>
    rw [Std.TreeMap.size_insert, if_neg (fun hc => hnew (Std.TreeMap.contains_iff_mem.mp hc))]
    exact hsize0
  case refine_4 =>
    intro k hmem
    rw [Std.TreeMap.mem_insert, Std.LawfulEqCmp.compare_eq_iff_eq] at hmem
    rw [UInt64.lt_iff_toNat_lt, hsucc]
    rcases hmem with rfl | hmem
    · exact Nat.lt_succ_self _
    · have hlt := h0.lt_nextKeyId k hmem
      rw [hnext0, UInt64.lt_iff_toNat_lt] at hlt
      omega
  case refine_5 =>
    intro k q hq
    simp only [publicKeyOf_eq, Std.TreeMap.getElem?_insert, Std.LawfulEqCmp.compare_eq_iff_eq] at hq
    split at hq
    · simp only [Option.map_some, Option.some.injEq] at hq
      exact List.mem_append_right _ (List.mem_singleton.mpr hq.symm)
    · exact List.mem_append_left _ (h0.mem_used k q hq)

/-- A whole call of `generate` whose keys have new, pairwise distinct public
keys and whose counter does not wrap. -/
theorem Invariant.generate (h : Invariant P s used sinceMark) {count : ℕ}
    {freshKey : ℕ → Curve25519SecretKey} (hwrap : s.nextKeyId.toNat + count < 2 ^ 64)
    (hnodup : (freshPublicKeys P count freshKey).Nodup)
    (hfresh : ∀ p ∈ freshPublicKeys P count freshKey, p ∉ used) :
    Invariant P (s.generate P count freshKey).2 (used ++ freshPublicKeys P count freshKey)
      (sinceMark ++ (newEntries s count freshKey).map Prod.fst) := by
  induction count with
  | zero => simpa [freshPublicKeys, newEntries] using h
  | succ n ih =>
    rw [freshPublicKeys_succ] at hnodup hfresh
    have ih' := ih (by omega) (List.nodup_append.mp hnodup).1
      fun p hp => hfresh p (List.mem_append_left _ hp)
    -- the `n`-th key is new: not used before the call nor earlier in it
    have hnew : P.x25519PublicKey (freshKey n) ∉ used ++ freshPublicKeys P n freshKey := by
      rw [List.mem_append, not_or]
      refine ⟨hfresh _ (List.mem_append_right _ (List.mem_singleton_self _)), fun hmem => ?_⟩
      exact (List.nodup_append.mp hnodup).2.2 _ hmem _ (List.mem_singleton_self _) rfl
    have hnext := toNat_nextKeyId_generate (P := P) s freshKey (show s.nextKeyId.toNat + n < 2 ^ 64 by omega)
    have hstep := ih'.generateStep (by omega) hnew
    rw [nextKeyId_generate] at hstep
    rw [generate_succ, freshPublicKeys_succ, newEntries_succ, List.map_append, ← List.append_assoc,
      ← List.append_assoc]
    exact hstep

/-- The store rebuilt from the pickle finds every public key where the store
did: the inverse of an injective map, rebuilt from its entries. -/
theorem Invariant.fromPickle (h : Invariant P s used sinceMark) :
    Invariant P (fromPickle P s.pickle) used sinceMark := by
  -- distinct stored keys have distinct public keys
  have hnodup : (s.privateKeys.toList.map fun e => P.x25519PublicKey e.2).Nodup := by
    refine List.Nodup.map_on ?_ Std.TreeMap.nodup_toList
    rintro ⟨k₁, v₁⟩ h₁ ⟨k₂, v₂⟩ h₂ hpub
    rw [Std.TreeMap.mem_toList_iff_getElem?_eq_some] at h₁ h₂
    have hk₁ := (h.keyIdsByKey_iff (P.x25519PublicKey v₁) k₁).mpr (by simp [h₁])
    have hk₂ := (h.keyIdsByKey_iff (P.x25519PublicKey v₁) k₂).mpr (by simp [h₂, hpub])
    obtain rfl : k₁ = k₂ := Option.some.inj (hk₁.symm.trans hk₂)
    rw [h₁] at h₂
    rw [Option.some.inj h₂]
  refine ⟨?_, h.unpublished_iff, h.size_le, h.lt_nextKeyId, h.mem_used⟩
  intro q k
  simp only [OneTimeKeys.fromPickle, pickle, Std.TreeMap.foldl_eq_foldl_toList, publicKeyOf_eq]
  rw [Std.HashMap.getElem?_foldl_insert_empty_eq_some_iff _ hnodup, Option.map_eq_some_iff]
  simp only [Std.TreeMap.mem_toList_iff_getElem?_eq_some]

/-- The stores a run reaches from `OneTimeKeys::new`, with the public keys of
every key generated (`used`) and the ids generated since the last
`mark_as_published` (`sinceMark`). Each call of `generate` draws keys whose
public keys are new and pairwise distinct, and the counter never wraps. -/
inductive Reachable (P : Primitives) : OneTimeKeys → List Curve25519PublicKey → List KeyId → Prop
  | new : Reachable P new [] []
  | generate {s : OneTimeKeys} {used : List Curve25519PublicKey} {sinceMark : List KeyId}
      (count : ℕ) (freshKey : ℕ → Curve25519SecretKey) :
      Reachable P s used sinceMark → s.nextKeyId.toNat + count < 2 ^ 64 →
      (freshPublicKeys P count freshKey).Nodup →
      (∀ p ∈ freshPublicKeys P count freshKey, p ∉ used) →
      Reachable P (s.generate P count freshKey).2 (used ++ freshPublicKeys P count freshKey)
        (sinceMark ++ (newEntries s count freshKey).map Prod.fst)
  | markAsPublished {s : OneTimeKeys} {used : List Curve25519PublicKey} {sinceMark : List KeyId} :
      Reachable P s used sinceMark → Reachable P s.markAsPublished used []
  | removeSecretKey {s : OneTimeKeys} {used : List Curve25519PublicKey} {sinceMark : List KeyId}
      (publicKey : Curve25519PublicKey) :
      Reachable P s used sinceMark → Reachable P (s.removeSecretKey publicKey).2 used sinceMark
  | pickle {s : OneTimeKeys} {used : List Curve25519PublicKey} {sinceMark : List KeyId} :
      Reachable P s used sinceMark → Reachable P (fromPickle P s.pickle) used sinceMark

theorem Reachable.invariant (h : Reachable P s used sinceMark) : Invariant P s used sinceMark := by
  induction h with
  | new => exact invariant_new
  | generate count freshKey _ hwrap hnodup hfresh ih => exact ih.generate hwrap hnodup hfresh
  | markAsPublished _ ih => exact ih.markAsPublished
  | removeSecretKey publicKey _ ih => exact ih.removeSecretKey publicKey
  | pickle _ ih => exact ih.fromPickle

/-! ### `generate` as a bounded queue -/

/-- Dropping the oldest key, as lists: when the store is full its first entry
leaves, and the public key of that entry is returned. -/
theorem removeOldestKey_toList (s : OneTimeKeys) (hsize : s.privateKeys.size ≤ maxOneTimeKeys) :
    (s.removeOldestKey P).2.privateKeys.toList =
        s.privateKeys.toList.drop (s.privateKeys.size + 1 - maxOneTimeKeys) ∧
      (s.removeOldestKey P).1.toList =
        (s.privateKeys.toList.take (s.privateKeys.size + 1 - maxOneTimeKeys)).map
          fun e => P.x25519PublicKey e.2 := by
  by_cases hfull : maxOneTimeKeys ≤ s.privateKeys.size
  · obtain ⟨keyId, key, l, hl⟩ := exists_toList_eq_cons s hfull
    have hone : s.privateKeys.size + 1 - maxOneTimeKeys = 1 := by omega
    rw [removeOldestKey_of_toList_eq_cons hfull hl, hone, hl]
    exact ⟨Std.TreeMap.toList_erase_of_toList_eq_cons hl, rfl⟩
  · have hzero : s.privateKeys.size + 1 - maxOneTimeKeys = 0 := by omega
    rw [removeOldestKey_of_lt (Nat.lt_of_not_le hfull), hzero]
    exact ⟨rfl, rfl⟩

theorem mem_removeOldestKey {s : OneTimeKeys} (hsize : s.privateKeys.size ≤ maxOneTimeKeys)
    {keyId : KeyId} (h : keyId ∈ (s.removeOldestKey P).2.privateKeys) : keyId ∈ s.privateKeys := by
  obtain ⟨key, hkey⟩ := Option.isSome_iff_exists.mp (Std.TreeMap.mem_iff_isSome_getElem?.mp h)
  rw [← Std.TreeMap.mem_toList_iff_getElem?_eq_some, (removeOldestKey_toList s hsize).1] at hkey
  exact Std.TreeMap.mem_of_mem_toList (List.mem_of_mem_drop hkey)

/-- One turn of `generate` on a store whose ids are below the counter: the
drawn key is pushed onto the bounded queue of entries, the public key of the
entry that falls out is added to `removed`, and the ids stay below the
counter. -/
theorem generateStep_spec (acc : OneTimeKeyGenerationResult × OneTimeKeys) (key : Curve25519SecretKey)
    (hsize : acc.2.privateKeys.size ≤ maxOneTimeKeys)
    (hlt : ∀ k ∈ acc.2.privateKeys, k.id < acc.2.nextKeyId) (hwrap : acc.2.nextKeyId.toNat + 1 < 2 ^ 64) :
    (generateStep P acc key).2.privateKeys.toList =
        ((⟨acc.2.privateKeys.toList, by simpa using hsize⟩ : ArrayVec _ maxOneTimeKeys).pushEvicting
          (⟨acc.2.nextKeyId⟩, key)).toList ∧
      (generateStep P acc key).1.removed = acc.1.removed ++
        (acc.2.privateKeys.toList.take (acc.2.privateKeys.size + 1 - maxOneTimeKeys)).map
          (fun e => P.x25519PublicKey e.2) ∧
      (generateStep P acc key).1.created = acc.1.created ++ [P.x25519PublicKey key] ∧
      (generateStep P acc key).2.nextKeyId = acc.2.nextKeyId + 1 ∧
      ∀ k ∈ (generateStep P acc key).2.privateKeys, k.id < (generateStep P acc key).2.nextKeyId := by
  obtain ⟨hkeep, hdrop⟩ := removeOldestKey_toList acc.2 hsize
  have hsucc : (acc.2.nextKeyId + 1).toNat = acc.2.nextKeyId.toNat + 1 := by
    rw [UInt64.toNat_add, UInt64.toNat_one, Nat.mod_eq_of_lt hwrap]
  -- every id left after the eviction is below the new one
  have hbelow : ∀ k ∈ (acc.2.removeOldestKey P).2.privateKeys, compare k ⟨acc.2.nextKeyId⟩ = .lt :=
    fun k hk => compare_keyId_eq_lt.mpr (hlt k (mem_removeOldestKey hsize hk))
  rw [generateStep_eq]
  refine ⟨?_, by rw [hdrop], rfl, rfl, ?_⟩
  · rw [privateKeys_storeSecretKey, Std.TreeMap.toList_insert_of_lt _ hbelow, hkeep,
      ArrayVec.toList_pushEvicting]
    dsimp only
    have hmax : 0 < maxOneTimeKeys := Nat.pos_of_ne_zero (NeZero.ne _)
    rw [Std.TreeMap.length_toList,
      List.drop_append_of_le_length (by rw [Std.TreeMap.length_toList]; omega)]
  · intro k hk
    simp only [privateKeys_storeSecretKey, Std.TreeMap.mem_insert,
      Std.LawfulEqCmp.compare_eq_iff_eq] at hk
    rw [UInt64.lt_iff_toNat_lt, hsucc]
    rcases hk with rfl | hk
    · exact Nat.lt_succ_self _
    · have hk' := hlt k (mem_removeOldestKey hsize hk)
      rw [UInt64.lt_iff_toNat_lt] at hk'
      omega

@[simp] theorem length_newEntries (s : OneTimeKeys) (count : ℕ) (freshKey : ℕ → Curve25519SecretKey) :
    (newEntries s count freshKey).length = count := by
  simp [newEntries]

/-- A whole call of `generate` on a store whose ids are below the counter,
as long as the counter does not wrap: `private_keys` is the bounded queue of
its entries with the new ones pushed, `removed` holds the public keys of the
entries that fell out, oldest first, and `created` those of the keys drawn. -/
theorem generate_spec (s : OneTimeKeys) (count : ℕ) (freshKey : ℕ → Curve25519SecretKey)
    (hsize : s.privateKeys.size ≤ maxOneTimeKeys) (hlt : ∀ k ∈ s.privateKeys, k.id < s.nextKeyId)
    (hwrap : s.nextKeyId.toNat + count < 2 ^ 64) :
    (s.generate P count freshKey).2.privateKeys.toList =
        ((newEntries s count freshKey).foldl ArrayVec.pushEvicting
          (⟨s.privateKeys.toList, by simpa using hsize⟩ : ArrayVec _ maxOneTimeKeys)).toList ∧
      (s.generate P count freshKey).1.removed =
        ((s.privateKeys.toList ++ newEntries s count freshKey).take
          (s.privateKeys.size + count - maxOneTimeKeys)).map (fun e => P.x25519PublicKey e.2) ∧
      (s.generate P count freshKey).1.created = freshPublicKeys P count freshKey ∧
      ∀ k ∈ (s.generate P count freshKey).2.privateKeys,
        k.id < (s.generate P count freshKey).2.nextKeyId := by
  induction count with
  | zero =>
    refine ⟨rfl, ?_, rfl, hlt⟩
    simp [Nat.sub_eq_zero_of_le hsize]
  | succ n ih =>
    obtain ⟨h1, h2, h3, h4⟩ := ih (by omega)
    have hlen : (s.generate P n freshKey).2.privateKeys.size =
        s.privateKeys.size + n - (s.privateKeys.size + n - maxOneTimeKeys) := by
      rw [← Std.TreeMap.length_toList, h1, ArrayVec.toList_foldl_pushEvicting, List.length_drop]
      simp
    have hsize' : (s.generate P n freshKey).2.privateKeys.size ≤ maxOneTimeKeys := by
      rw [← Std.TreeMap.length_toList, h1]
      exact ArrayVec.length_le _
    have hnext := nextKeyId_generate (P := P) s n freshKey
    have hnext' := toNat_nextKeyId_generate (P := P) s freshKey (show s.nextKeyId.toNat + n < 2 ^ 64 by omega)
    obtain ⟨g1, g2, g3, -, g5⟩ := generateStep_spec (s.generate P n freshKey) (freshKey n) hsize' h4
      (by omega)
    rw [generate_succ]
    refine ⟨?_, ?_, ?_, g5⟩
    · -- the queue before this turn is the one of the first `n` turns
      have hv : (⟨(s.generate P n freshKey).2.privateKeys.toList, by simpa using hsize'⟩ :
          ArrayVec _ maxOneTimeKeys) = (newEntries s n freshKey).foldl ArrayVec.pushEvicting
            ⟨s.privateKeys.toList, by simpa using hsize⟩ := ArrayVec.ext h1
      rw [g1, hv, newEntries_succ, List.foldl_append, List.foldl_cons, List.foldl_nil, hnext]
    · -- the entries dropped in this turn continue those dropped before
      have hmax : 0 < maxOneTimeKeys := Nat.pos_of_ne_zero (NeZero.ne _)
      have hidx : s.privateKeys.size + n - maxOneTimeKeys +
          (s.privateKeys.size + n - (s.privateKeys.size + n - maxOneTimeKeys) + 1 - maxOneTimeKeys) =
          s.privateKeys.size + (n + 1) - maxOneTimeKeys := by omega
      have hfit : s.privateKeys.size + (n + 1) - maxOneTimeKeys ≤
          (s.privateKeys.toList ++ newEntries s n freshKey).length := by
        rw [List.length_append, Std.TreeMap.length_toList, length_newEntries]
        omega
      rw [g2, h2, h1, ArrayVec.toList_foldl_pushEvicting, hlen, ← List.map_append]
      dsimp only
      rw [Std.TreeMap.length_toList, length_newEntries, ← List.take_add, hidx, newEntries_succ,
        ← List.append_assoc, List.take_append_of_le_length hfit]
    · rw [g3, h3, freshPublicKeys_succ]

/-- The stored entries followed by the new ones are in strictly increasing
id order, as long as the counter does not wrap. -/
theorem pairwise_entries (s : OneTimeKeys) {count : ℕ} (freshKey : ℕ → Curve25519SecretKey)
    (hlt : ∀ k ∈ s.privateKeys, k.id < s.nextKeyId) (hwrap : s.nextKeyId.toNat + count < 2 ^ 64) :
    (s.privateKeys.toList ++ newEntries s count freshKey).Pairwise fun a b => a.1.id < b.1.id := by
  have hid : ∀ i ∈ List.range count, (s.nextKeyId + UInt64.ofNat i).toNat = s.nextKeyId.toNat + i := by
    intro i hi
    rw [List.mem_range] at hi
    rw [UInt64.toNat_add, UInt64.toNat_ofNat', Nat.mod_eq_of_lt (show i < 2 ^ 64 by omega),
      Nat.mod_eq_of_lt (by omega)]
  rw [List.pairwise_append]
  refine ⟨Std.TreeMap.ordered_keys_toList.imp compare_keyId_eq_lt.mp, ?_, ?_⟩
  · rw [newEntries, List.pairwise_map]
    refine List.pairwise_lt_range.imp_of_mem fun hi hj hij => ?_
    rw [UInt64.lt_iff_toNat_lt, hid _ hi, hid _ hj]
    omega
  · rintro ⟨k, v⟩ hk b hb
    rw [newEntries, List.mem_map] at hb
    obtain ⟨i, hi, rfl⟩ := hb
    have hk' := hlt k (Std.TreeMap.mem_of_mem_toList hk)
    rw [UInt64.lt_iff_toNat_lt] at hk' ⊢
    dsimp only
    rw [hid _ hi]
    omega

end OneTimeKeys

/-- The one-time key store over every run: the index of public keys is the
inverse of the stored keys, the unpublished keys are those generated since the
last publication, at most `MAX_ONE_TIME_KEYS` keys are kept, all below the
counter; and `generate` creates one key per turn, drops the entries with the
smallest ids and returns their public keys, and keeps the entries with the
largest ids. -/
theorem oneTimeKeys_reachable_invariant (P : Primitives) :
    (∀ s used sinceMark, OneTimeKeys.Reachable P s used sinceMark →
      (∀ publicKey keyId,
        s.keyIdsByKey[publicKey]? = some keyId ↔ s.publicKeyOf P keyId = some publicKey) ∧
      (∀ keyId publicKey, s.unpublishedPublicKeys[keyId]? = some publicKey ↔
        keyId ∈ sinceMark ∧ s.publicKeyOf P keyId = some publicKey) ∧
      s.privateKeys.size ≤ OneTimeKeys.maxOneTimeKeys ∧
      ∀ keyId ∈ s.privateKeys, keyId.id < s.nextKeyId) ∧
    ∀ s used sinceMark, OneTimeKeys.Reachable P s used sinceMark →
      ∀ count freshKey, s.nextKeyId.toNat + count < 2 ^ 64 →
        let entries := s.privateKeys.toList ++ s.newEntries count freshKey
        let r := s.generate P count freshKey
        r.1.created.length = count ∧ r.1.created = OneTimeKeys.freshPublicKeys P count freshKey ∧
        entries.Pairwise (fun a b => a.1.id < b.1.id) ∧
        r.1.removed = (entries.take (entries.length - OneTimeKeys.maxOneTimeKeys)).map
          (fun e => P.x25519PublicKey e.2) ∧
        r.2.privateKeys.toList = entries.drop (entries.length - OneTimeKeys.maxOneTimeKeys) ∧
        r.2.privateKeys.size = min OneTimeKeys.maxOneTimeKeys (s.privateKeys.size + count) := by
  refine ⟨fun s used sinceMark hs => ?_, fun s used sinceMark hs count freshKey hwrap => ?_⟩
  · have h := hs.invariant
    exact ⟨h.keyIdsByKey_iff, h.unpublished_iff, h.size_le, h.lt_nextKeyId⟩
  · have h := hs.invariant
    obtain ⟨h1, h2, h3, -⟩ := OneTimeKeys.generate_spec s count freshKey h.size_le h.lt_nextKeyId hwrap
    have hlen : (s.privateKeys.toList ++ s.newEntries count freshKey).length =
        s.privateKeys.size + count := by
      rw [List.length_append, Std.TreeMap.length_toList, OneTimeKeys.length_newEntries]
    -- the queue of `generate_spec` is the list of all entries with the oldest dropped
    have hkept : (s.generate P count freshKey).2.privateKeys.toList =
        (s.privateKeys.toList ++ s.newEntries count freshKey).drop
          (s.privateKeys.size + count - OneTimeKeys.maxOneTimeKeys) := by
      rw [h1, ArrayVec.toList_foldl_pushEvicting]
      dsimp only
      rw [Std.TreeMap.length_toList, OneTimeKeys.length_newEntries]
    dsimp only
    rw [hlen]
    refine ⟨?_, h3, OneTimeKeys.pairwise_entries s freshKey h.lt_nextKeyId hwrap, h2, hkept, ?_⟩
    · rw [h3, OneTimeKeys.freshPublicKeys, List.length_map, List.length_range]
    · rw [← Std.TreeMap.length_toList, hkept, List.length_drop, hlen]
      omega

/-- Distinct keys for the sample: the key of `i` carries `i` in its first two bytes. -/
def sampleKey (i : ℕ) : Curve25519SecretKey :=
  ⟨⟨[UInt8.ofNat i, UInt8.ofNat (i / 256)] ++ List.replicate 30 0, by simp⟩⟩

/-- The sample's keys below `2 ^ 16` have distinct public keys. -/
theorem sampleKey_injOn {i j : ℕ} (hi : i < 65536) (hj : j < 65536)
    (h : Primitives.toy.x25519PublicKey (sampleKey i) = Primitives.toy.x25519PublicKey (sampleKey j)) :
    i = j := by
  have hl := congrArg (fun k : Curve25519PublicKey => k.inner.toList) h
  simp only [Primitives.toy, sampleKey, List.Vector.toList_mk, List.cons_append, List.cons.injEq] at hl
  obtain ⟨h0, h1, -⟩ := hl
  have h0' := congrArg UInt8.toNat h0
  have h1' := congrArg UInt8.toNat h1
  simp only [UInt8.toNat_ofNat', Nat.reducePow] at h0' h1'
  omega

/-- A store filled with `MAX_ONE_TIME_KEYS` keys drops the first key generated
when one more is generated, and stays full. -/
theorem oneTimeKeys_reachable_invariant_full :
    ((OneTimeKeys.new.generate Primitives.toy 5000 sampleKey).2.generate Primitives.toy 1
        fun _ => sampleKey 5000).1.removed = [Primitives.toy.x25519PublicKey (sampleKey 0)] ∧
      ((OneTimeKeys.new.generate Primitives.toy 5000 sampleKey).2.generate Primitives.toy 1
        fun _ => sampleKey 5000).2.privateKeys.size = OneTimeKeys.maxOneTimeKeys := by
  have hnodup : (OneTimeKeys.freshPublicKeys Primitives.toy 5000 sampleKey).Nodup :=
    List.Nodup.map_on (fun i hi j hj h => sampleKey_injOn (by simp at hi; omega) (by simp at hj; omega) h)
      List.nodup_range
  have hs : OneTimeKeys.Reachable Primitives.toy (OneTimeKeys.new.generate Primitives.toy 5000 sampleKey).2
      ([] ++ OneTimeKeys.freshPublicKeys Primitives.toy 5000 sampleKey)
      ([] ++ (OneTimeKeys.newEntries OneTimeKeys.new 5000 sampleKey).map Prod.fst) :=
    .generate 5000 sampleKey .new (by decide) hnodup (fun _ _ h => List.not_mem_nil h)
  -- the first call fills the store with the 5000 keys, oldest first
  obtain ⟨-, -, -, -, hkept, hsize⟩ :=
    (oneTimeKeys_reachable_invariant Primitives.toy).2 _ _ _ .new 5000 sampleKey (by decide)
  have hbound : (OneTimeKeys.new.generate Primitives.toy 5000 sampleKey).2.nextKeyId.toNat + 1 < 2 ^ 64 := by
    rw [OneTimeKeys.toNat_nextKeyId_generate _ _ (by decide)]
    decide
  -- the second finds it full and drops the oldest
  obtain ⟨-, -, -, hremoved, -, hsize'⟩ :=
    (oneTimeKeys_reachable_invariant Primitives.toy).2 _ _ _ hs 1 (fun _ => sampleKey 5000) hbound
  have hmax : OneTimeKeys.maxOneTimeKeys = 5000 := rfl
  have hlist : (OneTimeKeys.new.generate Primitives.toy 5000 sampleKey).2.privateKeys.toList =
      OneTimeKeys.newEntries OneTimeKeys.new 5000 sampleKey := by
    rw [hkept]
    simp [OneTimeKeys.new, hmax]
  have hfirst : OneTimeKeys.newEntries OneTimeKeys.new 5000 sampleKey =
      (⟨OneTimeKeys.new.nextKeyId + UInt64.ofNat 0⟩, sampleKey 0) ::
        (List.range 4999).map fun i => (⟨OneTimeKeys.new.nextKeyId + UInt64.ofNat (i + 1)⟩, sampleKey (i + 1)) := by
    rw [OneTimeKeys.newEntries, List.range_succ_eq_map, List.map_cons, List.map_map]
    rfl
  refine ⟨?_, ?_⟩
  · rw [hremoved, hlist, List.length_append, OneTimeKeys.length_newEntries,
      OneTimeKeys.length_newEntries, hmax, hfirst]
    rfl
  · rw [hsize', hsize]
    simp [OneTimeKeys.new, hmax]

end Vodozemac.Olm
