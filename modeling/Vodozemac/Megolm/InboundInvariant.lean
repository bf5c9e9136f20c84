import Vodozemac.Megolm.RatchetAdvance
import Vodozemac.Megolm.InboundGroupSession

/-!
# The ratchets of a reachable inbound session

An inbound session starts with its latest ratchet equal to its initial one
(`new`, `import`, a pickle, a merge), and every call keeps the latest ratchet
the initial one advanced to the latest index (`Inv`): `find_ratchet` only ever
moves it by `advance_to` from the latest or from the initial ratchet, and
`advance_to` of the session advances the initial ratchet past the latest one
or keeps the latest one beyond it.

Under the invariant `find_ratchet i` is a function of the initial ratchet
alone (`findRatchet_spec`): the initial ratchet advanced to `i` when
`i` is at least the first known index, and nothing otherwise. So is everything
built on it: `export_at`, the cipher of `decrypt`, and `get_cipher_at`, which
does not look at the latest ratchet at all.

`Reachable` lists the calls; in a call on two sessions, the other session may
be any session.
-/

namespace Vodozemac.Megolm

namespace InboundGroupSession

open Ratchet

variable (P : Primitives)

/-- The ratchet of a session at index `i`: the initial ratchet advanced from the
first known index to `i`. -/
def ratchetAt (s : InboundGroupSession) (i : UInt32) : Ratchet :=
  (advance P)^[i.toNat - s.firstKnownIndex.toNat] s.initialRatchet

/-- The invariant of a session: the latest ratchet is the initial one advanced
to the latest index. -/
structure Inv (s : InboundGroupSession) : Prop where
  index_le : s.initialRatchet.index ≤ s.latestRatchet.index
  latest_eq : s.latestRatchet =
    (advance P)^[s.latestRatchet.index.toNat - s.initialRatchet.index.toNat] s.initialRatchet

variable {P}

theorem ratchetAt_eq_advanceTo {s : InboundGroupSession} {i : UInt32}
    (h : s.firstKnownIndex ≤ i) : s.ratchetAt P i = s.initialRatchet.advanceTo P i :=
  (advanceTo_of_le h).symm

theorem index_ratchetAt {s : InboundGroupSession} {i : UInt32} (h : s.firstKnownIndex ≤ i) :
    (s.ratchetAt P i).index = i := by
  have hi := UInt32.le_iff_toNat_le.mp h
  simp only [ratchetAt, firstKnownIndex, index] at hi ⊢
  apply UInt32.toNat_inj.mp
  rw [counter_iterate_advance_toNat _ (by have := i.toNat_lt; omega)]
  omega

/-- A session whose latest ratchet is its initial one satisfies the invariant. -/
theorem inv_of_latest_eq {s : InboundGroupSession} (h : s.latestRatchet = s.initialRatchet) :
    Inv P s :=
  ⟨by rw [h]; exact UInt32.le_iff_toNat_le.mpr le_rfl, by rw [h, Nat.sub_self]; rfl⟩

/-! ### `find_ratchet` -/

/-- Under the invariant, `find_ratchet i` gives the ratchet at `i` from the first
known index on, and leaves the session as it was or with that ratchet as its
latest one. -/
theorem findRatchet_spec {s : InboundGroupSession} (hs : Inv P s) (i : UInt32) :
    (s.findRatchet P i).1 = (if s.firstKnownIndex ≤ i then some (s.ratchetAt P i) else none) ∧
      ((s.findRatchet P i).2 = s ∨
        (s.firstKnownIndex ≤ i ∧
          (s.findRatchet P i).2 = { s with latestRatchet := s.ratchetAt P i })) := by
  obtain ⟨hle, hlatest⟩ := hs
  have hI := UInt32.le_iff_toNat_le.mp hle
  simp only [ratchetAt]
  unfold findRatchet
  by_cases h1 : s.initialRatchet.index = i
  · -- the initial ratchet is at `i`
    subst h1
    simp [firstKnownIndex]
  rw [if_neg h1]
  by_cases h2 : s.latestRatchet.index = i
  · -- the latest ratchet is at `i`
    subst h2
    simp [hle, ← hlatest, firstKnownIndex]
  rw [if_neg h2]
  by_cases h3 : s.latestRatchet.index < i
  · -- the latest ratchet is below `i`: `advance_to` continues its run
    have h3' := UInt32.lt_iff_toNat_lt.mp h3
    have hle' : s.firstKnownIndex ≤ i :=
      UInt32.le_iff_toNat_le.mpr (show s.initialRatchet.index.toNat ≤ i.toNat by omega)
    have hrun : s.latestRatchet.advanceTo P i =
        (advance P)^[i.toNat - s.firstKnownIndex.toNat] s.initialRatchet := by
      rw [hlatest]
      exact advanceTo_iterate_advance (by simp only [index] at hI h3' ⊢; omega)
    rw [if_pos h3, if_pos hle', hrun]
    exact ⟨rfl, .inr ⟨hle', rfl⟩⟩
  rw [if_neg h3]
  by_cases h4 : s.initialRatchet.index < i
  · -- `i` lies between the initial and the latest ratchet: restart from the initial one
    have hle' : s.firstKnownIndex ≤ i := UInt32.le_of_lt h4
    rw [if_pos h4, if_pos hle', advanceTo_of_le hle']
    exact ⟨rfl, .inr ⟨hle', rfl⟩⟩
  · -- below the first known index nothing is found
    have hlt : ¬ s.firstKnownIndex ≤ i := fun h => h4 (UInt32.lt_of_le_of_ne h h1)
    rw [if_neg h4, if_neg hlt]
    exact ⟨rfl, .inl rfl⟩

/-- `find_ratchet` keeps the invariant. -/
theorem inv_findRatchet {s : InboundGroupSession} (hs : Inv P s) (i : UInt32) :
    Inv P (s.findRatchet P i).2 := by
  rcases (findRatchet_spec hs i).2 with h | ⟨hle, h⟩
  · rw [h]
    exact hs
  · -- the new latest ratchet is the ratchet at `i`
    rw [h]
    have hidx := index_ratchetAt (P := P) hle
    refine ⟨?_, ?_⟩
    · change s.initialRatchet.index ≤ (s.ratchetAt P i).index
      rw [hidx]
      exact hle
    · change s.ratchetAt P i =
        (advance P)^[(s.ratchetAt P i).index.toNat - s.initialRatchet.index.toNat] s.initialRatchet
      rw [hidx]
      rfl

/-- `advance_to` of the session keeps the invariant. -/
theorem inv_advanceTo {s : InboundGroupSession} (hs : Inv P s) (index : UInt32) :
    Inv P (s.advanceTo P index).2 := by
  unfold advanceTo
  split_ifs with h hL
  · exact inv_of_latest_eq rfl
  · -- the latest ratchet stays beyond `index`, on the run of the new initial one
    obtain ⟨hle, hlatest⟩ := hs
    have hfk : s.firstKnownIndex ≤ index := UInt32.le_of_lt h
    have hinit : s.initialRatchet.advanceTo P index = s.ratchetAt P index :=
      (ratchetAt_eq_advanceTo hfk).symm
    have hidx := index_ratchetAt (P := P) hfk
    have h1 := UInt32.le_iff_toNat_le.mp hfk
    have h2 : index.toNat ≤ s.latestRatchet.index.toNat := by
      have := UInt32.lt_iff_toNat_lt.not.mp hL
      omega
    refine ⟨?_, ?_⟩
    · change (s.initialRatchet.advanceTo P index).index ≤ s.latestRatchet.index
      rw [hinit, hidx]
      exact UInt32.le_iff_toNat_le.mpr h2
    · change s.latestRatchet = (advance P)^[s.latestRatchet.index.toNat -
        (s.initialRatchet.advanceTo P index).index.toNat] (s.initialRatchet.advanceTo P index)
      rw [hinit, hidx, ratchetAt, ← Function.iterate_add_apply]
      conv_lhs => rw [hlatest]
      congr 1
      change index.toNat ≤ s.latestRatchet.index.toNat at h2
      simp only [firstKnownIndex] at h1 ⊢
      omega
  · exact hs

/-- The sessions after `connected` keep the invariant. -/
theorem inv_connected {s other : InboundGroupSession} :
    (Inv P s → Inv P (s.connected P other).2.1) ∧
      (Inv P other → Inv P (s.connected P other).2.2) := by
  obtain ⟨h1, h2⟩ := connected_states (P := P) s other
  refine ⟨fun hs => ?_, fun ho => ?_⟩
  · rcases h1 with h | h <;> rw [h]
    · exact hs
    · exact inv_findRatchet hs _
  · rcases h2 with h | h <;> rw [h]
    · exact ho
    · exact inv_findRatchet ho _

/-- `decrypt` keeps the invariant, whatever the message. -/
theorem inv_decrypt {s : InboundGroupSession} (hs : Inv P s) (message : MegolmMessage) :
    Inv P (s.decrypt P message).2 := by
  rcases decrypt_state (P := P) s message with h | h <;> rw [h]
  · exact hs
  · exact inv_findRatchet hs _

/-- A merged session starts at its best initial ratchet. -/
theorem inv_merge {s other m : InboundGroupSession} (h : (s.merge P other).1 = some m) :
    Inv P m := by
  unfold merge at h
  generalize s.compare P other = result at h
  obtain ⟨ordering, s', o'⟩ := result
  apply inv_of_latest_eq
  cases ordering <;> simp only [Option.map_some, Option.map_none, Option.some.injEq,
    reduceCtorEq] at h <;> rw [← h]

/-! ### Reachable sessions -/

/-- The sessions a program can hold: those it builds, and those the calls turn
them into. The other session of `connected`, `compare` and `merge` may be any
session. -/
inductive Reachable (P : Primitives) : InboundGroupSession → Prop
  | new (key : SessionKey) (config : SessionConfig) : Reachable P (new key config)
  | «import» (key : ExportedSessionKey) (config : SessionConfig) :
      Reachable P (InboundGroupSession.import key config)
  | fromPickle (pickle : InboundGroupSessionPickle) : Reachable P (fromPickle pickle)
  | merged {s other m : InboundGroupSession} :
      (s.merge P other).1 = some m → Reachable P m
  | advanceTo {s : InboundGroupSession} (index : UInt32) :
      Reachable P s → Reachable P (s.advanceTo P index).2
  | decrypt {s : InboundGroupSession} (message : MegolmMessage) :
      Reachable P s → Reachable P (s.decrypt P message).2
  | exportAt {s : InboundGroupSession} (index : UInt32) :
      Reachable P s → Reachable P (s.exportAt P index).2
  | connectedSelf {s : InboundGroupSession} (other : InboundGroupSession) :
      Reachable P s → Reachable P (s.connected P other).2.1
  | connectedOther (s : InboundGroupSession) {other : InboundGroupSession} :
      Reachable P other → Reachable P (s.connected P other).2.2
  | compareSelf {s : InboundGroupSession} (other : InboundGroupSession) :
      Reachable P s → Reachable P (s.compare P other).2.1
  | compareOther (s : InboundGroupSession) {other : InboundGroupSession} :
      Reachable P other → Reachable P (s.compare P other).2.2
  | mergeSelf {s : InboundGroupSession} (other : InboundGroupSession) :
      Reachable P s → Reachable P (s.merge P other).2.1
  | mergeOther (s : InboundGroupSession) {other : InboundGroupSession} :
      Reachable P other → Reachable P (s.merge P other).2.2

/-- Every reachable session satisfies the invariant. -/
theorem Reachable.inv {s : InboundGroupSession} (h : Reachable P s) : Inv P s := by
  induction h with
  | new => exact inv_of_latest_eq rfl
  | «import» => exact inv_of_latest_eq rfl
  | fromPickle => exact inv_of_latest_eq rfl
  | merged hm => exact inv_merge hm
  | advanceTo index _ ih => exact inv_advanceTo ih index
  | decrypt message _ ih => exact inv_decrypt ih message
  | exportAt index _ ih => exact inv_findRatchet ih index
  | connectedSelf _ _ ih => exact inv_connected.1 ih
  | connectedOther _ _ ih => exact inv_connected.2 ih
  | compareSelf _ _ ih => rw [compare_states]; exact inv_connected.1 ih
  | compareOther _ _ ih => rw [compare_states]; exact inv_connected.2 ih
  | mergeSelf _ _ ih => rw [merge_states, compare_states]; exact inv_connected.1 ih
  | mergeOther _ _ ih => rw [merge_states, compare_states]; exact inv_connected.2 ih

/-! ### What a reachable session answers -/

theorem findRatchet_fst {s : InboundGroupSession} (hs : Inv P s) (i : UInt32) :
    (s.findRatchet P i).1 =
      if s.firstKnownIndex ≤ i then some (s.initialRatchet.advanceTo P i) else none := by
  rw [(findRatchet_spec hs i).1]
  split_ifs with h
  · rw [ratchetAt_eq_advanceTo h]
  · rfl

/-- `get_cipher_at` builds the cipher of the initial ratchet advanced to the index,
in every state. -/
theorem getCipherAt_eq (s : InboundGroupSession) (i : UInt32) :
    s.getCipherAt P i = if s.firstKnownIndex ≤ i then
      some (Cipher.newMegolm P (s.initialRatchet.advanceTo P i).asBytes) else none := by
  unfold getCipherAt
  change _ = if s.initialRatchet.index ≤ i then _ else _
  split_ifs with h1 h2
  · rfl
  · -- at the first known index `advance_to` does nothing
    have he : s.initialRatchet.index = i := by
      have := UInt32.lt_iff_toNat_lt.not.mp h2
      exact UInt32.toNat_inj.mp (by have := UInt32.le_iff_toNat_le.mp h1; omega)
    rw [advanceTo_of_le h1, ← he]
    exact congrArg (fun r => some (Cipher.newMegolm P (Ratchet.asBytes r)))
      (by rw [show s.initialRatchet.index.toNat - s.initialRatchet.counter.toNat = 0 from
        Nat.sub_self _]; rfl)
  · rfl

/-- Under the invariant, a message with a valid signature is decrypted with the
cipher of the initial ratchet advanced to its index, or refused below the first
known index. -/
theorem decrypt_fst {s : InboundGroupSession} (hs : Inv P s) (message : MegolmMessage)
    (hsig : s.signingKey.verify P message.toSignatureBytes message.signature = .ok ()) :
    (s.decrypt P message).1 =
      if s.firstKnownIndex ≤ message.messageIndex then
        s.decryptWithCipher P
          (Cipher.newMegolm P (s.initialRatchet.advanceTo P message.messageIndex).asBytes) message
      else .error (.unknownMessageIndex s.firstKnownIndex message.messageIndex) := by
  have hfst := findRatchet_fst hs message.messageIndex
  have hcfg := config_findRatchet (P := P) s message.messageIndex
  have hinit := initialRatchet_findRatchet (P := P) s message.messageIndex
  simp only [decrypt, hsig]
  generalize s.findRatchet P message.messageIndex = found at hfst hcfg hinit
  obtain ⟨_ | ratchet, s'⟩ := found
  · split_ifs at hfst with hle
    rw [if_neg hle]
    simp only at hinit ⊢
    rw [hinit]
    rfl
  · split_ifs at hfst with hle
    rw [if_pos hle, ← Option.some.inj hfst]
    exact decryptWithCipher_congr hcfg _ _

theorem reachable_session_ratchets {s : InboundGroupSession} (hs : Reachable P s) :
    (s.initialRatchet.index ≤ s.latestRatchet.index ∧
      s.latestRatchet = (advance P)^[s.latestRatchet.index.toNat - s.initialRatchet.index.toNat]
        s.initialRatchet) ∧
    (∀ i : UInt32,
      ((s.findRatchet P i).1.isSome ↔ s.firstKnownIndex ≤ i) ∧
      (∀ r, (s.findRatchet P i).1 = some r → r = s.initialRatchet.advanceTo P i) ∧
      (s.exportAt P i).1 = (if s.firstKnownIndex ≤ i then
        some (ExportedSessionKey.new (s.initialRatchet.advanceTo P i) s.signingKey) else none) ∧
      s.getCipherAt P i = (if s.firstKnownIndex ≤ i then
        some (Cipher.newMegolm P (s.initialRatchet.advanceTo P i).asBytes) else none)) ∧
    (∀ m : MegolmMessage, s.signingKey.verify P m.toSignatureBytes m.signature = .ok () →
      (s.decrypt P m).1 = if s.firstKnownIndex ≤ m.messageIndex then
          s.decryptWithCipher P
            (Cipher.newMegolm P (s.initialRatchet.advanceTo P m.messageIndex).asBytes) m
        else .error (.unknownMessageIndex s.firstKnownIndex m.messageIndex)) ∧
    ∀ other : InboundGroupSession, (s.findRatchet P other.firstKnownIndex).1 = none →
      (other.findRatchet P s.firstKnownIndex).1.isSome := by
  have hinv := hs.inv
  refine ⟨⟨hinv.index_le, hinv.latest_eq⟩, fun i => ⟨?_, ?_, ?_, getCipherAt_eq s i⟩,
    fun m hsig => decrypt_fst hinv m hsig, fun other hnone => ?_⟩
  · rw [findRatchet_fst hinv]
    split_ifs with h <;> simp [h]
  · intro r hr
    rw [findRatchet_fst hinv] at hr
    split_ifs at hr
    exact (Option.some.inj hr).symm
  · change Option.map _ (s.findRatchet P i).1 = _
    rw [findRatchet_fst hinv]
    split_ifs <;> rfl
  · -- the `unreachable!()` of `connected`
    rw [Option.isSome_iff_ne_none]
    exact fun ho => not_findRatchet_none_both s other ⟨hnone, ho⟩

/-- A restored session at index 7 whose cache `export_at 10` moved to index 10. -/
theorem reachable_session_ratchets_exportAt :
    let s := ((fromPickle ⟨⟨fun _ => Bytes.zero 32, 7⟩, ⟨Bytes.zero 32⟩, false,
      SessionConfig.version2⟩).exportAt Primitives.toy 10).2
    s.latestRatchet.index = 10 ∧
    (s.initialRatchet.index ≤ s.latestRatchet.index ∧
      s.latestRatchet = (advance Primitives.toy)^[s.latestRatchet.index.toNat -
        s.initialRatchet.index.toNat] s.initialRatchet) ∧
    (∀ i : UInt32,
      ((s.findRatchet Primitives.toy i).1.isSome ↔ s.firstKnownIndex ≤ i) ∧
      (∀ r, (s.findRatchet Primitives.toy i).1 = some r →
        r = s.initialRatchet.advanceTo Primitives.toy i) ∧
      (s.exportAt Primitives.toy i).1 = (if s.firstKnownIndex ≤ i then
        some (ExportedSessionKey.new (s.initialRatchet.advanceTo Primitives.toy i) s.signingKey)
        else none) ∧
      s.getCipherAt Primitives.toy i = (if s.firstKnownIndex ≤ i then
        some (Cipher.newMegolm Primitives.toy (s.initialRatchet.advanceTo Primitives.toy i).asBytes)
        else none)) ∧
    (∀ m : MegolmMessage,
      s.signingKey.verify Primitives.toy m.toSignatureBytes m.signature = .ok () →
      (s.decrypt Primitives.toy m).1 = if s.firstKnownIndex ≤ m.messageIndex then
          s.decryptWithCipher Primitives.toy (Cipher.newMegolm Primitives.toy
            (s.initialRatchet.advanceTo Primitives.toy m.messageIndex).asBytes) m
        else .error (.unknownMessageIndex s.firstKnownIndex m.messageIndex)) ∧
    ∀ other : InboundGroupSession,
      (s.findRatchet Primitives.toy other.firstKnownIndex).1 = none →
      (other.findRatchet Primitives.toy s.firstKnownIndex).1.isSome :=
  ⟨by decide +kernel, reachable_session_ratchets ((Reachable.fromPickle _).exportAt 10)⟩

end InboundGroupSession

end Vodozemac.Megolm
