import Mathlib
import Vodozemac.Megolm.Observation

/-!
# Replacing an inbound session by a better one

`InboundGroupSession::connected` says when two sessions are one Megolm session
at different indices, and then "the session with the lower message index can
safely replace the one with the higher message index". This module proves that
replacement safe. A session connected to `t` whose first known index is no
larger answers `decrypt` and `export_at` as `t` does at every index `t` knows
(`decrypt_fst_of_connected`, `exportAt_fst_of_connected`), and so decrypts
every message `t` decrypts, to the same plaintext. Two consequences follow for
reachable sessions. A session that `compare` finds `Better` or `Equal` may
stand in for the other (`compare_replaces`). The session `merge` builds
answers as each of the two sessions at every index that session knows
(`merge_answers`).

`compare_merge_connected` gathers what the three calls on two sessions do:
`compare` is antisymmetric, descendants of one group session are connected,
`merge` succeeds on connected sessions with a session no worse than either,
and the calls move only the caches, so no later sequence of calls tells the
sessions they leave from the ones they were given
(`SameUpToCache.responses_eq`).
-/

namespace Vodozemac.Megolm

namespace Ratchet

variable {P : Primitives}

/-- Two ratchets of one chain agree once both are advanced to an index past
them. -/
theorem SameChain.advanceTo_eq {r q : Ratchet} (h : SameChain P r q) {i : UInt32}
    (hr : r.index ≤ i) (hq : q.index ≤ i) : r.advanceTo P i = q.advanceTo P i := by
  rw [advanceTo_of_le hr, advanceTo_of_le hq]
  exact h i.toNat (UInt32.le_iff_toNat_le.mp hr) (UInt32.le_iff_toNat_le.mp hq)

end Ratchet

namespace InboundGroupSession

open Ratchet

variable {P : Primitives}

section Connected

variable {s t : InboundGroupSession} (hs : Inv P s) (ht : Inv P t) (hconn : Connected P s t)
  (hle : s.firstKnownIndex ≤ t.firstKnownIndex)
include hs ht hconn hle

omit hs ht in
/-- Past the first known index of `t`, `s` advances its initial ratchet to the
ratchet of `t`. -/
theorem advanceTo_eq_of_connected {i : UInt32} (hi : t.firstKnownIndex ≤ i) :
    s.initialRatchet.advanceTo P i = t.initialRatchet.advanceTo P i :=
  hconn.2.2.advanceTo_eq (UInt32.le_trans hle hi) hi

theorem decrypt_fst_of_connected {message : MegolmMessage}
    (hi : t.firstKnownIndex ≤ message.messageIndex) :
    (s.decrypt P message).1 = (t.decrypt P message).1 := by
  -- both check the one signing key; past it both decrypt with one cipher
  cases hsig : s.signingKey.verify P message.toSignatureBytes message.signature with
  | error e =>
      have hsig' : t.signingKey.verify P message.toSignatureBytes message.signature = .error e := by
        rw [← hconn.2.1, hsig]
      simp only [decrypt, hsig, hsig']
  | ok u =>
      have hsig' : t.signingKey.verify P message.toSignatureBytes message.signature = .ok u := by
        rw [← hconn.2.1, hsig]
      rw [decrypt_fst hs message hsig, decrypt_fst ht message hsig', if_pos (UInt32.le_trans hle hi),
        if_pos hi, advanceTo_eq_of_connected hconn hle hi, decryptWithCipher_congr hconn.1]

theorem exportAt_fst_of_connected {index : UInt32} (hi : t.firstKnownIndex ≤ index) :
    (s.exportAt P index).1 = (t.exportAt P index).1 := by
  change Option.map _ (s.findRatchet P index).1 = Option.map _ (t.findRatchet P index).1
  rw [findRatchet_fst hs, findRatchet_fst ht, if_pos (UInt32.le_trans hle hi), if_pos hi,
    advanceTo_eq_of_connected hconn hle hi, hconn.2.1]

theorem decrypt_ok_of_connected {message : MegolmMessage} {decrypted : DecryptedMessage}
    (h : (t.decrypt P message).1 = .ok decrypted) : (s.decrypt P message).1 = .ok decrypted := by
  rw [decrypt_fst_of_connected hs ht hconn hle (firstKnownIndex_le_of_decrypt ht h), h]

end Connected

theorem firstKnownIndex_merge_le {a b m : InboundGroupSession} (hm : (a.merge P b).1 = some m) :
    m.firstKnownIndex ≤ a.firstKnownIndex ∧ m.firstKnownIndex ≤ b.firstKnownIndex := by
  rw [firstKnownIndex_merge hm, UInt32.min_def]
  split_ifs with hle
  · exact ⟨UInt32.le_refl _, hle⟩
  · exact ⟨UInt32.le_of_lt (UInt32.not_le.mp hle), UInt32.le_refl _⟩

/-- For two reachable sessions: `compare` from either side is the mirror image;
descendants of one group session without a wrap of its index are connected;
`merge` succeeds exactly on connected sessions, with the smaller first known
index, the two flags or-ed, and no worse than either; and none of the three
calls changes what any later sequence of calls on either session returns. -/
theorem compare_merge_connected {a b : InboundGroupSession} (ha : Reachable P a)
    (hb : Reachable P b) :
    (b.compare P a).1 = (a.compare P b).1.swap ∧
    (∀ (g : GroupSession) (N : ℕ), g.messageIndex.toNat + N < 2 ^ 32 →
      Descends P g N a → Descends P g N b → (a.connected P b).1 = true) ∧
    (a.merge P b).1.isSome = (a.connected P b).1 ∧
    (∀ m, (a.merge P b).1 = some m →
      m.firstKnownIndex = min a.firstKnownIndex b.firstKnownIndex ∧
      m.signingKeyVerified = (a.signingKeyVerified || b.signingKeyVerified) ∧
      ((m.compare P a).1 = .equal ∨ (m.compare P a).1 = .better) ∧
      ((m.compare P b).1 = .equal ∨ (m.compare P b).1 = .better)) ∧
    ∀ t ∈ [(a.connected P b).2, (a.compare P b).2, (a.merge P b).2],
      AnswersAlike P a t.1 ∧ AnswersAlike P b t.2 ∧
        ∀ requests, responses P t.1 requests = responses P a requests ∧
          responses P t.2 requests = responses P b requests := by
  have hia := ha.inv
  have hib := hb.inv
  -- the three calls leave both sessions as `connected` does
  have hcache : AnswersAlike P a (a.connected P b).2.1 ∧ AnswersAlike P b (a.connected P b).2.2 ∧
      ∀ requests, responses P (a.connected P b).2.1 requests = responses P a requests ∧
        responses P (a.connected P b).2.2 requests = responses P b requests :=
    ⟨(sameUpToCache_connected a b).1.answersAlike hia (inv_connected.1 hia),
      (sameUpToCache_connected a b).2.answersAlike hib (inv_connected.2 hib),
      fun requests => ⟨(sameUpToCache_connected a b).1.responses_eq hia (inv_connected.1 hia) requests,
        (sameUpToCache_connected a b).2.responses_eq hib (inv_connected.2 hib) requests⟩⟩
  refine ⟨compare_swap hia hib, ?_, merge_fst_isSome a b, ?_, ?_⟩
  · intro g N hN hda hdb
    exact (connected_iff hia hib).mpr ((hda.follows hN).connected (hdb.follows hN))
  · intro m hm
    exact ⟨firstKnownIndex_merge hm, (merge_fst_eq hm).2.2.2.1, merge_compare hia hib hm⟩
  · simp only [List.mem_cons, List.not_mem_nil, or_false]
    rintro t (rfl | rfl | rfl)
    · exact hcache
    · rw [compare_states]
      exact hcache
    · rw [merge_states, compare_states]
      exact hcache

/-- The group session of the sample, at index 0. -/
def sampleGroup : GroupSession :=
  GroupSession.new SessionConfig.version2 ⟨.normal (Bytes.zero 32)⟩ (Bytes.zero 128)

/-- The inbound sessions of its key at index 0 and, after one message, at
index 1: two descendants of the one group session. -/
def sampleFirst : InboundGroupSession :=
  new ((sampleGroup.encryptAll Primitives.toy []).2.sessionKey Primitives.toy) sampleGroup.sessionConfig

def sampleSecond : InboundGroupSession :=
  new ((sampleGroup.encryptAll Primitives.toy [[1]]).2.sessionKey Primitives.toy)
    sampleGroup.sessionConfig

/-- The two sessions of one group session are connected, so they merge. -/
theorem compare_merge_connected_descends :
    ((sampleSecond.compare Primitives.toy sampleFirst).1 =
        (sampleFirst.compare Primitives.toy sampleSecond).1.swap ∧
      (∀ (g : GroupSession) (N : ℕ), g.messageIndex.toNat + N < 2 ^ 32 →
        Descends Primitives.toy g N sampleFirst → Descends Primitives.toy g N sampleSecond →
          (sampleFirst.connected Primitives.toy sampleSecond).1 = true) ∧
      (sampleFirst.merge Primitives.toy sampleSecond).1.isSome =
        (sampleFirst.connected Primitives.toy sampleSecond).1 ∧
      (∀ m, (sampleFirst.merge Primitives.toy sampleSecond).1 = some m →
        m.firstKnownIndex = min sampleFirst.firstKnownIndex sampleSecond.firstKnownIndex ∧
        m.signingKeyVerified = (sampleFirst.signingKeyVerified || sampleSecond.signingKeyVerified) ∧
        ((m.compare Primitives.toy sampleFirst).1 = .equal ∨
          (m.compare Primitives.toy sampleFirst).1 = .better) ∧
        ((m.compare Primitives.toy sampleSecond).1 = .equal ∨
          (m.compare Primitives.toy sampleSecond).1 = .better)) ∧
      ∀ t ∈ [(sampleFirst.connected Primitives.toy sampleSecond).2,
          (sampleFirst.compare Primitives.toy sampleSecond).2,
          (sampleFirst.merge Primitives.toy sampleSecond).2],
        AnswersAlike Primitives.toy sampleFirst t.1 ∧ AnswersAlike Primitives.toy sampleSecond t.2 ∧
          ∀ requests, responses Primitives.toy t.1 requests = responses Primitives.toy sampleFirst requests ∧
            responses Primitives.toy t.2 requests = responses Primitives.toy sampleSecond requests) ∧
    (sampleFirst.connected Primitives.toy sampleSecond).1 = true ∧
      (sampleFirst.merge Primitives.toy sampleSecond).1.isSome = true := by
  have h := compare_merge_connected (P := Primitives.toy) (Reachable.new _ _) (Reachable.new _ _)
    (a := sampleFirst) (b := sampleSecond)
  have hconn := h.2.1 sampleGroup 1 (by decide) (.new [] (by decide)) (.new [[1]] (by decide))
  exact ⟨h, hconn, h.2.2.1.trans hconn⟩

/-- A reachable session that `compare` finds `Better` than or `Equal` to another
reachable session answers `decrypt` and `export_at` as the other does at every
index the other knows, and decrypts every message the other decrypts. -/
theorem compare_replaces {a b : InboundGroupSession} (ha : Reachable P a) (hb : Reachable P b)
    (hcmp : (a.compare P b).1 = .better ∨ (a.compare P b).1 = .equal) :
    (∀ message : MegolmMessage, b.firstKnownIndex ≤ message.messageIndex →
      (a.decrypt P message).1 = (b.decrypt P message).1) ∧
    (∀ index : UInt32, b.firstKnownIndex ≤ index → (a.exportAt P index).1 = (b.exportAt P index).1) ∧
    ∀ (message : MegolmMessage) (decrypted : DecryptedMessage),
      (b.decrypt P message).1 = .ok decrypted → (a.decrypt P message).1 = .ok decrypted := by
  have hia := ha.inv
  have hib := hb.inv
  -- `Better` and `Equal` come only from connected sessions, at a smaller or equal index
  have hconn : (a.connected P b).1 = true := by
    by_contra hnot
    rw [compare_fst, if_neg hnot] at hcmp
    rcases hcmp with h | h <;> cases h
  have hle : a.firstKnownIndex ≤ b.firstKnownIndex := by
    rw [compare_fst, if_pos hconn] at hcmp
    cases hc : Ord.compare a.firstKnownIndex b.firstKnownIndex <;>
      rw [hc] at hcmp <;> simp only [SessionOrdering.ofOrdering, reduceCtorEq, or_false,
        or_true] at hcmp
    · exact UInt32.le_of_lt (Std.compare_eq_lt.mp hc)
    · exact UInt32.le_of_eq (Std.compare_eq_iff_eq.mp hc)
  have hc := (connected_iff hia hib).mp hconn
  exact ⟨fun _ hi => decrypt_fst_of_connected hia hib hc hle hi,
    fun _ hi => exportAt_fst_of_connected hia hib hc hle hi,
    fun _ _ h => decrypt_ok_of_connected hia hib hc hle h⟩

/-- A session advanced past its first known index is replaced by the session
it came from. -/
theorem compare_replaces_advanceTo :
    let a := fromPickle ⟨⟨fun _ => Bytes.zero 32, 3⟩, ⟨Bytes.zero 32⟩, false, SessionConfig.version2⟩
    let b := (a.advanceTo Primitives.toy 5).2
    (∀ message : MegolmMessage, b.firstKnownIndex ≤ message.messageIndex →
      (a.decrypt Primitives.toy message).1 = (b.decrypt Primitives.toy message).1) ∧
    (∀ index : UInt32, b.firstKnownIndex ≤ index →
      (a.exportAt Primitives.toy index).1 = (b.exportAt Primitives.toy index).1) ∧
    ∀ (message : MegolmMessage) (decrypted : DecryptedMessage),
      (b.decrypt Primitives.toy message).1 = .ok decrypted →
        (a.decrypt Primitives.toy message).1 = .ok decrypted :=
  compare_replaces (Reachable.fromPickle _) ((Reachable.fromPickle _).advanceTo 5)
    (.inl (by decide +kernel))

/-- The session `merge` builds from two reachable sessions answers `decrypt`
and `export_at` as each of them at every index that one knows, so it decrypts
every message that either decrypts. -/
theorem merge_answers {a b : InboundGroupSession} (ha : Reachable P a) (hb : Reachable P b) :
    ∀ m, (a.merge P b).1 = some m →
      (∀ message : MegolmMessage, a.firstKnownIndex ≤ message.messageIndex →
        (m.decrypt P message).1 = (a.decrypt P message).1) ∧
      (∀ message : MegolmMessage, b.firstKnownIndex ≤ message.messageIndex →
        (m.decrypt P message).1 = (b.decrypt P message).1) ∧
      (∀ index : UInt32, a.firstKnownIndex ≤ index → (m.exportAt P index).1 = (a.exportAt P index).1) ∧
      (∀ index : UInt32, b.firstKnownIndex ≤ index → (m.exportAt P index).1 = (b.exportAt P index).1) ∧
      ∀ (message : MegolmMessage) (decrypted : DecryptedMessage),
        (a.decrypt P message).1 = .ok decrypted ∨ (b.decrypt P message).1 = .ok decrypted →
          (m.decrypt P message).1 = .ok decrypted := by
  intro m hm
  have hia := ha.inv
  have hib := hb.inv
  have him := inv_merge hm
  obtain ⟨hconn, hinit, hk, -, hcfg⟩ := merge_fst_eq hm
  have hab := (connected_iff hia hib).mp hconn
  -- the merged session starts at the ratchet of the one with the smaller index
  have hma : Connected P m a := ⟨hcfg, hk, by
    rw [hinit]
    split_ifs
    · exact SameChain.refl _
    · exact hab.2.2.symm⟩
  have hmb : Connected P m b := ⟨hcfg.trans hab.1, hk.trans hab.2.1, by
    rw [hinit]
    split_ifs
    · exact hab.2.2
    · exact SameChain.refl _⟩
  obtain ⟨hle_a, hle_b⟩ := firstKnownIndex_merge_le hm
  refine ⟨fun _ hi => decrypt_fst_of_connected him hia hma hle_a hi,
    fun _ hi => decrypt_fst_of_connected him hib hmb hle_b hi,
    fun _ hi => exportAt_fst_of_connected him hia hma hle_a hi,
    fun _ hi => exportAt_fst_of_connected him hib hmb hle_b hi, ?_⟩
  rintro message decrypted (h | h)
  · exact decrypt_ok_of_connected him hia hma hle_a h
  · exact decrypt_ok_of_connected him hib hmb hle_b h

/-- A restored session and the same session advanced to index 5 merge, and the
merged session answers as both. -/
theorem merge_answers_advanceTo :
    let a := fromPickle ⟨⟨fun _ => Bytes.zero 32, 3⟩, ⟨Bytes.zero 32⟩, false, SessionConfig.version2⟩
    let b := (a.advanceTo Primitives.toy 5).2
    (b.merge Primitives.toy a).1.isSome ∧
    ∀ m, (b.merge Primitives.toy a).1 = some m →
      (∀ message : MegolmMessage, b.firstKnownIndex ≤ message.messageIndex →
        (m.decrypt Primitives.toy message).1 = (b.decrypt Primitives.toy message).1) ∧
      (∀ message : MegolmMessage, a.firstKnownIndex ≤ message.messageIndex →
        (m.decrypt Primitives.toy message).1 = (a.decrypt Primitives.toy message).1) ∧
      (∀ index : UInt32, b.firstKnownIndex ≤ index →
        (m.exportAt Primitives.toy index).1 = (b.exportAt Primitives.toy index).1) ∧
      (∀ index : UInt32, a.firstKnownIndex ≤ index →
        (m.exportAt Primitives.toy index).1 = (a.exportAt Primitives.toy index).1) ∧
      ∀ (message : MegolmMessage) (decrypted : DecryptedMessage),
        (b.decrypt Primitives.toy message).1 = .ok decrypted ∨
            (a.decrypt Primitives.toy message).1 = .ok decrypted →
          (m.decrypt Primitives.toy message).1 = .ok decrypted :=
  ⟨by decide +kernel, merge_answers ((Reachable.fromPickle _).advanceTo 5) (Reachable.fromPickle _)⟩

end InboundGroupSession

end Vodozemac.Megolm
