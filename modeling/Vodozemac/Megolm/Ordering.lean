import Vodozemac.Megolm.Decryption

/-!
# Connecting, comparing and merging inbound sessions

`InboundGroupSession::connected` is meant to decide whether two sessions are
one Megolm session at different indices: the same configuration and signing
key, and initial ratchets on one chain of `advance` (`Connected`). On sessions
that satisfy the invariant of `InboundInvariant` it decides exactly that
(`connected_iff`), so it is symmetric, and `compare` seen from the other
session is the mirror image (`compare_swap`). `merge` succeeds exactly on
connected sessions and keeps the better initial ratchet (`merge_fst_eq`), which
is connected to both and no worse than either (`merge_compare`).

The three calls move only the cached latest ratchets (`SameUpToCache`), which
no later `decrypt` or `export_at` can observe (`SameUpToCache.answersAlike`).

Sessions built from keys that one group session hands out lie on the chain of
its ratchet (`Descends.follows`) and so are connected, provided the group
session's index does not wrap around between the keys: across the wrap the
later key's ratchet is no longer the earlier one advanced to the later index.
-/

namespace Vodozemac.Megolm

namespace SessionOrdering

/-- The ordering seen from the other session. -/
def swap : SessionOrdering → SessionOrdering
  | .equal => .equal
  | .better => .worse
  | .worse => .better
  | .unconnected => .unconnected

/-- The `match` of `compare` on the two first known indices. -/
def ofOrdering : Ordering → SessionOrdering
  | .lt => .better
  | .eq => .equal
  | .gt => .worse

theorem ofOrdering_swap (o : Ordering) : ofOrdering o.swap = (ofOrdering o).swap := by
  cases o <;> rfl

end SessionOrdering

namespace Ratchet

variable (P : Primitives)

/-- Two ratchets are one ratchet at two indices: they lie on one chain of
`advance`, each at its own index. -/
def SameChain (r q : Ratchet) : Prop :=
  HashRatchet.OnOneChain (advance P) r r.index.toNat q q.index.toNat

variable {P}

theorem SameChain.refl (r : Ratchet) : SameChain P r r := fun _ _ _ => rfl

theorem SameChain.symm {r q : Ratchet} (h : SameChain P r q) : SameChain P q r :=
  HashRatchet.OnOneChain.symm h

/-- The earlier ratchet of a chain advances to the later one. -/
theorem sameChain_iff_advanceTo {r q : Ratchet} (h : r.index ≤ q.index) :
    SameChain P r q ↔ r.advanceTo P q.index = q := by
  rw [SameChain, HashRatchet.onOneChain_iff (UInt32.le_iff_toNat_le.mp h), advanceTo_of_le h]
  rfl

end Ratchet

namespace InboundGroupSession

open Ratchet

variable (P : Primitives)

/-- What `connected` decides: the same configuration and signing key, and
initial ratchets on one chain. -/
def Connected (s other : InboundGroupSession) : Prop :=
  s.config = other.config ∧ s.signingKey = other.signingKey ∧
    SameChain P s.initialRatchet other.initialRatchet

/-- `t` is `s` with, possibly, another latest ratchet: all that the cache of
`find_ratchet` changes. -/
structure SameUpToCache (s t : InboundGroupSession) : Prop where
  initialRatchet_eq : t.initialRatchet = s.initialRatchet
  signingKey_eq : t.signingKey = s.signingKey
  signingKeyVerified_eq : t.signingKeyVerified = s.signingKeyVerified
  config_eq : t.config = s.config

/-- Two sessions that no later call tells apart: the same first known index,
and the same result of every `decrypt` and `export_at`. -/
def AnswersAlike (s t : InboundGroupSession) : Prop :=
  t.firstKnownIndex = s.firstKnownIndex ∧
    (∀ message, (t.decrypt P message).1 = (s.decrypt P message).1) ∧
    ∀ index, (t.exportAt P index).1 = (s.exportAt P index).1

variable {P}

theorem Connected.symm {s other : InboundGroupSession} (h : Connected P s other) :
    Connected P other s :=
  ⟨h.1.symm, h.2.1.symm, h.2.2.symm⟩

/-! ### The cache is not observable -/

namespace SameUpToCache

theorem refl (s : InboundGroupSession) : SameUpToCache s s := ⟨rfl, rfl, rfl, rfl⟩

variable {s t : InboundGroupSession}

theorem firstKnownIndex_eq (h : SameUpToCache s t) : t.firstKnownIndex = s.firstKnownIndex :=
  congrArg Ratchet.index h.initialRatchet_eq

theorem decrypt_fst (h : SameUpToCache s t) (hs : Inv P s) (ht : Inv P t)
    (message : MegolmMessage) : (t.decrypt P message).1 = (s.decrypt P message).1 := by
  cases hsig : s.signingKey.verify P message.toSignatureBytes message.signature with
  | error e =>
      have hsig' : t.signingKey.verify P message.toSignatureBytes message.signature = .error e := by
        rw [h.signingKey_eq, hsig]
      simp only [decrypt, hsig, hsig']
  | ok u =>
      cases u
      have hsig' : t.signingKey.verify P message.toSignatureBytes message.signature = .ok () := by
        rw [h.signingKey_eq, hsig]
      rw [InboundGroupSession.decrypt_fst ht message hsig', InboundGroupSession.decrypt_fst hs message hsig,
        h.firstKnownIndex_eq, h.initialRatchet_eq, decryptWithCipher_congr h.config_eq]

theorem exportAt_fst (h : SameUpToCache s t) (hs : Inv P s) (ht : Inv P t) (index : UInt32) :
    (t.exportAt P index).1 = (s.exportAt P index).1 := by
  change Option.map _ (t.findRatchet P index).1 = Option.map _ (s.findRatchet P index).1
  rw [findRatchet_fst ht, findRatchet_fst hs, h.firstKnownIndex_eq, h.initialRatchet_eq,
    h.signingKey_eq]

theorem answersAlike (h : SameUpToCache s t) (hs : Inv P s) (ht : Inv P t) :
    AnswersAlike P s t :=
  ⟨h.firstKnownIndex_eq, h.decrypt_fst hs ht, h.exportAt_fst hs ht⟩

end SameUpToCache

theorem sameUpToCache_findRatchet (s : InboundGroupSession) (i : UInt32) :
    SameUpToCache s (s.findRatchet P i).2 := by
  constructor <;> simp

/-- `connected` moves at most the cached ratchets of the two sessions. -/
theorem sameUpToCache_connected (s other : InboundGroupSession) :
    SameUpToCache s (s.connected P other).2.1 ∧ SameUpToCache other (s.connected P other).2.2 := by
  obtain ⟨h1, h2⟩ := connected_states (P := P) s other
  constructor
  · rcases h1 with h | h <;> rw [h]
    · exact SameUpToCache.refl s
    · exact sameUpToCache_findRatchet s _
  · rcases h2 with h | h <;> rw [h]
    · exact SameUpToCache.refl other
    · exact sameUpToCache_findRatchet other _

@[simp] theorem firstKnownIndex_connected_fst (s other : InboundGroupSession) :
    (s.connected P other).2.1.firstKnownIndex = s.firstKnownIndex :=
  (sameUpToCache_connected s other).1.firstKnownIndex_eq

@[simp] theorem firstKnownIndex_connected_snd (s other : InboundGroupSession) :
    (s.connected P other).2.2.firstKnownIndex = other.firstKnownIndex :=
  (sameUpToCache_connected s other).2.firstKnownIndex_eq

/-! ### What `connected` decides -/

/-- With equal configurations and keys, `connected` compares the ratchet of the
session with the smaller first known index, at the other's index, with the
other's initial ratchet. -/
theorem connected_fst {s other : InboundGroupSession} (hs : Inv P s) (ho : Inv P other)
    (hc : s.config = other.config) (hk : s.signingKey = other.signingKey) :
    (s.connected P other).1 =
      if s.firstKnownIndex ≤ other.firstKnownIndex then
        (s.initialRatchet.advanceTo P other.firstKnownIndex).ctEq other.initialRatchet
      else s.initialRatchet.ctEq (other.initialRatchet.advanceTo P s.firstKnownIndex) := by
  have hfs := findRatchet_fst hs other.firstKnownIndex
  have hnone := findRatchet_none (P := P) (s := s) (i := other.firstKnownIndex)
  simp only [connected, hc, hk, ne_eq, not_true_eq_false, or_self, if_false]
  generalize s.findRatchet P other.firstKnownIndex = found at hfs hnone
  obtain ⟨_ | ratchet, s'⟩ := found
  · -- `s` has nothing at the other's index: `other` looks at the index of `s`
    have hs' : s' = s := hnone rfl
    rw [hs']
    split_ifs at hfs with hle
    have hlt : other.firstKnownIndex < s.firstKnownIndex := UInt32.not_le.mp hle
    have hfo := findRatchet_fst ho s.firstKnownIndex
    rw [if_pos (UInt32.le_of_lt hlt)] at hfo
    dsimp only
    generalize other.findRatchet P s.firstKnownIndex = found' at hfo
    obtain ⟨_ | ratchet', o'⟩ := found'
    · exact absurd hfo (by simp)
    · rw [Option.some.inj hfo, if_neg hle]
  · split_ifs at hfs with hle
    rw [Option.some.inj hfs, if_pos hle]

theorem connected_iff {s other : InboundGroupSession} (hs : Inv P s) (ho : Inv P other) :
    (s.connected P other).1 = true ↔ Connected P s other := by
  by_cases hck : s.config = other.config ∧ s.signingKey = other.signingKey
  · obtain ⟨hc, hk⟩ := hck
    rw [connected_fst hs ho hc hk]
    simp only [Connected, hc, hk, true_and]
    split_ifs with hle
    · rw [ctEq_iff, sameChain_iff_advanceTo hle]
      rfl
    · have hge : other.firstKnownIndex ≤ s.firstKnownIndex := UInt32.le_of_lt (UInt32.not_le.mp hle)
      rw [ctEq_iff, eq_comm]
      exact (sameChain_iff_advanceTo hge).symm.trans ⟨SameChain.symm, SameChain.symm⟩
  · have hfalse : (s.connected P other).1 = false := by
      unfold connected
      rw [if_pos (by tauto)]
    simp only [hfalse, Bool.false_eq_true, false_iff]
    exact fun h => hck ⟨h.1, h.2.1⟩

/-- On sessions with the invariant, `connected` is symmetric. -/
theorem connected_comm {s other : InboundGroupSession} (hs : Inv P s) (ho : Inv P other) :
    (other.connected P s).1 = (s.connected P other).1 := by
  rw [Bool.eq_iff_iff, connected_iff ho hs, connected_iff hs ho]
  exact ⟨Connected.symm, Connected.symm⟩

/-! ### `compare` and `merge` -/

theorem compare_fst (s other : InboundGroupSession) :
    (s.compare P other).1 =
      if (s.connected P other).1 then
        .ofOrdering (Ord.compare s.firstKnownIndex other.firstKnownIndex)
      else .unconnected := by
  have h1 := firstKnownIndex_connected_fst (P := P) s other
  have h2 := firstKnownIndex_connected_snd (P := P) s other
  unfold InboundGroupSession.compare
  generalize s.connected P other = result at h1 h2
  obtain ⟨_ | _, s', o'⟩ := result
  · rfl
  · dsimp only at h1 h2 ⊢
    rw [h1, h2]
    cases Ord.compare s.firstKnownIndex other.firstKnownIndex <;> rfl

/-- On sessions with the invariant, `compare` from the other side is the mirror
image. -/
theorem compare_swap {s other : InboundGroupSession} (hs : Inv P s) (ho : Inv P other) :
    (other.compare P s).1 = (s.compare P other).1.swap := by
  rw [compare_fst, compare_fst, connected_comm hs ho,
    Std.OrientedOrd.eq_swap (a := other.firstKnownIndex)]
  split
  · exact SessionOrdering.ofOrdering_swap _
  · rfl

/-- `merge` builds, from connected sessions, a session at the initial ratchet of
the one with the smaller first known index, with the signing key and
configuration of `s`, trusted if either session is. -/
theorem merge_fst (s other : InboundGroupSession) :
    (s.merge P other).1 =
      if (s.connected P other).1 then
        let best :=
          if s.firstKnownIndex ≤ other.firstKnownIndex then s.initialRatchet
          else other.initialRatchet
        some { initialRatchet := best
               latestRatchet := best
               signingKey := s.signingKey
               signingKeyVerified := s.signingKeyVerified || other.signingKeyVerified
               config := s.config }
      else none := by
  have hcmp := compare_fst (P := P) s other
  obtain ⟨hs', ho'⟩ := sameUpToCache_connected (P := P) s other
  rw [← compare_states] at hs' ho'
  unfold merge
  generalize s.compare P other = result at hcmp hs' ho'
  obtain ⟨ordering, s', o'⟩ := result
  dsimp only at hcmp hs' ho' ⊢
  by_cases hconn : (s.connected P other).1 = true
  · rw [if_pos hconn] at hcmp ⊢
    subst hcmp
    -- the ordering of the indices picks the ratchet
    cases hc : Ord.compare s.firstKnownIndex other.firstKnownIndex <;>
      simp only [SessionOrdering.ofOrdering, Option.map_some, hs'.initialRatchet_eq,
        ho'.initialRatchet_eq, hs'.signingKey_eq, hs'.signingKeyVerified_eq,
        ho'.signingKeyVerified_eq, hs'.config_eq]
    · rw [if_pos (UInt32.le_of_lt (Std.compare_eq_lt.mp hc))]
    · rw [if_pos (UInt32.le_of_eq (Std.compare_eq_iff_eq.mp hc))]
    · rw [if_neg (UInt32.not_le.mpr (Std.compare_eq_gt.mp hc))]
  · rw [if_neg hconn] at hcmp ⊢
    subst hcmp
    rfl

theorem merge_fst_isSome (s other : InboundGroupSession) :
    (s.merge P other).1.isSome = (s.connected P other).1 := by
  rw [merge_fst]
  by_cases hconn : (s.connected P other).1 = true
  · rw [if_pos hconn, hconn]
    rfl
  · rw [if_neg hconn, Option.isSome_none]
    exact (Bool.eq_false_iff.mpr hconn).symm

theorem merge_fst_eq {s other m : InboundGroupSession} (h : (s.merge P other).1 = some m) :
    (s.connected P other).1 = true ∧
      m.initialRatchet =
        (if s.firstKnownIndex ≤ other.firstKnownIndex then s.initialRatchet
          else other.initialRatchet) ∧
      m.signingKey = s.signingKey ∧
      m.signingKeyVerified = (s.signingKeyVerified || other.signingKeyVerified) ∧
      m.config = s.config := by
  rw [merge_fst] at h
  by_cases hconn : (s.connected P other).1 = true
  · rw [if_pos hconn] at h
    obtain rfl := Option.some.inj h
    exact ⟨hconn, rfl, rfl, rfl, rfl⟩
  · rw [if_neg hconn] at h
    exact absurd h (by simp)

theorem firstKnownIndex_merge {s other m : InboundGroupSession}
    (h : (s.merge P other).1 = some m) :
    m.firstKnownIndex = min s.firstKnownIndex other.firstKnownIndex := by
  rw [UInt32.min_def]
  change m.initialRatchet.index = _
  rw [(merge_fst_eq h).2.1]
  split_ifs <;> rfl

/-- A session compared with one it is connected to, at an index no smaller, is
equal or better. -/
theorem compare_of_le {s other : InboundGroupSession} (hle : s.firstKnownIndex ≤ other.firstKnownIndex)
    (hconn : (s.connected P other).1 = true) :
    (s.compare P other).1 = .equal ∨ (s.compare P other).1 = .better := by
  rw [compare_fst, hconn, if_pos rfl]
  cases hcmp : Ord.compare s.firstKnownIndex other.firstKnownIndex
  · exact .inr rfl
  · exact .inl rfl
  · exact absurd hle (UInt32.not_le.mpr (Std.compare_eq_gt.mp hcmp))

/-- A merged session is connected to both sessions, and no worse than either. -/
theorem merge_compare {s other m : InboundGroupSession} (hs : Inv P s) (ho : Inv P other)
    (h : (s.merge P other).1 = some m) :
    ((m.compare P s).1 = .equal ∨ (m.compare P s).1 = .better) ∧
      ((m.compare P other).1 = .equal ∨ (m.compare P other).1 = .better) := by
  obtain ⟨hconn, hinit, hk, -, hc⟩ := merge_fst_eq h
  have hm := inv_merge h
  have hsc := (connected_iff hs ho).mp hconn
  have hfk := firstKnownIndex_merge h
  rw [UInt32.min_def] at hfk
  -- the merged session is connected to both: its ratchet is one of theirs
  have hms : Connected P m s := ⟨hc, hk, by
    rw [hinit]
    split_ifs
    · exact SameChain.refl _
    · exact hsc.2.2.symm⟩
  have hmo : Connected P m other := ⟨hc.trans hsc.1, hk.trans hsc.2.1, by
    rw [hinit]
    split_ifs
    · exact hsc.2.2
    · exact SameChain.refl _⟩
  -- and its first known index is the smaller one
  have hle_s : m.firstKnownIndex ≤ s.firstKnownIndex := by
    rw [hfk]
    split_ifs with h'
    · exact UInt32.le_refl _
    · exact UInt32.le_of_lt (UInt32.not_le.mp h')
  have hle_o : m.firstKnownIndex ≤ other.firstKnownIndex := by
    rw [hfk]
    split_ifs with h'
    · exact h'
    · exact UInt32.le_refl _
  exact ⟨compare_of_le hle_s ((connected_iff hm hs).mpr hms),
    compare_of_le hle_o ((connected_iff hm ho).mpr hmo)⟩

/-! ### Sessions of one group session -/

/-- The sessions that descend from the group session `g`, in its configuration,
through keys that `g` hands out after at most `N` further messages. -/
inductive Descends (P : Primitives) (g : GroupSession) (N : ℕ) : InboundGroupSession → Prop
  | new (plaintexts : List (List UInt8)) : plaintexts.length ≤ N →
      Descends P g N (new ((g.encryptAll P plaintexts).2.sessionKey P) g.sessionConfig)
  | «import» {s : InboundGroupSession} {key : ExportedSessionKey} (index : UInt32) :
      Descends P g N s → (s.exportAt P index).1 = some key →
      Descends P g N (InboundGroupSession.import key g.sessionConfig)
  | advanceTo {s : InboundGroupSession} (index : UInt32) :
      Descends P g N s → Descends P g N (s.advanceTo P index).2
  | merged {s other m : InboundGroupSession} :
      Descends P g N s → Descends P g N other → (s.merge P other).1 = some m →
      Descends P g N m

/-- A session that follows `g` after `n` more messages follows `g`, as long as
the index of `g` does not wrap on the way. -/
theorem Follows.of_advance {g : GroupSession} {s : InboundGroupSession} {n : ℕ}
    (hn : g.messageIndex.toNat + n < 2 ^ 32)
    (hs : Follows P { g with ratchet := (advance P)^[n] g.ratchet } s) : Follows P g s := by
  have hidx : ({ g with ratchet := (advance P)^[n] g.ratchet } : GroupSession).messageIndex.toNat =
      g.messageIndex.toNat + n :=
    counter_iterate_advance_toNat g.ratchet hn
  have hge := UInt32.le_iff_toNat_le.mp hs.index_ge
  refine ⟨hs.inv, hs.config_eq, hs.signingKey_eq, UInt32.le_iff_toNat_le.mpr (by omega), ?_⟩
  rw [hs.initial_eq]
  dsimp only
  rw [← Function.iterate_add_apply]
  congr 1
  omega

/-- A merged session of two sessions that follow `g` follows `g`. -/
theorem Follows.merge {g : GroupSession} {s other m : InboundGroupSession} (hs : Follows P g s)
    (ho : Follows P g other) (h : (s.merge P other).1 = some m) : Follows P g m := by
  obtain ⟨-, hinit, hk, -, hc⟩ := merge_fst_eq h
  have hfk := firstKnownIndex_merge h
  rw [UInt32.min_def] at hfk
  refine ⟨inv_merge h, hc.trans hs.config_eq, hk.trans hs.signingKey_eq, ?_, ?_⟩
  · rw [hfk]
    split_ifs
    · exact hs.index_ge
    · exact ho.index_ge
  · rw [hinit, hfk]
    split_ifs
    · exact hs.initial_eq
    · exact ho.initial_eq

/-- Without a wrap of the index of `g`, a descendant of `g` follows it. -/
theorem Descends.follows {g : GroupSession} {N : ℕ} (hN : g.messageIndex.toNat + N < 2 ^ 32)
    {s : InboundGroupSession} (h : Descends P g N s) : Follows P g s := by
  induction h with
  | new plaintexts hlen =>
      have hf := follows_new (P := P) (g.encryptAll P plaintexts).2
      rw [GroupSession.encryptAll_snd] at hf ⊢
      exact Follows.of_advance (by omega) hf
  | «import» index _ hkey ih => exact (follows_import_exportAt ih hkey).1
  | advanceTo index _ ih => exact ih.advanceTo index
  | merged _ _ hm ihs iho => exact ihs.merge iho hm

/-- Two sessions that follow one group session are connected. -/
theorem Follows.connected {g : GroupSession} {s other : InboundGroupSession}
    (hs : Follows P g s) (ho : Follows P g other) : Connected P s other := by
  refine ⟨hs.config_eq.trans ho.config_eq.symm, hs.signingKey_eq.trans ho.signingKey_eq.symm, ?_⟩
  have h := HashRatchet.onOneChain_iterate (f := advance P)
    (UInt32.le_iff_toNat_le.mp hs.index_ge) (UInt32.le_iff_toNat_le.mp ho.index_ge) g.ratchet
  rw [← hs.initial_eq, ← ho.initial_eq] at h
  exact h

/-! ### Across a wrap of the group session's index -/

/-- Once the counter wraps, `advance` rehashes every part, so from then on the
first part is a hash output. -/
theorem inner_zero_iterate_advance_mem {S : Set RatchetPart} (hS : ∀ x i, hash P x i ∈ S)
    {r : Ratchet} (hr : r.counter = 0xFFFFFFFF) (n : ℕ) :
    ((advance P)^[1 + n] r).inner 0 ∈ S := by
  rw [iterate_advance, hr]
  change HashRatchet.run (hash P) level r.inner (2 ^ 32 - 1) (1 + n) 0 ∈ S
  rw [HashRatchet.run_add]
  -- the first move is to the counter value `2 ^ 32`, of level `0`
  have hfirst : HashRatchet.run (hash P) level r.inner (2 ^ 32 - 1) 1 0 ∈ S := by
    rw [HashRatchet.run_succ, HashRatchet.run_zero, show level (2 ^ 32 - 1 + 0 + 1) = 0 by decide,
      HashRatchet.tick_of_le _ (Fin.zero_le _)]
    exact hS _ _
  exact HashRatchet.run_apply_mem hS hfirst _ n

theorem connected_descends_across_wrap :
    let g := GroupSession.fromPickle
      ⟨⟨fun _ => ⟨1 :: List.replicate 31 0, rfl⟩, 0xFFFFFFFF⟩, ⟨.normal (Bytes.zero 32)⟩,
        SessionConfig.version2⟩
    let a := new (g.sessionKey Primitives.toy) g.sessionConfig
    let b := new ((g.encryptAll Primitives.toy [[]]).2.sessionKey Primitives.toy) g.sessionConfig
    Reachable Primitives.toy a ∧ Reachable Primitives.toy b ∧
      Descends Primitives.toy g 1 a ∧ Descends Primitives.toy g 1 b ∧
      (a.connected Primitives.toy b).1 = false := by
  intro g a b
  refine ⟨.new _ _, .new _ _, .new [] (by decide), .new [[]] le_rfl, ?_⟩
  have ha : a.initialRatchet = g.ratchet := ExportedSessionKey.toRatchet_new _ _
  have hb : b.initialRatchet = advance Primitives.toy g.ratchet :=
    ExportedSessionKey.toRatchet_new _ _
  rw [Bool.eq_false_iff]
  intro hconn
  obtain ⟨-, -, hchain⟩ :=
    (connected_iff (inv_of_latest_eq (s := a) rfl) (inv_of_latest_eq (s := b) rfl)).mp hconn
  unfold SameChain at hchain
  rw [ha, hb] at hchain
  -- at the index of `a` the two chains would have to meet
  have hmeet := hchain (2 ^ 32 - 1) (by decide) (by decide)
  rw [show g.ratchet.index.toNat = 2 ^ 32 - 1 from rfl,
    show (advance Primitives.toy g.ratchet).index.toNat = 0 by decide, Nat.sub_self, Nat.sub_zero,
    Function.iterate_zero_apply, ← Function.iterate_succ_apply, Nat.succ_eq_add_one,
    Nat.add_comm] at hmeet
  -- the first part of `a` is no output of the toy HMAC, which repeats one byte
  have hmem := inner_zero_iterate_advance_mem (P := Primitives.toy) (S := Set.range (List.Vector.replicate 32))
    (fun _ _ => ⟨_, rfl⟩) (r := g.ratchet) rfl (2 ^ 32 - 1)
  rw [← hmeet] at hmem
  obtain ⟨d, hd⟩ := hmem
  have h0 := congrArg (fun v : RatchetPart => v.toList[0]?) hd
  have h1 := congrArg (fun v : RatchetPart => v.toList[1]?) hd
  simp [g, GroupSession.fromPickle] at h0 h1
  exact absurd (h0.symm.trans h1) (by decide)

end InboundGroupSession

end Vodozemac.Megolm
