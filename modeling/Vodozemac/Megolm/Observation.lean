import Mathlib
import Vodozemac.Megolm.Ordering

/-!
# What a program observes of an inbound session

A program holds an `InboundGroupSession` and makes calls of its public API on
it, one after another (`Request`). Each call returns a value (`Response`) and
leaves the session in a state that the next call sees; `responses` is all that
the program observes of a sequence of calls.

The latest ratchet, the cache of `find_ratchet`, is the one part of a session
that `pickle` leaves out and `from_pickle` restarts at the initial ratchet. No
call observes it on sessions with the invariant of `InboundInvariant`. Two such
sessions that differ at most in the cache (`SameUpToCache`) give the same
response to every call (`SameUpToCache.run_fst`), and the sessions the call
leaves differ again at most in the cache (`SameUpToCache.run_snd`), so the two
give the same responses to every sequence of calls
(`SameUpToCache.responses_eq`). A session restored from the pickle of a
reachable one is such a session, and so a pickle round trip at any point of a
run changes none of the responses (`responses_pickle_roundtrip`).

No call lowers the first known index (`firstKnownIndex_le_runRequests`), so
what `advance_to` forgets stays forgotten: after `advance_to index`, no later
sequence of calls decrypts a message below `index` or hands out its key
(`advanceTo_forgets`).

In a call on two sessions the other session is any session. What the call does
to it is not followed here: it moves only its cache (`sameUpToCache_connected`).
-/

namespace Vodozemac.Megolm

namespace InboundGroupSession

variable (P : Primitives)

/-- `InboundGroupSession::session_id`: the signing key in base64. -/
def sessionId (s : InboundGroupSession) : List UInt8 := base64Encode s.signingKey.bytes.toList

/-- A call of the public API of `InboundGroupSession`. -/
inductive Request
  | decrypt (message : MegolmMessage)
  | advanceTo (index : UInt32)
  | exportAt (index : UInt32)
  | exportAtFirstKnownIndex
  | firstKnownIndex
  | sessionId
  | getCipherAt (messageIndex : UInt32)
  | connected (other : InboundGroupSession)
  | compare (other : InboundGroupSession)
  | merge (other : InboundGroupSession)
  | pickle

/-- What a call returns. -/
inductive Response
  | decrypted (result : Except DecryptionError DecryptedMessage)
  | advanced (advanced : Bool)
  | exported (key : Option ExportedSessionKey)
  | exportedFirst (key : ExportedSessionKey)
  | index (index : UInt32)
  | sessionId (sessionId : List UInt8)
  | cipher (cipher : Option Cipher)
  | connected (connected : Bool)
  | compared (ordering : SessionOrdering)
  | merged (session : Option InboundGroupSession)
  | pickled (pickle : InboundGroupSessionPickle)

/-- A call on `s`: what it returns, and the session it leaves. -/
def Request.run (s : InboundGroupSession) : Request → Response × InboundGroupSession
  | .decrypt message => (.decrypted (s.decrypt P message).1, (s.decrypt P message).2)
  | .advanceTo index => (.advanced (s.advanceTo P index).1, (s.advanceTo P index).2)
  | .exportAt index => (.exported (s.exportAt P index).1, (s.exportAt P index).2)
  | .exportAtFirstKnownIndex => (.exportedFirst s.exportAtFirstKnownIndex, s)
  | .firstKnownIndex => (.index s.firstKnownIndex, s)
  | .sessionId => (.sessionId s.sessionId, s)
  | .getCipherAt messageIndex => (.cipher (s.getCipherAt P messageIndex), s)
  | .connected other => (.connected (s.connected P other).1, (s.connected P other).2.1)
  | .compare other => (.compared (s.compare P other).1, (s.compare P other).2.1)
  | .merge other => (.merged (s.merge P other).1, (s.merge P other).2.1)
  | .pickle => (.pickled s.pickle, s)

/-- The responses to a sequence of calls, each made on the session the one
before left. -/
def responses (s : InboundGroupSession) : List Request → List Response
  | [] => []
  | request :: requests => (request.run P s).1 :: responses (request.run P s).2 requests

/-- The session after a sequence of calls. -/
def runRequests (s : InboundGroupSession) (requests : List Request) : InboundGroupSession :=
  requests.foldl (fun s request => (request.run P s).2) s

variable {P}

theorem responses_append (s : InboundGroupSession) (before after : List Request) :
    responses P s (before ++ after) =
      responses P s before ++ responses P (runRequests P s before) after := by
  induction before generalizing s with
  | nil => rfl
  | cons request before ih => simp only [List.cons_append, responses, ih, runRequests, List.foldl_cons]

/-! ### What each call changes -/

theorem advanceTo_fst (s : InboundGroupSession) (index : UInt32) :
    (s.advanceTo P index).1 = decide (s.firstKnownIndex < index) := by
  unfold advanceTo
  split_ifs with h <;> simp [h]

@[simp] theorem signingKeyVerified_advanceTo (s : InboundGroupSession) (index : UInt32) :
    (s.advanceTo P index).2.signingKeyVerified = s.signingKeyVerified := by
  unfold advanceTo
  split_ifs <;> rfl

/-- `connected` without the invariant: the ratchet of `s` at the other's first
known index if `s` has one, else the other's ratchet at the index of `s`. -/
theorem connected_fst_eq (s other : InboundGroupSession) :
    (s.connected P other).1 =
      if s.config ≠ other.config ∨ s.signingKey ≠ other.signingKey then false
      else (s.findRatchet P other.firstKnownIndex).1.elim
        (((other.findRatchet P s.firstKnownIndex).1.map s.initialRatchet.ctEq).getD false)
        fun ratchet => ratchet.ctEq other.initialRatchet := by
  have hnone := findRatchet_none (P := P) (s := s) (i := other.firstKnownIndex)
  unfold connected
  split_ifs
  · rfl
  · generalize s.findRatchet P other.firstKnownIndex = found at hnone
    obtain ⟨_ | ratchet, s'⟩ := found
    · -- nothing found: `s` is left as it was, and the other side looks
      have hs' : s' = s := hnone rfl
      rw [hs']
      dsimp only
      rcases other.findRatchet P s.firstKnownIndex with ⟨_ | ratchet', o'⟩ <;> rfl
    · rfl

theorem sameUpToCache_decrypt (s : InboundGroupSession) (message : MegolmMessage) :
    SameUpToCache s (s.decrypt P message).2 := by
  rcases decrypt_state (P := P) s message with h | h <;> rw [h]
  · exact SameUpToCache.refl s
  · exact sameUpToCache_findRatchet s _

theorem sameUpToCache_compare (s other : InboundGroupSession) :
    SameUpToCache s (s.compare P other).2.1 := by
  rw [compare_states]
  exact (sameUpToCache_connected s other).1

theorem sameUpToCache_merge (s other : InboundGroupSession) :
    SameUpToCache s (s.merge P other).2.1 := by
  rw [merge_states]
  exact sameUpToCache_compare s other

theorem sameUpToCache_fromPickle (s : InboundGroupSession) : SameUpToCache s (fromPickle s.pickle) :=
  ⟨rfl, rfl, rfl, rfl⟩

/-- Every call keeps the invariant. -/
theorem inv_run {s : InboundGroupSession} (hs : Inv P s) (request : Request) :
    Inv P (request.run P s).2 := by
  cases request with
  | decrypt message => exact inv_decrypt hs message
  | advanceTo index => exact inv_advanceTo hs index
  | exportAt index => exact inv_findRatchet hs index
  | connected other => exact inv_connected.1 hs
  | compare other =>
      show Inv P (s.compare P other).2.1
      rw [compare_states]
      exact inv_connected.1 hs
  | merge other =>
      show Inv P (s.merge P other).2.1
      rw [merge_states, compare_states]
      exact inv_connected.1 hs
  | _ => exact hs

theorem Reachable.run {s : InboundGroupSession} (hs : Reachable P s) (request : Request) :
    Reachable P (request.run P s).2 := by
  cases request with
  | decrypt message => exact hs.decrypt message
  | advanceTo index => exact hs.advanceTo index
  | exportAt index => exact hs.exportAt index
  | connected other => exact hs.connectedSelf other
  | compare other => exact hs.compareSelf other
  | merge other => exact hs.mergeSelf other
  | _ => exact hs

theorem Reachable.runRequests {s : InboundGroupSession} (hs : Reachable P s)
    (requests : List Request) : Reachable P (runRequests P s requests) := by
  induction requests generalizing s with
  | nil => exact hs
  | cons request requests ih => exact ih (hs.run request)

/-! ### No call observes the cache -/

namespace SameUpToCache

variable {s t u : InboundGroupSession}

theorem symm (h : SameUpToCache s t) : SameUpToCache t s :=
  ⟨h.initialRatchet_eq.symm, h.signingKey_eq.symm, h.signingKeyVerified_eq.symm, h.config_eq.symm⟩

theorem trans (h₁ : SameUpToCache s t) (h₂ : SameUpToCache t u) : SameUpToCache s u :=
  ⟨h₂.initialRatchet_eq.trans h₁.initialRatchet_eq, h₂.signingKey_eq.trans h₁.signingKey_eq,
    h₂.signingKeyVerified_eq.trans h₁.signingKeyVerified_eq, h₂.config_eq.trans h₁.config_eq⟩

/-- Two sessions that each move only their cache stay alike up to the cache. -/
theorem between {s' t' : InboundGroupSession} (h : SameUpToCache s t) (hs : SameUpToCache s s')
    (ht : SameUpToCache t t') : SameUpToCache s' t' :=
  hs.symm.trans (h.trans ht)

theorem advanceTo (h : SameUpToCache s t) (index : UInt32) :
    SameUpToCache (s.advanceTo P index).2 (t.advanceTo P index).2 where
  initialRatchet_eq := by
    rw [initialRatchet_advanceTo, initialRatchet_advanceTo, h.firstKnownIndex_eq, h.initialRatchet_eq]
  signingKey_eq := by rw [signingKey_advanceTo, signingKey_advanceTo, h.signingKey_eq]
  signingKeyVerified_eq := by
    rw [signingKeyVerified_advanceTo, signingKeyVerified_advanceTo, h.signingKeyVerified_eq]
  config_eq := by rw [config_advanceTo, config_advanceTo, h.config_eq]

theorem advanceTo_fst (h : SameUpToCache s t) (index : UInt32) :
    (t.advanceTo P index).1 = (s.advanceTo P index).1 := by
  rw [InboundGroupSession.advanceTo_fst, InboundGroupSession.advanceTo_fst, h.firstKnownIndex_eq]

theorem exportAtFirstKnownIndex_eq (h : SameUpToCache s t) :
    t.exportAtFirstKnownIndex = s.exportAtFirstKnownIndex := by
  rw [exportAtFirstKnownIndex, exportAtFirstKnownIndex, h.initialRatchet_eq, h.signingKey_eq]

theorem sessionId_eq (h : SameUpToCache s t) : t.sessionId = s.sessionId := by
  rw [sessionId, sessionId, h.signingKey_eq]

theorem getCipherAt_congr (h : SameUpToCache s t) (messageIndex : UInt32) :
    t.getCipherAt P messageIndex = s.getCipherAt P messageIndex := by
  rw [getCipherAt_eq, getCipherAt_eq, h.firstKnownIndex_eq, h.initialRatchet_eq]

theorem pickle_eq (h : SameUpToCache s t) : t.pickle = s.pickle := by
  rw [pickle, pickle, h.initialRatchet_eq, h.signingKey_eq, h.signingKeyVerified_eq, h.config_eq]

/-- The other session may be any session: the invariant of `s` and `t` alone
fixes what they find at its index. -/
theorem connected_fst (h : SameUpToCache s t) (hs : Inv P s) (ht : Inv P t)
    (other : InboundGroupSession) : (t.connected P other).1 = (s.connected P other).1 := by
  rw [connected_fst_eq, connected_fst_eq, findRatchet_fst ht, findRatchet_fst hs, h.config_eq,
    h.signingKey_eq, h.firstKnownIndex_eq, h.initialRatchet_eq]

theorem compare_fst (h : SameUpToCache s t) (hs : Inv P s) (ht : Inv P t)
    (other : InboundGroupSession) : (t.compare P other).1 = (s.compare P other).1 := by
  rw [InboundGroupSession.compare_fst, InboundGroupSession.compare_fst, h.connected_fst hs ht,
    h.firstKnownIndex_eq]

theorem merge_fst (h : SameUpToCache s t) (hs : Inv P s) (ht : Inv P t)
    (other : InboundGroupSession) : (t.merge P other).1 = (s.merge P other).1 := by
  rw [InboundGroupSession.merge_fst, InboundGroupSession.merge_fst, h.connected_fst hs ht,
    h.firstKnownIndex_eq, h.initialRatchet_eq, h.signingKey_eq, h.signingKeyVerified_eq,
    h.config_eq]

/-- One call: the same response. -/
theorem run_fst (h : SameUpToCache s t) (hs : Inv P s) (ht : Inv P t) (request : Request) :
    (request.run P t).1 = (request.run P s).1 := by
  cases request with
  | decrypt message => exact congrArg Response.decrypted (h.decrypt_fst hs ht message)
  | advanceTo index => exact congrArg Response.advanced (h.advanceTo_fst index)
  | exportAt index => exact congrArg Response.exported (h.exportAt_fst hs ht index)
  | exportAtFirstKnownIndex => exact congrArg Response.exportedFirst h.exportAtFirstKnownIndex_eq
  | firstKnownIndex => exact congrArg Response.index h.firstKnownIndex_eq
  | sessionId => exact congrArg Response.sessionId h.sessionId_eq
  | getCipherAt messageIndex => exact congrArg Response.cipher (h.getCipherAt_congr messageIndex)
  | connected other => exact congrArg Response.connected (h.connected_fst hs ht other)
  | compare other => exact congrArg Response.compared (h.compare_fst hs ht other)
  | merge other => exact congrArg Response.merged (h.merge_fst hs ht other)
  | pickle => exact congrArg Response.pickled h.pickle_eq

/-- One call: the sessions it leaves are again alike up to the cache. -/
theorem run_snd (h : SameUpToCache s t) (request : Request) :
    SameUpToCache (request.run P s).2 (request.run P t).2 := by
  cases request with
  | decrypt message => exact h.between (sameUpToCache_decrypt s message) (sameUpToCache_decrypt t message)
  | advanceTo index => exact h.advanceTo index
  | exportAt index =>
      exact h.between (sameUpToCache_findRatchet s index) (sameUpToCache_findRatchet t index)
  | connected other =>
      exact h.between (sameUpToCache_connected s other).1 (sameUpToCache_connected t other).1
  | compare other => exact h.between (sameUpToCache_compare s other) (sameUpToCache_compare t other)
  | merge other => exact h.between (sameUpToCache_merge s other) (sameUpToCache_merge t other)
  | _ => exact h

/-- Every sequence of calls: the same responses. -/
theorem responses_eq (h : SameUpToCache s t) (hs : Inv P s) (ht : Inv P t)
    (requests : List Request) : responses P t requests = responses P s requests := by
  -- on the calls, with both sessions generalized: each call keeps them alike
  induction requests generalizing s t with
  | nil => rfl
  | cons request requests ih =>
      simp only [InboundGroupSession.responses]
      rw [h.run_fst hs ht request, ih (h.run_snd request) (inv_run hs request) (inv_run ht request)]

end SameUpToCache

/-! ### Pickle round trips -/

theorem responses_pickle_roundtrip {s : InboundGroupSession} (hs : Reachable P s)
    (before after : List Request) :
    responses P s (before ++ after) =
      responses P s before ++ responses P (fromPickle (runRequests P s before).pickle) after := by
  have hinv := (hs.runRequests before).inv
  rw [responses_append,
    (sameUpToCache_fromPickle _).responses_eq hinv (inv_of_latest_eq rfl) after]

/-- A session pickled after `advance_to` answers `export_at` and
`first_known_index` as before. -/
theorem responses_pickle_roundtrip_advanceTo :
    let s := fromPickle ⟨⟨fun _ => Bytes.zero 32, 3⟩, ⟨Bytes.zero 32⟩, false, SessionConfig.version2⟩
    responses Primitives.toy s ([.advanceTo 5] ++ [.exportAt 7, .firstKnownIndex]) =
      responses Primitives.toy s [.advanceTo 5] ++
        responses Primitives.toy (fromPickle (runRequests Primitives.toy s [.advanceTo 5]).pickle)
          [.exportAt 7, .firstKnownIndex] :=
  responses_pickle_roundtrip (Reachable.fromPickle _) _ _

/-! ### Forgotten indices stay forgotten -/

/-- A message that decrypts lies at an index the session knows. -/
theorem firstKnownIndex_le_of_decrypt {s : InboundGroupSession} (hs : Inv P s)
    {message : MegolmMessage} {decrypted : DecryptedMessage}
    (h : (s.decrypt P message).1 = .ok decrypted) : s.firstKnownIndex ≤ message.messageIndex := by
  cases hsig : s.signingKey.verify P message.toSignatureBytes message.signature with
  | error e => simp only [decrypt, hsig, reduceCtorEq] at h
  | ok u =>
      rw [decrypt_fst hs message hsig] at h
      -- below the first known index the answer is an error
      split_ifs at h with hle
      exact hle

theorem le_firstKnownIndex_advanceTo (s : InboundGroupSession) (index : UInt32) :
    index ≤ (s.advanceTo P index).2.firstKnownIndex := by
  rw [firstKnownIndex_advanceTo]
  split_ifs with h
  · exact UInt32.le_refl _
  · exact UInt32.not_lt.mp h

/-- No call lowers the first known index: only `advance_to` moves it, and only up. -/
theorem firstKnownIndex_le_run (s : InboundGroupSession) (request : Request) :
    s.firstKnownIndex ≤ (request.run P s).2.firstKnownIndex := by
  cases request with
  | decrypt message => exact UInt32.le_of_eq (sameUpToCache_decrypt s message).firstKnownIndex_eq.symm
  | advanceTo index =>
      show s.firstKnownIndex ≤ (s.advanceTo P index).2.firstKnownIndex
      rw [firstKnownIndex_advanceTo]
      split_ifs with h
      · exact UInt32.le_of_lt h
      · exact UInt32.le_refl _
  | exportAt index =>
      exact UInt32.le_of_eq (sameUpToCache_findRatchet s index).firstKnownIndex_eq.symm
  | connected other =>
      exact UInt32.le_of_eq (sameUpToCache_connected s other).1.firstKnownIndex_eq.symm
  | compare other => exact UInt32.le_of_eq (sameUpToCache_compare s other).firstKnownIndex_eq.symm
  | merge other => exact UInt32.le_of_eq (sameUpToCache_merge s other).firstKnownIndex_eq.symm
  | _ => exact UInt32.le_refl _

theorem firstKnownIndex_le_runRequests (s : InboundGroupSession) (requests : List Request) :
    s.firstKnownIndex ≤ (runRequests P s requests).firstKnownIndex := by
  induction requests generalizing s with
  | nil => exact UInt32.le_refl _
  | cons request requests ih =>
      exact UInt32.le_trans (firstKnownIndex_le_run s request) (ih (request.run P s).2)

/-- After `advance_to index`, no later sequence of calls on the session gets
back an index below `index`: every `decrypt` of a message there fails, and
`export_at` and `get_cipher_at` there return nothing. -/
theorem advanceTo_forgets {s : InboundGroupSession} (hs : Reachable P s) (index : UInt32)
    (requests : List Request) :
    let s' := runRequests P (s.advanceTo P index).2 requests
    index ≤ s'.firstKnownIndex ∧
      (∀ message : MegolmMessage, message.messageIndex < index →
        ∃ e, (s'.decrypt P message).1 = .error e) ∧
      (∀ i : UInt32, i < index → (s'.exportAt P i).1 = none ∧ s'.getCipherAt P i = none) := by
  intro s'
  have hinv : Inv P s' := ((hs.advanceTo index).runRequests requests).inv
  have hle : index ≤ s'.firstKnownIndex :=
    UInt32.le_trans (le_firstKnownIndex_advanceTo s index) (firstKnownIndex_le_runRequests _ requests)
  -- an index below `index` is below the first known index of `s'`
  have hbelow : ∀ i : UInt32, i < index → ¬ s'.firstKnownIndex ≤ i := fun i hi hfk =>
    UInt32.not_le.mpr hi (UInt32.le_trans hle hfk)
  refine ⟨hle, fun message hi => ?_, fun i hi => ⟨?_, ?_⟩⟩
  · cases hdec : (s'.decrypt P message).1 with
    | error e => exact ⟨e, rfl⟩
    | ok decrypted => exact absurd (firstKnownIndex_le_of_decrypt hinv hdec) (hbelow _ hi)
  · change Option.map _ (s'.findRatchet P i).1 = none
    rw [findRatchet_fst hinv, if_neg (hbelow i hi), Option.map_none]
  · rw [getCipherAt_eq, if_neg (hbelow i hi)]

theorem advanceTo_forgets_fromPickle :
    let s := fromPickle ⟨⟨fun _ => Bytes.zero 32, 3⟩, ⟨Bytes.zero 32⟩, false, SessionConfig.version2⟩
    let s' := runRequests Primitives.toy (s.advanceTo Primitives.toy 5).2 [.exportAt 4, .advanceTo 2]
    5 ≤ s'.firstKnownIndex ∧
      (∀ message : MegolmMessage, message.messageIndex < 5 →
        ∃ e, (s'.decrypt Primitives.toy message).1 = .error e) ∧
      (∀ i : UInt32, i < 5 →
        (s'.exportAt Primitives.toy i).1 = none ∧ s'.getCipherAt Primitives.toy i = none) :=
  advanceTo_forgets (Reachable.fromPickle _) 5 [.exportAt 4, .advanceTo 2]

end InboundGroupSession

end Vodozemac.Megolm
