import Vodozemac.Codecs

/-!
# Vodozemac.Olm.Decoding

The byte and text forms of the Olm messages: `Message::try_from(&[u8])`,
`PreKeyMessage::to_bytes` and `try_from(&[u8])`, their base64 forms, and
`OlmMessage::to_parts` and `from_parts`.

The decoders return a `Result` and could panic, so they run in
`ExceptT DecodeError Option` (`Vodozemac.Lib.Fallible`). `Message::try_from`
reads the payload between the version byte and the MAC, whose length the
version gives, and hands it to `prost`; `PreKeyMessage::try_from` hands all of
its payload to `prost` and decodes the embedded message again.

A message built by the crate carries the MAC its version calls for
(`MacMatchesVersion`): `new` and `new_truncated_mac` start so, `set_mac` keeps
the form, and the decoder reads the form from the version. For those messages
encoding and decoding are inverse (`Message.fromBytes_toBytes`,
`PreKeyMessage.fromBytes_toBytes`).
-/

namespace Vodozemac.Olm

variable (C : Codecs)

namespace Message

/-- The message carries the MAC its version calls for: eight bytes for
`MAC_TRUNCATED_VERSION`, 32 for `VERSION`. -/
def MacMatchesVersion (m : Message) : Prop :=
  m.mac.OfVersion Messages.macTruncatedVersion Messages.version m.version

instance (m : Message) : Decidable m.MacMatchesVersion :=
  inferInstanceAs (Decidable (m.mac.OfVersion _ _ _))

/-- The MAC length of a version: the `match version` of `Message::try_from`. -/
def macLength (version : UInt8) : Except DecodeError ℕ :=
  if version = Messages.version then .ok Mac.length
  else if version = Messages.macTruncatedVersion then .ok Mac.truncatedLen
  else .error (.invalidVersion Messages.version version)

/-- `Message::try_from(&[u8])`. -/
def fromBytes (value : List UInt8) : ExceptT DecodeError Option Message := do
  let version ← Fallible.okOr value.head? DecodeError.missingVersion
  let macLength ← macLength version
  if value.length < macLength + 2 then throw (.messageTooShort value.length)
  else
    -- `value.get(1..value.len() - mac_length)` is `None`, not a panic, out of bounds
    let payload ← Fallible.okOr (subslice value 1 (value.length - macLength))
      (DecodeError.messageTooShort value.length)
    let inner ← (C.decodeMessage payload).mapError DecodeError.protoBufError
    -- `&value[value.len() - mac_length..]` panics out of bounds
    let macSlice ← subslice value (value.length - macLength) value.length
    if macSlice.length ≠ macLength then throw (.invalidMacLength macLength macSlice.length)
    else
      let mac ← extractMac macSlice (version == Messages.macTruncatedVersion)
      let ratchetKey ← (Curve25519PublicKey.fromSlice inner.ratchetKey).mapError DecodeError.invalidKey
      pure
        { version, ratchetKey, chainIndex := inner.chainIndex, ciphertext := inner.ciphertext,
          mac }

/-- `Message::try_from(&str)`: base64, then the bytes. -/
def fromBase64 (value : List UInt8) : ExceptT DecodeError Option Message := do
  let decoded ← (base64Decode C value).mapError DecodeError.base64
  fromBytes C decoded

/-- `Message::to_base64`. -/
def toBase64 (m : Message) : List UInt8 := base64Encode m.toBytes

end Message

namespace PreKeyMessage

/-- `PreKeyMessage::to_bytes`: the version and the `prost` encoding of the keys
and the encoded message. The buffer has `encoded_len` bytes, so the `expect` on
`encode` never fires. -/
def toBytes (p : PreKeyMessage) : List UInt8 :=
  version :: C.encodePreKeyMessage
    { oneTimeKey := p.sessionKeys.oneTimeKey.inner.toList,
      baseKey := p.sessionKeys.baseKey.inner.toList,
      identityKey := p.sessionKeys.identityKey.inner.toList,
      message := p.message.toBytes }

/-- `PreKeyMessage::try_from(&[u8])`. -/
def fromBytes (value : List UInt8) : ExceptT DecodeError Option PreKeyMessage := do
  let version ← Fallible.okOr value.head? DecodeError.missingVersion
  if version ≠ PreKeyMessage.version then throw (.invalidVersion PreKeyMessage.version version)
  else
    -- `&value[1..value.len()]` panics out of bounds
    let payload ← subslice value 1 value.length
    let decoded ← (C.decodePreKeyMessage payload).mapError DecodeError.protoBufError
    let oneTimeKey ← (Curve25519PublicKey.fromSlice decoded.oneTimeKey).mapError DecodeError.invalidKey
    let baseKey ← (Curve25519PublicKey.fromSlice decoded.baseKey).mapError DecodeError.invalidKey
    let identityKey ←
      (Curve25519PublicKey.fromSlice decoded.identityKey).mapError DecodeError.invalidKey
    let message ← Message.fromBytes C decoded.message
    pure { sessionKeys := { identityKey, baseKey, oneTimeKey }, message }

/-- `PreKeyMessage::try_from(&str)`. -/
def fromBase64 (value : List UInt8) : ExceptT DecodeError Option PreKeyMessage := do
  let decoded ← (base64Decode C value).mapError DecodeError.base64
  fromBytes C decoded

/-- `PreKeyMessage::to_base64`. -/
def toBase64 (p : PreKeyMessage) : List UInt8 := base64Encode (p.toBytes C)

end PreKeyMessage

namespace OlmMessage

/-- `OlmMessage::to_parts`: the message type and the base64 of the message. -/
def toParts (o : OlmMessage) : ℕ × List UInt8 :=
  match o with
  | .normal m => (o.messageType.toUsize, m.toBase64)
  | .preKey m => (o.messageType.toUsize, m.toBase64 C)

/-- `OlmMessage::from_parts`. -/
def fromParts (messageType : ℕ) (ciphertext : List UInt8) : ExceptT DecodeError Option OlmMessage :=
  match messageType with
  | 0 => do pure (.preKey (← PreKeyMessage.fromBase64 C ciphertext))
  | 1 => do pure (.normal (← Message.fromBase64 C ciphertext))
  | m => throw (.messageType m)

end OlmMessage

/-! ### Round trips -/

variable {C}

namespace ProtoBufMessage

/-- The values of a payload with a 32-byte key fit the wire format. -/
theorem within_fields (self : ProtoBufMessage) (hr : self.ratchetKey.length = 32)
    (hc : self.ciphertext.length < 2 ^ 64) : ∀ f ∈ self.fields, f.2.Within (2 ^ 64 - 1) := by
  simp only [fields, List.mem_cons, List.not_mem_nil, or_false, forall_eq_or_imp, forall_eq,
    Protobuf.Value.Within, hr]
  exact ⟨by decide, self.chainIndex.toNat_lt, by omega⟩

end ProtoBufMessage

namespace Message

theorem macLength_of_ofVersion {mac : MessageMac} {version : UInt8}
    (h : mac.OfVersion Messages.macTruncatedVersion Messages.version version) :
    macLength version = .ok mac.asBytes.length := by
  cases mac with
  | truncated t =>
    obtain rfl : version = Messages.macTruncatedVersion := h
    rw [length_asBytes]
    rfl
  | full t =>
    obtain rfl : version = Messages.version := h
    rw [length_asBytes]
    rfl

/-- The MAC a decoder reads has the form its version calls for. -/
theorem ofVersion_of_extractMac {version : UInt8} {macSlice : List UInt8} {L : ℕ}
    {mac : MessageMac} (hL : macLength version = .ok L)
    (h : extractMac macSlice (version == Messages.macTruncatedVersion) = some mac) :
    mac.OfVersion Messages.macTruncatedVersion Messages.version version := by
  have hform := isTruncated_extractMac h
  unfold macLength at hL
  by_cases h4 : version = Messages.version
  · subst h4
    cases mac with
    | truncated t => cases hform
    | full t => rfl
  · by_cases h3 : version = Messages.macTruncatedVersion
    · subst h3
      cases mac with
      | truncated t => rfl
      | full t => cases hform
    · rw [if_neg h4, if_neg h3] at hL
      cases hL

@[simp] theorem macMatchesVersion_new (ratchetKey : Curve25519PublicKey) (chainIndex : UInt64)
    (ciphertext : List UInt8) : (new ratchetKey chainIndex ciphertext).MacMatchesVersion := rfl

@[simp] theorem macMatchesVersion_newTruncatedMac (ratchetKey : Curve25519PublicKey)
    (chainIndex : UInt64) (ciphertext : List UInt8) :
    (newTruncatedMac ratchetKey chainIndex ciphertext).MacMatchesVersion := rfl

/-- `set_mac` keeps the form of the MAC, so a message keeps the MAC its version
calls for. -/
theorem MacMatchesVersion.setMac {m : Message} (h : m.MacMatchesVersion) (mac : Mac) :
    (m.setMac mac).MacMatchesVersion := by
  unfold Message.setMac
  split <;> simpa [MacMatchesVersion, MessageMac.OfVersion, *] using h

/-- A message laid out as its version, a payload and a MAC of the length the
version gives decodes as its payload, with that MAC. -/
theorem fromBytes_cons_append {version : UInt8} {payload macBytes : List UInt8} {mac : MessageMac}
    (hL : macLength version = .ok macBytes.length)
    (hext : extractMac macBytes (version == Messages.macTruncatedVersion) = some mac)
    (hp : payload ≠ []) :
    fromBytes C (version :: (payload ++ macBytes)) =
      (do
        let inner ← (C.decodeMessage payload).mapError DecodeError.protoBufError
        let ratchetKey ←
          (Curve25519PublicKey.fromSlice inner.ratchetKey).mapError DecodeError.invalidKey
        pure
          { version, ratchetKey, chainIndex := inner.chainIndex, ciphertext := inner.ciphertext,
            mac }) := by
  have hpos := List.length_pos_iff.mpr hp
  have hlength : (version :: (payload ++ macBytes)).length = 1 + payload.length + macBytes.length := by
    simp only [List.length_cons, List.length_append]
    omega
  have hlen : ¬ (version :: (payload ++ macBytes)).length < macBytes.length + 2 := by omega
  -- the payload sits between the version byte and the MAC
  have hstart : (version :: (payload ++ macBytes)).length - macBytes.length = 1 + payload.length := by
    omega
  have hsub1 : subslice (version :: (payload ++ macBytes)) 1
      ((version :: (payload ++ macBytes)).length - macBytes.length) = some payload := by
    have h := subslice_append [version] payload macBytes
    rw [List.append_assoc, List.singleton_append, List.length_singleton] at h
    rw [hstart]
    exact h
  have hsub2 : subslice (version :: (payload ++ macBytes))
      ((version :: (payload ++ macBytes)).length - macBytes.length)
      (version :: (payload ++ macBytes)).length = some macBytes := by
    have h := subslice_append (version :: payload) macBytes []
    rw [List.append_nil, List.cons_append, List.length_cons, Nat.add_comm payload.length 1] at h
    rw [hstart, hlength]
    exact h
  simp only [fromBytes, List.head?_cons, Fallible.okOr_some, pure_bind, hL, Fallible.liftExcept_ok,
    if_neg hlen, hsub1, hsub2, Fallible.liftOption_some, ne_eq, not_true_eq_false, if_false, hext]

/-- The bytes of a message: its version, the encoding of its payload's fields and
its MAC. -/
theorem toBytes_eq (m : Message) (hc : m.ciphertext.length < 2 ^ 64) :
    m.toBytes = m.version :: (Protobuf.encode
      (ProtoBufMessage.fields ⟨m.ratchetKey.inner.toList, m.chainIndex, m.ciphertext⟩) ++
        m.mac.asBytes) := by
  rw [toBytes, encode_eq m hc, List.cons_append]

/-- Decoding the bytes of a message with the MAC its version calls for gives
the message back. -/
theorem fromBytes_toBytes (hC : C.ProstDecodes) (m : Message) (hmac : m.MacMatchesVersion)
    (hc : m.ciphertext.length ≤ isizeMax) : fromBytes C m.toBytes = pure m := by
  have hc' : m.ciphertext.length < 2 ^ 64 := by
    unfold isizeMax at hc
    omega
  have hdecode := (hC.1.1 ⟨m.ratchetKey.inner.toList, m.chainIndex, m.ciphertext⟩
    (ProtoBufMessage.within_fields _ (by simp) hc')).1
  have hne : Protobuf.encode
      (ProtoBufMessage.fields ⟨m.ratchetKey.inner.toList, m.chainIndex, m.ciphertext⟩) ≠ [] :=
    Protobuf.encode_cons_ne_nil _ _ _
  have hext := extractMac_append_of_ofVersion (by decide) hmac []
  rw [List.append_nil] at hext
  rw [toBytes_eq m hc', fromBytes_cons_append (macLength_of_ofVersion hmac) hext hne, hdecode]
  simp only [Except.mapError, Fallible.liftExcept_ok, pure_bind, Curve25519PublicKey.fromSlice_inner]

/-- A decoded message has the MAC its version calls for, and a ciphertext no
longer than the bytes it was decoded from. -/
theorem fromBytes_eq_ok (hC : C.ProstDecodes) {value : List UInt8} {m : Message}
    (h : (fromBytes C value).run = some (.ok m)) :
    m.MacMatchesVersion ∧ m.ciphertext.length ≤ value.length := by
  rw [fromBytes] at h
  obtain ⟨version, -, h⟩ := Fallible.run_bind_eq_ok h
  obtain ⟨L, hL, h⟩ := Fallible.run_bind_eq_ok h
  rw [Fallible.run_liftExcept, Option.some.injEq] at hL
  split at h
  · cases h
  · obtain ⟨payload, hpayload, h⟩ := Fallible.run_bind_eq_ok h
    obtain ⟨inner, hinner, h⟩ := Fallible.run_bind_eq_ok h
    obtain ⟨macSlice, -, h⟩ := Fallible.run_bind_eq_ok h
    split at h
    · cases h
    · obtain ⟨mac, hmac, h⟩ := Fallible.run_bind_eq_ok h
      obtain ⟨ratchetKey, -, h⟩ := Fallible.run_bind_eq_ok h
      cases h
      rw [Fallible.run_liftExcept, Option.some.injEq, Fallible.mapError_eq_ok] at hinner
      rw [Fallible.run_liftOption, Option.map_eq_some_iff] at hmac
      obtain ⟨mac, hmac, hok⟩ := hmac
      cases hok
      -- the payload is a slice of the input, and the ciphertext is cut out of the payload
      rw [Fallible.run_liftExcept, Option.some.injEq] at hpayload
      have hslice : payload.length ≤ value.length :=
        length_le_of_subslice (Fallible.okOr_eq_ok hpayload)
      have hct := hC.1.2 payload inner hinner (4, .bytes inner.ciphertext) (by simp [ProtoBufMessage.fields])
      exact ⟨ofVersion_of_extractMac hL hmac, le_trans hct hslice⟩

/-- The bytes of a message are its ciphertext and at most 89 bytes more. -/
theorem length_toBytes_le (m : Message) (hc : m.ciphertext.length < 2 ^ 64) :
    m.toBytes.length ≤ m.ciphertext.length + 89 := by
  have hindex := (Leb128.length_encode_le_iff m.chainIndex.toNat 9).mpr
    (lt_of_lt_of_le m.chainIndex.toNat_lt (by decide))
  have hlength := (Leb128.length_encode_le_iff m.ciphertext.length 9).mpr
    (lt_of_lt_of_le hc (by decide))
  have hkey : (Leb128.encode 32).length = 1 := by
    rw [Leb128.encode_of_lt (by decide)]
    rfl
  have hmac : m.mac.asBytes.length ≤ 32 := by
    rw [length_asBytes]
    split <;> simp [Mac.truncatedLen, Mac.length]
  rw [toBytes_eq m hc]
  simp only [ProtoBufMessage.fields, Protobuf.encode_cons, Protobuf.encode_nil,
    Protobuf.key_of_lt _ (show 1 < 16 by decide), Protobuf.key_of_lt _ (show 2 < 16 by decide),
    Protobuf.key_of_lt _ (show 4 < 16 by decide), Protobuf.Value.encode, List.length_cons,
    List.length_append, List.length_nil, List.Vector.toList_length, hkey]
  omega

end Message

namespace PreKeyMessage

/-- The payload `to_bytes` hands to `prost`. -/
theorem toBytes_eq (hE : C.ProstEncodes) (p : PreKeyMessage) :
    p.toBytes C = version :: Protobuf.encodeCanonical (ProtoBufPreKeyMessage.fields
      { oneTimeKey := p.sessionKeys.oneTimeKey.inner.toList,
        baseKey := p.sessionKeys.baseKey.inner.toList,
        identityKey := p.sessionKeys.identityKey.inner.toList,
        message := p.message.toBytes }) := by
  rw [toBytes, hE]

/-- Decoding the bytes of a pre-key message whose message has the MAC its version
calls for gives the pre-key message back. -/
theorem fromBytes_toBytes (hC : C.ProstDecodes) (hE : C.ProstEncodes) (p : PreKeyMessage)
    (hmac : p.message.MacMatchesVersion) (hc : p.message.ciphertext.length ≤ isizeMax) :
    fromBytes C (p.toBytes C) = pure p := by
  have hc' : p.message.ciphertext.length < 2 ^ 64 := by
    unfold isizeMax at hc
    omega
  have hwithin : ∀ f ∈ ProtoBufPreKeyMessage.fields
      { oneTimeKey := p.sessionKeys.oneTimeKey.inner.toList,
        baseKey := p.sessionKeys.baseKey.inner.toList,
        identityKey := p.sessionKeys.identityKey.inner.toList,
        message := p.message.toBytes }, f.2.Within (2 ^ 64 - 1) := by
    have := p.message.length_toBytes_le hc'
    simp only [ProtoBufPreKeyMessage.fields, List.mem_cons, List.not_mem_nil, or_false,
      forall_eq_or_imp, forall_eq, Protobuf.Value.Within, List.Vector.toList_length]
    unfold isizeMax at hc
    omega
  have hdecode := (hC.2.1.1 _ hwithin).2
  -- the payload is everything after the version byte
  have hsub : ∀ payload : List UInt8,
      subslice (version :: payload) 1 (version :: payload).length = some payload := by
    intro payload
    rw [subslice, if_pos ⟨by simp, le_rfl⟩, List.take_length]
    rfl
  rw [toBytes_eq hE]
  simp only [fromBytes, List.head?_cons, Fallible.okOr_some, Fallible.liftExcept_ok, pure_bind,
    ne_eq, not_true_eq_false, if_false, hsub, Fallible.liftOption_some, hdecode, Except.mapError,
    Curve25519PublicKey.fromSlice_inner, Message.fromBytes_toBytes hC p.message hmac hc]

/-- A decoded pre-key message carries a message with the MAC its version calls
for, and a ciphertext no longer than the bytes it was decoded from. -/
theorem fromBytes_eq_ok (hC : C.ProstDecodes) {value : List UInt8} {p : PreKeyMessage}
    (h : (fromBytes C value).run = some (.ok p)) :
    p.message.MacMatchesVersion ∧ p.message.ciphertext.length ≤ value.length := by
  rw [fromBytes] at h
  obtain ⟨version, -, h⟩ := Fallible.run_bind_eq_ok h
  split at h
  · cases h
  · obtain ⟨payload, hpayload, h⟩ := Fallible.run_bind_eq_ok h
    obtain ⟨decoded, hdecoded, h⟩ := Fallible.run_bind_eq_ok h
    obtain ⟨oneTimeKey, -, h⟩ := Fallible.run_bind_eq_ok h
    obtain ⟨baseKey, -, h⟩ := Fallible.run_bind_eq_ok h
    obtain ⟨identityKey, -, h⟩ := Fallible.run_bind_eq_ok h
    obtain ⟨message, hmessage, h⟩ := Fallible.run_bind_eq_ok h
    cases h
    rw [Fallible.run_liftOption, Option.map_eq_some_iff] at hpayload
    obtain ⟨payload', hpayload, hok⟩ := hpayload
    cases hok
    rw [Fallible.run_liftExcept, Option.some.injEq, Fallible.mapError_eq_ok] at hdecoded
    -- the embedded message is cut out of the payload, and the payload out of the input
    have hinner := hC.2.1.2 payload decoded hdecoded (4, .bytes decoded.message)
      (by simp [ProtoBufPreKeyMessage.fields])
    obtain ⟨hmac, hct⟩ := Message.fromBytes_eq_ok hC hmessage
    exact ⟨hmac, le_trans hct (le_trans hinner (length_le_of_subslice hpayload))⟩

end PreKeyMessage

namespace OlmMessage

/-- The message inside has the MAC its version calls for, and a ciphertext a
`Vec<u8>` can hold. -/
def WellFormed : OlmMessage → Prop
  | .normal m => m.MacMatchesVersion ∧ m.ciphertext.length ≤ isizeMax
  | .preKey p => p.message.MacMatchesVersion ∧ p.message.ciphertext.length ≤ isizeMax

/-- `from_parts` inverts `to_parts`. -/
theorem fromParts_toParts (hC : C.ProstDecodes) (hE : C.ProstEncodes) (hB : C.Base64RoundTrip)
    (o : OlmMessage) (ho : o.WellFormed) : fromParts C (o.toParts C).1 (o.toParts C).2 = pure o := by
  cases o with
  | normal m =>
    simp only [toParts, messageType, MessageType.toUsize, fromParts, Message.fromBase64,
      Message.toBase64, base64Decode, hB m.toBytes, Except.mapError, Fallible.liftExcept_ok,
      pure_bind, Message.fromBytes_toBytes hC m ho.1 ho.2]
  | preKey p =>
    simp only [toParts, messageType, MessageType.toUsize, fromParts, PreKeyMessage.fromBase64,
      PreKeyMessage.toBase64, base64Decode, hB (p.toBytes C), Except.mapError,
      Fallible.liftExcept_ok, pure_bind, PreKeyMessage.fromBytes_toBytes hC hE p ho.1 ho.2]

end OlmMessage

theorem messages_fromBytes_toBytes (C : Codecs) (hC : C.ProstDecodes) (hE : C.ProstEncodes)
    (hB : C.Base64RoundTrip) :
    (∀ m : Message, m.MacMatchesVersion → m.ciphertext.length ≤ isizeMax →
      (Message.fromBytes C m.toBytes).run = some (.ok m)) ∧
    (∀ p : PreKeyMessage, p.message.MacMatchesVersion → p.message.ciphertext.length ≤ isizeMax →
      (PreKeyMessage.fromBytes C (p.toBytes C)).run = some (.ok p)) ∧
    (∀ o : OlmMessage, o.WellFormed →
      (OlmMessage.fromParts C (o.toParts C).1 (o.toParts C).2).run = some (.ok o)) ∧
    ∀ (s : List UInt8) (p : PreKeyMessage), s.length ≤ isizeMax →
      (PreKeyMessage.fromBytes C s).run = some (.ok p) →
        (PreKeyMessage.fromBytes C (p.toBytes C)).run = some (.ok p) := by
  refine ⟨?_, ?_, ?_, ?_⟩
  · intro m hmac hc
    rw [Message.fromBytes_toBytes hC m hmac hc]
    rfl
  · intro p hmac hc
    rw [PreKeyMessage.fromBytes_toBytes hC hE p hmac hc]
    rfl
  · intro o ho
    rw [OlmMessage.fromParts_toParts hC hE hB o ho]
    rfl
  · -- what the decoder accepts has the form the encoder round-trips
    intro s p hs h
    obtain ⟨hmac, hct⟩ := PreKeyMessage.fromBytes_eq_ok hC h
    rw [PreKeyMessage.fromBytes_toBytes hC hE p hmac (le_trans hct hs)]
    rfl

theorem messages_fromBytes_toBytes_toy :
    Codecs.toy.ProstDecodes ∧ Codecs.toy.ProstEncodes ∧ Codecs.toy.Base64RoundTrip ∧
      (PreKeyMessage.fromBytes Codecs.toy
          (PreKeyMessage.toBytes Codecs.toy
            ⟨⟨⟨Bytes.zero 32⟩, ⟨Bytes.zero 32⟩, ⟨Bytes.zero 32⟩⟩,
              Message.new ⟨Bytes.zero 32⟩ 5 [1, 2, 3]⟩)).run =
        some (.ok ⟨⟨⟨Bytes.zero 32⟩, ⟨Bytes.zero 32⟩, ⟨Bytes.zero 32⟩⟩,
          Message.new ⟨Bytes.zero 32⟩ 5 [1, 2, 3]⟩) :=
  ⟨Codecs.toy_prostDecodes, Codecs.toy_prostEncodes, Codecs.toy_base64RoundTrip,
    (messages_fromBytes_toBytes Codecs.toy Codecs.toy_prostDecodes Codecs.toy_prostEncodes
      Codecs.toy_base64RoundTrip).2.1 _ (by decide) (by decide)⟩

end Vodozemac.Olm
