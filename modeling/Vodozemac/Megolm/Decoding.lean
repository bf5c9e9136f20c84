import Vodozemac.Codecs
import Vodozemac.Megolm.GroupSession

/-!
# Vodozemac.Megolm.Decoding

The byte forms of the Megolm values: `MegolmMessage::try_from(&[u8])`, and
`ExportedSessionKey::from_bytes` and `SessionKey::from_bytes` of
`src/megolm/session_keys.rs`.

`MegolmMessage::try_from` finds the MAC and the signature from the end of the
message, with a suffix length its version gives, and hands the payload between
the version byte and the suffix to `prost`. The session-key decoders read
fixed-width fields through a `std::io::Cursor` (`Cursor.readExact`), and
`SessionKey::from_bytes` then checks the signature over all of its input but
the last 64 bytes.

Encoding and decoding are inverse: for messages with the MAC their version
calls for (`MegolmMessage.fromBytes_toBytes`), for every exported key
(`ExportedSessionKey.fromBytes_toBytes`), and for the signed session key every
group session hands out (`SessionKey.fromBytes_toBytes`), each for the keys
and signatures that parse from their bytes: by `Codecs.Ed25519RoundTrip`,
those the crate can hold.
-/

namespace Vodozemac

/-- `std::io::Error` of a `read_exact` past the end (`UnexpectedEof`). -/
structure IoError where
  deriving DecidableEq

/-- `std::io::Cursor<&[u8]>`: the bytes and the position of the next read. -/
structure Cursor where
  inner : List UInt8
  pos : ℕ

namespace Cursor

/-- `Cursor::new`. -/
def new (inner : List UInt8) : Cursor := ⟨inner, 0⟩

/-- `Read::read_exact` into a `[u8; n]`: the next `n` bytes, or an error when
fewer are left. -/
def readExact (c : Cursor) (n : ℕ) : Except IoError (Bytes n × Cursor) :=
  if h : n ≤ c.inner.length - c.pos then
    .ok (⟨(c.inner.drop c.pos).take n, by simp only [List.length_take, List.length_drop]; omega⟩,
      { c with pos := c.pos + n })
  else .error ⟨⟩

/-- A read of the bytes that come next. -/
theorem readExact_append {n : ℕ} {c : Cursor} (mid : Bytes n) (rest : List UInt8)
    (h : c.inner.drop c.pos = mid.toList ++ rest) :
    c.readExact n = .ok (mid, { c with pos := c.pos + n }) := by
  have hlen : n ≤ c.inner.length - c.pos := by
    have := congrArg List.length h
    simp only [List.length_drop, List.length_append, List.Vector.toList_length] at this
    omega
  rw [readExact, dif_pos hlen]
  congr
  rw [h]
  exact List.take_left' mid.toList_length

/-- What is left after a read. -/
theorem drop_pos_add {c : Cursor} {n : ℕ} {mid rest : List UInt8} (hmid : mid.length = n)
    (h : c.inner.drop c.pos = mid ++ rest) : c.inner.drop (c.pos + n) = rest := by
  rw [← List.drop_drop, h, ← hmid, List.drop_left]

end Cursor

namespace Megolm

variable (P : Primitives) (C : Codecs)

/-- `SessionKeyDecodeError`. -/
inductive SessionKeyDecodeError
  | version (expected got : UInt8)
  | read (e : IoError)
  | base64 (e : Base64DecodeError)
  | signature (e : SignatureError)
  | publicKey (e : KeyError)
  deriving DecidableEq

/-- `u32::from_be_bytes`: the bytes as a base-256 number, most significant first. -/
def fromBeBytes (bytes : Bytes 4) : UInt32 :=
  ((bytes.get 0).toNat * 2 ^ 24 + (bytes.get 1).toNat * 2 ^ 16 + (bytes.get 2).toNat * 2 ^ 8 +
    (bytes.get 3).toNat).toUInt32

namespace ExportedSessionKey

/-- `ExportedSessionKey::decode_key`: the key, and the cursor after it. -/
def decodeKey (expectedVersion : UInt8) (cursor : Cursor) :
    Except SessionKeyDecodeError (ExportedSessionKey × Cursor) := do
  let (version, cursor) ← (cursor.readExact 1).mapError SessionKeyDecodeError.read
  if version.get 0 ≠ expectedVersion then throw (.version expectedVersion (version.get 0))
  else
    let (index, cursor) ← (cursor.readExact 4).mapError SessionKeyDecodeError.read
    let (ratchet, cursor) ← (cursor.readExact 128).mapError SessionKeyDecodeError.read
    let (publicKey, cursor) ←
      (cursor.readExact Ed25519PublicKey.length).mapError SessionKeyDecodeError.read
    let signingKey ←
      (Ed25519PublicKey.fromSlice C publicKey.toList).mapError SessionKeyDecodeError.publicKey
    let ratchetIndex := fromBeBytes index
    pure ({ ratchetIndex, ratchet, signingKey }, cursor)

/-- `ExportedSessionKey::from_bytes`. -/
def fromBytes (bytes : List UInt8) : Except SessionKeyDecodeError ExportedSessionKey := do
  let (key, _) ← decodeKey C version (Cursor.new bytes)
  pure key

end ExportedSessionKey

namespace SessionKey

/-- `SessionKey::from_bytes`. -/
def fromBytes (bytes : List UInt8) : ExceptT SessionKeyDecodeError Option SessionKey := do
  let (sessionKey, cursor) ← ExportedSessionKey.decodeKey C version (Cursor.new bytes)
  let (signature, cursor) ←
    (cursor.readExact Ed25519Signature.length).mapError SessionKeyDecodeError.read
  let signature ←
    (Ed25519Signature.fromSlice C signature.toList).mapError SessionKeyDecodeError.signature
  let decoded := cursor.inner
  -- `decoded.len() - Ed25519Signature::LENGTH` overflows below 64 bytes, and
  -- `&decoded[..]` panics out of bounds
  let signed ← if Ed25519Signature.length ≤ decoded.length then
      subslice decoded 0 (decoded.length - Ed25519Signature.length)
    else none
  (sessionKey.signingKey.verify P signed signature).mapError SessionKeyDecodeError.signature
  pure { sessionKey, signature }

end SessionKey

namespace MegolmMessage

/-- The message carries the MAC its version calls for: eight bytes for
`MAC_TRUNCATED_VERSION`, 32 for `VERSION`. -/
def MacMatchesVersion (m : MegolmMessage) : Prop :=
  m.mac.OfVersion Message.macTruncatedVersion Message.version m.version

instance (m : MegolmMessage) : Decidable m.MacMatchesVersion :=
  inferInstanceAs (Decidable (m.mac.OfVersion _ _ _))

/-- The length of the MAC and the signature of a version: the `match version`
of `MegolmMessage::try_from`. -/
def suffixLength (version : UInt8) : Except DecodeError ℕ :=
  if version = Message.version then .ok messageSuffixLength
  else if version = Message.macTruncatedVersion then .ok messageTruncatedSuffixLength
  else .error (.invalidVersion Message.version version)

/-- `MegolmMessage::try_from(&[u8])`. -/
def fromBytes (message : List UInt8) : ExceptT DecodeError Option MegolmMessage := do
  let version ← Fallible.okOr message.head? DecodeError.missingVersion
  let suffixLength ← suffixLength version
  if message.length < suffixLength + 2 then throw (.messageTooShort message.length)
  else
    -- `message.get(1..message.len() - suffix_length)` is `None`, not a panic, out of bounds
    let payload ← Fallible.okOr (subslice message 1 (message.length - suffixLength))
      (DecodeError.messageTooShort message.length)
    let inner ← (C.decodeMegolmMessage payload).mapError DecodeError.protoBufError
    let signatureLocation := message.length - Ed25519Signature.length
    -- `&message[signature_location..]` and `&message[message.len() - suffix_length..]`
    -- panic out of bounds
    let signatureSlice ← subslice message signatureLocation message.length
    let signature ← (Ed25519Signature.fromSlice C signatureSlice).mapError DecodeError.signature
    let macSlice ← subslice message (message.length - suffixLength) message.length
    let mac ← extractMac macSlice (version == Message.macTruncatedVersion)
    pure
      { version, ciphertext := inner.ciphertext, messageIndex := inner.messageIndex, mac,
        signature }

end MegolmMessage

/-! ### Round trips -/

variable {P C}


theorem fromBeBytes_toBeBytes (x : UInt32) : fromBeBytes ⟨toBeBytes x, rfl⟩ = x := by
  show ((x >>> 24).toUInt8.toNat * 2 ^ 24 + (x >>> 16).toUInt8.toNat * 2 ^ 16 +
    (x >>> 8).toUInt8.toNat * 2 ^ 8 + x.toUInt8.toNat).toUInt32 = x
  apply UInt32.toNat_inj.mp
  have hx := x.toNat_lt
  simp only [UInt32.toNat_toUInt8, UInt32.toNat_shiftRight, UInt32.reduceToNat, Nat.reduceMod,
    Nat.toUInt32_eq, UInt32.toNat_ofNat']
  omega

namespace ExportedSessionKey

/-- `decode_key` reads back a key written with the version it expects, whatever
follows it, and leaves the cursor after it. -/
theorem decodeKey_toBytesWithVersion {k : ExportedSessionKey}
    (hkey : C.ed25519PublicKeyFromBytes k.signingKey.bytes.toList = .ok k.signingKey)
    (version : UInt8) {c : Cursor} {r : List UInt8}
    (h : c.inner.drop c.pos = k.toBytesWithVersion version ++ r) :
    decodeKey C version c = .ok (k, { c with pos := c.pos + 165 }) := by
  simp only [toBytesWithVersion, List.append_assoc] at h
  -- the four fields, one read each
  have h1 := Cursor.readExact_append (⟨[version], rfl⟩ : Bytes 1) _ h
  have h1' := Cursor.drop_pos_add (n := 1) rfl h
  have h4 := Cursor.readExact_append (c := { c with pos := c.pos + 1 })
    (⟨toBeBytes k.ratchetIndex, rfl⟩ : Bytes 4) _ h1'
  have h4' := Cursor.drop_pos_add (c := { c with pos := c.pos + 1 }) (n := 4) rfl h1'
  have h128 := Cursor.readExact_append (c := { c with pos := c.pos + 1 + 4 }) k.ratchet _ h4'
  have h128' := Cursor.drop_pos_add (c := { c with pos := c.pos + 1 + 4 }) k.ratchet.toList_length h4'
  have h32 := Cursor.readExact_append (c := { c with pos := c.pos + 1 + 4 + 128 })
    k.signingKey.bytes _ h128'
  have hversion : List.Vector.head (⟨[version], rfl⟩ : Bytes 1) = version := rfl
  simp only [decodeKey, Except.mapError, h1, List.Vector.get_zero, ne_eq, Ed25519PublicKey.length,
    Ed25519PublicKey.fromSlice, bind_pure_comp, ite_not, Fallible.ok_bind, hversion, ↓reduceIte, h4,
    h128, fromBeBytes_toBeBytes, h32, hkey, Except.map_ok]

/-- `from_bytes` reads back every exported key whose signing key parses from
its bytes. -/
theorem fromBytes_toBytes {k : ExportedSessionKey}
    (hkey : C.ed25519PublicKeyFromBytes k.signingKey.bytes.toList = .ok k.signingKey) :
    fromBytes C k.toBytes = .ok k := by
  have hdecode := decodeKey_toBytesWithVersion hkey version (c := Cursor.new k.toBytes) (r := [])
    (by rw [List.append_nil]; rfl)
  simp only [fromBytes, hdecode, Fallible.ok_bind]
  rfl

end ExportedSessionKey

namespace SessionKey

/-- `from_bytes` reads back every session key whose signing key and signature
parse from their bytes and whose signature verifies. -/
theorem fromBytes_toBytes {k : SessionKey}
    (hkey : C.ed25519PublicKeyFromBytes k.sessionKey.signingKey.bytes.toList = .ok k.sessionKey.signingKey)
    (hparse : C.ed25519SignatureFromBytes k.signature.bytes.toList = .ok k.signature)
    (hsig : k.sessionKey.signingKey.verify P k.toSignatureBytes k.signature = .ok ()) :
    fromBytes P C k.toBytes = pure k := by
  have hlength : k.toSignatureBytes.length = 165 := by
    simp [toSignatureBytes, ExportedSessionKey.toBytesWithVersion, toBeBytes]
  have hdecode := ExportedSessionKey.decodeKey_toBytesWithVersion hkey version
    (c := ⟨k.toBytes, 0⟩) (r := k.signature.bytes.toList) rfl
  -- the signature follows the key
  have hsigRead : (⟨k.toBytes, 165⟩ : Cursor).readExact 64 =
      .ok (k.signature.bytes, ⟨k.toBytes, 165 + 64⟩) :=
    Cursor.readExact_append k.signature.bytes [] (by
      simp only [toBytes, List.append_nil]
      rw [← hlength, List.drop_left])
  -- and is checked over everything before it
  have hsigned : subslice k.toBytes 0 (k.toBytes.length - 64) = some k.toSignatureBytes := by
    have h := subslice_append [] k.toSignatureBytes k.signature.bytes.toList
    simp only [List.nil_append, List.length_nil, Nat.zero_add] at h
    rw [toBytes, List.length_append, List.Vector.toList_length, Nat.add_sub_cancel]
    exact h
  have hlen : 64 ≤ k.toBytes.length := by
    simp [toBytes]
  simp only [fromBytes, Cursor.new, Nat.zero_add, hdecode, Fallible.liftExcept_ok, pure_bind,
    Ed25519Signature.length, hsigRead, Except.mapError, Ed25519Signature.fromSlice, hparse,
    if_pos hlen, hsigned, Fallible.liftOption_some, hsig]

end SessionKey

namespace MegolmMessage

theorem suffixLength_of_ofVersion {mac : MessageMac} {version : UInt8}
    (h : mac.OfVersion Message.macTruncatedVersion Message.version version) :
    suffixLength version = .ok (mac.asBytes.length + Ed25519Signature.length) := by
  cases mac with
  | truncated t =>
    obtain rfl : version = Message.macTruncatedVersion := h
    rw [length_asBytes]
    rfl
  | full t =>
    obtain rfl : version = Message.version := h
    rw [length_asBytes]
    rfl

/-- A message laid out as its version, a payload, a MAC of the length the
version gives and a signature decodes as its payload, with that MAC and
signature. -/
theorem fromBytes_cons_append {version : UInt8} {payload macBytes : List UInt8}
    {signatureBytes : Bytes 64} {mac : MessageMac}
    (hL : suffixLength version = .ok (macBytes.length + Ed25519Signature.length))
    (hext : extractMac (macBytes ++ signatureBytes.toList) (version == Message.macTruncatedVersion) =
      some mac)
    (hp : payload ≠ []) :
    fromBytes C (version :: (payload ++ (macBytes ++ signatureBytes.toList))) =
      (do
        let inner ← (C.decodeMegolmMessage payload).mapError DecodeError.protoBufError
        let signature ←
          (Ed25519Signature.fromSlice C signatureBytes.toList).mapError DecodeError.signature
        pure
          { version, ciphertext := inner.ciphertext, messageIndex := inner.messageIndex, mac,
            signature }) := by
  have hpos := List.length_pos_iff.mpr hp
  have hsuffix := signatureBytes.toList_length
  set suffix := macBytes ++ signatureBytes.toList with hsuffixDef
  have hsuffixLength : suffix.length = macBytes.length + Ed25519Signature.length := by
    rw [hsuffixDef, List.length_append, hsuffix]
    rfl
  have hlength : (version :: (payload ++ suffix)).length = 1 + payload.length + suffix.length := by
    simp only [List.length_cons, List.length_append]
    omega
  have hlen : ¬ (version :: (payload ++ suffix)).length <
      macBytes.length + Ed25519Signature.length + 2 := by
    omega
  -- the payload sits between the version byte and the suffix
  have hstart : (version :: (payload ++ suffix)).length -
      (macBytes.length + Ed25519Signature.length) = 1 + payload.length := by
    omega
  have hsub1 : subslice (version :: (payload ++ suffix)) 1
      ((version :: (payload ++ suffix)).length - (macBytes.length + Ed25519Signature.length)) =
        some payload := by
    have h := subslice_append [version] payload suffix
    rw [List.append_assoc, List.singleton_append, List.length_singleton] at h
    rw [hstart]
    exact h
  have hsub2 : subslice (version :: (payload ++ suffix))
      ((version :: (payload ++ suffix)).length - (macBytes.length + Ed25519Signature.length))
      (version :: (payload ++ suffix)).length = some suffix := by
    have h := subslice_append (version :: payload) suffix []
    rw [List.append_nil, List.cons_append, List.length_cons, Nat.add_comm payload.length 1] at h
    rw [hstart, hlength]
    exact h
  -- the signature is the last 64 bytes
  have hsub3 : subslice (version :: (payload ++ suffix))
      ((version :: (payload ++ suffix)).length - Ed25519Signature.length)
      (version :: (payload ++ suffix)).length = some signatureBytes.toList := by
    have h := subslice_append (version :: (payload ++ macBytes)) signatureBytes.toList []
    rw [List.append_nil, List.cons_append, List.append_assoc] at h
    rw [show (version :: (payload ++ suffix)).length - Ed25519Signature.length =
        (version :: (payload ++ macBytes)).length by
      simp only [hlength, hsuffixLength, List.length_cons, List.length_append]
      omega,
      show (version :: (payload ++ suffix)).length =
        (version :: (payload ++ macBytes)).length + signatureBytes.toList.length by
      simp only [hsuffixDef, List.length_cons, List.length_append]
      omega]
    exact h
  simp only [fromBytes, List.head?_cons, Fallible.okOr_some, pure_bind, hL, Fallible.liftExcept_ok,
    if_neg hlen, hsub1, hsub2, hsub3, Fallible.liftOption_some, hext]

/-- The bytes of a message: its version, the encoding of its payload's fields,
its MAC and its signature. -/
theorem toBytes_eq (m : MegolmMessage) (hc : m.ciphertext.length < 2 ^ 64) :
    m.toBytes = m.version :: (Protobuf.encode
      (ProtobufMegolmMessage.fields ⟨m.messageIndex, m.ciphertext⟩) ++
        (m.mac.asBytes ++ m.signature.bytes.toList)) := by
  rw [toBytes, encodeMessage_eq m hc, List.cons_append, List.cons_append, List.append_assoc]

/-- Decoding the bytes of a message with the MAC its version calls for, and a
signature that parses from its bytes, gives the message back. -/
theorem fromBytes_toBytes (hC : C.ProstDecodes) {m : MegolmMessage}
    (hparse : C.ed25519SignatureFromBytes m.signature.bytes.toList = .ok m.signature)
    (hmac : m.MacMatchesVersion) (hc : m.ciphertext.length ≤ isizeMax) :
    fromBytes C m.toBytes = pure m := by
  have hc' : m.ciphertext.length < 2 ^ 64 := by
    unfold isizeMax at hc
    omega
  have hwithin : ∀ f ∈ ProtobufMegolmMessage.fields ⟨m.messageIndex, m.ciphertext⟩,
      f.2.Within (2 ^ 64 - 1) := by
    simp only [ProtobufMegolmMessage.fields, List.mem_cons, List.not_mem_nil, or_false,
      forall_eq_or_imp, forall_eq, Protobuf.Value.Within]
    exact ⟨lt_trans m.messageIndex.toNat_lt (by decide), by omega⟩
  have hdecode := (hC.2.2.1 ⟨m.messageIndex, m.ciphertext⟩ hwithin).1
  have hne : Protobuf.encode (ProtobufMegolmMessage.fields ⟨m.messageIndex, m.ciphertext⟩) ≠ [] :=
    Protobuf.encode_cons_ne_nil _ _ _
  rw [toBytes_eq m hc', fromBytes_cons_append (suffixLength_of_ofVersion hmac)
    (extractMac_append_of_ofVersion (by decide) hmac _) hne, hdecode]
  simp only [Except.mapError, Fallible.liftExcept_ok, pure_bind, Ed25519Signature.fromSlice, hparse]

end MegolmMessage

end Megolm

end Vodozemac
