import Mathlib
import Vodozemac.Lib.Leb128

/-!
# The Protocol Buffers wire format

A message on the wire is a sequence of fields. A field is a key, the LEB128 of
`number * 8 + wire type`, and a value: a LEB128 for wire type `0`, or, for the
length-delimited wire type `2`, the LEB128 of the length and then the bytes.

Generated decoders and encoders are not modelled here; they are described by
what they do on this format. `Decodes decode fields` says that a decoder reads a
message back from the wire encoding of its fields, whether the fields at their
default value are written (as a hand-written encoder does) or left out (as the
canonical proto3 encoding `encodeCanonical` does), as long as every value fits
the format: varints and lengths of 64 bits (`Value.Within`). `ReturnsWithin`
says that every byte field a decoder returns is cut out of its input, so no
longer than it, and `Encodes encode fields` that an encoder writes the
canonical encoding.

`decodeFields` reads a byte string back into its fields and inverts `encode`
(`decodeFields_encode`); `bytesField` and `varintField` then read one field by
its number, the last occurrence winning, with the proto3 default when it is
missing. `decodeWith` makes a decoder of them that meets the laws
(`decodeWith_lawful`).
-/

namespace Protobuf

/-- A field value on the wire. -/
inductive Value
  | varint (n : ℕ)
  | bytes (b : List UInt8)
  deriving DecidableEq

namespace Value

/-- The wire type: `0` for a varint, `2` for a length-delimited value. -/
def wireType : Value → ℕ
  | .varint _ => 0
  | .bytes _ => 2

/-- The value after the key. -/
def encode : Value → List UInt8
  | .varint n => Leb128.encode n
  | .bytes b => Leb128.encode b.length ++ b

/-- The default value of proto3: zero, or no bytes. -/
def isDefault : Value → Bool
  | .varint n => n == 0
  | .bytes b => b.isEmpty

end Value

/-- The key of a field. -/
def key (number : ℕ) (v : Value) : List UInt8 := Leb128.encode (number * 8 + v.wireType)

/-- The wire encoding of a list of fields, in the order given. -/
def encode (fields : List (ℕ × Value)) : List UInt8 :=
  fields.flatMap fun f => key f.1 f.2 ++ f.2.encode

/-- The canonical proto3 encoding: fields at their default value are left out. -/
def encodeCanonical (fields : List (ℕ × Value)) : List UInt8 :=
  encode (fields.filter fun f => !f.2.isDefault)

/-- A value within `bound` bytes: a varint of at most 64 bits, or at most
`bound` bytes. -/
def Value.Within (bound : ℕ) : Value → Prop
  | .varint n => n < 2 ^ 64
  | .bytes b => b.length ≤ bound

instance (bound : ℕ) : (v : Value) → Decidable (v.Within bound)
  | .varint n => inferInstanceAs (Decidable (n < 2 ^ 64))
  | .bytes b => inferInstanceAs (Decidable (b.length ≤ bound))

/-- A decoder reads every message back from the encoding of its fields, when
the values fit the format's 64-bit varints and lengths. -/
def Decodes {α ε : Type} (decode : List UInt8 → Except ε α) (fields : α → List (ℕ × Value)) :
    Prop :=
  ∀ x, (∀ f ∈ fields x, f.2.Within (2 ^ 64 - 1)) →
    decode (encode (fields x)) = .ok x ∧ decode (encodeCanonical (fields x)) = .ok x

/-- Every byte field of a message a decoder returns is no longer than its input. -/
def ReturnsWithin {α ε : Type} (decode : List UInt8 → Except ε α)
    (fields : α → List (ℕ × Value)) : Prop :=
  ∀ bytes x, decode bytes = .ok x → ∀ f ∈ fields x, f.2.Within bytes.length

/-- A decoder of the wire format of `fields`. -/
def Lawful {α ε : Type} (decode : List UInt8 → Except ε α) (fields : α → List (ℕ × Value)) :
    Prop :=
  Decodes decode fields ∧ ReturnsWithin decode fields

/-- An encoder writes the canonical encoding of the fields. -/
def Encodes {α : Type} (enc : α → List UInt8) (fields : α → List (ℕ × Value)) : Prop :=
  ∀ x, enc x = encodeCanonical (fields x)

@[simp] theorem encode_nil : encode [] = [] := rfl

@[simp] theorem encode_cons (number : ℕ) (v : Value) (fields : List (ℕ × Value)) :
    encode ((number, v) :: fields) = key number v ++ v.encode ++ encode fields := by
  simp [encode]

theorem encode_cons_ne_nil (number : ℕ) (v : Value) (fields : List (ℕ × Value)) :
    encode ((number, v) :: fields) ≠ [] := by
  rw [encode_cons, List.append_assoc]
  exact List.append_ne_nil_of_left_ne_nil (Leb128.encode_ne_nil _) _

/-! ### Reading fields back -/

/-- Read one field off the front of the bytes. -/
def decodeField (bytes : List UInt8) : Option ((ℕ × Value) × List UInt8) := do
  let (k, rest) ← Leb128.decode bytes
  match k % 8 with
  | 0 =>
    let (n, rest) ← Leb128.decode rest
    pure ((k / 8, .varint n), rest)
  | 2 =>
    let (len, rest) ← Leb128.decode rest
    if len ≤ rest.length then pure ((k / 8, .bytes (rest.take len)), rest.drop len) else none
  | _ => none

/-- Read fields until the bytes end, at most `fuel` of them. -/
def decodeFieldsAux : ℕ → List UInt8 → Option (List (ℕ × Value))
  | _, [] => some []
  | 0, _ :: _ => none
  | fuel + 1, bytes => do
    let (f, rest) ← decodeField bytes
    let fs ← decodeFieldsAux fuel rest
    pure (f :: fs)

/-- Read all fields of a message; each takes at least one byte. -/
def decodeFields (bytes : List UInt8) : Option (List (ℕ × Value)) :=
  decodeFieldsAux bytes.length bytes

theorem key_ne_nil (number : ℕ) (v : Value) : key number v ≠ [] := Leb128.encode_ne_nil _

/-- The key of a field numbered below `16` is one byte. -/
theorem key_of_lt {number : ℕ} (v : Value) (h : number < 16) :
    key number v = [(number * 8 + v.wireType).toUInt8] := by
  apply Leb128.encode_of_lt
  cases v <;> simp [Value.wireType] <;> omega

/-- A field is read back from its encoding, whatever follows it. -/
theorem decodeField_encode (number : ℕ) (v : Value) (rest : List UInt8) :
    decodeField (key number v ++ v.encode ++ rest) = some ((number, v), rest) := by
  cases v with
  | varint n =>
    have hk : (number * 8 + 0) % 8 = 0 := by omega
    have hn : (number * 8 + 0) / 8 = number := by omega
    simp only [decodeField, key, Value.wireType, Value.encode, List.append_assoc,
      Leb128.decode_encode_append, Option.bind_eq_bind, Option.bind_some, hk, hn]
    rfl
  | bytes b =>
    have hk : (number * 8 + 2) % 8 = 2 := by omega
    have hn : (number * 8 + 2) / 8 = number := by omega
    simp only [decodeField, key, Value.wireType, Value.encode, List.append_assoc,
      Leb128.decode_encode_append, Option.bind_eq_bind, Option.bind_some, hk, hn,
      List.length_append, Nat.le_add_right, if_true, List.take_left', List.drop_left']
    rfl

theorem length_le_length_encode (fields : List (ℕ × Value)) :
    fields.length ≤ (encode fields).length := by
  induction fields with
  | nil => simp
  | cons f fields ih =>
    have := List.length_pos_iff.mpr (key_ne_nil f.1 f.2)
    simp only [encode, List.flatMap_cons, List.length_append, List.length_cons] at ih ⊢
    omega

theorem decodeFieldsAux_encode (fields : List (ℕ × Value)) {fuel : ℕ}
    (h : fields.length ≤ fuel) : decodeFieldsAux fuel (encode fields) = some fields := by
  induction fields generalizing fuel with
  | nil => cases fuel <;> rfl
  | cons f fields ih =>
    obtain ⟨number, v⟩ := f
    obtain ⟨fuel, rfl⟩ : ∃ k, fuel = k + 1 := ⟨fuel - 1, by simp at h; omega⟩
    -- the encoding starts with the key, so it is not empty and one round of fuel reads the field
    obtain ⟨b, bs, hb⟩ := List.exists_cons_of_ne_nil (key_ne_nil number v)
    have hdecode := decodeField_encode number v (encode fields)
    rw [hb] at hdecode
    rw [encode_cons, hb]
    simp only [List.cons_append] at hdecode ⊢
    rw [decodeFieldsAux, hdecode]
    · simp only [Option.bind_eq_bind, Option.bind_some, ih (by simp at h; omega)]
      rfl
    · exact List.cons_ne_nil _ _

/-- Reading the fields of an encoding gives the fields. -/
theorem decodeFields_encode (fields : List (ℕ × Value)) :
    decodeFields (encode fields) = some fields :=
  decodeFieldsAux_encode fields (length_le_length_encode fields)

/-! ### Reading a field by its number -/

/-- The value of the last field with the number. -/
def field? : List (ℕ × Value) → ℕ → Option Value
  | [], _ => none
  | f :: fields, number => (field? fields number).or (if f.1 = number then some f.2 else none)

/-- A byte field: `[]` when it is missing, `none` when it has the other wire type. -/
def bytesField (fields : List (ℕ × Value)) (number : ℕ) : Option (List UInt8) :=
  match field? fields number with
  | none => some []
  | some (.bytes b) => some b
  | some (.varint _) => none

/-- A varint field: `0` when it is missing, `none` when it has the other wire type. -/
def varintField (fields : List (ℕ × Value)) (number : ℕ) : Option ℕ :=
  match field? fields number with
  | none => some 0
  | some (.varint n) => some n
  | some (.bytes _) => none

/-- The decoder that reads the fields and then the message with `read`, and
fails with `err` unless every value of it is within the input. -/
def decodeWith {α ε : Type} (read : List (ℕ × Value) → Option α) (fields : α → List (ℕ × Value))
    (err : ε) (bytes : List UInt8) : Except ε α :=
  match (decodeFields bytes).bind read with
  | some x => if ∀ f ∈ fields x, f.2.Within bytes.length then .ok x else .error err
  | none => .error err

theorem field?_eq_none {fields : List (ℕ × Value)} {number : ℕ}
    (h : number ∉ fields.map Prod.fst) : field? fields number = none := by
  induction fields with
  | nil => rfl
  | cons f fields ih =>
    simp only [List.map_cons, List.mem_cons, not_or] at h
    rw [field?, ih h.2, if_neg (Ne.symm h.1)]
    rfl

theorem field?_of_mem {fields : List (ℕ × Value)} {number : ℕ} {v : Value}
    (hnd : (fields.map Prod.fst).Nodup) (hm : (number, v) ∈ fields) :
    field? fields number = some v := by
  induction fields with
  | nil => cases hm
  | cons f fields ih =>
    rw [List.map_cons, List.nodup_cons] at hnd
    rcases List.mem_cons.mp hm with rfl | hm
    · -- the field is the last one with its number
      rw [field?, field?_eq_none hnd.1, if_pos rfl]
      rfl
    · rw [field?, ih hnd.2 hm]
      rfl

/-- Leaving out the fields at their default leaves a field out exactly when it
is at its default. -/
theorem field?_filter {fields : List (ℕ × Value)} {number : ℕ} {v : Value}
    (hnd : (fields.map Prod.fst).Nodup) (hm : (number, v) ∈ fields) :
    field? (fields.filter fun f => !f.2.isDefault) number = if v.isDefault then none else some v := by
  have hsub : ((fields.filter fun f => !f.2.isDefault).map Prod.fst).Nodup :=
    ((List.filter_sublist).map Prod.fst).nodup hnd
  cases hv : v.isDefault with
  | false => exact field?_of_mem hsub (List.mem_filter.mpr ⟨hm, by simp [hv]⟩)
  | true =>
    apply field?_eq_none
    intro hmem
    obtain ⟨⟨n, w⟩, hw, rfl⟩ := List.mem_map.mp hmem
    have hw' := List.mem_filter.mp hw
    -- the only field with the number is `(number, v)`, which is at its default
    have heq : (n, w) = (n, v) := List.inj_on_of_nodup_map hnd hw'.1 hm rfl
    simp only [Prod.mk.injEq, true_and] at heq
    simp [heq, hv] at hw'

theorem bytesField_of_mem {fields : List (ℕ × Value)} {number : ℕ} {b : List UInt8}
    (hnd : (fields.map Prod.fst).Nodup) (hm : (number, .bytes b) ∈ fields) :
    bytesField fields number = some b ∧
      bytesField (fields.filter fun f => !f.2.isDefault) number = some b := by
  refine ⟨by rw [bytesField, field?_of_mem hnd hm], ?_⟩
  rw [bytesField, field?_filter hnd hm]
  cases b <;> rfl

theorem varintField_of_mem {fields : List (ℕ × Value)} {number n : ℕ}
    (hnd : (fields.map Prod.fst).Nodup) (hm : (number, .varint n) ∈ fields) :
    varintField fields number = some n ∧
      varintField (fields.filter fun f => !f.2.isDefault) number = some n := by
  refine ⟨by rw [varintField, field?_of_mem hnd hm], ?_⟩
  rw [varintField, field?_filter hnd hm]
  cases n <;> rfl

/-- A byte field is no longer than an encoding that holds it. -/
theorem length_le_length_encode_of_mem {fields : List (ℕ × Value)} {number : ℕ} {b : List UInt8}
    (h : (number, .bytes b) ∈ fields) : b.length ≤ (encode fields).length := by
  induction fields with
  | nil => cases h
  | cons f fields ih =>
    obtain ⟨n, v⟩ := f
    rw [encode_cons, List.length_append, List.length_append]
    rcases List.mem_cons.mp h with heq | h
    · cases heq
      simp only [Value.encode, List.length_append]
      omega
    · have := ih h
      omega

/-- The values of an encoding are within its length, when they fit the format. -/
theorem within_length_encode {fields : List (ℕ × Value)} {bound : ℕ}
    (h : ∀ f ∈ fields, f.2.Within bound) : ∀ f ∈ fields, f.2.Within (encode fields).length := by
  rintro ⟨number, v⟩ hf
  cases v with
  | varint n => exact h _ hf
  | bytes b => exact length_le_length_encode_of_mem hf

/-- The same for the canonical encoding: a byte field it leaves out is empty. -/
theorem within_length_encodeCanonical {fields : List (ℕ × Value)} {bound : ℕ}
    (h : ∀ f ∈ fields, f.2.Within bound) :
    ∀ f ∈ fields, f.2.Within (encodeCanonical fields).length := by
  rintro ⟨number, v⟩ hf
  cases v with
  | varint n => exact h _ hf
  | bytes b =>
    cases b with
    | nil => exact Nat.zero_le _
    | cons c cs =>
      exact length_le_length_encode_of_mem (List.mem_filter.mpr ⟨hf, rfl⟩)

/-- A decoder built by `decodeWith` meets the laws once `read` reads every
message back from its fields, with or without the fields at their default. -/
theorem decodeWith_lawful {α ε : Type} {read : List (ℕ × Value) → Option α}
    {fields : α → List (ℕ × Value)} {err : ε}
    (hread : ∀ x, read (fields x) = some x ∧
      read ((fields x).filter fun f => !f.2.isDefault) = some x) :
    Lawful (decodeWith read fields err) fields := by
  constructor
  · intro x hx
    have hcanonical := within_length_encodeCanonical hx
    rw [encodeCanonical] at hcanonical
    rw [decodeWith, decodeWith, encodeCanonical, decodeFields_encode, decodeFields_encode,
      Option.bind_some, Option.bind_some, (hread x).1, (hread x).2]
    simp only [if_pos (within_length_encode hx), if_pos hcanonical, and_self]
  · intro bytes x h
    rw [decodeWith] at h
    split at h
    · split at h
      · cases h
        assumption
      · cases h
    · cases h

end Protobuf
