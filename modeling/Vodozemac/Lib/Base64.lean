import Mathlib

/-!
# Base64 without padding, and its in-place run

The standard Base64 encoding of RFC 4648 without padding: every three bytes
become four characters of the alphabet `A`–`Z`, `a`–`z`, `0`–`9`, `+`, `/`, six
bits each, highest first; a last pair of bytes becomes three characters and a
last single byte two. Characters are kept as their ASCII bytes.

`encodeInPlace` runs the same encoder the way a C encoder that walks its input
in groups of three and writes four characters a group runs when it is handed
one buffer as both input and output: each group reads its three bytes at `3g`
from the buffer as the earlier groups have left it, and writes its characters
at `4g`. From the second group on, the reads overtake the writes.

`decode` reads the characters back, four to three bytes, and inverts `encode`
(`decode_encode`).
-/

namespace Base64

/-- The character of a six-bit value. -/
def encodeSextet (v : ℕ) : UInt8 :=
  if v < 26 then (65 + v).toUInt8
  else if v < 52 then (71 + v).toUInt8
  else if v < 62 then (v - 4).toUInt8
  else if v = 62 then 43
  else 47

/-- Three bytes, as four characters. -/
def encodeTriple (a b c : UInt8) : List UInt8 :=
  let n := a.toNat * 2 ^ 16 + b.toNat * 2 ^ 8 + c.toNat
  [encodeSextet (n / 2 ^ 18), encodeSextet (n / 2 ^ 12 % 64), encodeSextet (n / 2 ^ 6 % 64),
    encodeSextet (n % 64)]

/-- A last pair of bytes, as three characters; the two bits below the pair are zero. -/
def encodePair (a b : UInt8) : List UInt8 :=
  let n := (a.toNat * 2 ^ 8 + b.toNat) * 4
  [encodeSextet (n / 2 ^ 12), encodeSextet (n / 2 ^ 6 % 64), encodeSextet (n % 64)]

/-- A last single byte, as two characters. -/
def encodeSingle (a : UInt8) : List UInt8 :=
  let n := a.toNat * 16
  [encodeSextet (n / 2 ^ 6), encodeSextet (n % 64)]

/-- Base64 without padding. -/
def encode : List UInt8 → List UInt8
  | a :: b :: c :: rest => encodeTriple a b c ++ encode rest
  | [a, b] => encodePair a b
  | [a] => encodeSingle a
  | [] => []

/-- `"Man"` is `"TWFu"`, `"Ma"` is `"TWE"`. -/
example : encode [77, 97, 110] = [84, 87, 70, 117] ∧ encode [77, 97] = [84, 87, 69] := by decide

/-- The number of characters of the encoding of `n` bytes. -/
def encodedLength (n : ℕ) : ℕ := 4 * (n / 3) + if n % 3 = 0 then 0 else n % 3 + 1

/-! ### The in-place run -/

/-- The buffer `buf` with `chars` written from position `i` on. -/
def write (buf : ℕ → UInt8) (i : ℕ) (chars : List UInt8) : ℕ → UInt8 :=
  fun j => if i ≤ j ∧ j < i + chars.length then chars.getD (j - i) 0 else buf j

/-- The buffer after the first `g` groups of an in-place run. -/
def inPlaceGroups (buf : ℕ → UInt8) : ℕ → ℕ → UInt8
  | 0 => buf
  | g + 1 =>
    let b := inPlaceGroups buf g
    write b (4 * g) (encodeTriple (b (3 * g)) (b (3 * g + 1)) (b (3 * g + 2)))

/-- The characters an in-place run over the first `n` bytes of `buf` leaves at
the start of the buffer: the groups of three, then the last one or two bytes,
read from the buffer as the groups left it. -/
def encodeInPlace (buf : ℕ → UInt8) (n : ℕ) : List UInt8 :=
  let q := n / 3
  let b := inPlaceGroups buf q
  let b := match n % 3 with
    | 2 => write b (4 * q) (encodePair (b (3 * q)) (b (3 * q + 1)))
    | 1 => write b (4 * q) (encodeSingle (b (3 * q)))
    | _ => b
  (List.range (encodedLength n)).map b

/-! ### The characters written so far

`inPlaceOut` describes the in-place run by the characters it has written: a
read at `p` sees a character when `p` is below the written prefix and the input
otherwise (`inPlaceRead`). `inPlaceGroups_eq` says that this is the buffer of
the run, and `encodeInPlace_of_mod_three_eq_two` reads the result off it. -/

/-- A read of the in-place run at `p` once `out` has been written. -/
def inPlaceRead (buf : ℕ → UInt8) (out : List UInt8) (p : ℕ) : UInt8 :=
  if p < out.length then out.getD p 0 else buf p

/-- The characters of the first `g` groups of an in-place run. -/
def inPlaceOut (buf : ℕ → UInt8) : ℕ → List UInt8
  | 0 => []
  | g + 1 =>
    let out := inPlaceOut buf g
    out ++ encodeTriple (inPlaceRead buf out (3 * g)) (inPlaceRead buf out (3 * g + 1))
      (inPlaceRead buf out (3 * g + 2))

@[simp] theorem length_encodeTriple (a b c : UInt8) : (encodeTriple a b c).length = 4 := rfl

@[simp] theorem length_encodePair (a b : UInt8) : (encodePair a b).length = 3 := rfl

@[simp] theorem length_inPlaceOut (buf : ℕ → UInt8) (g : ℕ) : (inPlaceOut buf g).length = 4 * g := by
  induction g with
  | zero => rfl
  | succ g ih =>
    rw [inPlaceOut, List.length_append, ih, length_encodeTriple]
    omega

/-- Writing characters right after a prefix of the buffer that already holds
`out` gives the buffer that holds `out ++ chars`. -/
theorem write_inPlaceRead (buf : ℕ → UInt8) (out chars : List UInt8) :
    write (inPlaceRead buf out) out.length chars = inPlaceRead buf (out ++ chars) := by
  funext j
  simp only [write, inPlaceRead, List.length_append]
  by_cases hj : j < out.length
  · rw [if_neg (by omega), if_pos hj, if_pos (by omega), List.getD_eq_getElem?_getD,
      List.getD_eq_getElem?_getD, List.getElem?_append_left hj]
  · by_cases hj' : j < out.length + chars.length
    · rw [if_pos ⟨by omega, hj'⟩, if_pos hj', List.getD_eq_getElem?_getD,
        List.getD_eq_getElem?_getD, List.getElem?_append_right (by omega)]
    · rw [if_neg (by omega), if_neg hj, if_neg hj']

/-- The buffer of an in-place run after `g` groups holds their characters in
front and the untouched input behind them. -/
theorem inPlaceGroups_eq (buf : ℕ → UInt8) (g : ℕ) :
    inPlaceGroups buf g = inPlaceRead buf (inPlaceOut buf g) := by
  induction g with
  | zero =>
    funext j
    simp [inPlaceGroups, inPlaceRead, inPlaceOut]
  | succ g ih =>
    have hlen : 4 * g = (inPlaceOut buf g).length := (length_inPlaceOut buf g).symm
    rw [inPlaceGroups, ih, hlen, write_inPlaceRead]
    rfl

/-- An in-place run over `3 q + 2` bytes: the characters of the `q` groups, then
the last pair read from the buffer as they left it. -/
theorem encodeInPlace_of_mod_three_eq_two (buf : ℕ → UInt8) {n : ℕ} (hn : n % 3 = 2) :
    encodeInPlace buf n =
      inPlaceOut buf (n / 3) ++
        encodePair (inPlaceRead buf (inPlaceOut buf (n / 3)) (3 * (n / 3)))
          (inPlaceRead buf (inPlaceOut buf (n / 3)) (3 * (n / 3) + 1)) := by
  have hlen : 4 * (n / 3) = (inPlaceOut buf (n / 3)).length := (length_inPlaceOut buf _).symm
  simp only [encodeInPlace, hn, inPlaceGroups_eq, hlen, write_inPlaceRead]
  apply List.ext_getElem
  · simp [encodedLength, hn]
  · intro j hj _
    -- every position of the result is below the characters written
    have hj' : j < (inPlaceOut buf (n / 3) ++
        encodePair (inPlaceRead buf (inPlaceOut buf (n / 3)) (3 * (n / 3)))
          (inPlaceRead buf (inPlaceOut buf (n / 3)) (3 * (n / 3) + 1))).length := by
      simpa [encodedLength, hn] using hj
    rw [List.getElem_map, List.getElem_range, inPlaceRead, if_pos hj',
      List.getD_eq_getElem?_getD, List.getElem?_eq_getElem hj']
    rfl

/-! ### Decoding -/

/-- The six-bit value of a character of the alphabet. -/
def decodeSextet (c : UInt8) : Option ℕ :=
  if 65 ≤ c.toNat ∧ c.toNat < 91 then some (c.toNat - 65)
  else if 97 ≤ c.toNat ∧ c.toNat < 123 then some (c.toNat - 71)
  else if 48 ≤ c.toNat ∧ c.toNat < 58 then some (c.toNat + 4)
  else if c = 43 then some 62
  else if c = 47 then some 63
  else none

/-- Four characters, as three bytes. -/
def decodeQuad (a b c d : UInt8) : Option (List UInt8) := do
  let n := (← decodeSextet a) * 2 ^ 18 + (← decodeSextet b) * 2 ^ 12 +
    (← decodeSextet c) * 2 ^ 6 + (← decodeSextet d)
  pure [(n / 2 ^ 16).toUInt8, (n / 2 ^ 8 % 256).toUInt8, (n % 256).toUInt8]

/-- Three last characters, as two bytes. -/
def decodeTriple (a b c : UInt8) : Option (List UInt8) := do
  let n := (← decodeSextet a) * 2 ^ 12 + (← decodeSextet b) * 2 ^ 6 + (← decodeSextet c)
  pure [(n / 2 ^ 10).toUInt8, (n / 4 % 256).toUInt8]

/-- Two last characters, as one byte. -/
def decodePair (a b : UInt8) : Option (List UInt8) := do
  let n := (← decodeSextet a) * 2 ^ 6 + (← decodeSextet b)
  pure [(n / 16).toUInt8]

/-- Base64 decoding without padding; `none` on a character outside the
alphabet or a single character left over. -/
def decode : List UInt8 → Option (List UInt8)
  | a :: b :: c :: d :: rest => do
    let bytes ← decodeQuad a b c d
    let tail ← decode rest
    pure (bytes ++ tail)
  | [a, b, c] => decodeTriple a b c
  | [a, b] => decodePair a b
  | [_] => none
  | [] => some []

theorem decodeSextet_encodeSextet {v : ℕ} (h : v < 64) : decodeSextet (encodeSextet v) = some v := by
  have hall : ∀ v : Fin 64, decodeSextet (encodeSextet v.val) = some v.val := by decide
  exact hall ⟨v, h⟩

theorem toUInt8_eq_of_mod {n : ℕ} {a : UInt8} (h : n % 256 = a.toNat) : n.toUInt8 = a := by
  apply UInt8.toNat_inj.mp
  simpa using h

theorem decodeQuad_encodeTriple (a b c : UInt8) :
    decodeQuad (encodeSextet ((a.toNat * 2 ^ 16 + b.toNat * 2 ^ 8 + c.toNat) / 2 ^ 18))
      (encodeSextet ((a.toNat * 2 ^ 16 + b.toNat * 2 ^ 8 + c.toNat) / 2 ^ 12 % 64))
      (encodeSextet ((a.toNat * 2 ^ 16 + b.toNat * 2 ^ 8 + c.toNat) / 2 ^ 6 % 64))
      (encodeSextet ((a.toNat * 2 ^ 16 + b.toNat * 2 ^ 8 + c.toNat) % 64)) = some [a, b, c] := by
  have ha := a.toNat_lt
  have hb := b.toNat_lt
  have hc := c.toNat_lt
  rw [decodeQuad, decodeSextet_encodeSextet (by omega), decodeSextet_encodeSextet (by omega),
    decodeSextet_encodeSextet (by omega), decodeSextet_encodeSextet (by omega)]
  simp only [Option.bind_eq_bind, Option.bind_some, Option.pure_def, Option.some.injEq, List.cons.injEq, and_true]
  refine ⟨toUInt8_eq_of_mod ?_, toUInt8_eq_of_mod ?_, toUInt8_eq_of_mod ?_⟩ <;> omega

theorem decodeTriple_encodePair (a b : UInt8) :
    decodeTriple (encodeSextet ((a.toNat * 2 ^ 8 + b.toNat) * 4 / 2 ^ 12))
      (encodeSextet ((a.toNat * 2 ^ 8 + b.toNat) * 4 / 2 ^ 6 % 64))
      (encodeSextet ((a.toNat * 2 ^ 8 + b.toNat) * 4 % 64)) = some [a, b] := by
  have ha := a.toNat_lt
  have hb := b.toNat_lt
  rw [decodeTriple, decodeSextet_encodeSextet (by omega), decodeSextet_encodeSextet (by omega),
    decodeSextet_encodeSextet (by omega)]
  simp only [Option.bind_eq_bind, Option.bind_some, Option.pure_def, Option.some.injEq,
    List.cons.injEq, and_true]
  refine ⟨toUInt8_eq_of_mod ?_, toUInt8_eq_of_mod ?_⟩ <;> omega

theorem decodePair_encodeSingle (a : UInt8) :
    decodePair (encodeSextet (a.toNat * 16 / 2 ^ 6)) (encodeSextet (a.toNat * 16 % 64)) =
      some [a] := by
  have ha := a.toNat_lt
  rw [decodePair, decodeSextet_encodeSextet (by omega), decodeSextet_encodeSextet (by omega)]
  simp only [Option.bind_eq_bind, Option.bind_some, Option.pure_def, Option.some.injEq,
    List.cons.injEq, and_true]
  exact toUInt8_eq_of_mod (by omega)

/-- Decoding inverts encoding. -/
theorem decode_encode (bytes : List UInt8) : decode (encode bytes) = some bytes := by
  induction bytes using encode.induct with
  | case1 a b c rest ih =>
    rw [encode, encodeTriple, List.cons_append, List.cons_append, List.cons_append,
      List.cons_append, List.nil_append, decode, decodeQuad_encodeTriple, ih]
    rfl
  | case2 a b => exact decodeTriple_encodePair a b
  | case3 a => exact decodePair_encodeSingle a
  | case4 => rfl

end Base64
