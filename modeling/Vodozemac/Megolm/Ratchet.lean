import Mathlib
import Vodozemac.Primitives

/-!
# Vodozemac.Megolm.Ratchet

The Megolm ratchet of `src/megolm/ratchet.rs`: 128 bytes, viewed as the four
32-byte parts `R(0) … R(3)` of `Ratchet::as_parts`, and a `u32` counter.

* `advance` moves the counter by one: the `while` loop finds the slowest part
  `h` whose mask clears the new counter, and `R(3) … R(h)` are rehashed from
  `R(h)`, last `R(h)` itself.
* `advanceTo` jumps to any counter value digit by digit: for part `j` it counts
  how often byte `j` of the counter has to move (`& 0xff` wraps the count, and a
  zero count with a smaller target is the full turn `0x100`), rehashes `R(j)`
  all but the last time on its own, and on the last step rehashes
  `R(3) … R(j)` from `R(j)`.

The `u32` arithmetic is read as wrapping (`UInt32`), as the comment in
`advance_to` intends. `RatchetParts::update` has `unreachable!()` arms for part
indices outside `0..4`; every call passes loop indices below four, and the
model keeps the parts unchanged there.
-/

namespace Vodozemac.Megolm

/-- The ratchet's parts and the bytes of a `u32` are indexed by `Fin 4`: a named
instance gives its literals `0 … 3` one and the same `NeZero` proof wherever
they are written. -/
instance neZeroFour : NeZero 4 := ⟨by decide⟩

/-- `RatchetPart`: one 32-byte quarter of the ratchet. -/
abbrev RatchetPart := Bytes 32

/-- `RatchetBytes`, through the view of `Ratchet::as_parts`: part `i` is bytes
`32 i .. 32 i + 32` of the 128 ratchet bytes. -/
abbrev RatchetBytes := Fin 4 → RatchetPart

/-- `Ratchet`: the ratchet bytes and the counter (the message index). -/
structure Ratchet where
  inner : RatchetBytes
  counter : UInt32

namespace Ratchet

/-- `Ratchet::RATCHET_PART_COUNT`. -/
def ratchetPartCount : ℕ := 4

/-- `Ratchet::LAST_RATCHET_INDEX`. -/
def lastRatchetIndex : ℕ := ratchetPartCount - 1

/-- `ADVANCEMENT_SEEDS[i]`: the one-byte HMAC message `b"\x0i"` used to rehash
into part `i`. -/
def advancementSeeds (i : ℕ) : List UInt8 := [UInt8.ofNat i]

/-- `RatchetPart::hash`: HMAC-SHA-256 keyed with the part over the seed. -/
def partHash (P : Primitives) (part : RatchetPart) (seed : List UInt8) : RatchetPart :=
  P.hmacSha256 part.toList seed

/-- `RatchetParts::update(from, to)`: `R(to) := hash(R(from), ADVANCEMENT_SEEDS[to])`.
The `else` branch stands for the `unreachable!()` arms of the two `match`es. -/
def update (P : Primitives) (parts : RatchetBytes) (fromPart toPart : ℕ) : RatchetBytes :=
  if h : fromPart < 4 ∧ toPart < 4 then
    Function.update parts ⟨toPart, h.2⟩
      (partHash P (parts ⟨fromPart, h.1⟩) (advancementSeeds toPart))
  else parts

/-- `(from..=LAST_RATCHET_INDEX).rev()` followed by `update(from, i)` for each
`i`: rehash `R(3)`, …, `R(from)` from `R(from)`, in that order. -/
def updateFrom (P : Primitives) (fromPart : ℕ) (parts : RatchetBytes) : RatchetBytes :=
  ((List.range' fromPart (lastRatchetIndex + 1 - fromPart)).reverse).foldl
    (fun parts i => update P parts fromPart i) parts

/-- The `while h < RATCHET_PART_COUNT` loop of `Ratchet::advance`, with `fuel`
the iterations left: the first `h` whose `mask` clears the counter. -/
def advanceLevel (counter : UInt32) : ℕ → ℕ → UInt32 → ℕ
  | 0, h, _ => h
  | fuel + 1, h, mask =>
      if counter &&& mask = 0 then h else advanceLevel counter fuel (h + 1) (mask >>> 8)

/-- `Ratchet::advance`. -/
def advance (P : Primitives) (r : Ratchet) : Ratchet :=
  let counter := r.counter + 1
  let h := advanceLevel counter ratchetPartCount 0 0x00FFFFFF
  { inner := updateFrom P h r.inner, counter }

/-- The `while steps > 1` loop of `Ratchet::advance_to`: rehash `R(j)` from
itself until one step is left. -/
def rehashWhile (P : Primitives) (j : ℕ) : ℕ → RatchetBytes → RatchetBytes
  | 0, parts => parts
  | steps + 1, parts =>
      if 1 < steps + 1 then rehashWhile P j steps (update P parts j j) else parts

/-- How many times `advance_to` rehashes part `j` on its way from `counter` to
`target` (`none` is the `continue` of the loop). -/
def advanceToSteps (target counter : UInt32) (j : ℕ) : Option UInt32 :=
  let shift := UInt32.ofNat ((lastRatchetIndex - j) * 8)
  let steps := ((target >>> shift) - (counter >>> shift)) &&& 0xff
  if steps = 0 then
    -- the counter is slightly above the target: `advance_to` wrapped around and
    -- part `R(0)` turns 256 times
    if target < counter then some 0x100 else none
  else some steps

/-- Iteration `j` of the `for` loop of `Ratchet::advance_to`. -/
def advanceToPart (P : Primitives) (target : UInt32) (r : Ratchet) (j : ℕ) : Ratchet :=
  match advanceToSteps target r.counter j with
  | none => r
  | some steps =>
      let mask : UInt32 := ~~~0 <<< UInt32.ofNat ((lastRatchetIndex - j) * 8)
      { inner := updateFrom P j (rehashWhile P j steps.toNat r.inner),
        counter := target &&& mask }

/-- `Ratchet::advance_to`. -/
def advanceTo (P : Primitives) (r : Ratchet) (target : UInt32) : Ratchet :=
  (List.range ratchetPartCount).foldl (advanceToPart P target) r

/-- `Ratchet::index`. -/
def index (r : Ratchet) : UInt32 := r.counter

/-- `Ratchet::RATCHET_LENGTH`. -/
def ratchetLength : ℕ := 128

/-- `Ratchet::as_bytes`: the 128 bytes, part after part. -/
def asBytes (r : Ratchet) : Bytes 128 :=
  ⟨(r.inner 0).toList ++ (r.inner 1).toList ++ (r.inner 2).toList ++ (r.inner 3).toList,
    by simp⟩

/-- `Ratchet::from_bytes`: part `i` is bytes `32 i .. 32 i + 32`. -/
def fromBytes (bytes : Bytes 128) (counter : UInt32) : Ratchet :=
  { inner := fun i => ⟨(bytes.toList.drop (32 * i.val)).take 32, by simp; omega⟩,
    counter }

/-- `Ratchet::new`, with the 128 bytes that `fill_bytes` draws passed in. -/
def new (bytes : Bytes 128) : Ratchet := fromBytes bytes 0

/-- `Ratchet::ct_eq`, which short-circuits on the counter and compares the bytes
in constant time. -/
def ctEq (r s : Ratchet) : Bool :=
  if r.counter ≠ s.counter then false else decide (r.asBytes = s.asBytes)

/-- The bytes and the counter of a ratchet give it back. -/
@[simp] theorem fromBytes_asBytes (r : Ratchet) : fromBytes r.asBytes r.counter = r := by
  obtain ⟨inner, counter⟩ := r
  simp only [fromBytes, asBytes]
  congr 1
  funext i
  apply List.Vector.toList_injective
  fin_cases i <;> simp [List.drop_append, List.drop_eq_nil_of_le]

@[simp] theorem counter_fromBytes (bytes : Bytes 128) (counter : UInt32) :
    (fromBytes bytes counter).counter = counter := rfl

/-- `ct_eq` decides equality of ratchets. -/
theorem ctEq_iff (r s : Ratchet) : r.ctEq s = true ↔ r = s := by
  unfold ctEq
  split_ifs with hc
  · exact ⟨fun h => (nomatch h), fun h => absurd (congrArg counter h) hc⟩
  · rw [decide_eq_true_iff]
    refine ⟨fun h => ?_, fun h => h ▸ rfl⟩
    rw [← fromBytes_asBytes r, ← fromBytes_asBytes s, h, not_not.mp hc]

end Ratchet

end Vodozemac.Megolm
