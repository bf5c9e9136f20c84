import Mathlib
import Vodozemac.Lib.HashRatchet
import Vodozemac.Lib.Bitwise
import Vodozemac.Megolm.Ratchet

/-!
# `advance_to` is repeated `advance`

The Megolm ratchet is a hierarchical hash ratchet in the sense of
`Vodozemac.Lib.HashRatchet`, with four parts and the level of a counter value
set by its trailing zero bytes (`level`): `Ratchet::advance` is one tick
(`advance_eq`), so `m` calls of it are a `run` (`iterate_advance`).

`Ratchet::advance_to` handles one counter byte per loop iteration. Iteration
`j` moves the counter from its current value to the target rounded down to a
multiple of `D = 256 ^ (3 - j)`. Every value on the way has level `j` or above,
and the ones of level `j` are exactly the multiples of `D`, so that stretch of
the run is `steps` ticks of level `j` (`run_eq_iterate_tick`), which is what the
iteration computes (`updateFrom_rehashWhile`). Before iteration `j ≥ 1` the
counter already agrees with the target above byte `j` (`advanceToPart_run`);
only iteration `0` can see a counter above the target, the wrap-around, where it
turns `R(0)` to the next multiple of `2 ^ 24` past `2 ^ 32`
(`advanceToPart_zero_wrap`).

Together: `advanceTo P r n = (advance P)^[(n - r.index).toNat] r` for every
ratchet and target (`advanceTo_eq_iterate`), with `n - r.index` the wrapping
`u32` difference.
-/

namespace Vodozemac.Megolm.Ratchet

open HashRatchet

variable (P : Primitives)

/-! ### The ratchet as a hierarchical hash ratchet -/

/-- The hash of the ratchet: part `i` is rehashed from `x` with seed `i`. -/
def hash (x : RatchetPart) (i : Fin 4) : RatchetPart := partHash P x (advancementSeeds i)

/-- The level of a counter value: `0` for multiples of `2 ^ 24`, then `1`, `2`
for multiples of `2 ^ 16` and `2 ^ 8`, and `3` for every other value. -/
def level (t : ℕ) : Fin 4 :=
  if t % 2 ^ 24 = 0 then 0 else if t % 2 ^ 16 = 0 then 1 else if t % 2 ^ 8 = 0 then 2 else 3

variable {P}

/-- The loop `(from..=3).rev()` of `update(from, i)` is one tick of level `from`:
`R(from)` is rewritten last, so every part reads the old `R(from)`. -/
theorem updateFrom_eq_tick (h : Fin 4) (parts : RatchetBytes) :
    updateFrom P h parts = tick (hash P) h parts := by
  funext i
  fin_cases h <;> fin_cases i <;>
    simp [updateFrom, lastRatchetIndex, ratchetPartCount, List.range', update,
      Function.update, tick, hash]

/-- The `while steps > 1` loop rehashes `R(j)` on its own `steps - 1` times. -/
theorem rehashWhile_eq (j : Fin 4) :
    ∀ (steps : ℕ) (parts : RatchetBytes),
      rehashWhile P j steps parts =
        Function.update parts j ((fun x => hash P x j)^[steps - 1] (parts j))
  | 0, parts => by simp [rehashWhile]
  | 1, parts => by simp [rehashWhile]
  | steps + 2, parts => by
      have hupd : update P parts j j = Function.update parts j (hash P (parts j) j) := by
        simp [update, hash]
      rw [rehashWhile, if_pos (by omega), rehashWhile_eq j (steps + 1), hupd]
      simp only [Function.update_self, Function.update_idem, Nat.add_sub_cancel]
      rw [show steps + 2 - 1 = steps + 1 by omega, Function.iterate_succ_apply]

/-- One iteration of `advance_to` with `steps ≥ 1` is `steps` ticks of level `j`. -/
theorem updateFrom_rehashWhile (j : Fin 4) {steps : ℕ} (hs : 1 ≤ steps) (parts : RatchetBytes) :
    updateFrom P j (rehashWhile P j steps parts) = (tick (hash P) j)^[steps] parts := by
  obtain ⟨s, rfl⟩ : ∃ s, steps = s + 1 := ⟨steps - 1, by omega⟩
  rw [updateFrom_eq_tick, rehashWhile_eq, Function.iterate_succ_apply']
  apply tick_congr
  intro i hi
  rcases lt_or_eq_of_le hi with hlt | rfl
  · rw [Function.update_of_ne (ne_of_lt hlt), iterate_tick_of_lt hlt]
  · rw [Function.update_self, iterate_tick_self, Nat.add_sub_cancel]

/-! ### Levels of counter values -/

/-- A value has level `j` or below exactly when it is a multiple of
`2 ^ (8 (3 - j))`. -/
theorem level_le_iff (t : ℕ) (j : Fin 4) : level t ≤ j ↔ 2 ^ (8 * (3 - j.val)) ∣ t := by
  rw [Nat.dvd_iff_mod_eq_zero]
  unfold level
  fin_cases j <;> split_ifs <;> simp_all +decide <;> omega

/-- Levels only see a value modulo `2 ^ 32`, the width of the counter. -/
theorem level_congr {a b : ℕ} (h : a % 2 ^ 32 = b % 2 ^ 32) : level a = level b := by
  have h24 : a % 2 ^ 24 = b % 2 ^ 24 := by omega
  have h16 : a % 2 ^ 16 = b % 2 ^ 16 := by omega
  have h8 : a % 2 ^ 8 = b % 2 ^ 8 := by omega
  simp only [level, h24, h16, h8]

theorem level_eq_zero_iff (t : ℕ) : level t = 0 ↔ 2 ^ 24 ∣ t := by
  rw [← Fin.le_zero_iff, level_le_iff]
  rfl

/-- Away from the multiples of `2 ^ (8 (4 - j))`, no value has a level below
`j`, and those of level `j` are the multiples of `2 ^ (8 (3 - j))`. -/
theorem level_of_not_dvd {t : ℕ} {j : Fin 4} (ht : ¬ 2 ^ (8 * (4 - j.val)) ∣ t) :
    (level t = j ↔ 2 ^ (8 * (3 - j.val)) ∣ t) ∧ j ≤ level t := by
  have hle : j ≤ level t := by
    by_contra hlt
    -- a level below `j` is a level `≤ j - 1`, a multiple of `2 ^ (8 (4 - j))`
    obtain ⟨i, hi⟩ : ∃ i : Fin 4, i.val + 1 = j.val :=
      ⟨⟨j.val - 1, by omega⟩, by simp only; omega⟩
    have hti : level t ≤ i := by rw [Fin.le_iff_val_le_val]; omega
    rw [level_le_iff] at hti
    exact ht (by rwa [show 8 * (4 - j.val) = 8 * (3 - i.val) by omega])
  refine ⟨⟨fun h => (level_le_iff t j).mp h.le, fun h => ?_⟩, hle⟩
  exact le_antisymm ((level_le_iff t j).mpr h) hle

/-! ### `advance` -/

theorem and_mask_eq_zero (c m : UInt32) (s : ℕ) (hm : m.toNat = 2 ^ s - 1) :
    c &&& m = 0 ↔ c.toNat % 2 ^ s = 0 := by
  rw [← UInt32.toNat_inj, UInt32.toNat_and, hm, Nat.and_two_pow_sub_one_eq_mod]
  simp

/-- The `while` loop of `advance` computes the level of the counter. -/
theorem advanceLevel_eq (c : UInt32) :
    advanceLevel c ratchetPartCount 0 0x00FFFFFF = (level c.toNat).val := by
  have h24 := and_mask_eq_zero c 0x00FFFFFF 24 rfl
  have h16 := and_mask_eq_zero c 0x0000FFFF 16 rfl
  have h8 := and_mask_eq_zero c 0x000000FF 8 rfl
  simp only [ratchetPartCount, advanceLevel, level,
    show (0x00FFFFFF : UInt32) >>> 8 = 0xFFFF from rfl,
    show (0xFFFF : UInt32) >>> 8 = 0xFF from rfl,
    show (0xFF : UInt32) >>> 8 = 0 from rfl, UInt32.and_zero, h24, h16, h8]
  split_ifs <;> rfl

/-- `Ratchet::advance` is one tick, of the level of the new counter value. -/
theorem advance_eq (r : Ratchet) :
    advance P r = ⟨tick (hash P) (level (r.counter.toNat + 1)) r.inner, r.counter + 1⟩ := by
  have hlev : level (r.counter + 1).toNat = level (r.counter.toNat + 1) :=
    level_congr (by rw [UInt32.toNat_add]; simp)
  simp only [advance, advanceLevel_eq, hlev, updateFrom_eq_tick]

/-- `m` calls of `Ratchet::advance` are a run of `m` ticks from the counter. -/
theorem iterate_advance (r : Ratchet) (m : ℕ) :
    (advance P)^[m] r =
      ⟨run (hash P) level r.inner r.counter.toNat m, r.counter + UInt32.ofNat m⟩ := by
  induction m with
  | zero => simp
  | succ m ih =>
      rw [Function.iterate_succ_apply', ih, advance_eq, run_succ]
      -- the wrapping counter has the level of the unbounded one
      have hlev : level ((r.counter + UInt32.ofNat m).toNat + 1) =
          level (r.counter.toNat + m + 1) :=
        level_congr (by rw [UInt32.toNat_add, UInt32.toNat_ofNat']; omega)
      rw [hlev]
      congr 1
      rw [UInt32.add_assoc]
      congr 1
      apply UInt32.toNat_inj.mp
      simp [UInt32.toNat_add]

/-! ### The `u32` arithmetic of `advance_to` -/

theorem shiftRight_toNat (x : UInt32) {j : ℕ} (hj : j < 4) :
    (x >>> UInt32.ofNat ((lastRatchetIndex - j) * 8)).toNat = x.toNat / 2 ^ (8 * (3 - j)) := by
  have hs : (UInt32.ofNat ((lastRatchetIndex - j) * 8)).toNat % 32 = 8 * (3 - j) := by
    simp only [lastRatchetIndex, ratchetPartCount, UInt32.toNat_ofNat']
    omega
  rw [UInt32.toNat_shiftRight, hs, Nat.shiftRight_eq_div_pow]

/-- The count of iteration `j` in `ℕ`: the wrapping difference of the target
and the counter above byte `j`, modulo 256. -/
theorem advanceToSteps_eq (n c : UInt32) {j : ℕ} (hj : j < 4) :
    advanceToSteps n c j =
      let s := (2 ^ 32 - c.toNat / 2 ^ (8 * (3 - j)) + n.toNat / 2 ^ (8 * (3 - j))) % 2 ^ 32 % 256
      if s = 0 then (if n < c then some 0x100 else none) else some (UInt32.ofNat s) := by
  have hsteps : (((n >>> UInt32.ofNat ((lastRatchetIndex - j) * 8)) -
      (c >>> UInt32.ofNat ((lastRatchetIndex - j) * 8))) &&& 0xff).toNat =
      (2 ^ 32 - c.toNat / 2 ^ (8 * (3 - j)) + n.toNat / 2 ^ (8 * (3 - j))) % 2 ^ 32 % 256 := by
    rw [UInt32.toNat_and, UInt32.toNat_sub, shiftRight_toNat _ hj, shiftRight_toNat _ hj,
      show (0xff : UInt32).toNat = 2 ^ 8 - 1 from rfl, Nat.and_two_pow_sub_one_eq_mod]
  dsimp only [advanceToSteps]
  generalize (((n >>> UInt32.ofNat ((lastRatchetIndex - j) * 8)) -
      (c >>> UInt32.ofNat ((lastRatchetIndex - j) * 8))) &&& 0xff) = x at hsteps ⊢
  rw [← hsteps, UInt32.ofNat_toNat]
  by_cases hx : x = 0
  · simp [hx]
  · have hx' : x.toNat ≠ 0 := fun h => hx (UInt32.toNat_inj.mp h)
    simp [hx, hx']

/-- With the counter at most the target and in the same block of
`256 * 2 ^ (8 (3 - j))`, iteration `j` moves byte `j` by the difference of the
two quotients by `2 ^ (8 (3 - j))`, or not at all. -/
theorem advanceToSteps_of_le {n c : UInt32} {j : ℕ} (hj : j < 4) (hcn : c.toNat ≤ n.toNat)
    (hblock : c.toNat / 2 ^ (8 * (3 - j)) / 256 = n.toNat / 2 ^ (8 * (3 - j)) / 256) :
    advanceToSteps n c j =
      if n.toNat / 2 ^ (8 * (3 - j)) = c.toNat / 2 ^ (8 * (3 - j)) then none
      else some (UInt32.ofNat (n.toNat / 2 ^ (8 * (3 - j)) - c.toNat / 2 ^ (8 * (3 - j)))) := by
  have hq : c.toNat / 2 ^ (8 * (3 - j)) ≤ n.toNat / 2 ^ (8 * (3 - j)) := Nat.div_le_div_right hcn
  have hc : c.toNat / 2 ^ (8 * (3 - j)) ≤ 2 ^ 32 := (Nat.div_le_self _ _).trans c.toNat_lt.le
  have hnc : ¬ n < c := by rw [UInt32.lt_iff_toNat_lt]; omega
  rw [advanceToSteps_eq n c hj]
  generalize c.toNat / 2 ^ (8 * (3 - j)) = x at hq hc hblock ⊢
  generalize n.toNat / 2 ^ (8 * (3 - j)) = y at hq hblock ⊢
  have hs : (2 ^ 32 - x + y) % 2 ^ 32 % 256 = y - x := by omega
  simp only [hs, hnc, if_false]
  by_cases hxy : y = x
  · simp [hxy]
  · simp [hxy, show y - x ≠ 0 by omega]

/-- Below the counter, iteration `0` turns byte `0` on to the target's top byte
through the full circle: between 1 and 256 steps. -/
theorem advanceToSteps_zero_of_lt {n c : UInt32} (hnc : n < c) :
    advanceToSteps n c 0 = some (UInt32.ofNat (256 + n.toNat / 2 ^ 24 - c.toNat / 2 ^ 24)) := by
  have hq : n.toNat / 2 ^ 24 ≤ c.toNat / 2 ^ 24 :=
    Nat.div_le_div_right (UInt32.lt_iff_toNat_lt.mp hnc).le
  have hc : c.toNat / 2 ^ 24 < 256 := by have := c.toNat_lt; omega
  rw [advanceToSteps_eq n c (by decide), show 8 * (3 - 0) = 24 from rfl]
  generalize c.toNat / 2 ^ 24 = x at hq hc ⊢
  generalize n.toNat / 2 ^ 24 = y at hq ⊢
  by_cases hxy : y = x
  · -- the `steps == 0` case with a smaller target: the `0x100` branch
    have hs : (2 ^ 32 - x + x) % 2 ^ 32 % 256 = 0 := by omega
    simp only [hxy, hs, hnc, if_true, Nat.add_sub_cancel]
    rfl
  · have hs : (2 ^ 32 - x + y) % 2 ^ 32 % 256 = 256 + y - x := by omega
    simp only [hs, show 256 + y - x ≠ 0 by omega, if_false]

/-- The mask of iteration `j` rounds the target down to a multiple of
`2 ^ (8 (3 - j))`. -/
theorem and_mask_toNat (n : UInt32) {j : ℕ} (hj : j < 4) :
    (n &&& (~~~0 <<< UInt32.ofNat ((lastRatchetIndex - j) * 8))).toNat =
      n.toNat / 2 ^ (8 * (3 - j)) * 2 ^ (8 * (3 - j)) := by
  have hm : (~~~0 <<< UInt32.ofNat ((lastRatchetIndex - j) * 8) : UInt32).toNat =
      2 ^ 32 - 2 ^ (8 * (3 - j)) := by
    interval_cases j <;> decide
  rw [UInt32.toNat_and, hm, Bitwise.and_high_mask (by omega) n.toNat_lt]

/-! ### One iteration of `advance_to` -/

/-- Inside one block of `2 ^ (8 (4 - j))`, the run from `C` to the last
multiple of `D = 2 ^ (8 (3 - j))` below `N` is `N / D - C / D` ticks of level
`j`. -/
theorem run_to_multiple (p : RatchetBytes) {C N : ℕ} (j : Fin 4)
    (hblock : C / 2 ^ (8 * (4 - j.val)) = N / 2 ^ (8 * (4 - j.val)))
    (hlt : C / 2 ^ (8 * (3 - j.val)) < N / 2 ^ (8 * (3 - j.val))) :
    run (hash P) level p C (N / 2 ^ (8 * (3 - j.val)) * 2 ^ (8 * (3 - j.val)) - C) =
      (tick (hash P) j)^[N / 2 ^ (8 * (3 - j.val)) - C / 2 ^ (8 * (3 - j.val))] p := by
  have hD0 : 0 < 2 ^ (8 * (3 - j.val)) := Nat.two_pow_pos _
  have hE0 : 0 < 2 ^ (8 * (4 - j.val)) := Nat.two_pow_pos _
  have hCq : C ≤ 2 ^ (8 * (3 - j.val)) * (N / 2 ^ (8 * (3 - j.val))) :=
    (Nat.lt_mul_div_succ C hD0).le.trans (Nat.mul_le_mul_left _ hlt)
  rw [Nat.mul_comm, run_eq_iterate_tick hD0 p C _ hCq]
  intro t hCt htq
  apply level_of_not_dvd
  -- `t` lies strictly inside the block of `C` and `N`
  have htN : t ≤ N := htq.trans (Nat.mul_div_le N _)
  apply not_dvd_of_between ((Nat.mul_div_le C _).trans_lt hCt)
  rw [hblock]
  exact htN.trans_lt (Nat.lt_mul_div_succ N hE0)

/-- Iteration `j`, with the counter at most the target and in its block of
`2 ^ (8 (4 - j))`, is a stretch of the run: to a counter still at most the
target, that agrees with it above byte `j + 1`. -/
theorem advanceToPart_run (n : UInt32) (r : Ratchet) (j : Fin 4)
    (hcn : r.counter.toNat ≤ n.toNat)
    (hblock : r.counter.toNat / 2 ^ (8 * (4 - j.val)) = n.toNat / 2 ^ (8 * (4 - j.val))) :
    ∃ c : UInt32, advanceToPart P n r j =
        ⟨run (hash P) level r.inner r.counter.toNat (c.toNat - r.counter.toNat), c⟩ ∧
      r.counter.toNat ≤ c.toNat ∧ c.toNat ≤ n.toNat ∧
      c.toNat / 2 ^ (8 * (3 - j.val)) = n.toNat / 2 ^ (8 * (3 - j.val)) := by
  have hE : 2 ^ (8 * (4 - j.val)) = 2 ^ (8 * (3 - j.val)) * 256 := by
    rw [show (256 : ℕ) = 2 ^ 8 from rfl, ← pow_add]
    congr 1
    omega
  have hblock' : r.counter.toNat / 2 ^ (8 * (3 - j.val)) / 256 =
      n.toNat / 2 ^ (8 * (3 - j.val)) / 256 := by
    rw [Nat.div_div_eq_div_mul, Nat.div_div_eq_div_mul, ← hE, hblock]
  have hsteps := advanceToSteps_of_le j.isLt hcn hblock'
  by_cases hq : n.toNat / 2 ^ (8 * (3 - j.val)) = r.counter.toNat / 2 ^ (8 * (3 - j.val))
  · -- byte `j` already agrees: the iteration is the `continue`
    refine ⟨r.counter, ?_, le_rfl, hcn, hq.symm⟩
    simp [advanceToPart, hsteps, hq]
  · have hlt : r.counter.toNat / 2 ^ (8 * (3 - j.val)) < n.toNat / 2 ^ (8 * (3 - j.val)) :=
      lt_of_le_of_ne (Nat.div_le_div_right hcn) (Ne.symm hq)
    have hmask := and_mask_toNat n j.isLt
    have hD0 : 0 < 2 ^ (8 * (3 - j.val)) := Nat.two_pow_pos _
    refine ⟨n &&& (~~~0 <<< UInt32.ofNat ((lastRatchetIndex - j) * 8)), ?_, ?_, ?_, ?_⟩
    · have hn := Nat.div_le_self n.toNat (2 ^ (8 * (3 - j.val)))
      have hs : (UInt32.ofNat (n.toNat / 2 ^ (8 * (3 - j.val)) -
          r.counter.toNat / 2 ^ (8 * (3 - j.val)))).toNat =
          n.toNat / 2 ^ (8 * (3 - j.val)) - r.counter.toNat / 2 ^ (8 * (3 - j.val)) :=
        UInt32.toNat_ofNat_of_lt' (by have := n.toNat_lt; simp only [UInt32.size]; omega)
      simp only [advanceToPart, hsteps, if_neg hq, hmask, hs]
      rw [run_to_multiple r.inner j hblock hlt, updateFrom_rehashWhile j (by omega)]
    · rw [hmask]
      exact (Nat.lt_mul_div_succ _ hD0).le.trans
        (by rw [Nat.mul_comm]; exact Nat.mul_le_mul_right _ hlt)
    · rw [hmask]
      exact Nat.div_mul_le_self _ _
    · rw [hmask, Nat.mul_div_cancel _ hD0]

/-- Iteration `0` with the target below the counter: the run goes on past
`2 ^ 32`, to the target's top byte in the next turn of the counter. -/
theorem advanceToPart_zero_of_lt (n : UInt32) (r : Ratchet) (hnc : n < r.counter) :
    ∃ c : UInt32, advanceToPart P n r 0 =
        ⟨run (hash P) level r.inner r.counter.toNat (2 ^ 32 + c.toNat - r.counter.toNat), c⟩ ∧
      c.toNat ≤ n.toNat ∧ c.toNat / 2 ^ 24 = n.toNat / 2 ^ 24 := by
  have hmask := and_mask_toNat n (j := 0) (by decide)
  rw [show 8 * (3 - 0) = 24 from rfl] at hmask
  have hC := r.counter.toNat_lt
  have hN : n.toNat / 2 ^ 24 < 256 := by have := n.toNat_lt; omega
  refine ⟨n &&& (~~~0 <<< UInt32.ofNat ((lastRatchetIndex - 0) * 8)), ?_, ?_, ?_⟩
  · have hs : (UInt32.ofNat (256 + n.toNat / 2 ^ 24 - r.counter.toNat / 2 ^ 24)).toNat =
        256 + n.toNat / 2 ^ 24 - r.counter.toNat / 2 ^ 24 :=
      UInt32.toNat_ofNat_of_lt' (by simp only [UInt32.size]; omega)
    have hrun := updateFrom_rehashWhile (P := P) 0
      (show 1 ≤ 256 + n.toNat / 2 ^ 24 - r.counter.toNat / 2 ^ 24 by omega) r.inner
    -- every value has level `0` or above, and level `0` at the multiples of `2 ^ 24`
    have hq : r.counter.toNat ≤ 2 ^ 24 * (256 + n.toNat / 2 ^ 24) := by omega
    have hlev := run_eq_iterate_tick (H := hash P) (Nat.two_pow_pos 24) r.inner r.counter.toNat
      _ hq (fun t _ _ => ⟨level_eq_zero_iff t, Fin.zero_le _⟩)
    simp only [Fin.val_zero] at hrun
    simp only [advanceToPart, advanceToSteps_zero_of_lt hnc, hmask, hs, hrun]
    rw [show 2 ^ 32 + n.toNat / 2 ^ 24 * 2 ^ 24 - r.counter.toNat =
      2 ^ 24 * (256 + n.toNat / 2 ^ 24) - r.counter.toNat by omega, hlev]
  · rw [hmask]
    exact Nat.div_mul_le_self _ _
  · rw [hmask, Nat.mul_div_cancel _ (Nat.two_pow_pos 24)]

/-! ### The loop of `advance_to` -/

/-- The last `k` iterations `4 - k, …, 3` of `advance_to`, from a counter at
most the target that agrees with it above the last `k` bytes, are the run to
the target. By induction on `k`, one iteration after the other. -/
theorem foldl_advanceToPart (n : UInt32) :
    ∀ (k : ℕ) (r : Ratchet), k ≤ 4 → r.counter.toNat ≤ n.toNat →
      r.counter.toNat / 2 ^ (8 * k) = n.toNat / 2 ^ (8 * k) →
      (List.range' (4 - k) k).foldl (advanceToPart P n) r =
        ⟨run (hash P) level r.inner r.counter.toNat (n.toNat - r.counter.toNat), n⟩
  | 0, ⟨inner, counter⟩, _, _, hblock => by
      have hc : counter = n := UInt32.toNat_inj.mp (by simpa using hblock)
      subst hc
      simp
  | k + 1, r, hk, hcn, hblock => by
      have hj : (⟨3 - k, by omega⟩ : Fin 4).val = 3 - k := rfl
      obtain ⟨c, hstep, hCc, hcN, hcblock⟩ := advanceToPart_run (P := P) n r ⟨3 - k, by omega⟩ hcn
        (by rw [hj, show 4 - (3 - k) = k + 1 by omega]; exact hblock)
      rw [hj, show 3 - (3 - k) = k by omega] at hcblock
      rw [hj] at hstep
      rw [show 4 - (k + 1) = 3 - k by omega, List.range'_succ, List.foldl_cons, hstep,
        show 3 - k + 1 = 4 - k by omega, foldl_advanceToPart n k _ (by omega) hcN hcblock]
      -- the two stretches of the run join up
      have hjoin := @run_add _ _ (hash P) level r.inner r.counter.toNat
        (c.toNat - r.counter.toNat) (n.toNat - c.toNat)
      rw [show r.counter.toNat + (c.toNat - r.counter.toNat) = c.toNat by omega,
        show c.toNat - r.counter.toNat + (n.toNat - c.toNat) = n.toNat - r.counter.toNat by omega]
        at hjoin
      rw [hjoin]

/-- `Ratchet::advance_to` is `Ratchet::advance` repeated the wrapping
difference of the target and the counter times. -/
theorem advanceTo_eq_iterate (r : Ratchet) (n : UInt32) :
    advanceTo P r n = (advance P)^[(n - r.counter).toNat] r := by
  have hsub := UInt32.toNat_sub n r.counter
  have hC := r.counter.toNat_lt
  have hN := n.toNat_lt
  have hcounter : r.counter + UInt32.ofNat (n - r.counter).toNat = n := by
    rw [UInt32.ofNat_toNat]
    exact UInt32.toNat_inj.mp (by rw [UInt32.toNat_add, hsub]; omega)
  rw [iterate_advance, hcounter, advanceTo, ratchetPartCount, List.range_eq_range']
  by_cases hcn : r.counter.toNat ≤ n.toNat
  · -- no wrap-around: the four iterations are one run from the counter to the target
    rw [foldl_advanceToPart n 4 r le_rfl hcn (by omega)]
    congr 2
    omega
  · -- iteration `0` runs past `2 ^ 32`, the others finish the run from there
    obtain ⟨c, hstep, hcN, hcblock⟩ :=
      advanceToPart_zero_of_lt (P := P) n r (UInt32.lt_iff_toNat_lt.mpr (by omega))
    have hc := c.toNat_lt
    rw [List.range'_succ, List.foldl_cons, hstep, foldl_advanceToPart n 3 _ (by omega) hcN hcblock]
    have hshift : ∀ m, level (c.toNat + m + 1) = level (r.counter.toNat +
        (2 ^ 32 + c.toNat - r.counter.toNat) + m + 1) := fun m => level_congr (by omega)
    have hjoin := @run_add _ _ (hash P) level r.inner r.counter.toNat
      (2 ^ 32 + c.toNat - r.counter.toNat) (n.toNat - c.toNat)
    simp only
    rw [run_congr_start hshift, ← hjoin]
    congr 2
    omega

/-- The counter after `m` calls of `advance`. -/
@[simp] theorem counter_iterate_advance (r : Ratchet) (m : ℕ) :
    ((advance P)^[m] r).counter = r.counter + UInt32.ofNat m := by
  rw [iterate_advance]

/-- Up to the counter, `advance_to` is `advance` repeated the difference. -/
theorem advanceTo_of_le {r : Ratchet} {n : UInt32} (h : r.counter ≤ n) :
    advanceTo P r n = (advance P)^[n.toNat - r.counter.toNat] r := by
  rw [advanceTo_eq_iterate, UInt32.toNat_sub_of_le _ _ h]

/-- `m` calls of `advance` without wrap-around move the counter by `m`. -/
theorem counter_iterate_advance_toNat (r : Ratchet) {m : ℕ} (h : r.counter.toNat + m < 2 ^ 32) :
    ((advance P)^[m] r).counter.toNat = r.counter.toNat + m := by
  rw [counter_iterate_advance, UInt32.toNat_add, UInt32.toNat_ofNat']
  omega

/-- `advance_to` from a ratchet that `advance` moved `m` times continues the
same run. -/
theorem advanceTo_iterate_advance {r : Ratchet} {m : ℕ} {n : UInt32}
    (hm : r.counter.toNat + m ≤ n.toNat) :
    advanceTo P ((advance P)^[m] r) n = (advance P)^[n.toNat - r.counter.toNat] r := by
  have hc : ((advance P)^[m] r).counter.toNat = r.counter.toNat + m :=
    counter_iterate_advance_toNat r (lt_of_le_of_lt hm n.toNat_lt)
  rw [advanceTo_of_le (UInt32.le_iff_toNat_le.mpr (by omega)), hc, ← Function.iterate_add_apply]
  congr 1
  omega

theorem advanceTo_refines_advance (r : Ratchet) (n : UInt32) :
    (r.counter ≤ n → advanceTo P r n = (advance P)^[n.toNat - r.counter.toNat] r) ∧
    (n < r.counter →
      advanceTo P r n = (advance P)^[2 ^ 32 + n.toNat - r.counter.toNat] r) := by
  have hsub := UInt32.toNat_sub n r.counter
  have hC := r.counter.toNat_lt
  have hN := n.toNat_lt
  refine ⟨fun hcn => ?_, fun hnc => ?_⟩
  · rw [advanceTo_eq_iterate, hsub]
    have := UInt32.le_iff_toNat_le.mp hcn
    congr 1
    omega
  · rw [advanceTo_eq_iterate, hsub]
    have := UInt32.lt_iff_toNat_lt.mp hnc
    congr 1
    omega

theorem advanceTo_refines_advance_at :
    ((5 : UInt32) ≤ 7 ∧
      advanceTo Primitives.toy ⟨fun _ => Bytes.zero 32, 5⟩ 7 =
        (advance Primitives.toy)^[(7 : UInt32).toNat - (5 : UInt32).toNat]
          ⟨fun _ => Bytes.zero 32, 5⟩) ∧
    ((3 : UInt32) < 5 ∧
      advanceTo Primitives.toy ⟨fun _ => Bytes.zero 32, 5⟩ 3 =
        (advance Primitives.toy)^[2 ^ 32 + (3 : UInt32).toNat - (5 : UInt32).toNat]
          ⟨fun _ => Bytes.zero 32, 5⟩) :=
  ⟨⟨by decide, (advanceTo_refines_advance ⟨fun _ => Bytes.zero 32, 5⟩ 7).1 (by decide)⟩,
    ⟨by decide, (advanceTo_refines_advance ⟨fun _ => Bytes.zero 32, 5⟩ 3).2 (by decide)⟩⟩

end Vodozemac.Megolm.Ratchet
