import Mathlib

/-!
# Hierarchical hash ratchets

A *hierarchical hash ratchet* keeps `k` parts `R(0) … R(k-1)` of some type `α`
together with a counter. Every time the counter moves, the value it moves *to*
has a **level** `j : Fin k`, and the move is a **tick of level `j`**: each part
`R(i)` with `i ≥ j` is replaced by the hash `H (R(j)) i` of the *old* part `R(j)`
under the seed of part `i`, while the parts before `j` are kept.

Nothing here depends on how levels are assigned to counter values: `run` takes
the level function as a parameter. The lemmas are the ones a jumping
implementation (one that reaches a far counter value without ticking once per
value) needs to be compared with the tick-by-tick one:

* `iterate_tick_of_lt`/`iterate_tick_self` — `s` ticks of one level move only
  that level's part, which is hashed `s` times;
* `run_add`, `run_agree`, `run_block` — a run splits at any point, a run through
  higher levels only keeps the low parts, and a run that ends on its only
  level-`j` value is one tick of level `j`;
* `run_eq_iterate_tick` — a run across `q` consecutive blocks of period `D`,
  whose block ends are exactly its level-`j` values, is `q` ticks of level `j`;
* `run_apply_mem` — a part stays in any set that holds it and every hash.

Two ratchets are the same ratchet at different positions when they lie on one
chain of the step function (`OnOneChain`); `onOneChain_iff` reduces that to
stepping the earlier one to the position of the later one.
-/

namespace HashRatchet

variable {α : Type*} {k : ℕ}

/-! ### Ticks -/

/-- One tick of level `j`: every part from `j` on becomes the hash of the old
part `j` under that part's seed; the parts before `j` are kept. -/
def tick (H : α → Fin k → α) (j : Fin k) (p : Fin k → α) : Fin k → α :=
  fun i => if j ≤ i then H (p j) i else p i

variable {H : α → Fin k → α}

@[simp] theorem tick_of_le {j i : Fin k} (p : Fin k → α) (h : j ≤ i) :
    tick H j p i = H (p j) i := if_pos h

@[simp] theorem tick_of_lt {j i : Fin k} (p : Fin k → α) (h : i < j) :
    tick H j p i = p i := if_neg (not_le.mpr h)

/-- A tick of level `j` only reads the parts up to `j`. -/
theorem tick_congr {j : Fin k} {p q : Fin k → α} (h : ∀ i ≤ j, p i = q i) :
    tick H j p = tick H j q := by
  funext i
  by_cases hi : j ≤ i
  · rw [tick_of_le p hi, tick_of_le q hi, h j le_rfl]
  · have hij : i < j := lt_of_not_ge hi
    rw [tick_of_lt p hij, tick_of_lt q hij, h i hij.le]

/-- A tick of a level above `j` keeps the parts up to `j`. -/
theorem tick_agree_of_lt {j h : Fin k} (hjh : j < h) (p : Fin k → α) :
    ∀ i ≤ j, tick H h p i = p i :=
  fun _ hi => tick_of_lt p (lt_of_le_of_lt hi hjh)

/-- Repeated ticks of level `j` keep the parts below `j`. -/
theorem iterate_tick_of_lt {j i : Fin k} (h : i < j) (p : Fin k → α) (s : ℕ) :
    (tick H j)^[s] p i = p i := by
  induction s with
  | zero => rfl
  | succ s ih => rw [Function.iterate_succ_apply', tick_of_lt _ h, ih]

/-- Repeated ticks of level `j` hash part `j` once per tick. -/
theorem iterate_tick_self (j : Fin k) (p : Fin k → α) (s : ℕ) :
    (tick H j)^[s] p j = (fun x => H x j)^[s] (p j) := by
  induction s with
  | zero => rfl
  | succ s ih =>
      rw [Function.iterate_succ_apply', tick_of_le _ le_rfl, ih,
        Function.iterate_succ_apply']

/-! ### Runs

`run H level p a m` is `m` moves of the counter starting from `a`, each a tick
of the level of the value the counter moves to. -/

variable (H) (level : ℕ → Fin k)

/-- `m` moves of the counter from `a`, starting from the parts `p`. -/
def run (p : Fin k → α) (a : ℕ) : ℕ → Fin k → α
  | 0 => p
  | m + 1 => tick H (level (a + m + 1)) (run p a m)

variable {H level}

@[simp] theorem run_zero (p : Fin k → α) (a : ℕ) : run H level p a 0 = p := rfl

theorem run_succ (p : Fin k → α) (a m : ℕ) :
    run H level p a (m + 1) = tick H (level (a + m + 1)) (run H level p a m) := rfl

/-- A run splits at any intermediate counter value. -/
theorem run_add (p : Fin k → α) (a m n : ℕ) :
    run H level p a (m + n) = run H level (run H level p a m) (a + m) n := by
  induction n with
  | zero => rfl
  | succ n ih =>
      rw [← Nat.add_assoc, run_succ, ih, run_succ, Nat.add_assoc a m n]

/-- A run sees its starting value only through the levels it meets: two starts
whose following levels agree give the same runs. -/
theorem run_congr_start {a b : ℕ} (hab : ∀ m, level (a + m + 1) = level (b + m + 1))
    (p : Fin k → α) : ∀ m, run H level p a m = run H level p b m
  | 0 => rfl
  | m + 1 => by rw [run_succ, run_succ, hab m, run_congr_start hab p m]

/-- A run through values of levels above `j` keeps the parts up to `j`. -/
theorem run_agree {j : Fin k} (p : Fin k → α) (a : ℕ) :
    ∀ m, (∀ t, a < t → t ≤ a + m → j < level t) → ∀ i ≤ j, run H level p a m i = p i
  | 0, _ => fun _ _ => rfl
  | m + 1, hlev => fun i hi => by
      have hrest : ∀ t, a < t → t ≤ a + m → j < level t :=
        fun t h1 h2 => hlev t h1 (by omega)
      rw [run_succ, tick_agree_of_lt (hlev (a + m + 1) (by omega) (by omega)) _ i hi]
      exact run_agree p a m hrest i hi

/-- A run whose last value is its only one of level `j` or below, and has level
exactly `j`, is a single tick of level `j`. -/
theorem run_block {j : Fin k} (p : Fin k → α) (a m : ℕ) (hm : 0 < m)
    (hlev : ∀ t, a < t → t < a + m → j < level t) (hend : level (a + m) = j) :
    run H level p a m = tick H j p := by
  obtain ⟨m, rfl⟩ : ∃ m', m = m' + 1 := ⟨m - 1, by omega⟩
  rw [run_succ, show a + m + 1 = a + (m + 1) by omega, hend]
  exact tick_congr (run_agree p a m (fun t h1 h2 => hlev t h1 (by omega)))

/-- No multiple of `D` lies strictly between two consecutive ones. -/
theorem not_dvd_of_between {D q t : ℕ} (h1 : D * q < t) (h2 : t < D * (q + 1)) : ¬ D ∣ t := by
  rintro ⟨c, rfl⟩
  have hq : q < c := Nat.lt_of_mul_lt_mul_left h1
  have hc : c < q + 1 := Nat.lt_of_mul_lt_mul_left h2
  omega

/-- A run across consecutive blocks of period `D` whose level-`j` values are
exactly the block ends (and whose values are all of level `j` or above) is one
tick of level `j` per block end it crosses. -/
theorem run_eq_iterate_tick {j : Fin k} {D : ℕ} (hD : 0 < D) (p : Fin k → α) (a : ℕ) :
    ∀ q, a ≤ D * q →
      (∀ t, a < t → t ≤ D * q → (level t = j ↔ D ∣ t) ∧ j ≤ level t) →
      run H level p a (D * q - a) = (tick H j)^[q - a / D] p
  | 0, ha, _ => by
      have ha0 : a = 0 := by simpa using ha
      subst ha0
      simp
  | q + 1, ha, hlev => by
      have hDq : D * (q + 1) = D * q + D := by ring
      -- inside the last block only its end has level `j`
      have hinner : ∀ t, a < t → D * q < t → t < D * (q + 1) → j < level t := by
        intro t ha' h1 h2
        obtain ⟨hiff, hle⟩ := hlev t ha' h2.le
        exact lt_of_le_of_ne hle (fun he => not_dvd_of_between h1 h2 (hiff.mp he.symm))
      have hend : a < D * (q + 1) → level (D * (q + 1)) = j :=
        fun h => ((hlev _ h le_rfl).1).mpr ⟨q + 1, rfl⟩
      by_cases hq : a ≤ D * q
      · -- the run reaches the end of the previous block first
        have ih := run_eq_iterate_tick hD p a q hq (fun t h1 h2 => hlev t h1 (by omega))
        have hdiv : a / D ≤ q := Nat.div_le_of_le_mul hq
        rw [show D * (q + 1) - a = (D * q - a) + D by omega, run_add, ih,
          show a + (D * q - a) = D * q by omega,
          run_block _ _ _ hD (fun t h1 h2 => hinner t (by omega) h1 (by omega))
            (by rw [← hDq]; exact hend (by omega)),
          show q + 1 - a / D = (q - a / D) + 1 by omega, Function.iterate_succ_apply']
      · -- the run starts inside the last block
        rcases Nat.lt_or_eq_of_le ha with hlt | heq
        · have hdiv : a / D = q :=
            Nat.div_eq_of_lt_le (by rw [Nat.mul_comm]; omega) (by rw [Nat.mul_comm]; exact hlt)
          rw [hdiv, show q + 1 - q = 1 by omega, Function.iterate_one,
            run_block _ _ _ (by omega) (fun t h1 h2 => hinner t h1 (by omega) (by omega))
              (by rw [show a + (D * (q + 1) - a) = D * (q + 1) by omega]; exact hend hlt)]
        · have hdiv : a / D = q + 1 := by
            rw [heq, Nat.mul_div_cancel_left _ hD]
          rw [hdiv, heq, Nat.sub_self, Nat.sub_self]
          rfl

/-- A part that starts in a set holding every hash stays in it along a run. -/
theorem run_apply_mem {S : Set α} (hH : ∀ x i, H x i ∈ S) {p : Fin k → α} {i : Fin k}
    (hp : p i ∈ S) (a : ℕ) : ∀ m, run H level p a m i ∈ S
  | 0 => hp
  | m + 1 => by
      rw [run_succ]
      by_cases hj : level (a + m + 1) ≤ i
      · rw [tick_of_le _ hj]
        exact hH _ _
      · rw [tick_of_lt _ (not_le.mp hj)]
        exact run_apply_mem hH hp a m

/-! ### Two points of one chain -/

section Chain

variable {β : Type*} (f : β → β)

/-- `x` at position `a` and `y` at position `b` lie on one chain of `f`: from
every position past both, stepping either gives the same value. -/
def OnOneChain (x : β) (a : ℕ) (y : β) (b : ℕ) : Prop :=
  ∀ i, a ≤ i → b ≤ i → f^[i - a] x = f^[i - b] y

variable {f}

theorem OnOneChain.symm {x y : β} {a b : ℕ} (h : OnOneChain f x a y b) : OnOneChain f y b x a :=
  fun i hb ha => (h i ha hb).symm

/-- Points lie on one chain exactly when the earlier one steps to the later one. -/
theorem onOneChain_iff {x y : β} {a b : ℕ} (hab : a ≤ b) :
    OnOneChain f x a y b ↔ f^[b - a] x = y := by
  constructor
  · intro h
    simpa using h b hab le_rfl
  · intro h i _ hb
    rw [show i - a = (i - b) + (b - a) by omega, Function.iterate_add_apply, h]

/-- Two points of the chain from `z` at position `c` lie on one chain. -/
theorem onOneChain_iterate {a b c : ℕ} (hca : c ≤ a) (hcb : c ≤ b) (z : β) :
    OnOneChain f (f^[a - c] z) a (f^[b - c] z) b := by
  intro i ha hb
  rw [← Function.iterate_add_apply, ← Function.iterate_add_apply,
    show i - a + (a - c) = i - b + (b - c) by omega]

end Chain

end HashRatchet
