import Mathlib

/-!
# Computations that return an error or panic

A function that returns a `Result` and may also panic is a computation in
`ExceptT ε Option`: its `run` is `none` for a panic, `some (.error e)` for an
`Err(e)` and `some (.ok a)` for an `Ok(a)`. In `do` notation an `Except` lifts
into it as a `?` does, and an `Option` as an indexing that panics out of
bounds; `okOr` is `Option::ok_or`, an `Option` that is an error when `None`.

The lemmas push `run` through the two lifts, and take a successful bind apart
(`run_bind_eq_ok`).
-/

namespace Fallible

variable {ε α β : Type}

/-- `Option::ok_or`: the value, or the error. -/
def okOr (x : Option α) (e : ε) : Except ε α :=
  match x with
  | some a => .ok a
  | none => .error e

@[simp] theorem okOr_some (a : α) (e : ε) : okOr (some a) e = .ok a := rfl

@[simp] theorem okOr_none (e : ε) : okOr (none : Option α) e = .error e := rfl

theorem okOr_eq_ok {x : Option α} {e : ε} {a : α} (h : okOr x e = .ok a) : x = some a := by
  cases x with
  | some b => cases h; rfl
  | none => cases h

@[simp] theorem run_liftExcept (x : Except ε α) :
    (monadLift x : ExceptT ε Option α).run = some x := rfl

@[simp] theorem run_liftOption (x : Option α) :
    (monadLift x : ExceptT ε Option α).run = x.map .ok := by
  cases x <;> rfl

@[simp] theorem liftExcept_ok (a : α) :
    (monadLift (Except.ok a : Except ε α) : ExceptT ε Option α) = pure a := rfl

@[simp] theorem liftExcept_error (e : ε) :
    (monadLift (Except.error e : Except ε α) : ExceptT ε Option α) = throw e := rfl

@[simp] theorem liftOption_some (a : α) : (monadLift (some a) : ExceptT ε Option α) = pure a := rfl

@[simp] theorem mapError_eq_ok {ε' : Type} {x : Except ε α} {f : ε → ε'} {a : α} :
    x.mapError f = .ok a ↔ x = .ok a := by
  cases x <;> simp [Except.mapError]

@[simp] theorem ok_bind (a : α) (f : α → Except ε β) : (Except.ok a >>= f) = f a := rfl

/-- A bind that returns a value: both halves return one. -/
theorem run_bind_eq_ok {x : ExceptT ε Option α} {f : α → ExceptT ε Option β} {b : β}
    (h : (x >>= f).run = some (.ok b)) : ∃ a, x.run = some (.ok a) ∧ (f a).run = some (.ok b) := by
  rw [ExceptT.run_bind] at h
  match hx : x.run, h with
  | some (.ok a), h => exact ⟨a, rfl, h⟩
  | some (.error _), h => cases h
  | none, h => cases h

end Fallible
