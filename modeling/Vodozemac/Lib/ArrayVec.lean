import Mathlib

/-!
# Bounded vectors used as queues

`ArrayVec α cap` is a list of at most `cap` elements, the capacity carried as a
field so that an overfull vector cannot be built. Besides the vector operations
(`push` when there is room, `popFront`, `retain`, `modify`), it has the one
derived operation of a bounded queue: `pushEvicting` drops the oldest element
when the vector is full and then appends.

The results say what a sequence of `pushEvicting` keeps: the last `cap`
elements of everything pushed after the old contents (`toList_foldl_pushEvicting`).
Where the elements have distinct keys,
`retain` by a key other than that of one element removes exactly that element
(`toList_retain_key_ne`).
-/

/-- A list of at most `cap` elements. -/
@[ext] structure ArrayVec (α : Type*) (cap : ℕ) where
  toList : List α
  length_le : toList.length ≤ cap

namespace ArrayVec

variable {α : Type*} {cap : ℕ}

/-- The empty vector. -/
def new : ArrayVec α cap := ⟨[], Nat.zero_le _⟩

/-- A vector is full when it holds `cap` elements. -/
def isFull (v : ArrayVec α cap) : Bool := v.toList.length == cap

/-- Append an element to a vector with room for it. -/
def push (v : ArrayVec α cap) (x : α) (h : v.toList.length < cap) : ArrayVec α cap :=
  ⟨v.toList ++ [x], by simp only [List.length_append, List.length_singleton]; omega⟩

/-- Remove the first element (`pop_at(0)`, the element itself dropped). -/
def popFront (v : ArrayVec α cap) : ArrayVec α cap :=
  ⟨v.toList.tail, by rw [List.length_tail]; have := v.length_le; omega⟩

/-- Keep the elements that satisfy `p`, in order. -/
def retain (v : ArrayVec α cap) (p : α → Bool) : ArrayVec α cap :=
  ⟨v.toList.filter p, (List.length_filter_le _ _).trans v.length_le⟩

/-- Change the element at index `i` in place. -/
def modify (v : ArrayVec α cap) (i : ℕ) (f : α → α) : ArrayVec α cap :=
  ⟨v.toList.modify i f, by rw [List.length_modify]; exact v.length_le⟩

/-- Replace the element at index `i` (a write through a `&mut` into the vector). -/
def set (v : ArrayVec α cap) (i : ℕ) (x : α) : ArrayVec α cap :=
  ⟨v.toList.set i x, by rw [List.length_set]; exact v.length_le⟩

/-- Push onto a bounded queue: drop the oldest element if the vector is full,
then append. -/
def pushEvicting [NeZero cap] (v : ArrayVec α cap) (x : α) : ArrayVec α cap :=
  let v' := if v.isFull then v.popFront else v
  v'.push x (by
    have hcap := Nat.pos_of_ne_zero (NeZero.ne cap)
    have hle := v.length_le
    by_cases hfull : v.isFull = true
    · simp only [v', hfull, if_true, popFront, List.length_tail]
      omega
    · simp only [v', hfull, if_false, Bool.false_eq_true]
      simp only [isFull, beq_iff_eq] at hfull
      omega)

@[simp] theorem toList_new : (new : ArrayVec α cap).toList = [] := rfl

@[simp] theorem toList_retain (v : ArrayVec α cap) (p : α → Bool) :
    (v.retain p).toList = v.toList.filter p := rfl

@[simp] theorem toList_modify (v : ArrayVec α cap) (i : ℕ) (f : α → α) :
    (v.modify i f).toList = v.toList.modify i f := rfl

@[simp] theorem toList_set (v : ArrayVec α cap) (i : ℕ) (x : α) :
    (v.set i x).toList = v.toList.set i x := rfl

/-- Writing back the element that is there changes nothing. -/
theorem set_get_self (v : ArrayVec α cap) (i : Fin v.toList.length) : v.set i (v.toList.get i) = v := by
  ext1
  simp [List.set_getElem_self]

/-- In a vector whose elements have pairwise distinct keys, keeping the
elements whose key differs from that of `x` removes exactly `x`. -/
theorem toList_retain_key_ne {β : Type*} [BEq β] [LawfulBEq β] {f : α → β}
    (v : ArrayVec α cap) {x : α} (hkeys : (v.toList.map f).Nodup) (hx : x ∈ v.toList) :
    ∃ l₁ l₂, v.toList = l₁ ++ x :: l₂ ∧ (v.retain fun y => f y != f x).toList = l₁ ++ l₂ := by
  obtain ⟨l₁, l₂, hsplit⟩ := List.append_of_mem hx
  refine ⟨l₁, l₂, hsplit, ?_⟩
  rw [hsplit, List.map_append, List.map_cons, List.nodup_middle, List.nodup_cons,
    ← List.map_append] at hkeys
  -- the key of `x` occurs once, so every other element is kept
  have hkept : ∀ y ∈ l₁ ++ l₂, (f y != f x) = true := fun y hy =>
    bne_iff_ne.mpr fun hxy => hkeys.1 (hxy ▸ List.mem_map_of_mem hy)
  rw [toList_retain, hsplit, List.filter_append, List.filter_cons_of_neg (by simp),
    ← List.filter_append, List.filter_eq_self.mpr hkept]

variable [NeZero cap]

/-- One push keeps the last `cap` elements of the old contents and the new one. -/
theorem toList_pushEvicting (v : ArrayVec α cap) (x : α) :
    (v.pushEvicting x).toList = (v.toList ++ [x]).drop (v.toList.length + 1 - cap) := by
  have hle := v.length_le
  have hcap := Nat.pos_of_ne_zero (NeZero.ne cap)
  by_cases hfull : v.toList.length = cap
  · have hf : v.isFull = true := by simp [isFull, hfull]
    simp only [pushEvicting, hf, if_true, push, popFront]
    rw [show v.toList.length + 1 - cap = 1 by omega, List.drop_append_of_le_length (by omega),
      List.drop_one]
  · have hf : v.isFull = false := by simp [isFull, hfull]
    simp only [pushEvicting, hf, Bool.false_eq_true, if_false, push]
    rw [show v.toList.length + 1 - cap = 0 by omega, List.drop_zero]

/-- One push drops the oldest element exactly when the vector is full. -/
theorem toList_pushEvicting_eq_ite (v : ArrayVec α cap) (x : α) :
    (v.pushEvicting x).toList = (if v.toList.length = cap then v.toList.tail else v.toList) ++ [x] := by
  by_cases hfull : v.toList.length = cap
  · have hf : v.isFull = true := by simp [isFull, hfull]
    simp only [pushEvicting, hf, if_true, push, popFront, hfull]
  · have hf : v.isFull = false := by simp [isFull, hfull]
    simp only [pushEvicting, hf, Bool.false_eq_true, if_false, push, hfull]

theorem mem_pushEvicting_self (v : ArrayVec α cap) (x : α) : x ∈ (v.pushEvicting x).toList := by
  rw [toList_pushEvicting_eq_ite]
  exact List.mem_append_right _ (List.mem_singleton_self x)

/-- What a push holds besides the new element was held before. -/
theorem mem_pushEvicting {v : ArrayVec α cap} {x y : α} (h : y ∈ (v.pushEvicting x).toList) :
    y ∈ v.toList ∨ y = x := by
  rw [toList_pushEvicting] at h
  rcases List.mem_append.mp (List.mem_of_mem_drop h) with hold | hnew
  · exact .inl hold
  · exact .inr (List.mem_singleton.mp hnew)

theorem length_pushEvicting (v : ArrayVec α cap) (x : α) :
    (v.pushEvicting x).toList.length = min (v.toList.length + 1) cap := by
  rw [toList_pushEvicting, List.length_drop, List.length_append, List.length_singleton]
  omega

/-- A sequence of pushes keeps the last `cap` elements of the old contents
followed by everything pushed. -/
theorem toList_foldl_pushEvicting (xs : List α) (v : ArrayVec α cap) :
    (xs.foldl pushEvicting v).toList =
      (v.toList ++ xs).drop (v.toList.length + xs.length - cap) := by
  induction xs generalizing v with
  | nil => simp [Nat.sub_eq_zero_of_le v.length_le]
  | cons x xs ih =>
      -- the first push drops what the later ones would drop anyway
      have hle := v.length_le
      have hdrop : v.toList.length + 1 - cap ≤ (v.toList ++ [x]).length := by
        simp only [List.length_append, List.length_singleton]
        omega
      rw [List.foldl_cons, ih, length_pushEvicting, toList_pushEvicting,
        ← List.drop_append_of_le_length hdrop, List.drop_drop, List.append_assoc,
        List.singleton_append, List.length_cons]
      congr 1
      omega

end ArrayVec
