import Mathlib

/-!
# Ordered and hashed maps

Facts about `Std.TreeMap` and `Std.HashMap` that a model of Rust's
`BTreeMap` and `HashMap` needs and the standard library does not state:

* the entries of a tree map are determined by its bindings, since `toList`
  is strictly ordered (`toList_eq_of_mem_iff`); so inserting above every key
  appends an entry and erasing the first key drops it;
* a hash map filled from a list, each entry stored under a key computed from
  its value, maps each computed key to the last entry that has it, the only
  one when the computed keys are distinct (`getElem?_foldl_insert`).
-/

namespace Std.TreeMap

variable {α β : Type} {cmp : α → α → Ordering} [TransCmp cmp] [LawfulEqCmp cmp]

theorem mem_of_mem_toList {t : TreeMap α β cmp} {k : α} {v : β} (h : (k, v) ∈ t.toList) :
    k ∈ t := by
  rw [mem_iff_isSome_getElem?, mem_toList_iff_getElem?_eq_some.mp h]
  rfl

theorem nodup_toList {t : TreeMap α β cmp} : t.toList.Nodup :=
  distinct_keys_toList.imp fun hne heq => hne (by rw [heq]; exact ReflCmp.compare_self)

/-- A strictly ordered list of entries with the map's bindings is its `toList`. -/
theorem toList_eq_of_mem_iff {t : TreeMap α β cmp} {l : List (α × β)}
    (hmem : ∀ k v, (k, v) ∈ l ↔ t[k]? = some v) (hl : l.Pairwise fun a b => cmp a.1 b.1 = .lt) :
    t.toList = l := by
  -- strictly ordered entries cannot repeat, and two of them cannot precede each other
  have hnodup : ∀ l : List (α × β), l.Pairwise (fun a b => cmp a.1 b.1 = .lt) → l.Nodup :=
    fun l h => h.imp fun hab heq => by subst heq; simp [ReflCmp.compare_self] at hab
  have hasymm : ∀ a b : α × β, cmp a.1 b.1 = .lt → cmp b.1 a.1 = .lt → a = b := by
    intro a b hab hba
    have hswap : cmp b.1 a.1 = (cmp a.1 b.1).swap := OrientedCmp.eq_swap
    rw [hswap, hab] at hba
    cases hba
  apply List.Perm.eq_of_pairwise (fun a b _ _ => hasymm a b) ordered_keys_toList hl
  rw [List.perm_ext_iff_of_nodup (hnodup _ ordered_keys_toList) (hnodup _ hl)]
  intro ⟨k, v⟩
  rw [mem_toList_iff_getElem?_eq_some, hmem]

/-- Inserting a key above every key of the map appends its entry. -/
theorem toList_insert_of_lt {t : TreeMap α β cmp} {k : α} (v : β)
    (hk : ∀ k' ∈ t, cmp k' k = .lt) : (t.insert k v).toList = t.toList ++ [(k, v)] := by
  apply toList_eq_of_mem_iff
  · intro k' v'
    rw [List.mem_append, List.mem_singleton, mem_toList_iff_getElem?_eq_some, getElem?_insert]
    by_cases hkk : cmp k k' = .eq
    · obtain rfl := LawfulEqCmp.eq_of_compare hkk
      have hnot : k ∉ t := fun hmem => by simpa [ReflCmp.compare_self] using hk k hmem
      simp [ReflCmp.compare_self, getElem?_eq_none hnot, eq_comm]
    · have hne : k' ≠ k := fun h => hkk (by rw [h]; exact ReflCmp.compare_self)
      simp [hkk, hne]
  · rw [List.pairwise_append]
    refine ⟨ordered_keys_toList, List.pairwise_singleton _ _, ?_⟩
    intro ⟨k', v'⟩ ha b hb
    rw [List.mem_singleton] at hb
    subst hb
    exact hk k' (mem_of_mem_toList ha)

/-- Erasing the first key drops the first entry. -/
theorem toList_erase_of_toList_eq_cons {t : TreeMap α β cmp} {k : α} {v : β} {l : List (α × β)}
    (ht : t.toList = (k, v) :: l) : (t.erase k).toList = l := by
  have hsorted : ((k, v) :: l).Pairwise fun a b => cmp a.1 b.1 = .lt := ht ▸ ordered_keys_toList
  apply toList_eq_of_mem_iff _ (List.pairwise_cons.mp hsorted).2
  intro k' v'
  rw [getElem?_erase]
  by_cases hkk : cmp k k' = .eq
  · obtain rfl := LawfulEqCmp.eq_of_compare hkk
    -- the first key is below every later one, so it is not among them
    have hnot : (k, v') ∉ l := fun hmem => by
      simpa [ReflCmp.compare_self] using (List.pairwise_cons.mp hsorted).1 _ hmem
    simp [hnot]
  · have hne : (k', v') ≠ (k, v) := fun h => hkk (by cases h; exact ReflCmp.compare_self)
    rw [if_neg hkk, ← mem_toList_iff_getElem?_eq_some, ht, List.mem_cons]
    simp [hne]

end Std.TreeMap

namespace Std.HashMap

variable {α κ V : Type} [BEq α] [Hashable α] [LawfulBEq α]

/-- Inserting the entries of a list under keys computed from their values:
the last entry whose key is `p` wins. With pairwise distinct computed keys
that entry is the only one. -/
theorem getElem?_foldl_insert (f : V → α) (l : List (κ × V)) (m : HashMap α κ) (p : α)
    (hnd : (l.map fun e => f e.2).Nodup) :
    (l.foldl (fun m e => m.insert (f e.2) e.1) m)[p]? =
      ((l.find? fun e => f e.2 == p).map Prod.fst).or m[p]? := by
  induction l generalizing m with
  | nil => simp
  | cons e l ih =>
    rw [List.map_cons, List.nodup_cons] at hnd
    rw [List.foldl_cons, ih _ hnd.2, getElem?_insert, List.find?_cons]
    by_cases he : f e.2 = p
    · -- no later entry has the key `p`
      have hnone : l.find? (fun e => f e.2 == p) = none := by
        rw [List.find?_eq_none]
        intro e' he' heq
        exact hnd.1 (he ▸ (beq_iff_eq.mp heq) ▸ List.mem_map_of_mem he')
      simp [he, hnone]
    · simp [beq_false_of_ne he]

/-- Inserting entries none of whose computed keys is `p` leaves `p` as it was. -/
theorem getElem?_foldl_insert_of_forall_ne (f : V → α) (l : List (κ × V)) (m : HashMap α κ)
    {p : α} (h : ∀ e ∈ l, f e.2 ≠ p) :
    (l.foldl (fun m e => m.insert (f e.2) e.1) m)[p]? = m[p]? := by
  induction l generalizing m with
  | nil => rfl
  | cons e l ih =>
    rw [List.foldl_cons, ih _ fun e' he' => h e' (List.mem_cons_of_mem _ he'), getElem?_insert,
      if_neg (by simpa using h e List.mem_cons_self)]

/-- Filled from the empty map with distinct computed keys, the map sends a
computed key to the entry it was computed from. -/
theorem getElem?_foldl_insert_empty_eq_some_iff (f : V → α) {l : List (κ × V)} {p : α} {k : κ}
    (hnd : (l.map fun e => f e.2).Nodup) :
    (l.foldl (fun (m : HashMap α κ) e => m.insert (f e.2) e.1) ∅)[p]? = some k ↔
      ∃ v, (k, v) ∈ l ∧ f v = p := by
  rw [getElem?_foldl_insert f l ∅ p hnd, getElem?_empty, Option.or_none, Option.map_eq_some_iff]
  constructor
  · rintro ⟨⟨k', v⟩, hfind, rfl⟩
    have hp := List.find?_some hfind
    exact ⟨v, List.mem_of_find?_eq_some hfind, beq_iff_eq.mp hp⟩
  · rintro ⟨v, hmem, rfl⟩
    have hsome : (l.find? fun e => f e.2 == f v).isSome :=
      List.find?_isSome.mpr ⟨(k, v), hmem, beq_self_eq_true (f v)⟩
    obtain ⟨e, hfind⟩ := Option.isSome_iff_exists.mp hsome
    -- the entry found has the same computed key, so it is this one
    have hp := List.find?_some hfind
    have heq : e = (k, v) :=
      List.inj_on_of_nodup_map hnd (List.mem_of_find?_eq_some hfind) hmem (beq_iff_eq.mp hp)
    exact ⟨e, hfind, by rw [heq]⟩

end Std.HashMap
