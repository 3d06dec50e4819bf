/-
# Ordered maps, as the standard library's extensional tree map

A sorted map that is compared by its contents: `Std.ExtTreeMap` at the canonical order of
its keys.  The module fixes the spelling the rest of the development uses -- a lookup is
`t[k]?`, and what an update does to a lookup is an `if` on EQUALITY of keys, not on the
comparator -- and adds the few operations the standard library does not have under one name:

* `eraseAll`, a fold of erasures (`getElem?_eraseAll`);
* `splitOff`, which keeps the keys from a bound on (`getElem?_splitOff`);
* `findValue?`, the first entry in key order whose value satisfies a predicate;
* `keySet`, the keys as a `Finset`, whose cardinality is the size.

A sorted SET is a `Finset`, and `ascending` is the order it iterates in.
-/
import Mathlib

/-- A sorted map at the canonical order of its keys. -/
abbrev BTreeMap (κ υ : Type) [Ord κ] : Type := Std.ExtTreeMap κ υ compare

namespace BTreeMap

open Std

variable {κ υ ω : Type} [Ord κ] [TransOrd κ] [LawfulEqOrd κ] [DecidableEq κ]

/-! ## 1. Lookups after an update -/

theorem get_insert (t : BTreeMap κ υ) (k a : κ) (v : υ) :
    (t.insert k v)[a]? = if a = k then some v else t[a]? := by
  rw [ExtTreeMap.getElem?_insert]
  simp only [Std.compare_eq_iff_eq, @eq_comm κ k a]

theorem get_erase (t : BTreeMap κ υ) (k a : κ) :
    (t.erase k)[a]? = if a = k then none else t[a]? := by
  rw [ExtTreeMap.getElem?_erase]
  simp only [Std.compare_eq_iff_eq, @eq_comm κ k a]

theorem get_insert_ne (t : BTreeMap κ υ) {k a : κ} (v : υ) (h : a ≠ k) :
    (t.insert k v)[a]? = t[a]? := by
  simp [get_insert, h]

theorem get_erase_ne (t : BTreeMap κ υ) {k a : κ} (h : a ≠ k) : (t.erase k)[a]? = t[a]? := by
  simp [get_erase, h]

/-- Taking an entry out and putting the same one back changes nothing. -/
theorem insert_erase_same {t : BTreeMap κ υ} {k : κ} {v : υ} (h : t[k]? = some v) :
    (t.erase k).insert k v = t := by
  refine ExtTreeMap.ext_getElem? fun a => ?_
  rw [get_insert, get_erase]
  by_cases ha : a = k
  · subst ha; simp [h]
  · simp [ha]

theorem erase_of_none {t : BTreeMap κ υ} {k : κ} (h : t[k]? = none) : t.erase k = t := by
  refine ExtTreeMap.ext_getElem? fun a => ?_
  rw [get_erase]
  by_cases ha : a = k
  · subst ha; simp [h]
  · simp [ha]

/-- `insert` overwrites, so erasing first is the same as not erasing. -/
theorem insert_erase (t : BTreeMap κ υ) (k : κ) (v : υ) :
    (t.erase k).insert k v = t.insert k v := by
  refine ExtTreeMap.ext_getElem? fun a => ?_
  simp only [get_insert, get_erase]
  by_cases ha : a = k <;> simp [ha]

omit [DecidableEq κ] in
theorem get_filterMap (t : BTreeMap κ υ) (f : κ → υ → Option ω) (k : κ) :
    (t.filterMap f)[k]? = t[k]?.bind (f k) :=
  ExtTreeMap.getElem?_filterMap'

omit [DecidableEq κ] in
theorem mem_toList_iff (t : BTreeMap κ υ) (k : κ) (v : υ) :
    (k, v) ∈ t.toList ↔ t[k]? = some v :=
  ExtTreeMap.mem_toList_iff_getElem?_eq_some

omit [LawfulEqOrd κ] [DecidableEq κ] in
/-- The values in key order. -/
theorem values_eq (t : BTreeMap κ υ) : t.values = t.toList.map Prod.snd := by
  have h : t.values = t.foldr (fun _ v l => v :: l) [] := by
    obtain ⟨⟨m⟩⟩ := t
    rfl
  rw [h, ExtTreeMap.foldr_eq_foldr_toList]
  induction t.toList with
  | nil => rfl
  | cons e l ih => simp [ih]

omit [DecidableEq κ] in
theorem mem_values (t : BTreeMap κ υ) (v : υ) : v ∈ t.values ↔ ∃ k : κ, t[k]? = some v := by
  rw [values_eq, List.mem_map]
  constructor
  · rintro ⟨⟨k, w⟩, hk, rfl⟩
    exact ⟨k, (mem_toList_iff t k w).mp hk⟩
  · rintro ⟨k, hk⟩
    exact ⟨(k, v), (mem_toList_iff t k v).mpr hk, rfl⟩

omit [DecidableEq κ] in
/-- The last entry is the one no key exceeds. -/
theorem getLast?_toList_eq_some (t : BTreeMap κ υ) (k : κ) (v : υ) :
    t.toList.getLast? = some (k, v) ↔
      t[k]? = some v ∧ ∀ (a : κ) (w : υ), t[a]? = some w → (compare a k).isLE := by
  have hord : t.toList.Pairwise fun a b => compare a.1 b.1 = .lt := ExtTreeMap.ordered_keys_toList
  constructor
  · intro h
    obtain ⟨front, hfront⟩ := List.getLast?_eq_some_iff.mp h
    refine ⟨(mem_toList_iff t k v).mp (by simp [hfront]), fun a w ha => ?_⟩
    have hmem := (mem_toList_iff t a w).mpr ha
    rw [hfront] at hmem hord
    rcases List.mem_append.mp hmem with hm | hm
    · rw [(List.pairwise_append.mp hord).2.2 (a, w) hm (k, v) (by simp)]
      rfl
    · rw [List.mem_singleton, Prod.mk.injEq] at hm
      rw [hm.1, Std.compare_eq_iff_eq.mpr rfl]
      rfl
  · rintro ⟨hk, hmax⟩
    have hmem := (mem_toList_iff t k v).mpr hk
    obtain ⟨front, ⟨a, w⟩, hlast⟩ :=
      (List.eq_nil_or_concat' t.toList).resolve_left (List.ne_nil_of_mem hmem)
    rw [hlast] at hord hmem ⊢
    rw [List.getLast?_concat]
    rcases List.mem_append.mp hmem with hm | hm
    · have hlt := (List.pairwise_append.mp hord).2.2 (k, v) hm (a, w) (by simp)
      have hle := hmax a w ((mem_toList_iff t a w).mp (by simp [hlast]))
      rw [← OrientedCmp.gt_iff_lt] at hlt
      rw [hlt] at hle
      exact absurd hle (by decide)
    · rw [List.mem_singleton.mp hm]

/-! ## 2. Erasing a list of keys -/

/-- Erase every key of a list. -/
def eraseAll (t : BTreeMap κ υ) (ks : List κ) : BTreeMap κ υ := ks.foldl (fun t k => t.erase k) t

theorem get_eraseAll : ∀ (ks : List κ) (t : BTreeMap κ υ) (a : κ),
    (eraseAll t ks)[a]? = if a ∈ ks then none else t[a]?
  | [], t, a => by simp [eraseAll]
  | k :: ks, t, a => by
    have ih := get_eraseAll ks (t.erase k) a
    simp only [eraseAll, List.foldl_cons] at ih ⊢
    rw [ih, get_erase]
    by_cases h1 : a ∈ ks <;> by_cases h2 : a = k <;> simp [h1, h2]

/-! ## 3. Keeping the keys from a bound on -/

/-- The entries whose key is at least `k`. -/
def splitOff (t : BTreeMap κ υ) (k : κ) : BTreeMap κ υ :=
  t.filterMap fun a v => if (compare k a).isLE then some v else none

omit [DecidableEq κ] in
theorem get_splitOff (t : BTreeMap κ υ) (k a : κ) :
    (splitOff t k)[a]? = if (compare k a).isLE then t[a]? else none := by
  rw [splitOff, get_filterMap]
  by_cases h : (compare k a).isLE <;> cases t[a]? <;> simp [h]

/-! ## 4. The first entry, in key order, whose value satisfies a predicate -/

/-- The first entry in key order whose value satisfies `p`. -/
def findValue? (t : BTreeMap κ υ) (p : υ → Bool) : Option (κ × υ) :=
  t.toList.find? fun e => p e.2

omit [DecidableEq κ] in
theorem findValue?_some {t : BTreeMap κ υ} {p : υ → Bool} {k : κ} {v : υ}
    (h : findValue? t p = some (k, v)) : t[k]? = some v ∧ p v = true :=
  ⟨(mem_toList_iff t k v).mp (List.mem_of_find?_eq_some h), by
    simpa using List.find?_some h⟩

omit [DecidableEq κ] in
theorem findValue?_none {t : BTreeMap κ υ} {p : υ → Bool} (h : findValue? t p = none)
    {k : κ} {v : υ} (hk : t[k]? = some v) : p v = false := by
  have := List.find?_eq_none.mp h (k, v) ((mem_toList_iff t k v).mpr hk)
  simpa using this

/-! ## 5. The key set -/

/-- The keys, as a finite set. -/
def keySet (t : BTreeMap κ υ) : Finset κ := t.keys.toFinset

@[simp] theorem mem_keySet (t : BTreeMap κ υ) (k : κ) : k ∈ keySet t ↔ (t[k]?).isSome := by
  rw [keySet, List.mem_toFinset, ExtTreeMap.mem_keys, ExtTreeMap.mem_iff_isSome_getElem?]

omit [LawfulEqOrd κ] in
theorem card_keySet (t : BTreeMap κ υ) : (keySet t).card = t.size := by
  rw [keySet, List.toFinset_card_of_nodup ExtTreeMap.nodup_keys, ExtTreeMap.length_keys]

theorem keySet_insert (t : BTreeMap κ υ) (k : κ) (v : υ) :
    keySet (t.insert k v) = insert k (keySet t) := by
  ext a
  simp only [mem_keySet, get_insert, Finset.mem_insert]
  by_cases h : a = k <;> simp [h]

@[simp] theorem keySet_empty : keySet (∅ : BTreeMap κ υ) = ∅ := by
  ext a; simp

end BTreeMap

/-! ## 6. The iteration order of a set -/

/-- The elements of a finite set in ascending order.  Insertion sort, so that it computes. -/
def ascending {α : Type} [LinearOrder α] (s : Finset α) : List α :=
  Quot.liftOn s.val (List.insertionSort (· ≤ ·)) fun l₁ l₂ h =>
    List.Perm.eq_of_pairwise'
      (List.pairwise_insertionSort (· ≤ ·) l₁) (List.pairwise_insertionSort (· ≤ ·) l₂)
      ((List.perm_insertionSort (· ≤ ·) l₁).trans
        (h.trans (List.perm_insertionSort (· ≤ ·) l₂).symm))

example : ascending ({3, 1, 2} : Finset Nat) = [1, 2, 3] := by decide
