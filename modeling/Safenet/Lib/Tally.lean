/-
# Tallies

A sum over a finite type of what a function gives, and what an update of the function at one place
does to it.  A count is the tally of an indicator.
-/
import Mathlib.Algebra.BigOperators.Group.Finset.Basic
import Mathlib.Data.Fintype.Basic
import Mathlib.Algebra.BigOperators.Ring.Finset
import Mathlib.Algebra.Order.BigOperators.Group.Finset

namespace Tally

open Finset

variable {α β : Type} [Fintype α] [DecidableEq α]

/-- An update changes the sum by what it changes at its place. -/
theorem sum_update (f : α → β) (a : α) (b : β) (g : β → ℕ) :
    ∑ x, g (Function.update f a b x) + g (f a) = ∑ x, g (f x) + g b := by
  have hrest : ∑ x ∈ univ.erase a, g (Function.update f a b x) = ∑ x ∈ univ.erase a, g (f x) := by
    refine sum_congr rfl fun x hx => ?_
    rw [Function.update_of_ne (ne_of_mem_erase hx)]
  rw [← sum_erase_add _ _ (mem_univ a), ← sum_erase_add _ (fun x => g (f x)) (mem_univ a),
    hrest, Function.update_self]
  omega

/-- The number of places at which a function has a property. -/
def count (f : α → β) (p : β → Prop) [DecidablePred p] : ℕ := (univ.filter fun x => p (f x)).card

omit [DecidableEq α] in
theorem count_eq_sum (f : α → β) (p : β → Prop) [DecidablePred p] :
    count f p = ∑ x, if p (f x) then 1 else 0 := card_filter _ _

/-- An update changes a count by one, at most. -/
theorem count_update (f : α → β) (a : α) (b : β) (p : β → Prop) [DecidablePred p] :
    count (Function.update f a b) p + (if p (f a) then 1 else 0) =
      count f p + if p b then 1 else 0 := by
  rw [count_eq_sum, count_eq_sum]
  exact sum_update f a b fun y => if p y then 1 else 0

omit [DecidableEq α] in
theorem count_eq_zero {f : α → β} {p : β → Prop} [DecidablePred p] :
    count f p = 0 ↔ ∀ x, ¬p (f x) := by
  rw [count, card_eq_zero, filter_eq_empty_iff]
  exact ⟨fun h x => h (mem_univ x), fun h x _ => h x⟩

omit [DecidableEq α] in
theorem count_congr {f : α → β} {p q : β → Prop} [DecidablePred p] [DecidablePred q]
    (h : ∀ y, p y ↔ q y) : count f p = count f q :=
  congrArg card (filter_congr fun x _ => h (f x))

omit [DecidableEq α] in
/-- The counts of two properties that exclude each other. -/
theorem count_or (f : α → β) (p q : β → Prop) [DecidablePred p] [DecidablePred q]
    (h : ∀ y, p y → ¬q y) : count f (fun y => p y ∨ q y) = count f p + count f q := by
  classical
  rw [count, count, count, ← card_union_of_disjoint, ← filter_or]
  exact disjoint_filter.mpr fun x _ hp => h _ hp

omit [DecidableEq α] in
/-- A sum of what depends on a key alone, by the keys. -/
theorem sum_by_key {κ : Type} [Fintype κ] [DecidableEq κ] (f : α → β) (key : β → κ) (w : κ → ℕ) :
    ∑ x, w (key (f x)) = ∑ k, count f (fun y => key y = k) * w k := by
  calc ∑ x, w (key (f x)) = ∑ x, ∑ k, if key (f x) = k then w k else 0 := by
        refine sum_congr rfl fun x _ => ?_
        rw [sum_ite_eq, if_pos (mem_univ _)]
    _ = ∑ k, ∑ x, if key (f x) = k then w k else 0 := sum_comm
    _ = ∑ k, count f (fun y => key y = k) * w k := by
        refine sum_congr rfl fun k _ => ?_
        rw [count_eq_sum, sum_mul]
        refine sum_congr rfl fun x _ => ?_
        rw [ite_mul, one_mul, zero_mul]

omit [DecidableEq α] in
theorem card_places (f : α → β) (p : β → Prop) [DecidablePred p] :
    (univ.filter fun x => p (f x)).card = count f p := rfl

-- a count over a large type is not to be unfolded
attribute [irreducible] count

end Tally
