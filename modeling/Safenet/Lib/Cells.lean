/-
# Windows of an addressed memory

A memory is a total function from addresses to cells.  Code that lays buffers out by hand is
described by the windows it reads: a window splits where its length does, a write is read back
from its own window, and it is not seen from a window beside it.  `KeepsOutside` is the frame
of a whole sequence of writes, composed by `trans`.
-/
import Mathlib.Data.List.Range

namespace Cells

variable {α : Type*}

/-- The `n` cells from address `p` on. -/
def read (m : Nat → α) (p n : Nat) : List α := (List.range n).map fun i => m (p + i)

/-- `xs` written from address `p` on. -/
def write (m : Nat → α) (p : Nat) (xs : List α) : Nat → α := fun a =>
  if p ≤ a then xs.getD (a - p) (m a) else m a

/-! ## 1. Reading -/

@[simp] theorem length_read (m : Nat → α) (p n : Nat) : (read m p n).length = n := by
  simp [read]

theorem getElem_read (m : Nat → α) (p : Nat) {n i : Nat} (hi : i < (read m p n).length) :
    (read m p n)[i] = m (p + i) := by
  simp [read]

theorem read_add (m : Nat → α) (p a b : Nat) :
    read m p (a + b) = read m p a ++ read m (p + a) b := by
  rw [read, List.range_add, List.map_append, List.map_map]
  refine congrArg _ (List.map_congr_left fun i _ => ?_)
  rw [Function.comp_apply, Nat.add_assoc]

/-- The first cells of a window. -/
theorem read_take (m : Nat → α) (p : Nat) {a n : Nat} (h : a ≤ n) :
    read m p a = (read m p n).take a := by
  obtain ⟨b, rfl⟩ := Nat.exists_eq_add_of_le h
  rw [read_add, List.take_left' (length_read m p a)]

/-- Two memories that agree on a window read the same from it. -/
theorem read_congr {m m' : Nat → α} {p n : Nat} (h : ∀ a, p ≤ a → a < p + n → m' a = m a) :
    read m' p n = read m p n :=
  List.map_congr_left fun i hi =>
    h (p + i) (Nat.le_add_right p i) (Nat.add_lt_add_left (List.mem_range.mp hi) p)

/-- Memories that read the same from a window agree on it. -/
theorem apply_eq_of_read_eq {m m' : Nat → α} {p n a : Nat} (h : read m' p n = read m p n)
    (hle : p ≤ a) (hlt : a < p + n) : m' a = m a := by
  obtain ⟨i, rfl⟩ := Nat.exists_eq_add_of_le hle
  have hi : i < n := Nat.lt_of_add_lt_add_left hlt
  have hcell := List.getElem_of_eq h (by rwa [length_read])
  rwa [getElem_read, getElem_read] at hcell

/-! ## 2. Writing -/

theorem write_apply (m : Nat → α) (p : Nat) (xs : List α) {i : Nat} (hi : i < xs.length) :
    write m p xs (p + i) = xs[i] := by
  simp [write, hi]

/-- What is written is read back, as far as it is read. -/
theorem read_write (m : Nat → α) (p : Nat) (xs : List α) {n : Nat} (hn : n ≤ xs.length) :
    read (write m p xs) p n = xs.take n := by
  refine List.ext_getElem (by simp [hn]) fun i hi _ => ?_
  have hin : i < n := by simpa using hi
  rw [getElem_read, write_apply m p xs (hin.trans_le hn), List.getElem_take]

theorem read_write_self (m : Nat → α) (p : Nat) (xs : List α) :
    read (write m p xs) p xs.length = xs := by
  rw [read_write m p xs le_rfl, List.take_length]

/-! ## 3. Frames -/

/-- Memory `m'` is `m` outside the addresses from `lo` up to `hi`. -/
def KeepsOutside (m m' : Nat → α) (lo hi : Nat) : Prop :=
  ∀ a, a < lo ∨ hi ≤ a → m' a = m a

namespace KeepsOutside

variable {m m' m'' : Nat → α} {lo hi lo' hi' p n : Nat}

theorem refl (m : Nat → α) (lo hi : Nat) : KeepsOutside m m lo hi := fun _ _ => rfl

theorem trans (h : KeepsOutside m m' lo hi) (h' : KeepsOutside m' m'' lo hi) :
    KeepsOutside m m'' lo hi := fun a ha => (h' a ha).trans (h a ha)

/-- A frame holds of every larger range. -/
theorem mono (h : KeepsOutside m m' lo hi) (hlo : lo' ≤ lo) (hhi : hi ≤ hi') :
    KeepsOutside m m' lo' hi' :=
  fun a ha => h a (ha.imp (fun hlt => hlt.trans_le hlo) fun hle => hhi.trans hle)

/-- A write changes its own window only. -/
theorem write (m : Nat → α) (p : Nat) (xs : List α) :
    KeepsOutside m (write m p xs) p (p + xs.length) := by
  intro a ha
  rcases ha with hlt | hle
  · rw [Cells.write, if_neg (Nat.not_le.mpr hlt)]
  · have hlen : xs.length ≤ a - p := by omega
    rw [Cells.write, List.getD_eq_getElem?_getD, List.getElem?_eq_none hlen, Option.getD_none,
      ite_self]

/-- A window beside the range reads the same. -/
theorem read_eq (h : KeepsOutside m m' lo hi) (hp : p + n ≤ lo ∨ hi ≤ p) :
    read m' p n = read m p n :=
  read_congr fun a hle hlt =>
    h a (hp.imp (fun hlo => hlt.trans_le hlo) fun hhi => hhi.trans hle)

end KeepsOutside

/-- A write is not seen from a window beside it. -/
theorem read_write_of_disjoint (m : Nat → α) {p q n : Nat} (xs : List α)
    (h : p + n ≤ q ∨ q + xs.length ≤ p) : read (write m q xs) p n = read m p n :=
  (KeepsOutside.write m q xs).read_eq h

end Cells
