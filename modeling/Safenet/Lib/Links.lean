/-
# Doubly linked lists

Cells that know the cell before them and the cell after them, where zero is no cell.  The list they
form is a `Segment`: it says what each cell links to, given what is before the first and after the
last.  So a segment splits at any place (`segment_append`), a cell goes in between the two parts
(`Segment.insert`), and the first one comes out (`Segment.tail`).

`walk` is the loop that follows links as long as a test says so, with fuel.  Backwards over a segment
it stops at the last cell of the part that passes (`Segment.walk_back`).
-/
import Mathlib.Data.List.Induction
import Mathlib.Logic.Function.Basic

namespace Links

variable {ι : Type} {previous next previous' next' : ι → ι}

/-- The cells of a list, linked to each other, and to what is before and after them. -/
def Segment (previous next : ι → ι) (before : ι) : List ι → ι → Prop
  | [], _ => True
  | x :: xs, after => previous x = before ∧ next x = xs.headD after ∧ Segment previous next x xs after

theorem headD_append (xs ys : List ι) (a : ι) : (xs ++ ys).headD a = xs.headD (ys.headD a) := by
  cases xs <;> rfl

theorem getLastD_append (xs ys : List ι) (a : ι) :
    (xs ++ ys).getLastD a = ys.getLastD (xs.getLastD a) := by
  induction xs generalizing a with
  | nil => rfl
  | cons x xs ih =>
    cases xs with
    | nil => cases ys <;> rfl
    | cons x' xs => exact ih x

/-- **A segment is its parts.** -/
theorem segment_append {before after : ι} {xs ys : List ι} :
    Segment previous next before (xs ++ ys) after ↔
      Segment previous next before xs (ys.headD after) ∧
        Segment previous next (xs.getLastD before) ys after := by
  induction xs generalizing before with
  | nil => simp [Segment]
  | cons x xs ih =>
    have hlast : (x :: xs).getLastD before = xs.getLastD x := by cases xs <;> rfl
    rw [List.cons_append, Segment, Segment, ih, headD_append, hlast]
    constructor
    · rintro ⟨hp, hn, hxs, hys⟩
      exact ⟨⟨hp, hn, hxs⟩, hys⟩
    · rintro ⟨⟨hp, hn, hxs⟩, hys⟩
      exact ⟨hp, hn, hxs, hys⟩

/-- A segment is about its own cells. -/
theorem Segment.congr {before after : ι} {xs : List ι} (h : Segment previous next before xs after)
    (hp : ∀ x ∈ xs, previous' x = previous x) (hn : ∀ x ∈ xs, next' x = next x) :
    Segment previous' next' before xs after := by
  induction xs generalizing before with
  | nil => trivial
  | cons x xs ih =>
    obtain ⟨hprevious, hnext, hxs⟩ := h
    refine ⟨(hp x List.mem_cons_self).trans hprevious, (hn x List.mem_cons_self).trans hnext, ?_⟩
    exact ih hxs (fun y hy => hp y (List.mem_cons_of_mem _ hy)) fun y hy =>
      hn y (List.mem_cons_of_mem _ hy)

/-- The last cell gets another one after it. -/
theorem Segment.relink_last {before after after' y : ι} {xs : List ι}
    (h : Segment previous next before (xs ++ [y]) after)
    (hp : ∀ x ∈ xs ++ [y], previous' x = previous x) (hn : ∀ x ∈ xs, next' x = next x)
    (hy : next' y = after') : Segment previous' next' before (xs ++ [y]) after' := by
  obtain ⟨hxs, hlast, -, -⟩ := segment_append.mp h
  have hpy := hp y (List.mem_append_right _ List.mem_cons_self)
  exact segment_append.mpr ⟨hxs.congr (fun x hx => hp x (List.mem_append_left _ hx)) hn,
    hpy.trans hlast, hy, trivial⟩

/-- The first cell gets another one before it. -/
theorem Segment.relink_head {before before' after y : ι} {ys : List ι}
    (h : Segment previous next before (y :: ys) after) (hy : previous' y = before')
    (hp : ∀ x ∈ ys, previous' x = previous x) (hn : ∀ x ∈ y :: ys, next' x = next x) :
    Segment previous' next' before' (y :: ys) after := by
  obtain ⟨-, hnext, hys⟩ := h
  exact ⟨hy, (hn y List.mem_cons_self).trans hnext,
    hys.congr hp fun x hx => hn x (List.mem_cons_of_mem _ hx)⟩

/-- **A cell goes in between**, when its neighbours are linked to it, and it to them. -/
theorem Segment.insert {before after c : ι} {xs ys : List ι}
    (h : Segment previous next before (xs ++ ys) after) (hnodup : (xs ++ ys).Nodup)
    (hpc : previous' c = xs.getLastD before) (hnc : next' c = ys.headD after)
    (hlast : ∀ x ∈ xs.getLast?, next' x = c) (hhead : ∀ y ∈ ys.head?, previous' y = c)
    (hp : ∀ x ∈ xs ++ ys, x ∉ ys.head? → previous' x = previous x)
    (hn : ∀ x ∈ xs ++ ys, x ∉ xs.getLast? → next' x = next x) :
    Segment previous' next' before (xs ++ c :: ys) after := by
  obtain ⟨hxs, hys⟩ := segment_append.mp h
  obtain ⟨hnodupxs, hnodupys, hdisjoint⟩ := List.nodup_append.mp hnodup
  refine segment_append.mpr ⟨?_, hpc, hnc, ?_⟩
  · rcases List.eq_nil_or_concat xs with rfl | ⟨xs, x, rfl⟩
    · trivial
    · rw [List.concat_eq_append] at *
      refine hxs.relink_last (fun z hz => hp z (List.mem_append_left _ hz) fun hmem => ?_)
        (fun z hz => hn z (List.mem_append_left _ (List.mem_append_left _ hz)) fun hmem => ?_)
        (hlast x (by simp))
      · exact hdisjoint z hz z (List.mem_of_mem_head? hmem) rfl
      · have hx : z = x := by simpa using hmem.symm
        subst hx
        exact (List.nodup_append.mp hnodupxs).2.2 z hz z List.mem_cons_self rfl
  · cases ys with
    | nil => trivial
    | cons y ys =>
      refine hys.relink_head (hhead y rfl)
        (fun z hz => hp z (List.mem_append_right _ (List.mem_cons_of_mem _ hz)) fun hmem => ?_)
        (fun z hz => hn z (List.mem_append_right _ hz) fun hmem => ?_)
      · have hy : z = y := by simpa using hmem.symm
        subst hy
        exact (List.nodup_cons.mp hnodupys).1 hz
      · exact hdisjoint z (List.mem_of_mem_getLast? hmem) z hz rfl

/-- **The first cell comes out**, when the one after it is linked to what was before. -/
theorem Segment.tail {before after x : ι} {xs : List ι}
    (h : Segment previous next before (x :: xs) after) (hnodup : xs.Nodup)
    (hhead : ∀ y ∈ xs.head?, previous' y = before)
    (hp : ∀ y ∈ xs, y ∉ xs.head? → previous' y = previous y) (hn : ∀ y ∈ xs, next' y = next y) :
    Segment previous' next' before xs after := by
  obtain ⟨-, -, hxs⟩ := h
  cases xs with
  | nil => trivial
  | cons y ys =>
    refine hxs.relink_head (hhead y rfl) (fun z hz => hp z (List.mem_cons_of_mem _ hz) fun hmem => ?_) hn
    have hy : z = y := by simpa using hmem.symm
    subst hy
    exact (List.nodup_cons.mp hnodup).1 hz

/-! ## Following links -/

variable [Zero ι] [DecidableEq ι]

/-- Follow links as long as a test says so, and as long as there is a cell.  Without fuel it is `none`. -/
def walk (link : ι → ι) (test : ι → Bool) : Nat → ι → Option ι
  | 0, _ => none
  | fuel + 1, x => if x ≠ 0 ∧ test x = true then walk link test fuel (link x) else some x

/-- **A walk back** over a segment stops at the last cell before those that pass the test. -/
theorem Segment.walk_back {after : ι} {test : ι → Bool} {xs ys : List ι} {fuel : Nat}
    (h : Segment previous next 0 (xs ++ ys) after) (hzero : ∀ y ∈ ys, y ≠ 0)
    (htest : ∀ y ∈ ys, test y = true) (hstop : ∀ x ∈ xs.getLast?, test x = false)
    (hfuel : ys.length < fuel) :
    walk previous test fuel ((xs ++ ys).getLastD 0) = some (xs.getLastD 0) := by
  induction ys using List.reverseRecOn generalizing fuel after with
  | nil =>
    obtain ⟨fuel, rfl⟩ := Nat.exists_eq_succ_of_ne_zero (by omega : fuel ≠ 0)
    rw [List.append_nil, walk, if_neg]
    rintro ⟨hne, hpass⟩
    rcases List.eq_nil_or_concat xs with rfl | ⟨xs, x, rfl⟩
    · exact hne rfl
    · rw [List.concat_eq_append] at *
      simp [hstop x (by simp)] at hpass
  | append_singleton ys y ih =>
    obtain ⟨fuel, rfl⟩ := Nat.exists_eq_succ_of_ne_zero (by omega : fuel ≠ 0)
    rw [← List.append_assoc] at h
    obtain ⟨hrest, hy, -⟩ := segment_append.mp h
    have hmem : y ∈ ys ++ [y] := List.mem_append_right _ List.mem_cons_self
    rw [← List.append_assoc, getLastD_append, show [y].getLastD (xs ++ ys |>.getLastD 0) = y from rfl, walk,
      if_pos ⟨hzero y hmem, htest y hmem⟩, hy]
    refine ih hrest (fun z hz => hzero z (List.mem_append_left _ hz))
      (fun z hz => htest z (List.mem_append_left _ hz)) ?_
    simp only [List.length_append, List.length_cons, List.length_nil] at hfuel
    omega

/-- The cells from one on.  Without fuel it is `none`. -/
def trail (link : ι → ι) : Nat → ι → Option (List ι)
  | 0, _ => none
  | fuel + 1, x => if x = 0 then some [] else (trail link fuel (link x)).map (x :: ·)

/-- **The trail of a segment** is its cells. -/
theorem Segment.trail_eq {before : ι} {xs : List ι} {fuel : Nat} (h : Segment previous next before xs 0)
    (hzero : ∀ x ∈ xs, x ≠ 0) (hfuel : xs.length < fuel) : trail next fuel (xs.headD 0) = some xs := by
  induction xs generalizing before fuel with
  | nil =>
    obtain ⟨fuel, rfl⟩ := Nat.exists_eq_succ_of_ne_zero (by omega : fuel ≠ 0)
    exact if_pos rfl
  | cons x xs ih =>
    obtain ⟨fuel, rfl⟩ := Nat.exists_eq_succ_of_ne_zero (by omega : fuel ≠ 0)
    obtain ⟨-, hnext, hxs⟩ := h
    rw [List.length_cons] at hfuel
    rw [List.headD_cons, trail, if_neg (hzero x List.mem_cons_self), hnext,
      ih hxs (fun y hy => hzero y (List.mem_cons_of_mem _ hy)) (by omega)]
    rfl

end Links
