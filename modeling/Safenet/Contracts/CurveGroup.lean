/-
# The affine addition is the group law

`Secp256k1.add` works on coordinate pairs, with `(0, 0)` for the identity and a case for each way in
which two points can meet.  Here it is compared with the group of the curve `y² = x³ + 7` over the
field of `P` elements: the pairs that `_unpack` lets through are exactly the points of that group
(`onCurve_iff`), and on them `add` is its addition (`add_ofGroup`).

Two facts about the numbers carry it.  `P` is a prime, by Lucas's test down a chain of seven primes.
And no point of the curve has `y = 0`, because `-7` is not a cube: so a point is never its own inverse,
the last case of `add` is the inverse pair and no other, and `_divmod` never sees a zero divisor.

What the coordinator accumulates with `add` is then a sum in a commutative group (section 4), and the
order of the summands does not matter (`keyGenCommits_perm`, `registers_perm`).
-/
import Safenet.Contracts.Coordinator
import Safenet.Lib.Primality

namespace Safenet

namespace Secp256k1

/-! ## 1. The modulus is prime -/

/-- The precompile computes powers. -/
theorem modexp_eq (m fuel : Nat) (b e : Nat) (h : e < 2 ^ fuel) : modexp m fuel b e = b ^ e % m := by
  induction fuel generalizing b e with
  | zero =>
    obtain rfl : e = 0 := by simpa using h
    rw [modexp, pow_zero]
  | succ fuel ih =>
    have hhalf : e / 2 < 2 ^ fuel := by
      rw [pow_succ] at h
      omega
    have hsquare : (b * b % m) ^ (e / 2) % m = b ^ (2 * (e / 2)) % m := by
      rw [← Nat.pow_mod, pow_mul, sq]
    rw [modexp, ih _ _ hhalf, hsquare]
    split
    · rename_i hodd
      conv_rhs => rw [show e = 2 * (e / 2) + 1 by omega, pow_succ']
      rw [Nat.mul_mod_mod]
    · conv_rhs => rw [show e = 2 * (e / 2) by omega]

/-- The field modulus is prime: Lucas's test, down a chain of five more primes. -/
theorem prime_P : P.Prime :=
  Primality.prime_of_check
    [2, 3, 5, 7, 11, 29, 31, 1627, 2621, 2657, 4423, 5323, 7723, 13441, 24809, 41201, 96557,
      7240687, 13331831, 107590001]
    [⟨173378833005251801, 6, [2, 2, 2, 5, 5, 2621, 24809, 13331831]⟩,
      ⟨22149492674086928081353, 5, [2, 2, 2, 3, 5323, 173378833005251801]⟩,
      ⟨132896956044521568488119, 6, [2, 3, 22149492674086928081353]⟩,
      ⟨255515944373312847190720520512484175977, 3,
        [2, 2, 2, 7, 7, 11, 1627, 2657, 4423, 41201, 96557, 7240687, 107590001]⟩,
      ⟨205115282021455665897114700593932402728804164701536103180137503955397371, 10,
        [2, 3, 5, 29, 29, 31, 7723, 132896956044521568488119,
          255515944373312847190720520512484175977]⟩,
      ⟨P, 3, [2, 3, 7, 13441,
        205115282021455665897114700593932402728804164701536103180137503955397371]⟩]
    (by norm_num) (by decide +kernel) (by simp)

instance : Fact P.Prime := ⟨prime_P⟩

/-! ## 2. The curve -/

/-- The curve `y² = x³ + 7` over the field. -/
def curve : WeierstrassCurve.Affine (ZMod P) := ⟨0, 0, 0, 0, 7⟩

/-- The group of its points. -/
abbrev CurvePoint : Type := curve.Point

theorem equation_iff (x y : ZMod P) : curve.Equation x y ↔ y ^ 2 = x ^ 3 + 7 := by
  rw [WeierstrassCurve.Affine.equation_iff]
  simp [curve]

/-- `-7` is not a cube. -/
theorem neg_seven_not_cube (x : ZMod P) : x ^ 3 + 7 ≠ 0 := by
  intro hcube
  have hx : x ≠ 0 := by
    rintro rfl
    rw [zero_pow (by norm_num), zero_add] at hcube
    have hseven : ((7 : Nat) : ZMod P) = 0 := by exact_mod_cast hcube
    rw [ZMod.natCast_eq_zero_iff] at hseven
    exact absurd (Nat.le_of_dvd (by norm_num) hseven) (by norm_num [P])
  have hfermat : (x ^ 3) ^ ((P - 1) / 3) = 1 := by
    rw [← pow_mul, show 3 * ((P - 1) / 3) = P - 1 by norm_num [P]]
    exact ZMod.pow_card_sub_one_eq_one hx
  have hcast : x ^ 3 = ((P - 7 : Nat) : ZMod P) := by
    rw [Nat.cast_sub (by norm_num [P]), ZMod.natCast_self, zero_sub, eq_neg_iff_add_eq_zero]
    exact_mod_cast hcube
  rw [hcast, Primality.natCast_pow_eq_one_iff (by norm_num [P]),
    ← modexp_eq P 256 _ _ (by norm_num [P])] at hfermat
  revert hfermat
  decide +kernel

/-- No point of the curve is its own inverse. -/
theorem y_ne_zero {x y : ZMod P} (h : curve.Equation x y) : y ≠ 0 := by
  rintro rfl
  rw [equation_iff, zero_pow (by norm_num)] at h
  exact neg_seven_not_cube x h.symm

theorem two_ne_zero_P : (2 : ZMod P) ≠ 0 := by
  have htwo : ((2 : Nat) : ZMod P) ≠ 0 := by
    rw [ne_eq, ZMod.natCast_eq_zero_iff]
    exact fun h => absurd (Nat.le_of_dvd (by norm_num) h) (by norm_num [P])
  exact_mod_cast htwo

theorem add_self_ne_zero {y : ZMod P} (h : y ≠ 0) : y + y ≠ 0 := by
  rw [← two_mul]
  exact mul_ne_zero two_ne_zero_P h

/-- Every point of the curve is a point of its group. -/
theorem nonsingular {x y : ZMod P} (h : curve.Equation x y) : curve.Nonsingular x y := by
  rw [WeierstrassCurve.Affine.nonsingular_iff']
  refine ⟨h, .inr ?_⟩
  simpa [curve] using mul_ne_zero two_ne_zero_P (y_ne_zero h)

/-! ## 3. The addition -/

/-- A field element as a coordinate. -/
def coordinate (z : ZMod P) : U256 := Fin.ofNat _ z.val

theorem val_lt_P (z : ZMod P) : z.val < P := ZMod.val_lt z

@[simp] theorem coordinate_val (z : ZMod P) : (coordinate z).val = z.val :=
  Nat.mod_eq_of_lt (lt_trans (val_lt_P z) (by norm_num [P]))

theorem coordinate_natCast {n : Nat} (h : n < P) : coordinate (n : ZMod P) = Fin.ofNat _ n := by
  rw [coordinate, ZMod.val_natCast_of_lt h]

theorem coordinate_injective : Function.Injective coordinate := by
  intro a b h
  apply ZMod.val_injective P
  rw [← coordinate_val a, ← coordinate_val b, h]

/-- The pair of coordinates that stands for a point of the group. -/
def ofGroup : CurvePoint → Point
  | .zero => zero
  | .some x y _ => ⟨coordinate x, coordinate y⟩

/-- The identity, or a point on the curve. -/
def OnCurve (p : Point) : Prop := p = zero ∨ satisfiesCurveEquation p = true

theorem unpack_eq_some {p : Point} (h : OnCurve p) : unpack p = some p := if_pos h

theorem unpack_eq_none {p : Point} (h : ¬OnCurve p) : unpack p = none := if_neg h

/-- The check of `_satisfiesCurveEquation` is the equation of the curve. -/
theorem satisfiesCurveEquation_iff (p : Point) :
    satisfiesCurveEquation p = true ↔
      curve.Equation (p.x.val : ZMod P) (p.y.val : ZMod P) ∧ p.x.val < P ∧ p.y.val < P := by
  simp only [satisfiesCurveEquation, Bool.and_eq_true, decide_eq_true_eq]
  refine and_congr_left fun _ => ?_
  rw [equation_iff]
  have hcast : ((p.y.val * p.y.val : Nat) : ZMod P) =
      ((p.x.val * (p.x.val * p.x.val % P) % P + B : Nat) : ZMod P) ↔
      (p.y.val : ZMod P) ^ 2 = (p.x.val : ZMod P) ^ 3 + 7 := by
    rw [Nat.cast_add, ZMod.natCast_mod, Nat.cast_mul, Nat.cast_mul, ZMod.natCast_mod, Nat.cast_mul,
      ← sq, show (p.x.val : ZMod P) ^ 3 = p.x.val * (p.x.val * p.x.val) by ring]
    rfl
  rw [← hcast, ZMod.natCast_eq_natCast_iff']

theorem satisfiesCurveEquation_some {x y : ZMod P} (h : curve.Equation x y) :
    satisfiesCurveEquation ⟨coordinate x, coordinate y⟩ = true := by
  rw [satisfiesCurveEquation_iff]
  simp only [coordinate_val, ZMod.natCast_val, ZMod.cast_id', id]
  exact ⟨h, val_lt_P x, val_lt_P y⟩

/-- **What `_unpack` lets through** are the points of the group, and nothing else. -/
theorem onCurve_iff (p : Point) : OnCurve p ↔ ∃ a, ofGroup a = p := by
  constructor
  · rintro (rfl | h)
    · exact ⟨.zero, rfl⟩
    · obtain ⟨heq, hx, hy⟩ := (satisfiesCurveEquation_iff p).mp h
      refine ⟨.some _ _ (nonsingular heq), ?_⟩
      rw [ofGroup, coordinate_natCast hx, coordinate_natCast hy, Fin.ofNat_val_eq_self,
        Fin.ofNat_val_eq_self]
  · rintro ⟨_ | ⟨x, y, h⟩, rfl⟩
    · exact .inl rfl
    · exact .inr (satisfiesCurveEquation_some h.1)

theorem onCurve_ofGroup (a : CurvePoint) : OnCurve (ofGroup a) := (onCurve_iff _).mpr ⟨a, rfl⟩

theorem ofGroup_some_ne_zero {x y : ZMod P} (h : curve.Nonsingular x y) :
    ofGroup (.some x y h) ≠ zero := by
  intro heq
  have hsat : satisfiesCurveEquation (ofGroup (.some x y h)) = true := satisfiesCurveEquation_some h.1
  rw [heq, satisfiesCurveEquation_zero] at hsat
  cases hsat

/-- Different points have different coordinates. -/
theorem ofGroup_injective : Function.Injective ofGroup := by
  rintro (_ | ⟨x, y, h⟩) (_ | ⟨x', y', h'⟩) heq
  · rfl
  · exact absurd heq.symm (ofGroup_some_ne_zero h')
  · exact absurd heq (ofGroup_some_ne_zero h)
  · simp only [ofGroup, Point.mk.injEq] at heq
    obtain rfl := coordinate_injective heq.1
    obtain rfl := coordinate_injective heq.2
    rfl

/-- `_divmod` divides. -/
theorem divmod_eq {a b : ZMod P} {x y : Nat} (hx : (x : ZMod P) = a) (hy : (y : ZMod P) = b)
    (hb : b ≠ 0) : ∃ l, divmod x y P = some l ∧ (l : ZMod P) = a / b := by
  subst hx
  subst hy
  have hne : y ≠ 0 := by
    rintro rfl
    exact hb Nat.cast_zero
  refine ⟨_, if_neg hne, ?_⟩
  have hinv : (y : ZMod P) ^ (P - 2) = (y : ZMod P)⁻¹ := by
    refine eq_inv_of_mul_eq_one_left ?_
    rw [← pow_succ, show P - 2 + 1 = P - 1 by norm_num [P]]
    exact ZMod.pow_card_sub_one_eq_one hb
  rw [ZMod.natCast_mod, Nat.cast_mul, modexp_eq P 256 y (P - 2) (by norm_num [P]), ZMod.natCast_mod,
    Nat.cast_pow, hinv, div_eq_mul_inv]

/-- The unchecked subtractions from `P` are negations. -/
theorem natCast_sub_P {n : Nat} (h : n ≤ P) : ((P - n : Nat) : ZMod P) = -(n : ZMod P) := by
  rw [Nat.cast_sub h, ZMod.natCast_self, zero_sub]

/-- The point that `add` computes from a slope is the one the group law has for it. -/
theorem chord_eq {l : Nat} {slope x y x' : ZMod P} (hl : (l : ZMod P) = slope) :
    chord l ⟨coordinate x, coordinate y⟩ (coordinate x') =
      ⟨coordinate (curve.addX x x' slope), coordinate (curve.addY x x' y slope)⟩ := by
  have hpos : 0 < P := prime_P.pos
  rw [chord]
  simp only [coordinate_val]
  generalize hrx : (l * l % P + (P - (x.val + x'.val) % P)) % P = rx
  have hrxlt : rx < P := hrx ▸ Nat.mod_lt _ hpos
  have hrxeq : (rx : ZMod P) = curve.addX x x' slope := by
    rw [← hrx, ZMod.natCast_mod, Nat.cast_add, ZMod.natCast_mod, Nat.cast_mul, hl,
      natCast_sub_P (Nat.mod_lt _ hpos).le, ZMod.natCast_mod, Nat.cast_add, ZMod.natCast_zmod_val,
      ZMod.natCast_zmod_val]
    simp only [WeierstrassCurve.Affine.addX, curve]
    ring
  have hryeq : ((((x.val + (P - rx)) % P * l % P + (P - y.val)) % P : Nat) : ZMod P) =
      curve.addY x x' y slope := by
    rw [ZMod.natCast_mod, Nat.cast_add, ZMod.natCast_mod, Nat.cast_mul, ZMod.natCast_mod,
      Nat.cast_add, natCast_sub_P hrxlt.le, natCast_sub_P (val_lt_P y).le, ZMod.natCast_zmod_val,
      ZMod.natCast_zmod_val, hl, hrxeq]
    simp only [WeierstrassCurve.Affine.addY, WeierstrassCurve.Affine.negY,
      WeierstrassCurve.Affine.negAddY, WeierstrassCurve.Affine.addX, curve]
    ring
  rw [← hrxeq, ← hryeq, coordinate_natCast hrxlt, coordinate_natCast (Nat.mod_lt _ hpos)]

/-- The sum of two points that are not inverse to each other. -/
theorem ofGroup_add_some {x y x' y' : ZMod P} (h : curve.Nonsingular x y)
    (h' : curve.Nonsingular x' y') (hne : ¬(x = x' ∧ y = curve.negY x' y')) :
    ofGroup (WeierstrassCurve.Affine.Point.some x y h + WeierstrassCurve.Affine.Point.some x' y' h') =
      ⟨coordinate (curve.addX x x' (curve.slope x x' y y')),
        coordinate (curve.addY x x' y (curve.slope x x' y y'))⟩ := by
  rw [WeierstrassCurve.Affine.Point.add_some hne]
  rfl

/-- **`add` is the addition of the group.** -/
theorem add_ofGroup (a b : CurvePoint) : add (ofGroup a) (ofGroup b) = some (ofGroup (a + b)) := by
  rw [add, unpack_eq_some (onCurve_ofGroup a), unpack_eq_some (onCurve_ofGroup b)]
  simp only [Option.bind_eq_bind, Option.bind_some, Option.pure_def]
  rcases a with _ | ⟨x, y, h⟩
  · exact if_pos rfl
  rcases b with _ | ⟨x', y', h'⟩
  · rw [if_neg (ofGroup_some_ne_zero h)]
    exact if_pos rfl
  rw [if_neg (ofGroup_some_ne_zero h), if_neg (ofGroup_some_ne_zero h'), ofGroup, ofGroup]
  by_cases hx : x = x'
  · subst hx
    rw [if_neg (by simp)]
    by_cases hy : y = y'
    · -- doubling: a point is not its own inverse
      subst hy
      have hneg : y ≠ curve.negY x y := by
        intro hself
        rw [WeierstrassCurve.Affine.negY, curve] at hself
        refine add_self_ne_zero (y_ne_zero h.1) ?_
        linear_combination hself
      have hden : ((((coordinate y).val + (coordinate y).val) % P : Nat) : ZMod P) = y + y := by
        rw [coordinate_val, ZMod.natCast_mod, Nat.cast_add, ZMod.natCast_zmod_val]
      have hnum : ((3 * ((coordinate x).val * (coordinate x).val % P) % P : Nat) : ZMod P) =
          3 * (x * x) := by
        rw [coordinate_val, ZMod.natCast_mod, Nat.cast_mul, ZMod.natCast_mod, Nat.cast_mul,
          ZMod.natCast_zmod_val]
        rfl
      obtain ⟨l, hdiv, hl⟩ := divmod_eq hnum hden (add_self_ne_zero (y_ne_zero h.1))
      have hslope : (l : ZMod P) = curve.slope x x y y := by
        rw [hl, WeierstrassCurve.Affine.slope_of_Y_ne rfl hneg, WeierstrassCurve.Affine.negY, curve]
        congr 1 <;> ring
      rw [if_pos rfl, hdiv, Option.bind_some, chord_eq hslope,
        ofGroup_add_some h h' fun hboth => hneg hboth.2]
    · -- the ordinates differ, so they are opposite
      have hopp : y = curve.negY x y' := by
        have heq := (equation_iff x y).mp h.1
        rw [← (equation_iff x y').mp h'.1] at heq
        have hprod : (y - y') * (y + y') = 0 := by linear_combination heq
        rcases mul_eq_zero.mp hprod with hsub | hadd
        · exact absurd (sub_eq_zero.mp hsub) hy
        · rw [WeierstrassCurve.Affine.negY, curve]
          linear_combination hadd
      rw [if_neg fun heq => hy (coordinate_injective heq),
        WeierstrassCurve.Affine.Point.add_of_Y_eq rfl hopp]
      rfl
  · -- two abscissas: the slope of the secant
    have hden : ((((coordinate x').val + (P - (coordinate x).val)) % P : Nat) : ZMod P) = x' - x := by
      rw [coordinate_val, coordinate_val, ZMod.natCast_mod, Nat.cast_add,
        natCast_sub_P (val_lt_P x).le, ZMod.natCast_zmod_val, ZMod.natCast_zmod_val, sub_eq_add_neg]
    have hnum : ((((coordinate y').val + (P - (coordinate y).val)) % P : Nat) : ZMod P) = y' - y := by
      rw [coordinate_val, coordinate_val, ZMod.natCast_mod, Nat.cast_add,
        natCast_sub_P (val_lt_P y).le, ZMod.natCast_zmod_val, ZMod.natCast_zmod_val, sub_eq_add_neg]
    obtain ⟨l, hdiv, hl⟩ := divmod_eq hnum hden (sub_ne_zero.mpr (Ne.symm hx))
    have hslope : (l : ZMod P) = curve.slope x x' y y' := by
      rw [hl, WeierstrassCurve.Affine.slope_of_X_ne hx, ← neg_sub y y', ← neg_sub x x', neg_div_neg_eq]
    rw [if_pos fun heq => hx (coordinate_injective heq), hdiv, Option.bind_some, chord_eq hslope,
      ofGroup_add_some h h' fun hboth => hx hboth.1]

/-- What is not on the curve is not added. -/
theorem add_eq_none {p q : Point} (h : ¬(OnCurve p ∧ OnCurve q)) : add p q = none := by
  rw [add]
  by_cases hp : OnCurve p
  · rw [unpack_eq_some hp, unpack_eq_none fun hq => h ⟨hp, hq⟩]
    rfl
  · rw [unpack_eq_none hp]
    rfl

theorem OnCurve.add {p q : Point} (hp : OnCurve p) (hq : OnCurve q) :
    ∃ r, Secp256k1.add p q = some r ∧ OnCurve r := by
  obtain ⟨a, rfl⟩ := (onCurve_iff p).mp hp
  obtain ⟨b, rfl⟩ := (onCurve_iff q).mp hq
  exact ⟨_, add_ofGroup a b, onCurve_ofGroup _⟩

theorem onCurve_of_add {p q r : Point} (h : add p q = some r) : OnCurve r := by
  by_cases hon : OnCurve p ∧ OnCurve q
  · obtain ⟨s, hs, hr⟩ := OnCurve.add hon.1 hon.2
    rw [h] at hs
    rwa [Option.some.inj hs]
  · rw [add_eq_none hon] at h
    cases h

/-- Two points added to a third, in either order. -/
theorem add_swap {p : Point} (hp : OnCurve p) (q r : Point) :
    (add p q).bind (add · r) = (add p r).bind (add · q) := by
  by_cases hqr : OnCurve q ∧ OnCurve r
  · obtain ⟨a, rfl⟩ := (onCurve_iff p).mp hp
    obtain ⟨b, rfl⟩ := (onCurve_iff q).mp hqr.1
    obtain ⟨c, rfl⟩ := (onCurve_iff r).mp hqr.2
    rw [add_ofGroup, add_ofGroup, Option.bind_some, Option.bind_some, add_ofGroup, add_ofGroup,
      add_right_comm]
  · have hnone : ∀ q r, ¬(OnCurve q ∧ OnCurve r) → (add p q).bind (add · r) = none := by
      intro q r hqr
      by_cases hq : OnCurve q
      · refine Option.bind_eq_none_iff.mpr fun s _ => add_eq_none fun h => hqr ⟨hq, h.2⟩
      · rw [add_eq_none fun h => hq h.2, Option.bind_none]
    rw [hnone q r hqr, hnone r q fun h => hqr h.symm]

end Secp256k1

open Secp256k1

/-! ## 4. What is accumulated -/

section Commuting

variable {σ α : Type}

/-- Steps that commute wherever an invariant holds may be taken in any order. -/
theorem foldlM_perm {f : σ → α → Option σ} (Inv : σ → Prop) {R : α → α → Prop}
    (hsymm : ∀ a b, R a b → R b a) (hkeep : ∀ s a s', Inv s → f s a = some s' → Inv s')
    (hcomm : ∀ s a b, Inv s → R a b → (f s a).bind (f · b) = (f s b).bind (f · a))
    {l l' : List α} (hperm : l.Perm l') (hl : l.Pairwise R) {s : σ} (hs : Inv s) :
    l.foldlM f s = l'.foldlM f s := by
  induction hperm generalizing s with
  | nil => rfl
  | cons a _ ih =>
    rw [List.foldlM_cons, List.foldlM_cons]
    cases hstep : f s a with
    | none => rfl
    | some s' => exact ih (List.pairwise_cons.mp hl).2 (hkeep s a s' hs hstep)
  | swap a b l =>
    have hR : R b a := (List.pairwise_cons.mp hl).1 a List.mem_cons_self
    simp only [List.foldlM_cons, Option.bind_eq_bind]
    rw [← Option.bind_assoc, ← Option.bind_assoc, hcomm s b a hs hR]
  | trans h₁ _ ih₁ ih₂ =>
    rw [ih₁ hl hs, ih₂ (h₁.pairwise hl (fun h => hsymm _ _ h)) hs]

/-- A step on one cell of a store. -/
def stepAt {κ β : Type} [DecidableEq κ] (get : σ → κ → β) (set : σ → (κ → β) → σ) (k : α → κ)
    (F : β → α → Option β) (s : σ) (a : α) : Option σ :=
  (F (get s (k a)) a).map fun g => set s (Function.update (get s) (k a) g)

/-- Steps on the cells of a store commute when those on one cell do. -/
theorem stepAt_comm {κ β : Type} [DecidableEq κ] {get : σ → κ → β} {set : σ → (κ → β) → σ}
    {k : α → κ} {F : β → α → Option β} (hget : ∀ s f, get (set s f) = f)
    (hset : ∀ s f f', set (set s f) f' = set s f') {s : σ} {a b : α}
    (hcell : k a = k b → (F (get s (k a)) a).bind (F · b) = (F (get s (k a)) b).bind (F · a)) :
    (stepAt get set k F s a).bind (stepAt get set k F · b) =
      (stepAt get set k F s b).bind (stepAt get set k F · a) := by
  simp only [stepAt, Option.bind_map, Function.comp_def, hget, hset]
  by_cases hk : k a = k b
  · have hjoin : ∀ a b, k a = k b → ((F (get s (k a)) a).bind fun g =>
        (F (Function.update (get s) (k a) g (k b)) b).map fun g' =>
          set s (Function.update (Function.update (get s) (k a) g) (k b) g')) =
        ((F (get s (k a)) a).bind (F · b)).map fun g' => set s (Function.update (get s) (k a) g') := by
      intro a b hk
      simp only [← hk, Function.update_self, Function.update_idem, Option.map_bind]
      rfl
    rw [hjoin a b hk, hjoin b a hk.symm, hcell hk, hk]
  · simp only [Function.update_of_ne hk, Function.update_of_ne (Ne.symm hk)]
    cases F (get s (k a)) a with
    | none => cases F (get s (k b)) b <;> rfl
    | some g =>
      cases F (get s (k b)) b with
      | none => rfl
      | some g' =>
        simp only [Option.bind_some, Option.map_some]
        rw [Function.update_comm hk]

end Commuting

variable (L : ContractLibraries)

namespace SignatureShares

/-- A call of `register`. -/
structure Registration where
  participant : Address
  share : SignatureShare
  r : Point
  root : B256
  proof : List B256

/-- `register`, for a list of shares. -/
def registers (self : SignatureShares) (calls : List Registration) : Option SignatureShares :=
  calls.foldlM (fun self c => (self.register L c.participant c.share c.r c.root c.proof).map (·.1)) self

/-- Every sum is a point, or the identity. -/
def SumsOnCurve (self : SignatureShares) : Prop :=
  ∀ root, OnCurve (self.aggregates root).signature.r

variable {L}

theorem SumsOnCurve.register {self self' : SignatureShares} {participant : Address}
    {share : SignatureShare} {r : Point} {root : B256} {proof : List B256}
    {signature : FrostSignature} (hself : self.SumsOnCurve)
    (h : self.register L participant share r root proof = some (self', signature)) :
    self'.SumsOnCurve ∧
      Secp256k1.add (self.aggregates root).signature.r share.r = some signature.r ∧
      (self'.aggregates root).signature = signature := by
  unfold SignatureShares.register at h
  dsimp only at h
  split at h
  · simp only [bind, Option.bind_eq_some_iff, pure, Option.some.injEq, Prod.mk.injEq] at h
    obtain ⟨sum, hsum, rfl, rfl⟩ := h
    refine ⟨fun a => ?_, hsum, by simp only [Function.update_self]⟩
    by_cases ha : a = root
    · subst ha
      simpa only [Function.update_self] using onCurve_of_add hsum
    · simpa only [Function.update_of_ne ha] using hself a
  · cases h

variable (L)

/-- `register` on the aggregate of its root. -/
def registerIn (aggregate : Aggregate) (c : Registration) : Option Aggregate :=
  if aggregate.participants c.participant = 0 ∧
      L.merkleVerify c.proof c.root (leaf L c.participant c.share c.r) then
    (Secp256k1.add aggregate.signature.r c.share.r).map fun sum =>
      { participants := Function.update aggregate.participants c.participant
          (leaf L c.participant c.share c.r)
        signature := ⟨sum, Fin.ofNat _ ((aggregate.signature.z.val + c.share.z.val) % N)⟩ }
  else none

theorem register_eq (self : SignatureShares) (c : Registration) :
    (self.register L c.participant c.share c.r c.root c.proof).map (·.1) =
      stepAt aggregates (fun _ f => ⟨f⟩) Registration.root (registerIn L) self c := by
  rw [register, stepAt, registerIn]
  dsimp only
  split
  · cases Secp256k1.add (self.aggregates c.root).signature.r c.share.r <;> rfl
  · rfl

/-- The scalars of two shares, added in either order. -/
theorem scalar_swap (z a b : U256) :
    (Fin.ofNat (2 ^ 256) (((Fin.ofNat (2 ^ 256) ((z.val + a.val) % N)).val + b.val) % N)) =
      Fin.ofNat (2 ^ 256) (((Fin.ofNat (2 ^ 256) ((z.val + b.val) % N)).val + a.val) % N) := by
  have hval : ∀ n : Nat, (Fin.ofNat (2 ^ 256) (n % N)).val = n % N := fun n =>
    Nat.mod_eq_of_lt (lt_trans (Nat.mod_lt _ (by norm_num [N])) (by norm_num [N]))
  rw [hval, hval, Nat.mod_add_mod, Nat.mod_add_mod, add_right_comm]

theorem registerIn_comm {aggregate : Aggregate} (haggregate : OnCurve aggregate.signature.r)
    {a b : Registration} (hne : a.participant ≠ b.participant) :
    (registerIn L aggregate a).bind (registerIn L · b) =
      (registerIn L aggregate b).bind (registerIn L · a) := by
  have hpair : ∀ a b : Registration, a.participant ≠ b.participant →
      (registerIn L aggregate a).bind (registerIn L · b) =
      if (aggregate.participants a.participant = 0 ∧
          L.merkleVerify a.proof a.root (leaf L a.participant a.share a.r)) ∧
        (aggregate.participants b.participant = 0 ∧
          L.merkleVerify b.proof b.root (leaf L b.participant b.share b.r)) then
        ((Secp256k1.add aggregate.signature.r a.share.r).bind (Secp256k1.add · b.share.r)).map
          fun sum =>
          { participants := Function.update (Function.update aggregate.participants a.participant
              (leaf L a.participant a.share a.r)) b.participant (leaf L b.participant b.share b.r)
            signature := ⟨sum, Fin.ofNat _ (((Fin.ofNat (2 ^ 256)
              ((aggregate.signature.z.val + a.share.z.val) % N)).val + b.share.z.val) % N)⟩ }
      else none := by
    intro a b hne
    by_cases ha : aggregate.participants a.participant = 0 ∧
        L.merkleVerify a.proof a.root (leaf L a.participant a.share a.r)
    · rw [registerIn, if_pos ha]
      simp only [registerIn, Option.bind_map, Function.comp_def,
        Function.update_of_ne (Ne.symm hne), ha, true_and]
      split
      · rw [Option.map_bind]
        rfl
      · exact Option.bind_eq_none_iff.mpr fun _ _ => rfl
    · rw [registerIn, if_neg ha, if_neg fun h => ha h.1, Option.bind_none]
  rw [hpair a b hne, hpair b a (Ne.symm hne), add_swap haggregate, Function.update_comm hne,
    scalar_swap]
  exact if_congr and_comm rfl rfl

variable {L}

/-- **The order of the shares does not matter**: the same selections, sums and refusals. -/
theorem registers_perm {self : SignatureShares} (hself : self.SumsOnCurve) {calls calls' : List Registration}
    (hperm : calls.Perm calls') (hdistinct : (calls.map Registration.participant).Nodup) :
    self.registers L calls = self.registers L calls' := by
  refine foldlM_perm SumsOnCurve (R := fun a b => a.participant ≠ b.participant)
    (fun _ _ h => h.symm) ?_ ?_ hperm (List.pairwise_map.mp hdistinct) hself
  · intro self c self' hself h
    obtain ⟨⟨self', signature⟩, hreg, rfl⟩ := Option.map_eq_some_iff.mp h
    exact (hself.register hreg).1
  · intro self a b hself hne
    simp only [register_eq]
    refine stepAt_comm ?_ ?_ fun _ => registerIn_comm L (hself a.root) hne
    · exact fun _ _ => rfl
    · exact fun _ _ _ => rfl

end SignatureShares

namespace Coordinator

/-- A call of `keyGenCommit`. -/
structure Commit where
  sender : Address
  gid : B256
  poap : List B256
  commitment : KeyGenCommitment

/-- `keyGenCommit`, for a list of participants. -/
def keyGenCommits (C : Coordinator) (calls : List Commit) : Option Coordinator :=
  calls.foldlM (fun C c => (C.keyGenCommit L c.sender c.gid c.poap c.commitment).map (·.1)) C

/-- Every group key is a point, or the identity. -/
def KeysOnCurve (C : Coordinator) : Prop := ∀ gid, OnCurve (C.groups gid).key

/-- What `keyGenCommit` asks of a call, beside that the group is still committing. -/
def Accepts (g : CoordinatorGroup) (c : Commit) : Prop :=
  satisfiesCurveEquation c.commitment.q = true ∧ c.commitment.c.length = g.state.threshold ∧
    L.merkleVerify c.poap g.participants.root c.sender.intoWord = true ∧
    (g.participants.states c.sender).status = .none

instance (g : CoordinatorGroup) (c : Commit) : Decidable (Accepts L g c) := by
  unfold Accepts
  infer_instance

/-- The participants once one more is registered. -/
def registered (participants : ParticipantMap) (sender : Address) : ParticipantMap :=
  participants.setState sender { participants.states sender with status := .registered }

/-- `keyGenCommit` on the group of its id. -/
def commitIn (g : CoordinatorGroup) (c : Commit) : Option CoordinatorGroup :=
  if g.state.status = .committing ∧ g.state.pending ≠ 0 ∧ Accepts L g c then
    (c.commitment.c.head?.bind (Secp256k1.add g.key)).map fun key =>
      { g with participants := registered g.participants c.sender
               state := advance g.state (g.state.pending - 1) .sharing, key }
  else none

theorem keyGenCommit_eq (C : Coordinator) (c : Commit) :
    (C.keyGenCommit L c.sender c.gid c.poap c.commitment).map (·.1) =
      stepAt groups (fun C f => { C with groups := f }) Commit.gid (commitIn L) C c := by
  have hnone : ¬((C.groups c.gid).state.status = .committing ∧ (C.groups c.gid).state.pending ≠ 0 ∧
      Accepts L (C.groups c.gid) c) → commitIn L (C.groups c.gid) c = none := fun h => if_neg h
  rw [keyGenCommit, stepAt]
  dsimp only
  by_cases hstatus : (C.groups c.gid).state.status = .committing
  · rw [if_pos hstatus]
    by_cases hpending : (C.groups c.gid).state.pending = 0
    · rw [checkedPred, if_pos hpending, hnone fun h => h.2.1 hpending]
      rfl
    · rw [checkedPred, if_neg hpending]
      simp only [Option.bind_eq_bind, Option.bind_some]
      by_cases hchecks : satisfiesCurveEquation c.commitment.q = true ∧
          c.commitment.c.length = (C.groups c.gid).state.threshold ∧
          L.merkleVerify c.poap (C.groups c.gid).participants.root c.sender.intoWord = true
      · rw [if_pos hchecks, ParticipantMap.register]
        by_cases hfresh : ((C.groups c.gid).participants.states c.sender).status = .none
        · have hcommit : commitIn L (C.groups c.gid) c = _ :=
            if_pos ⟨hstatus, hpending, hchecks.1, hchecks.2.1, hchecks.2.2, hfresh⟩
          rw [if_pos hfresh, Option.bind_some, hcommit]
          cases c.commitment.c.head?.bind (Secp256k1.add (C.groups c.gid).key) <;> rfl
        · rw [if_neg hfresh, hnone fun h => hfresh h.2.2.2.2.2]
          rfl
      · rw [if_neg hchecks, hnone fun h => hchecks ⟨h.2.2.1, h.2.2.2.1, h.2.2.2.2.1⟩]
        rfl
  · rw [if_neg hstatus, hnone fun h => hstatus h.1]
    rfl

/-- Two commitments added to a group's key. -/
def bothKeys (g : CoordinatorGroup) (a b : Commit) : Option Point :=
  (a.commitment.c.head?.bind (Secp256k1.add g.key)).bind fun key =>
    b.commitment.c.head?.bind (Secp256k1.add key)

theorem bothKeys_swap {g : CoordinatorGroup} (hg : OnCurve g.key) (a b : Commit) :
    bothKeys g a b = bothKeys g b a := by
  unfold bothKeys
  cases a.commitment.c.head? with
  | none => cases b.commitment.c.head? <;> simp
  | some p =>
    cases b.commitment.c.head? with
    | none => simp
    | some q => exact add_swap hg p q

theorem commitIn_comm {g : CoordinatorGroup} (hg : OnCurve g.key) (a b : Commit) :
    (commitIn L g a).bind (commitIn L · b) = (commitIn L g b).bind (commitIn L · a) := by
  have hpair : ∀ a b : Commit, (commitIn L g a).bind (commitIn L · b) =
      if g.state.status = .committing ∧ 2 ≤ g.state.pending ∧ a.sender ≠ b.sender ∧
          Accepts L g a ∧ Accepts L g b then
        (bothKeys g a b).map fun key =>
          { g with participants := registered (registered g.participants a.sender) b.sender
                   state := advance { g.state with pending := g.state.pending - 1 }
                     (g.state.pending - 2) .sharing, key }
      else none := by
    intro a b
    by_cases ha : g.state.status = .committing ∧ g.state.pending ≠ 0 ∧ Accepts L g a
    · rw [commitIn, if_pos ha]
      by_cases hlast : g.state.pending = 1
      · -- the last commitment ends the phase
        rw [if_neg (by omega), Option.bind_eq_none_iff]
        intro g' hg'
        obtain ⟨key, -, rfl⟩ := Option.map_eq_some_iff.mp hg'
        refine if_neg fun h => ?_
        rw [advance, if_pos (by omega)] at h
        cases h.1
      · have hstate : advance g.state (g.state.pending - 1) .sharing =
            { g.state with pending := g.state.pending - 1 } := if_neg (by omega)
        have haccepts : ∀ key, Accepts L { g with
            participants := registered g.participants a.sender
            state := { g.state with pending := g.state.pending - 1 }, key } b ↔
              a.sender ≠ b.sender ∧ Accepts L g b := by
          intro key
          by_cases hsender : a.sender = b.sender
          · refine iff_of_false (fun h => ?_) fun h => h.1 hsender
            have hnone := h.2.2.2
            simp only [registered, ParticipantMap.setState, hsender, Function.update_self] at hnone
            cases hnone
          · rw [and_iff_right hsender]
            simp only [Accepts, registered, ParticipantMap.setState,
              Function.update_of_ne (Ne.symm hsender)]
        rw [hstate]
        simp only [commitIn, Option.bind_map, Function.comp_def, haccepts]
        by_cases hb : a.sender ≠ b.sender ∧ Accepts L g b
        · rw [if_pos ⟨ha.1, by omega, hb.1, ha.2.2, hb.2⟩, bothKeys, Option.map_bind]
          refine Option.bind_congr fun key _ => ?_
          rw [if_pos ⟨ha.1, by omega, hb⟩]
          rfl
        · rw [if_neg fun h => hb ⟨h.2.2.1, h.2.2.2.2⟩, Option.bind_eq_none_iff]
          exact fun key _ => if_neg fun h => hb h.2.2
    · rw [commitIn, if_neg ha, Option.bind_none, if_neg fun h => ha ⟨h.1, by omega, h.2.2.2.1⟩]
  have hmap : ∀ a b : Address, a ≠ b → registered (registered g.participants a) b =
      registered (registered g.participants b) a := by
    intro a b hne
    simp only [registered, ParticipantMap.setState, Function.update_of_ne hne,
      Function.update_of_ne (Ne.symm hne)]
    rw [Function.update_comm hne]
  rw [hpair a b, hpair b a, bothKeys_swap hg]
  by_cases hne : a.sender = b.sender
  · rw [if_neg fun h => h.2.2.1 hne, if_neg fun h => h.2.2.1 hne.symm]
  · rw [hmap _ _ hne]
    refine if_congr ?_ rfl rfl
    rw [ne_comm, and_comm (a := Accepts L g a)]

variable {L}

theorem KeysOnCurve.keyGenCommit {C C' : Coordinator} {sender : Address} {gid : B256}
    {poap : List B256} {commitment : KeyGenCommitment} {events : List Event} (hC : C.KeysOnCurve)
    (h : C.keyGenCommit L sender gid poap commitment = some (C', events)) : C'.KeysOnCurve := by
  have heq := keyGenCommit_eq L C ⟨sender, gid, poap, commitment⟩
  rw [h, Option.map_some] at heq
  obtain ⟨g, hg, rfl⟩ := Option.map_eq_some_iff.mp heq.symm
  intro a
  by_cases ha : a = gid
  · subst ha
    simp only [Function.update_self]
    unfold commitIn at hg
    split at hg
    · obtain ⟨key, hkey, rfl⟩ := Option.map_eq_some_iff.mp hg
      obtain ⟨p, -, hadd⟩ := Option.bind_eq_some_iff.mp hkey
      exact onCurve_of_add (hadd)
    · cases hg
  · simpa only [Function.update_of_ne ha] using hC a

/-- **The order of the commitments does not matter**: the same group, or the same refusal. -/
theorem keyGenCommits_perm {C : Coordinator} (hC : C.KeysOnCurve) {calls calls' : List Commit}
    (hperm : calls.Perm calls') : C.keyGenCommits L calls = C.keyGenCommits L calls' := by
  refine foldlM_perm KeysOnCurve (R := fun _ _ => True) (fun _ _ _ => trivial) ?_ ?_ hperm
    (List.pairwise_of_forall fun _ _ => trivial) hC
  · intro C c C' hC h
    obtain ⟨⟨C', events⟩, hcommit, rfl⟩ := Option.map_eq_some_iff.mp h
    exact hC.keyGenCommit hcommit
  · intro C a b hC _
    simp only [keyGenCommit_eq]
    refine stepAt_comm ?_ ?_ fun _ => commitIn_comm L (hC a.gid) a b
    · exact fun _ _ => rfl
    · exact fun _ _ _ => rfl

/-! ## 5. The sums of a run -/

theorem KeysOnCurve.put {C : Coordinator} {gid : B256} {g : CoordinatorGroup} (hC : C.KeysOnCurve)
    (hg : OnCurve g.key) : (C.put gid g).KeysOnCurve := by
  intro a
  by_cases ha : a = gid
  · rwa [ha, put_groups_self]
  · rw [put_groups_of_ne ha]
    exact hC a

theorem KeysOnCurve.keyGen {C C' : Coordinator} {root context : B256} {count threshold : Nat}
    {events : List Event} (hC : C.KeysOnCurve)
    (h : C.keyGen L root count threshold context = some (C', events)) : C'.KeysOnCurve := by
  unfold Coordinator.keyGen at h
  split at h
  · simp only [bind, Option.bind_eq_some_iff, pure, Option.some.injEq, Prod.mk.injEq] at h
    obtain ⟨map, -, rfl, -⟩ := h
    exact hC.put (hC _)
  · cases h

/-- A call leaves every group with a key on the curve. -/
theorem KeysOnCurve.exec {C C' : Coordinator} {sender : Address} {call : Call} {events : List Event}
    (hC : C.KeysOnCurve) (h : C.exec L sender call = some (C', events)) : C'.KeysOnCurve := by
  cases call with
  | keyGen root count threshold context => exact hC.keyGen h
  | keyGenCommit gid poap commitment => exact hC.keyGenCommit h
  | keyGenAndCommit root count threshold context poap commitment =>
    simp only [Coordinator.exec, keyGenAndCommit, bind, pure] at h
    split at h
    · simp only [Option.bind_eq_some_iff, Option.some.injEq, Prod.mk.injEq] at h
      obtain ⟨⟨C₁, e₁⟩, h₁, ⟨C₂, e₂⟩, h₂, rfl, -⟩ := h
      exact (hC.keyGen h₁).keyGenCommit h₂
    · simp only [Option.bind_some, Option.bind_eq_some_iff, Option.some.injEq, Prod.mk.injEq] at h
      obtain ⟨⟨C₂, e₂⟩, h₂, rfl, -⟩ := h
      exact hC.keyGenCommit h₂
  | keyGenSecretShare gid share =>
    simp only [Coordinator.exec, keyGenSecretShare] at h
    split at h
    · simp only [bind, Option.bind_eq_some_iff, pure, Option.some.injEq, Prod.mk.injEq] at h
      obtain ⟨pending, -, participants, -, rfl, -⟩ := h
      exact hC.put (hC gid)
    · cases h
  | keyGenConfirm gid =>
    simp only [Coordinator.exec, keyGenConfirm] at h
    split at h
    · simp only [bind, Option.bind_eq_some_iff, pure, Option.some.injEq, Prod.mk.injEq] at h
      obtain ⟨participants, -, pending, -, rfl, -⟩ := h
      exact hC.put (hC gid)
    · cases h
  | keyGenComplain gid accused =>
    simp only [Coordinator.exec, keyGenComplain] at h
    split at h
    · simp only [bind, Option.bind_eq_some_iff, pure, Option.some.injEq, Prod.mk.injEq] at h
      obtain ⟨r, -, rfl, -⟩ := h
      exact hC.put (hC gid)
    · cases h
  | keyGenComplaintResponse gid plaintiff secretShare =>
    simp only [Coordinator.exec, keyGenComplaintResponse] at h
    split at h
    · simp only [bind, Option.bind_eq_some_iff, pure, Option.some.injEq, Prod.mk.injEq] at h
      obtain ⟨participants, -, rfl, -⟩ := h
      exact hC.put (hC gid)
    · cases h
  | preprocess gid commitment =>
    simp only [Coordinator.exec, Coordinator.preprocess] at h
    split at h
    · simp only [bind, Option.bind_eq_some_iff, pure, Option.some.injEq, Prod.mk.injEq] at h
      obtain ⟨r, -, rfl, -⟩ := h
      exact hC.put (hC gid)
    · cases h
  | sign gid message =>
    simp only [Coordinator.exec, Coordinator.sign] at h
    split at h
    · simp only [Option.some.injEq, Prod.mk.injEq] at h
      obtain ⟨rfl, -⟩ := h
      exact hC.put (hC gid)
    · cases h
  | signRevealNonces sid nonces proof =>
    simp only [Coordinator.exec, signRevealNonces] at h
    split at h
    · simp only [Option.some.injEq, Prod.mk.injEq] at h
      obtain ⟨rfl, -⟩ := h
      exact hC
    · cases h
  | signShare sid selection share proof =>
    simp only [Coordinator.exec, signShare, bind, pure, Option.bind_eq_some_iff] at h
    obtain ⟨key, -, h⟩ := h
    split at h
    · rw [Option.bind_eq_some_iff] at h
      obtain ⟨r, -, h⟩ := h
      split_ifs at h <;> (obtain ⟨rfl, -⟩ := Prod.mk.inj (Option.some.inj h); exact hC)
    · cases h

/-- Every aggregated commitment is a point, or the identity. -/
def SumsOnCurve (C : Coordinator) : Prop := ∀ sid, (C.signatures sid).shares.SumsOnCurve

theorem SumsOnCurve.putSignature {C : Coordinator} {sid : B256} {s : SignatureState}
    (hC : C.SumsOnCurve) (hs : s.shares.SumsOnCurve) : (C.putSignature sid s).SumsOnCurve := by
  intro a
  by_cases ha : a = sid
  · rwa [ha, putSignature_self]
  · rw [putSignature_of_ne ha]
    exact hC a

theorem SumsOnCurve.step {C C' : Coordinator} {events : List Event} (hC : C.SumsOnCurve)
    (h : Step L C events C') : C'.SumsOnCurve := by
  cases h with
  | group => exact hC
  | sign => exact SumsOnCurve.putSignature hC (hC _)
  | reveal => exact hC
  | shared hshared => exact hC.putSignature ((hC _).register hshared.registered).1
  | completed hshared => exact hC.putSignature ((hC _).register hshared.registered).1

variable (L)

/-- **After any calls**, what the coordinator accumulated is a point, or the identity. -/
theorem onCurve_execAll (calls : List (Address × Call)) :
    (execAll L initial calls).1.KeysOnCurve ∧ (execAll L initial calls).1.SumsOnCurve := by
  constructor
  · have hrun : ∀ (calls : List (Address × Call)) (C : Coordinator), C.KeysOnCurve →
        (execAll L C calls).1.KeysOnCurve := by
      intro calls
      induction calls with
      | nil => exact fun C hC => hC
      | cons call calls ih =>
        intro C hC
        obtain ⟨sender, call⟩ := call
        rw [execAll]
        cases hexec : Coordinator.exec L C sender call with
        | none => exact ih C hC
        | some r => exact ih r.1 (hC.exec hexec)
    exact hrun calls initial fun _ => .inl rfl
  · obtain ⟨ls, hrun, -⟩ := execAll_run L calls initial
    exact hrun.induction (fun _ C => C.SumsOnCurve) (fun _ _ => .inl rfl)
      (fun _ _ _ _ hC hstep => hC.step hstep)

/-- **The affine addition is the group law**, and what is accumulated with it does not depend on the
order in which the participants submit. -/
theorem add_group_law :
    (∀ p, OnCurve p ↔ ∃ a, ofGroup a = p) ∧ Function.Injective ofGroup ∧ ofGroup 0 = zero ∧
    (∀ a b, Secp256k1.add (ofGroup a) (ofGroup b) = some (ofGroup (a + b))) ∧
    (∀ (past : List (Address × Call)) (calls calls' : List Commit), calls.Perm calls' →
      (execAll L initial past).1.keyGenCommits L calls =
        (execAll L initial past).1.keyGenCommits L calls') ∧
    ∀ (past : List (Address × Call)) (sid : B256) (calls calls' : List SignatureShares.Registration),
      calls.Perm calls' → (calls.map (·.participant)).Nodup →
        ((execAll L initial past).1.signatures sid).shares.registers L calls =
          ((execAll L initial past).1.signatures sid).shares.registers L calls' := by
  refine ⟨onCurve_iff, ofGroup_injective, rfl, add_ofGroup, ?_, ?_⟩
  · intro past calls calls' hperm
    exact keyGenCommits_perm (onCurve_execAll L past).1 hperm
  · intro past sid calls calls' hperm hdistinct
    exact SignatureShares.registers_perm ((onCurve_execAll L past).2 sid) hperm hdistinct

end Coordinator

end Safenet
