/-
# The order of the generator

Both the crates and the contracts count scalars modulo `N`.  This module proves that they may:
`N` is prime, and `N` times the generator is the identity, computed by the contract's own
addition.  So the multiples of the generator are a copy `mulG` of `ZMod N`, and an equation
between them is an equation between scalars.  There is nothing else in the group: it has `N`
elements, so a scalar may be reduced whatever point it multiplies.
-/
import Safenet.Contracts.CurveGroup

namespace Safenet

namespace Secp256k1

/-! ## 1. The order is prime -/

/-- The order of the curve is prime. -/
theorem prime_N : N.Prime :=
  Primality.prime_of_check
    [2, 3, 11, 17, 41, 59, 109, 149, 293, 461, 631, 4051, 16699, 28181, 85831, 120233, 305873,
      1627771, 4681609, 44706919]
    [⟨107361793816595537, 3, [2, 2, 2, 2, 16699, 85831, 4681609]⟩,
      ⟨174723607534414371449, 3, [2, 2, 2, 17, 59, 4051, 120233, 44706919]⟩,
      ⟨297159362677, 2, [2, 2, 3, 3, 11, 461, 1627771]⟩,
      ⟨545358713, 5, [2, 2, 2, 41, 59, 28181]⟩,
      ⟨29047611873442575647497758179, 2, [2, 293, 305873, 545358713, 297159362677]⟩,
      ⟨341948486974166000522343609283189, 2,
        [2, 2, 3, 3, 3, 109, 29047611873442575647497758179]⟩,
      ⟨N, 7, [2, 2, 2, 2, 2, 2, 3, 149, 631, 107361793816595537, 174723607534414371449,
        341948486974166000522343609283189]⟩]
    (by norm_num) (by decide +kernel) (by simp)

instance : Fact N.Prime := ⟨prime_N⟩

/-! ## 2. The multiples of the generator -/

/-- `_divmod`, with the power taken digit by digit. -/
def divmodFast (x y : Nat) : Option Nat :=
  if y = 0 then none else some (x * Primality.powMod P y 64 (P - 2) % P)

theorem divmodFast_eq (x y : Nat) : divmodFast x y = divmod x y P := by
  rw [divmodFast, divmod, modexp_eq P 256 y _ (by norm_num [P]),
    Primality.powMod_eq P y (by norm_num [P])]

/-- `add`, with `divmodFast` for `_divmod`. -/
def addFast (p q : Point) : Option Point := do
  let p ← unpack p
  let q ← unpack q
  if p = zero then return q
  else if q = zero then return p
  else if p.x ≠ q.x then
    let l ← divmodFast ((q.y.val + (P - p.y.val)) % P) ((q.x.val + (P - p.x.val)) % P)
    return chord l p q.x
  else if p.y = q.y then
    let l ← divmodFast (3 * (p.x.val * p.x.val % P) % P) ((p.y.val + p.y.val) % P)
    return chord l p q.x
  else return zero

theorem addFast_eq (p q : Point) : addFast p q = add p q := by
  simp only [addFast, add, divmodFast_eq]

/-- `acc + n p`, by doubling over `fuel` bits of `n`. -/
def mulAdd : Nat → Nat → Point → Point → Option Point
  | 0, _, acc, _ => some acc
  | fuel + 1, n, acc, p => do
    let acc ← if n % 2 = 1 then addFast acc p else some acc
    mulAdd fuel (n / 2) acc (← addFast p p)

theorem mulAdd_ofGroup (fuel n : Nat) (a p : CurvePoint) (h : n < 2 ^ fuel) :
    mulAdd fuel n (ofGroup a) (ofGroup p) = some (ofGroup (a + n • p)) := by
  induction fuel generalizing n a p with
  | zero =>
    obtain rfl : n = 0 := by simpa using h
    rw [mulAdd, zero_nsmul, add_zero]
  | succ fuel ih =>
    have hhalf : n / 2 < 2 ^ fuel := by
      rw [pow_succ] at h
      omega
    have hdouble : (n / 2) • (p + p) = (2 * (n / 2)) • p := by
      rw [← two_nsmul, ← mul_nsmul]
    simp only [mulAdd, addFast_eq, add_ofGroup, Option.bind_eq_bind, Option.bind_some]
    split
    · rename_i hodd
      rw [ih _ _ _ hhalf, hdouble, add_assoc, ← succ_nsmul', (by omega : 2 * (n / 2) + 1 = n)]
    · rw [ih _ _ _ hhalf, hdouble, (by omega : 2 * (n / 2) = n)]

theorem satisfiesCurveEquation_generator : satisfiesCurveEquation generator = true := by
  decide +kernel

/-- The generator, as an element of the group. -/
theorem exists_generator : ∃ a : CurvePoint, ofGroup a = generator :=
  (onCurve_iff _).mp (.inr satisfiesCurveEquation_generator)

/-- The generator of the group. -/
noncomputable def G : CurvePoint := exists_generator.choose

theorem ofGroup_G : ofGroup G = generator := exists_generator.choose_spec

theorem mulAdd_generator : mulAdd 256 N zero generator = some zero := by decide +kernel

/-- The generator has order `N`. -/
theorem N_nsmul_G : N • G = 0 := by
  have h := mulAdd_ofGroup 256 N 0 G (by norm_num [N])
  have hzero : ofGroup 0 = zero := rfl
  rw [hzero, ofGroup_G, mulAdd_generator, zero_add, Option.some.injEq, ← hzero] at h
  exact (ofGroup_injective h).symm

theorem G_ne_zero : G ≠ 0 := by
  intro h
  have hgen := ofGroup_G
  rw [h] at hgen
  exact absurd hgen (by decide +kernel)

/-- A scalar times the generator. -/
noncomputable def mulG : ZMod N →+ CurvePoint :=
  ZMod.lift N ⟨zmultiplesHom CurvePoint G, by
    rw [zmultiplesHom_apply, natCast_zsmul]
    exact N_nsmul_G⟩

theorem mulG_natCast (n : Nat) : mulG (n : ZMod N) = n • G := by
  have h := ZMod.lift_coe N ⟨zmultiplesHom CurvePoint G, by
    rw [zmultiplesHom_apply, natCast_zsmul]
    exact N_nsmul_G⟩ (n : ℤ)
  rw [Int.cast_natCast] at h
  rw [mulG, h, zmultiplesHom_apply, natCast_zsmul]

/-- What a scalar times the generator is. -/
theorem mulG_eq (k : ZMod N) : mulG k = k.val • G := by
  rw [← mulG_natCast, ZMod.natCast_zmod_val]

theorem mulG_one : mulG 1 = G := by
  have h := mulG_natCast 1
  rw [Nat.cast_one, one_nsmul] at h
  exact h

/-- Multiplying a multiple of the generator. -/
theorem mulG_mul (s k : ZMod N) : mulG (s * k) = s.val • mulG k := by
  rw [← map_nsmul, nsmul_eq_mul, ZMod.natCast_zmod_val]

/-- Different scalars have different multiples. -/
theorem mulG_injective : Function.Injective mulG := by
  refine (injective_iff_map_eq_zero mulG).mpr fun k hk => ?_
  by_contra hne
  have hone := mulG_mul k⁻¹ k
  rw [inv_mul_cancel₀ hne, hk, nsmul_zero, mulG_one] at hone
  exact G_ne_zero hone

/-! ## 3. The order of the group -/

/-- Negating a coordinate changes its parity. -/
theorem neg_val_parity {y : ZMod P} (hy : y ≠ 0) : (-y).val % 2 ≠ y.val % 2 := by
  have hlt := val_lt_P y
  have hodd : P % 2 = 1 := by norm_num [P]
  rw [ZMod.neg_val, if_neg hy]
  omega

/-- An abscissa and a parity belong to one point. -/
theorem eq_of_parity {a b : CurvePoint} (ha : a ≠ 0) (hb : b ≠ 0)
    (hx : (ofGroup a).x.val = (ofGroup b).x.val)
    (hy : (ofGroup a).y.val % 2 = (ofGroup b).y.val % 2) : a = b := by
  rcases a with _ | ⟨x, y, h⟩
  · exact absurd rfl ha
  rcases b with _ | ⟨x', y', h'⟩
  · exact absurd rfl hb
  simp only [ofGroup, coordinate_val] at hx hy
  obtain rfl : x = x' := ZMod.val_injective P hx
  have hsquares : y ^ 2 = y' ^ 2 := by
    rw [(equation_iff x y).mp h.1, (equation_iff x y').mp h'.1]
  rcases sq_eq_sq_iff_eq_or_eq_neg.mp hsquares with rfl | rfl
  · rfl
  · exact absurd hy (neg_val_parity (y_ne_zero h'.1))

/-- What `eq_of_parity` reads of a point. -/
def compressed : CurvePoint → Option (ZMod P × Bool)
  | .zero => none
  | .some x y _ => some (x, y.val % 2 == 1)

theorem compressed_injective : Function.Injective compressed := by
  intro a b hab
  rcases a with _ | ⟨x, y, h⟩ <;> rcases b with _ | ⟨x', y', h'⟩
  · rfl
  · cases hab
  · cases hab
  · simp only [compressed, Option.some.injEq, Prod.mk.injEq] at hab
    obtain ⟨rfl, hpar⟩ := hab
    refine eq_of_parity (by simp) (by simp) rfl ?_
    simp only [ofGroup, coordinate_val]
    have hiff : y.val % 2 = 1 ↔ y'.val % 2 = 1 := by
      rw [← beq_iff_eq, hpar, beq_iff_eq]
    omega

instance : Finite CurvePoint := Finite.of_injective compressed compressed_injective

/-- Only the identity is its own inverse. -/
theorem eq_zero_of_add_self {a : CurvePoint} (h : a + a = 0) : a = 0 := by
  rcases a with _ | ⟨x, y, hxy⟩
  · rfl
  · have hneg := eq_neg_of_add_eq_zero_left h
    rw [WeierstrassCurve.Affine.Point.neg_some, WeierstrassCurve.Affine.Point.some.injEq] at hneg
    have hy : y = -y := by simpa [WeierstrassCurve.Affine.negY, curve] using hneg.2
    exact absurd (add_eq_zero_iff_eq_neg.mpr hy) (add_self_ne_zero (y_ne_zero hxy.1))

theorem card_le : Nat.card CurvePoint ≤ 2 * P + 1 := by
  refine (Nat.card_le_card_of_injective compressed compressed_injective).trans_eq ?_
  rw [Finite.card_option, Nat.card_prod, Nat.card_zmod, Nat.card_eq_fintype_card,
    Fintype.card_bool, Nat.mul_comm]

theorem addOrderOf_G : addOrderOf G = N :=
  addOrderOf_eq_prime N_nsmul_G G_ne_zero

/-- **The group has `N` elements**: a multiple of the order of the generator, at most two for
each abscissa, and no element is its own inverse. -/
theorem card_curvePoint : Nat.card CurvePoint = N := by
  have hdvd : N ∣ Nat.card CurvePoint := addOrderOf_G ▸ addOrderOf_dvd_natCard G
  obtain ⟨k, hk⟩ := hdvd
  have hpos : 0 < Nat.card CurvePoint := Nat.card_pos
  have hle : N * k ≤ 2 * P + 1 := hk ▸ card_le
  have hk3 : k < 3 := by
    by_contra hge
    have hmul : N * 3 ≤ N * k := Nat.mul_le_mul_left N (by omega)
    have hsmall : 2 * P + 1 < N * 3 := by norm_num [P, N]
    omega
  have hk2 : k ≠ 2 := by
    rintro rfl
    have : Fact (Nat.Prime 2) := ⟨Nat.prime_two⟩
    obtain ⟨a, ha⟩ := exists_prime_addOrderOf_dvd_card' (G := CurvePoint) 2 (hk ▸ Dvd.intro_left N rfl)
    have htwice : a + a = 0 := by
      rw [← two_nsmul, ← ha, addOrderOf_nsmul_eq_zero]
    have hzero : a = 0 := eq_zero_of_add_self htwice
    rw [hzero, addOrderOf_zero] at ha
    omega
  obtain rfl : k = 1 := by
    have hk0 : k ≠ 0 := by
      rintro rfl
      omega
    omega
  rw [hk, Nat.mul_one]

/-- Scalars count modulo `N`, whatever the point. -/
theorem N_nsmul (a : CurvePoint) : N • a = 0 := by
  rw [← card_curvePoint]
  exact card_nsmul_eq_zero'

/-- The points are a vector space over the scalars. -/
instance : Module (ZMod N) CurvePoint := AddCommGroup.zmodModule N_nsmul

end Secp256k1

end Safenet
