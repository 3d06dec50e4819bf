/-
# Interpolation at zero

The value at zero of a polynomial, from its values at more points than its degree: the sum that
turns shares of a secret into the secret.
-/
import Mathlib

namespace Polynomial

variable {ι K : Type*} [DecidableEq ι] [Field K]

/-- The coefficient of the point `i` among `s`: the product of `x_j / (x_j - x_i)`. -/
def coefficientAtZero (s : Finset ι) (x : ι → K) (i : ι) : K :=
  ∏ j ∈ s.erase i, x j / (x j - x i)

theorem eval_zero_basis (s : Finset ι) (x : ι → K) (i : ι) :
    (Lagrange.basis s x i).eval 0 = coefficientAtZero s x i := by
  rw [Lagrange.basis, eval_prod]
  refine Finset.prod_congr rfl fun j _ => ?_
  rw [Lagrange.basisDivisor, eval_mul, eval_C, eval_sub, eval_X, eval_C, zero_sub, ← neg_sub,
    inv_neg, neg_mul_neg, div_eq_mul_inv, mul_comm]

/-- **Shares add up to the secret.** -/
theorem eval_zero_eq_sum {s : Finset ι} {x : ι → K} (hx : Set.InjOn x s) {f : K[X]}
    (hf : f.degree < s.card) :
    f.eval 0 = ∑ i ∈ s, f.eval (x i) * coefficientAtZero s x i := by
  conv_lhs => rw [Lagrange.eq_interpolate hx hf]
  rw [Lagrange.interpolate_apply, eval_finsetSum]
  refine Finset.sum_congr rfl fun i _ => ?_
  rw [eval_mul, eval_C, eval_zero_basis]

end Polynomial
