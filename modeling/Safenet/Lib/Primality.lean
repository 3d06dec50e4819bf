/-
# Primes by certificate

A number is prime when some element of its residues has full order, which Lucas's test reads off the
prime factors of its predecessor.  Those are certified the same way, so a certificate is a list: each
entry may use the primes that are known already and the entries before it.

`powMod` takes sixteen as its base, a digit of the exponent at a time, so that a kernel with big
integers does most of the work inside a few operations.
-/
import Mathlib.Algebra.BigOperators.Group.List.Lemmas
import Mathlib.Data.List.Prime
import Mathlib.NumberTheory.LucasPrimality

namespace Primality

/-! ## 1. Powers, a digit at a time -/

/-- `b ^ e % m`, for an exponent of `digits` digits. -/
def powMod (m b : Nat) : Nat → Nat → Nat
  | 0, _ => 1 % m
  | digits + 1, e => powMod m b digits (e / 16) ^ 16 % m * b ^ (e % 16) % m

theorem powMod_eq (m b : Nat) {digits e : Nat} (h : e < 16 ^ digits) :
    powMod m b digits e = b ^ e % m := by
  induction digits generalizing e with
  | zero =>
    obtain rfl : e = 0 := by simpa using h
    rw [powMod, pow_zero]
  | succ digits ih =>
    have hhigh : e / 16 < 16 ^ digits := by
      rw [pow_succ] at h
      omega
    have hsplit : e / 16 * 16 + e % 16 = e := by omega
    rw [powMod, ih hhigh, ← Nat.pow_mod, Nat.mod_mul_mod, ← pow_mul, ← pow_add, hsplit]

/-! ## 2. Certificates -/

/-- A generator modulo `p`, and the prime factors of `p - 1`, each as often as it divides. -/
structure Certificate where
  p : Nat
  a : Nat
  factors : List Nat

/-- Lucas's test, for a prime of at most 256 bits whose factors are known. -/
def Certificate.passes (known : List Nat) (c : Certificate) : Bool :=
  c.factors.all (· ∈ known) && c.factors.prod == c.p - 1 && (1 < c.p && c.p < 16 ^ 64) &&
    powMod c.p c.a 64 (c.p - 1) == 1 &&
    c.factors.all fun q => powMod c.p c.a 64 ((c.p - 1) / q) != 1

/-- Each entry passes, given the ones before it. -/
def check : List Nat → List Certificate → Bool
  | _, [] => true
  | known, c :: cs => c.passes known && check (c.p :: known) cs

theorem natCast_pow_eq_one_iff {p : Nat} (hp : 1 < p) (a e : Nat) :
    (a : ZMod p) ^ e = 1 ↔ a ^ e % p = 1 := by
  rw [← Nat.cast_pow, ← Nat.cast_one, ZMod.natCast_eq_natCast_iff', Nat.mod_eq_of_lt hp]

theorem Certificate.prime {known : List Nat} {c : Certificate} (hknown : ∀ q ∈ known, q.Prime)
    (h : c.passes known = true) : c.p.Prime := by
  simp only [passes, Bool.and_eq_true, List.all_eq_true, decide_eq_true_eq, beq_iff_eq,
    bne_iff_ne] at h
  obtain ⟨⟨⟨⟨hmem, hprod⟩, hp, hsmall⟩, hone⟩, hne⟩ := h
  refine lucas_primality c.p (c.a : ZMod c.p) ?_ fun q hq hdvd => ?_
  · rw [natCast_pow_eq_one_iff hp, ← powMod_eq c.p c.a (lt_of_le_of_lt (Nat.sub_le _ _) hsmall)]
    exact hone
  · rw [← hprod] at hdvd
    obtain ⟨r, hr, hqr⟩ := (Prime.dvd_prod_iff hq.prime).mp hdvd
    have heq : q = r := (Nat.prime_dvd_prime_iff_eq hq (hknown r (hmem r hr))).mp hqr
    have hle : (c.p - 1) / q < 16 ^ 64 := lt_of_le_of_lt (Nat.div_le_self _ _) (by omega)
    rw [ne_eq, natCast_pow_eq_one_iff hp, ← powMod_eq c.p c.a hle, heq]
    exact hne r hr

/-- **What a certificate certifies is prime.** -/
theorem prime_of_check (known : List Nat) (cs : List Certificate) (hknown : ∀ q ∈ known, q.Prime)
    (h : check known cs = true) {p : Nat} (hp : p ∈ cs.map Certificate.p) : p.Prime := by
  induction cs generalizing known with
  | nil => exact absurd hp (by simp)
  | cons c cs ih =>
    rw [check, Bool.and_eq_true] at h
    have hc : c.p.Prime := c.prime hknown h.1
    rcases List.mem_cons.mp hp with rfl | hp
    · exact hc
    · refine ih (c.p :: known) (fun q hq => ?_) h.2 hp
      rcases List.mem_cons.mp hq with rfl | hq
      · exact hc
      · exact hknown q hq

end Primality
