/-
# The curve, as the contracts compute it

`Secp256k1.sol`: which coordinate pairs are points, and the affine addition with the identity
written `(0, 0)`.  The inverse of the slope comes from the `modexp` precompile, so `add` can
fail in two ways: an input that is no point reverts, and a zero denominator trips the assert in
`_divmod`.
-/
import Safenet.Basic

namespace Safenet

namespace Secp256k1

/-- The field modulus. -/
def P : Nat := 0xfffffffffffffffffffffffffffffffffffffffffffffffffffffffefffffc2f

/-- The order of the curve. -/
def N : Nat := 0xfffffffffffffffffffffffffffffffebaaedce6af48a03bbfd25e8cd0364141

/-- The constant of the curve equation. -/
def B : Nat := 7

/-- `_satisfiesCurveEquation`: reduced coordinates on the curve, which the identity is not. -/
def satisfiesCurveEquation (p : Point) : Bool :=
  p.y.val * p.y.val % P = (p.x.val * (p.x.val * p.x.val % P) % P + B) % P &&
    (p.x.val < P && p.y.val < P)

/-- The point at infinity. -/
def zero : Point := ⟨0, 0⟩

/-- `requireNonZero` rejects the identity. -/
theorem satisfiesCurveEquation_zero : satisfiesCurveEquation zero = false := by decide +kernel

/-- `_unpack`: the identity, or a point on the curve. -/
def unpack (p : Point) : Option Point :=
  if p = zero ∨ satisfiesCurveEquation p then some p else none

/-- The `modexp` precompile, by repeated squaring over `fuel` bits of the exponent. -/
def modexp (m : Nat) : Nat → Nat → Nat → Nat
  | 0, _, _ => 1 % m
  | fuel + 1, b, e =>
    let h := modexp m fuel (b * b % m) (e / 2)
    if e % 2 = 1 then b * h % m else h

/-- `_divmod`: the assert fails on a zero denominator. -/
def divmod (x y p : Nat) : Option Nat :=
  if y = 0 then none else some (x * modexp p 256 y (p - 2) % p)

/-- The third point on the line of slope `l` through `p` and a point with abscissa `qx`,
reflected. -/
def chord (l : Nat) (p : Point) (qx : U256) : Point :=
  let rx := (l * l % P + (P - (p.x.val + qx.val) % P)) % P
  let ry := ((p.x.val + (P - rx)) % P * l % P + (P - p.y.val)) % P
  ⟨Fin.ofNat _ rx, Fin.ofNat _ ry⟩

/-- `add`. -/
def add (p q : Point) : Option Point := do
  let p ← unpack p
  let q ← unpack q
  if p = zero then return q
  else if q = zero then return p
  else if p.x ≠ q.x then
    let l ← divmod ((q.y.val + (P - p.y.val)) % P) ((q.x.val + (P - p.x.val)) % P) P
    return chord l p q.x
  else if p.y = q.y then
    let l ← divmod (3 * (p.x.val * p.x.val % P) % P) ((p.y.val + p.y.val) % P) P
    return chord l p q.x
  else return zero

/-- The generator. -/
def generator : Point where
  x := 0x79be667ef9dcbbac55a06295ce870b07029bfcdb2dce28d959f2815b16f81798
  y := 0x483ada7726a3c4655da4fbfc0e1108a8fd17b448a68554199c47d08ffb10d4b8

example : (add generator generator).bind (fun p => (add p generator).map (·.x.val)) =
    some 0xf9308a019258c31049344f85f89d5229b531c845836f99b08601f113bce036f9 := by decide +kernel

end Secp256k1

end Safenet
