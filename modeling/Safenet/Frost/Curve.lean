/-
# What the FROST crates promise about the curve

`frost_secp256k1` and `k256` are outside the repository.  `Curve` says what their types stand
for: a scalar is a residue modulo `N`, an element is a point of the curve the contracts compute
on, an identifier is a nonzero scalar.  The laws are the documented ones: the operations are
those of the group, the encodings are the canonical ones.

With them a point in ABI form is the contract's name of the element (`solidityPoint_eq`), so what
the validator submits and what the contract adds up can be compared.
-/
import Safenet.Frost
import Safenet.Contracts.Generator

namespace Safenet

open Secp256k1

/-- A scalar as a word: its representative below `N`. -/
def scalarWord (s : ZMod N) : U256 := Fin.ofNat _ s.val

theorem scalarWord_val (s : ZMod N) : (scalarWord s).val = s.val :=
  Nat.mod_eq_of_lt (lt_trans (ZMod.val_lt s) (by norm_num [N]))

/-- The words of scalars are added the way `addmod` adds them. -/
theorem scalarWord_add (a b : ZMod N) :
    Fin.ofNat _ (((scalarWord a).val + (scalarWord b).val) % N) = scalarWord (a + b) := by
  rw [scalarWord_val, scalarWord_val, ← ZMod.val_add, scalarWord]

namespace Frost

/-- **The values behind the crates' types**, and the operations on them. -/
structure Curve (E : Crates) where
  scalar : E.Scalar → ZMod N
  point : E.Element → CurvePoint
  identifier : E.Identifier → ZMod N
  identifier_injective : Function.Injective identifier
  encodeScalar_eq : ∀ s, E.encodeScalar s = scalarWord (scalar s)
  point_eq_zero_iff : ∀ e, point e = 0 ↔ e = E.identity
  encodePoint_eq : ∀ e, e ≠ E.identity → E.encodePoint e = ofGroup (point e)
  point_generator : point E.generator = G
  point_add : ∀ a b, point (E.add a b) = point a + point b
  point_mul : ∀ s a, point (E.mul s a) = (scalar s).val • point a

namespace Curve

variable {E : Crates} (F : Curve E)

theorem point_identity : F.point E.identity = 0 := (F.point_eq_zero_iff _).mpr rfl

/-- The ABI form of an element is the contract's name of it. -/
theorem solidityPoint_eq (e : E.Element) : solidityPoint E e = ofGroup (F.point e) := by
  rw [solidityPoint]
  split
  · rename_i h
    rw [h, F.point_identity]
    rfl
  · rename_i h
    exact F.encodePoint_eq e h

/-- A public value: a scalar times the generator. -/
theorem point_mul_generator (s : E.Scalar) :
    F.point (E.mul s E.generator) = mulG (F.scalar s) := by
  rw [F.point_mul, F.point_generator, mulG_eq]

end Curve

end Frost

end Safenet
