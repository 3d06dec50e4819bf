/-
# Schnorr verification through `ecrecover`

`Secp256k1.mulmuladd` checks `z G = r + e p` with one call of the `ecrecover` precompile: the
abscissa of `p` goes in as the signature's `r`, its parity as `v`, and two multiples of that
abscissa as the digest and as `s`.  What comes out is the address of `e p - z G`, which is
compared with the address of `-r`.  `FROST.verify` and `FROST.verifyShare` put the RFC 9591
challenge in for `e`.

The precompile and Keccak-256 are parameters.  `Recovers` is the specification of the first;
of the second the check needs that it separates the addresses it compares, which is a hypothesis
about a set of points (`Separates`), since no hash separates the addresses of all of them.
-/
import Safenet.Contracts.Generator
import Safenet.Contracts.Hashing

namespace Safenet

namespace Secp256k1

/-! ## 1. The check -/

/-- The address of a pair of coordinates: the low 20 bytes of its hash. -/
def addressOf (keccak256 : Bytes → B256) (x y : Nat) : Address :=
  Fin.ofNat _ (keccak256 (beBytes 32 x ++ beBytes 32 y)).val

/-- `requireNonZero`, and `_unpackNonZero`. -/
def unpackNonZero (p : Point) : Option Point :=
  if satisfiesCurveEquation p then some p else none

/-- `mulmuladd`: `recover` is the precompile, with nothing returned for an input it rejects. -/
def mulmuladd (recover : Nat → Nat → Nat → Nat → Option Address) (keccak256 : Bytes → B256)
    (z e : Nat) (p r : Point) : Option Unit := do
  let p ← unpackNonZero p
  let r ← unpackNonZero r
  let minusR := (recover (z * p.x.val % N) (p.y.val % 2 + 27) p.x.val (e * p.x.val % N)).getD 0
  guard (minusR ≠ 0)
  guard (minusR = addressOf keccak256 r.x.val (P - r.y.val))

/-- `serialize`. -/
def serialize (p : Point) : Option (Nat × Nat) := do
  let p ← unpackNonZero p
  return (2 + p.y.val % 2, p.x.val)

end Secp256k1

namespace FROST

open Secp256k1

/-- `abi.encodePacked`: the bytes behind the free memory pointer, which moves by whole words. -/
def encodePacked (m : Memory) (bytes : Bytes) : Memory × Nat :=
  let ptr := mload m 0x40
  let m := Cells.write (mstore m ptr bytes.length) (ptr + 0x20) bytes
  (mstore m 0x40 (ptr + 32 * ((bytes.length + 63) / 32)), ptr)

/-- `challenge`. -/
def challenge (H : Bytes → B256) (m : Memory) (r y : Point) (message : B256) : Option Nat := do
  let (rv, rx) ← serialize r
  let (yv, yx) ← serialize y
  let (m, input) := encodePacked m
    (beBytes 1 rv ++ beBytes 32 rx ++ beBytes 1 yv ++ beBytes 32 yx ++ B256.toBytes message)
  let (_, c) ← h2 H m input
  return c

section Verify

variable (recover : Nat → Nat → Nat → Nat → Option Address) (keccak256 H : Bytes → B256)

/-- `verify`. -/
def verify (m : Memory) (y : Point) (signature : FrostSignature) (message : B256) :
    Option Unit := do
  guard (signature.z.val < N)
  let c ← challenge H m signature.r y message
  mulmuladd recover keccak256 signature.z.val c y signature.r

/-- `verifyShare`. -/
def verifyShare (m : Memory) (group r participant : Point) (share : SignatureShare)
    (message : B256) : Option Unit := do
  guard (share.z.val < N)
  let c ← challenge H m r group message
  let cl := c * share.l.val % N
  mulmuladd recover keccak256 share.z.val cl participant share.r

end Verify

end FROST

/-! ## 2. What the precompile and the hash are assumed to do -/

namespace Secp256k1

/-- The address of a point. -/
def pointAddress (keccak256 : Bytes → B256) (a : CurvePoint) : Address :=
  addressOf keccak256 (ofGroup a).x.val (ofGroup a).y.val

/-- The point that `ecrecover` recovers from the point its signature names. -/
noncomputable def recovered (h r s : Nat) (a : CurvePoint) : CurvePoint :=
  (r : ZMod N)⁻¹ • ((s : ZMod N) • a - (h : ZMod N) • G)

/-- The specification of `ecrecover`: both halves of the signature are scalars and not zero, `r` and
the parity name a point, and the recovered point is not the identity. -/
structure Recovers (recover : Nat → Nat → Nat → Nat → Option Address) (keccak256 : Bytes → B256) :
    Prop where
  eq_some_iff : ∀ h v r s address, recover h v r s = some address ↔
    (0 < r ∧ r < N) ∧ (0 < s ∧ s < N) ∧
      ∃ a, a ≠ 0 ∧ (ofGroup a).x.val = r ∧ (ofGroup a).y.val % 2 + 27 = v ∧
        recovered h r s a ≠ 0 ∧ pointAddress keccak256 (recovered h r s a) = address

/-- The addresses of some points are not zero, and no two of them agree. -/
structure Separates (keccak256 : Bytes → B256) (points : Set CurvePoint) : Prop where
  injective : Set.InjOn (pointAddress keccak256) points
  ne_zero : ∀ a ∈ points, pointAddress keccak256 a ≠ 0

/-- The coordinates of a point that is not the identity. -/
def IsPoint (p : Point) (a : CurvePoint) : Prop := a ≠ 0 ∧ ofGroup a = p

/-! ## 3. Points and scalars -/

theorem satisfiesCurveEquation_iff_isPoint (p : Point) :
    satisfiesCurveEquation p = true ↔ ∃ a, IsPoint p a := by
  constructor
  · intro h
    obtain ⟨a, ha⟩ := (onCurve_iff p).mp (.inr h)
    refine ⟨a, ?_, ha⟩
    rintro rfl
    rw [← ha] at h
    exact absurd (satisfiesCurveEquation_zero.symm.trans h) Bool.false_ne_true
  · rintro ⟨a, hne, rfl⟩
    rcases a with _ | ⟨x, y, h⟩
    · exact absurd rfl hne
    · exact satisfiesCurveEquation_some h.1

theorem unpackNonZero_eq_some {p q : Point} :
    unpackNonZero p = some q ↔ (∃ a, IsPoint p a) ∧ p = q := by
  rw [unpackNonZero, ← satisfiesCurveEquation_iff_isPoint]
  split
  · next h => simp [h]
  · next h => simp [h]

theorem IsPoint.unpackNonZero {p : Point} {a : CurvePoint} (h : IsPoint p a) :
    unpackNonZero p = some p := unpackNonZero_eq_some.mpr ⟨⟨a, h⟩, rfl⟩

/-- Seven is not a square. -/
theorem seven_not_square (y : ZMod P) : y ^ 2 ≠ 7 := by
  intro hsquare
  have hy : y ≠ 0 := by
    rintro rfl
    rw [zero_pow two_ne_zero] at hsquare
    have hseven : ((7 : Nat) : ZMod P) = 0 := by exact_mod_cast hsquare.symm
    rw [ZMod.natCast_eq_zero_iff] at hseven
    exact absurd (Nat.le_of_dvd (by norm_num) hseven) (by norm_num [P])
  have hfermat : (y ^ 2) ^ ((P - 1) / 2) = 1 := by
    rw [← pow_mul, show 2 * ((P - 1) / 2) = P - 1 by norm_num [P]]
    exact ZMod.pow_card_sub_one_eq_one hy
  have hcast : y ^ 2 = ((7 : Nat) : ZMod P) := by exact_mod_cast hsquare
  rw [hcast, Primality.natCast_pow_eq_one_iff (by norm_num [P]),
    ← Primality.powMod_eq P 7 (show (P - 1) / 2 < 16 ^ 64 by norm_num [P])] at hfermat
  revert hfermat
  decide +kernel

/-- No point has abscissa zero, which `ecrecover` would reject. -/
theorem IsPoint.x_pos {p : Point} {a : CurvePoint} (h : IsPoint p a) : 0 < p.x.val := by
  obtain ⟨hne, rfl⟩ := h
  rcases a with _ | ⟨x, y, hxy⟩
  · exact absurd rfl hne
  · refine Nat.pos_of_ne_zero fun hx => seven_not_square y ?_
    have hzero : x = 0 := by
      rw [← ZMod.val_eq_zero, ← coordinate_val]
      exact hx
    rw [(equation_iff x y).mp hxy.1, hzero, zero_pow three_ne_zero, zero_add]

/-- The witness is negated in its ordinate. -/
theorem IsPoint.address_neg {r : Point} {b : CurvePoint} (h : IsPoint r b)
    (keccak256 : Bytes → B256) :
    addressOf keccak256 r.x.val (P - r.y.val) = pointAddress keccak256 (-b) := by
  obtain ⟨hne, rfl⟩ := h
  rcases b with _ | ⟨x, y, hxy⟩
  · exact absurd rfl hne
  · have hneg : ofGroup (-(.some x y hxy)) = ⟨coordinate x, coordinate (-y)⟩ := by
      rw [WeierstrassCurve.Affine.Point.neg_some, ofGroup]
      simp [WeierstrassCurve.Affine.negY, curve]
    rw [pointAddress, hneg]
    simp only [ofGroup, coordinate_val]
    rw [ZMod.neg_val, if_neg (y_ne_zero hxy.1)]

/-- What is recovered from multiples of the abscissa. -/
theorem recovered_mul {x : Nat} (hpos : 0 < x) (hlt : x < N) (z e : Nat) (a : CurvePoint) :
    recovered (z * x % N) x (e * x % N) a = e • a - z • G := by
  have hx : (x : ZMod N) ≠ 0 := by
    rw [ne_eq, ZMod.natCast_eq_zero_iff]
    exact fun hdvd => absurd (Nat.le_of_dvd hpos hdvd) (Nat.not_le.mpr hlt)
  have hcancel : ∀ (n : Nat) (c : CurvePoint),
      (x : ZMod N)⁻¹ • ((n * x % N : Nat) : ZMod N) • c = n • c := fun n c => by
    rw [ZMod.natCast_mod, Nat.cast_mul, smul_smul, mul_comm (n : ZMod N), inv_mul_cancel_left₀ hx,
      Nat.cast_smul_eq_nsmul]
  rw [recovered, smul_sub, hcancel, hcancel]

/-- A run of `require`s passes when the first holds and the rest passes. -/
theorem guard_bind_eq_some {p : Prop} [Decidable p] {rest : Option Unit} :
    ((guard p : Option Unit).bind fun _ => rest) = some () ↔ p ∧ rest = some () := by
  by_cases h : p
  · simp [guard, h]
  · simp [guard, h]

theorem guard_eq_some {p : Prop} [Decidable p] : (guard p : Option Unit) = some () ↔ p := by
  by_cases h : p
  · simp [guard, h]
  · simp [guard, h]

/-! ## 4. The check is the equation -/

section MulMulAdd

variable {recover : Nat → Nat → Nat → Nat → Option Address} {keccak256 : Bytes → B256}
  {points : Set CurvePoint} {z e : Nat} {p r : Point} {a b : CurvePoint}

theorem exists_of_mulmuladd (h : mulmuladd recover keccak256 z e p r = some ()) :
    ∃ a b, IsPoint p a ∧ IsPoint r b := by
  simp only [mulmuladd, Option.bind_eq_bind, Option.bind_eq_some_iff] at h
  obtain ⟨_, hp, _, hr, -⟩ := h
  obtain ⟨a, ha⟩ := (unpackNonZero_eq_some.mp hp).1
  obtain ⟨b, hb⟩ := (unpackNonZero_eq_some.mp hr).1
  exact ⟨a, b, ha, hb⟩

/-- On points, the check passes when the precompile takes its input and recovers a point with the
address of the negated witness. -/
theorem mulmuladd_iff (hrecover : Recovers recover keccak256) (hp : IsPoint p a)
    (hr : IsPoint r b) :
    mulmuladd recover keccak256 z e p r = some () ↔
      (p.x.val < N ∧ e % N ≠ 0) ∧ e • a - z • G ≠ 0 ∧
        pointAddress keccak256 (e • a - z • G) ≠ 0 ∧
        pointAddress keccak256 (e • a - z • G) = pointAddress keccak256 (-b) := by
  have hx := hp.x_pos
  have hscalar : p.x.val < N → (0 < e * p.x.val % N ↔ e % N ≠ 0) := fun hlt => by
    rw [Nat.pos_iff_ne_zero, ne_eq, ne_eq, ← Nat.dvd_iff_mod_eq_zero, ← Nat.dvd_iff_mod_eq_zero,
      prime_N.dvd_mul, or_iff_left (Nat.not_dvd_of_pos_of_lt hx hlt)]
  have hrecovered : ∀ address,
      recover (z * p.x.val % N) (p.y.val % 2 + 27) p.x.val (e * p.x.val % N) = some address ↔
        (p.x.val < N ∧ e % N ≠ 0) ∧ e • a - z • G ≠ 0 ∧
          pointAddress keccak256 (e • a - z • G) = address := fun address => by
    rw [hrecover.eq_some_iff]
    constructor
    · rintro ⟨⟨-, hlt⟩, ⟨hs, -⟩, c, hc, hcx, hcy, hne, haddr⟩
      have hca : c = a := by
        refine eq_of_parity hc hp.1 ?_ ?_
        · rw [hcx, hp.2]
        · rw [hp.2]
          exact Nat.add_right_cancel hcy
      rw [hca, recovered_mul hx hlt] at hne haddr
      exact ⟨⟨hlt, (hscalar hlt).mp hs⟩, hne, haddr⟩
    · rintro ⟨⟨hlt, he⟩, hne, haddr⟩
      refine ⟨⟨hx, hlt⟩, ⟨(hscalar hlt).mpr he, Nat.mod_lt _ prime_N.pos⟩, a, hp.1, ?_, ?_, ?_⟩
      · rw [hp.2]
      · rw [hp.2]
      · rw [recovered_mul hx hlt]
        exact ⟨hne, haddr⟩
  simp only [mulmuladd, hp.unpackNonZero, hr.unpackNonZero, Option.bind_eq_bind, Option.bind_some,
    hr.address_neg, guard_bind_eq_some, guard_eq_some]
  cases hres : recover (z * p.x.val % N) (p.y.val % 2 + 27) p.x.val (e * p.x.val % N) with
  | none =>
    have hnone : ¬((p.x.val < N ∧ e % N ≠ 0) ∧ e • a - z • G ≠ 0) := by
      rintro ⟨hin, hne⟩
      rw [(hrecovered _).mpr ⟨hin, hne, rfl⟩] at hres
      cases hres
    exact iff_of_false (fun h => h.1 rfl) fun h => hnone ⟨h.1, h.2.1⟩
  | some address =>
    obtain ⟨hin, hne, rfl⟩ := (hrecovered address).mp hres
    exact ⟨fun h => ⟨hin, hne, h⟩, fun h => h.2.2⟩

/-- The points whose addresses `mulmuladd` compares are among those that the hash separates. -/
def Compares (points : Set CurvePoint) (z e : Nat) (p r : Point) : Prop :=
  ∀ a b, IsPoint p a → IsPoint r b → -b ∈ points ∧ (e • a - z • G ≠ 0 → e • a - z • G ∈ points)

/-- What is accepted satisfies the equation. -/
theorem mulmuladd_sound (hrecover : Recovers recover keccak256)
    (hpoints : Separates keccak256 points) (hcompares : Compares points z e p r)
    (h : mulmuladd recover keccak256 z e p r = some ()) :
    ∃ a b, IsPoint p a ∧ IsPoint r b ∧ z • G = b + e • a := by
  obtain ⟨a, b, hp, hr⟩ := exists_of_mulmuladd h
  obtain ⟨hneg, hmem⟩ := hcompares a b hp hr
  obtain ⟨-, hne, -, haddr⟩ := (mulmuladd_iff hrecover hp hr).mp h
  have heq : e • a - z • G = -b := hpoints.injective (hmem hne) hneg haddr
  refine ⟨a, b, hp, hr, ?_⟩
  rw [sub_eq_iff_eq_add] at heq
  rw [heq, add_neg_cancel_left]

/-- What satisfies the equation is accepted, unless the precompile does not take it. -/
theorem mulmuladd_complete (hrecover : Recovers recover keccak256)
    (hpoints : Separates keccak256 points) (hcompares : Compares points z e p r)
    (hp : IsPoint p a) (hr : IsPoint r b) (h : z • G = b + e • a) (he : e % N ≠ 0)
    (hx : p.x.val < N) : mulmuladd recover keccak256 z e p r = some () := by
  have heq : e • a - z • G = -b := by rw [h, sub_add_cancel_right]
  have hneg := (hcompares a b hp hr).1
  rw [mulmuladd_iff hrecover hp hr, heq]
  exact ⟨⟨hx, he⟩, neg_ne_zero.mpr hr.1, hpoints.ne_zero _ hneg, rfl⟩

end MulMulAdd

end Secp256k1

/-! ## 5. The challenge -/

namespace RFC9591

open Secp256k1

/-- `SerializeElement`: the compressed form, which the identity does not have. -/
def serializeElement : CurvePoint → Option Bytes
  | .zero => none
  | .some x y _ => some (beBytes 1 (2 + y.val % 2) ++ beBytes 32 x.val)

/-- `compute_challenge`, section 4.6, of the ciphersuite in section 6.5: `H2` hashes to the scalar
field under the context string and `chal`. -/
def computeChallenge (H : Bytes → B256) (groupCommitment groupPublicKey : CurvePoint)
    (msg : Bytes) : Option Nat := do
  let commitment ← serializeElement groupCommitment
  let publicKey ← serializeElement groupPublicKey
  RFC9380.hashToField H (commitment ++ publicKey ++ msg)
    (FROST.literal "FROST-secp256k1-SHA256-v1" ++ FROST.literal "chal")

end RFC9591

namespace FROST

open Secp256k1

/-- A memory in which Solidity can still allocate. -/
structure Free (m : Memory) : Prop where
  reserved : 0x80 ≤ mload m 0x40
  room : mload m 0x40 < 2 ^ 255

/-- What `abi.encodePacked` allocates is laid out as a byte string. -/
theorem layout_encodePacked {m : Memory} (hm : Free m) (bytes : Bytes)
    (hlen : bytes.length < 2 ^ 64) :
    Layout (encodePacked m bytes).1 (encodePacked m bytes).2 bytes := by
  have hres := hm.reserved
  have hroom := hm.room
  unfold encodePacked
  dsimp only
  set p := mload m 0x40
  set n := bytes.length
  set m₁ := mstore m p n
  set m₂ := Cells.write m₁ (p + 0x20) bytes
  set m₃ := mstore m₂ 0x40 (p + 32 * ((n + 63) / 32))
  have k₂ : Cells.KeepsOutside m₁ m₂ (p + 0x20) (p + 0x20 + n) := Cells.KeepsOutside.write m₁ _ _
  have k₃ : Cells.KeepsOutside m₂ m₃ 0x40 0x60 := mstore_keeps m₂ 0x40 _
  have hfree : mload m₃ 0x40 = p + 32 * ((n + 63) / 32) := mload_mstore m₂ 0x40 (by omega)
  refine ⟨⟨?_, ?_⟩, hres, ?_, ?_⟩
  · rw [mload_eq k₃ (.inr (by omega)), mload_eq k₂ (.inl le_rfl), mload_mstore m p (by omega)]
  · rw [k₃.read_eq (.inr (by omega))]
    exact Cells.read_write_self m₁ (p + 0x20) bytes
  · rw [hfree]
    omega
  · rw [hfree]
    omega

theorem serialize_eq {p : Point} {a : CurvePoint} (h : IsPoint p a) :
    serialize p = some (2 + p.y.val % 2, p.x.val) := by
  rw [serialize, h.unpackNonZero]
  rfl

theorem serializeElement_eq {p : Point} {a : CurvePoint} (h : IsPoint p a) :
    RFC9591.serializeElement a = some (beBytes 1 (2 + p.y.val % 2) ++ beBytes 32 p.x.val) := by
  obtain ⟨hne, rfl⟩ := h
  rcases a with _ | ⟨x, y, hxy⟩
  · exact absurd rfl hne
  · simp only [RFC9591.serializeElement, ofGroup, coordinate_val]

theorem h2_tag : beNat (literal "FROST-secp256k1-SHA256-v1chal\x00\x00\x1d") =
    packTag (literal "FROST-secp256k1-SHA256-v1" ++ literal "chal") := by
  decide +kernel

/-- The challenge is the RFC's. -/
theorem challenge_eq (H : Bytes → B256) {m : Memory} (hm : Free m) {r y : Point} {a b : CurvePoint}
    (hr : IsPoint r b) (hy : IsPoint y a) (message : B256) :
    challenge H m r y message = RFC9591.computeChallenge H b a (B256.toBytes message) := by
  have htag : (literal "FROST-secp256k1-SHA256-v1" ++ literal "chal").length ≤ 31 := by
    decide +kernel
  simp only [challenge, serialize_eq hr, serialize_eq hy, RFC9591.computeChallenge,
    serializeElement_eq hr, serializeElement_eq hy, Option.bind_eq_bind, Option.bind_some]
  rw [← List.append_assoc (_ ++ _) (beBytes 1 _) (beBytes 32 _)]
  have hlay := layout_encodePacked hm (beBytes 1 (2 + r.y.val % 2) ++ beBytes 32 r.x.val ++
    beBytes 1 (2 + y.y.val % 2) ++ beBytes 32 y.x.val ++ B256.toBytes message) (by simp)
  obtain ⟨m', e, hrun, hspec, -⟩ := hashToField_spec H hlay htag
  rw [h2, h2_tag, hrun, hspec]
  exact rfl

/-- A challenge is computed for points only. -/
theorem exists_of_challenge {H : Bytes → B256} {m : Memory} {r y : Point} {message : B256} {c : Nat}
    (h : challenge H m r y message = some c) : ∃ a b, IsPoint y a ∧ IsPoint r b := by
  simp only [challenge, serialize, Option.bind_eq_bind, Option.bind_eq_some_iff] at h
  obtain ⟨_, ⟨_, hr, -⟩, _, ⟨_, hy, -⟩, -⟩ := h
  obtain ⟨b, hb⟩ := (unpackNonZero_eq_some.mp hr).1
  obtain ⟨a, ha⟩ := (unpackNonZero_eq_some.mp hy).1
  exact ⟨a, b, ha, hb⟩

/-! ## 6. Signatures and shares -/

section Results

variable {recover : Nat → Nat → Nat → Nat → Option Address} {keccak256 : Bytes → B256}
  {points : Set CurvePoint}

theorem verify_iff {H : Bytes → B256} {m : Memory} {y : Point} {signature : FrostSignature}
    {message : B256} :
    verify recover keccak256 H m y signature message = some () ↔
      signature.z.val < N ∧ ∃ c, challenge H m signature.r y message = some c ∧
        mulmuladd recover keccak256 signature.z.val c y signature.r = some () := by
  rw [verify, Option.bind_eq_bind, guard_bind_eq_some, Option.bind_eq_bind,
    Option.bind_eq_some_iff]

theorem verifyShare_iff {H : Bytes → B256} {m : Memory} {group r participant : Point}
    {share : SignatureShare} {message : B256} :
    verifyShare recover keccak256 H m group r participant share message = some () ↔
      share.z.val < N ∧ ∃ c, challenge H m r group message = some c ∧
        mulmuladd recover keccak256 share.z.val (c * share.l.val % N) participant share.r =
          some () := by
  rw [verifyShare, Option.bind_eq_bind, guard_bind_eq_some, Option.bind_eq_bind,
    Option.bind_eq_some_iff]

/-- Reducing a scalar does not change what it multiplies. -/
theorem mod_nsmul (n : Nat) (a : CurvePoint) : (n % N) • a = n • a := by
  rw [← Nat.cast_smul_eq_nsmul (ZMod N) (n % N), ZMod.natCast_mod, Nat.cast_smul_eq_nsmul]

/-- **Verification is exact.**  With a hash that separates the addresses that are compared, the
check passes for points that satisfy the equation and for nothing else, save the inputs that the
precompile does not take: a multiplier that is zero modulo `N`, and a point with an abscissa of
`N` or more.  Signatures and shares are accepted accordingly, for the RFC's challenge. -/
theorem schnorr_exact (hrecover : Recovers recover keccak256)
    (hpoints : Separates keccak256 points) :
    (∀ z e p r, Compares points z e p r →
      (mulmuladd recover keccak256 z e p r = some () →
        ∃ a b, IsPoint p a ∧ IsPoint r b ∧ z • G = b + e • a) ∧
      ∀ a b, IsPoint p a → IsPoint r b → z • G = b + e • a → e % N ≠ 0 → p.x.val < N →
        mulmuladd recover keccak256 z e p r = some ()) ∧
    (∀ H m y signature message, Free m →
      (∀ c, challenge H m signature.r y message = some c →
        Compares points signature.z.val c y signature.r) →
      (verify recover keccak256 H m y signature message = some () →
        signature.z.val < N ∧ ∃ a b c, IsPoint y a ∧ IsPoint signature.r b ∧
          RFC9591.computeChallenge H b a (B256.toBytes message) = some c ∧
          signature.z.val • G = b + c • a) ∧
      ∀ a b c, IsPoint y a → IsPoint signature.r b →
        RFC9591.computeChallenge H b a (B256.toBytes message) = some c →
        signature.z.val < N → signature.z.val • G = b + c • a → c % N ≠ 0 → y.x.val < N →
        verify recover keccak256 H m y signature message = some ()) ∧
    ∀ H m group r participant share message, Free m →
      (∀ c, challenge H m r group message = some c →
        Compares points share.z.val (c * share.l.val % N) participant share.r) →
      (verifyShare recover keccak256 H m group r participant share message = some () →
        share.z.val < N ∧ ∃ g b a d c, IsPoint group g ∧ IsPoint r b ∧ IsPoint participant a ∧
          IsPoint share.r d ∧ RFC9591.computeChallenge H b g (B256.toBytes message) = some c ∧
          share.z.val • G = d + (c * share.l.val) • a) ∧
      ∀ g b a d c, IsPoint group g → IsPoint r b → IsPoint participant a → IsPoint share.r d →
        RFC9591.computeChallenge H b g (B256.toBytes message) = some c →
        share.z.val < N → share.z.val • G = d + (c * share.l.val) • a →
        c * share.l.val % N ≠ 0 → participant.x.val < N →
        verifyShare recover keccak256 H m group r participant share message = some () := by
  refine ⟨fun z e p r hcompares => ⟨mulmuladd_sound hrecover hpoints hcompares, ?_⟩,
    fun H m y signature message hm hcompares => ⟨fun h => ?_, ?_⟩,
    fun H m group r participant share message hm hcompares => ⟨fun h => ?_, ?_⟩⟩
  · intro a b hp hr heq he hx
    exact mulmuladd_complete hrecover hpoints hcompares hp hr heq he hx
  · obtain ⟨hz, c, hc, hcheck⟩ := verify_iff.mp h
    obtain ⟨a, b, hy, hr, heq⟩ := mulmuladd_sound hrecover hpoints (hcompares c hc) hcheck
    rw [challenge_eq H hm hr hy] at hc
    exact ⟨hz, a, b, c, hy, hr, hc, heq⟩
  · intro a b c hy hr hc hz heq he hx
    rw [← challenge_eq H hm hr hy] at hc
    exact verify_iff.mpr ⟨hz, c, hc,
      mulmuladd_complete hrecover hpoints (hcompares c hc) hy hr heq he hx⟩
  · obtain ⟨hz, c, hc, hcheck⟩ := verifyShare_iff.mp h
    obtain ⟨a, d, ha, hd, heq⟩ := mulmuladd_sound hrecover hpoints (hcompares c hc) hcheck
    obtain ⟨g, b, hg, hb⟩ := exists_of_challenge hc
    rw [challenge_eq H hm hb hg] at hc
    rw [mod_nsmul] at heq
    exact ⟨hz, g, b, a, d, c, hg, hb, ha, hd, hc, heq⟩
  · intro g b a d c hg hb ha hd hc hz heq he hx
    rw [← challenge_eq H hm hb hg] at hc
    refine verifyShare_iff.mpr ⟨hz, c, hc,
      mulmuladd_complete hrecover hpoints (hcompares c hc) ha hd ?_ ?_ hx⟩
    · rw [mod_nsmul, heq]
    · rwa [Nat.mod_mod]

end Results

end FROST

namespace Secp256k1

/-! ## 7. A precompile that follows the specification -/

open Classical in
/-- Recovery by search. -/
noncomputable def specRecover (keccak256 : Bytes → B256) (h v r s : Nat) : Option Address :=
  if hex : (0 < r ∧ r < N) ∧ (0 < s ∧ s < N) ∧
      ∃ a, a ≠ 0 ∧ (ofGroup a).x.val = r ∧ (ofGroup a).y.val % 2 + 27 = v ∧
        recovered h r s a ≠ 0 then
    some (pointAddress keccak256 (recovered h r s hex.2.2.choose))
  else none

/-- The specification determines the precompile: a point is found by its abscissa and parity. -/
theorem recovers_specRecover (keccak256 : Bytes → B256) :
    Recovers (specRecover keccak256) keccak256 where
  eq_some_iff h v r s address := by
    unfold specRecover
    split
    · next hex =>
      obtain ⟨hr, hs, hex⟩ := hex
      obtain ⟨hne, hx, hy, hrec⟩ := hex.choose_spec
      rw [Option.some.injEq]
      refine ⟨fun haddr => ⟨hr, hs, _, hne, hx, hy, hrec, haddr⟩, ?_⟩
      rintro ⟨-, -, a, hane, hax, hay, -, haddr⟩
      have hsame : a = hex.choose :=
        eq_of_parity hane hne (hax.trans hx.symm) (Nat.add_right_cancel (hay.trans hy.symm))
      rw [← haddr, hsame]
    · next hex =>
      refine iff_of_false (fun h => nomatch h) ?_
      rintro ⟨hr, hs, a, hne, hx, hy, hrec, -⟩
      exact hex ⟨hr, hs, a, hne, hx, hy, hrec⟩

end Secp256k1

namespace FROST

open Secp256k1

/-- `2 G = G + 1 G` is accepted, with a hash that keeps the ordinate. -/
theorem schnorr_exact_double :
    mulmuladd (specRecover fun bytes => Fin.ofNat _ (beNat bytes))
      (fun bytes => Fin.ofNat _ (beNat bytes)) 2 1 generator generator = some () := by
  have hG : IsPoint generator G := ⟨G_ne_zero, ofGroup_G⟩
  have hunique : ∀ a, IsPoint generator a → a = G := fun a ha =>
    ofGroup_injective (ha.2.trans ofGroup_G.symm)
  have hdiff : 1 • G - 2 • G = -G := by rw [one_nsmul, two_nsmul, sub_add_cancel_left]
  have hpoints : Separates (fun bytes => Fin.ofNat _ (beNat bytes)) {-G} := by
    refine ⟨Set.injOn_singleton _ _, fun a ha => ?_⟩
    rw [Set.mem_singleton_iff.mp ha, ← hG.address_neg]
    decide +kernel
  have hcompares : Compares {-G} 2 1 generator generator := by
    intro a b ha hb
    rw [hunique a ha, hunique b hb]
    exact ⟨rfl, fun _ => hdiff⟩
  refine ((schnorr_exact (recovers_specRecover _) hpoints).1 2 1 generator generator
    hcompares).2 G G hG hG ?_ (by decide +kernel) (by decide +kernel)
  rw [two_nsmul, one_nsmul]

end FROST

end Safenet
