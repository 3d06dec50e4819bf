/-
# A reference for the crates

`reference` computes on the group itself: elements are points of the curve, scalars residues
modulo its order, and every operation of `Crates` is the textbook formula.  The hash functions
alone are small stand-ins.  Nothing is proved FROM it: it is where the laws that are assumed of
the crates are shown to hold together.
-/
import Safenet.Frost.Curve
import Safenet.Lib.Interpolation
import Safenet.Validator.Toy

namespace Safenet

open Secp256k1

namespace Frost

/-! ## 1. Polynomials and their commitments -/

/-- The value of a polynomial, given by its coefficients. -/
def evaluatePolynomial (x : ZMod N) (coefficients : List (ZMod N)) : ZMod N :=
  coefficients.foldr (fun c value => c + x * value) 0

/-- The value of a committed polynomial, times the generator. -/
noncomputable def evaluateVss (x : ZMod N) (commitment : List CurvePoint) : CurvePoint :=
  commitment.foldr (fun c value => c + x.val • value) 0

/-- Committing to a polynomial commits to its values. -/
theorem evaluateVss_map (x : ZMod N) (coefficients : List (ZMod N)) :
    evaluateVss x (coefficients.map mulG) = mulG (evaluatePolynomial x coefficients) := by
  induction coefficients with
  | nil => exact (map_zero mulG).symm
  | cons c coefficients ih =>
    have hstep : evaluatePolynomial x (c :: coefficients) =
        c + x * evaluatePolynomial x coefficients := rfl
    rw [hstep, map_add, mulG_mul, ← ih]
    rfl

/-! ## 2. The operations -/

namespace Reference

/-- Identifiers are addresses; a scalar is a residue, an element a point. -/
abbrev types : CrateTypes where
  Identifier := Address
  Scalar := ZMod N
  Element := CurvePoint

/-- The scalar of an identifier. -/
def identifier (a : Address) : ZMod N := (a.val : ZMod N)

theorem identifier_injective : Function.Injective identifier := by
  intro a b h
  have hlt : ∀ a : Address, a.val < N := fun a => a.isLt.trans (by norm_num [N])
  rw [identifier, identifier, ZMod.natCast_eq_natCast_iff', Nat.mod_eq_of_lt (hlt a),
    Nat.mod_eq_of_lt (hlt b)] at h
  exact Fin.ext h

/-- The element with a given ABI form. -/
noncomputable def decodePoint (p : Point) : Option CurvePoint := by
  classical exact if h : ∃ a : CurvePoint, a ≠ 0 ∧ ofGroup a = p then some h.choose else none

theorem decodePoint_ofGroup {a : CurvePoint} (h : a ≠ 0) : decodePoint (ofGroup a) = some a := by
  have hex : ∃ b : CurvePoint, b ≠ 0 ∧ ofGroup b = ofGroup a := ⟨a, h, rfl⟩
  rw [decodePoint, dif_pos hex, Option.some.injEq]
  exact ofGroup_injective hex.choose_spec.2

/-- A scalar made of a word. -/
def hashScalar (w : U256) : ZMod N := (w.val : ZMod N)

/-- `verify_proof_of_knowledge`: a Schnorr proof for the constant coefficient. -/
noncomputable def verifyProofOfKnowledge (i : Address) (commitment : List CurvePoint)
    (R : CurvePoint) (z : ZMod N) : Except FrostError Unit :=
  match commitment with
  | [] => .error .incorrectCommitment
  | c :: _ => if mulG z = R + (identifier i).val • c then .ok () else .error (.other 0)

/-- `SecretShare::verify`. -/
noncomputable def verifyShare (i : Address) (share : ZMod N) (commitment : List CurvePoint) :
    Except FrostError Unit :=
  if mulG share = evaluateVss (identifier i) commitment then .ok () else .error (.other 1)

/-- `part2`: one's own value of the polynomial, and a value for every peer. -/
noncomputable def part2 (secret : Round1SecretPackage types)
    (peers : BTreeMap Address (Round1Package types)) :
    Except FrostError
      (Round2SecretPackage types × BTreeMap Address (Round2Package types)) := do
  if peers.size + 1 ≠ secret.maxSigners then throw .incorrectPackage
  peers.toList.forM fun (i, package) => do
    if package.commitment.length ≠ secret.minSigners then throw .incorrectCommitment
    verifyProofOfKnowledge i package.commitment package.proofOfKnowledge.R
      package.proofOfKnowledge.z
  return ({ identifier := secret.identifier
            commitment := secret.commitment
            secretShare := evaluatePolynomial (identifier secret.identifier) secret.coefficients
            minSigners := secret.minSigners
            maxSigners := secret.maxSigners },
          peers.map fun i _ => ⟨evaluatePolynomial (identifier i) secret.coefficients⟩)

/-- `sum_commitments`: coefficient by coefficient. -/
noncomputable def sumCommitments : List (List CurvePoint) → Except FrostError (List CurvePoint)
  | [] => .error .incorrectCommitment
  | [c] => .ok c
  | c :: cs => do
    let sum ← sumCommitments cs
    if c.length ≠ sum.length then throw .incorrectCommitment
    return List.zipWith (· + ·) c sum

/-- `VerifyingKey::from_commitment`: the constant coefficient. -/
def verifyingKeyFromCommitment : List CurvePoint → Except FrostError CurvePoint
  | [] => .error .incorrectCommitment
  | c :: _ => .ok c

/-- `part3`: the sum of the verified shares, and the sum of the constant coefficients. -/
noncomputable def part3 (secret : Round2SecretPackage types)
    (round1 : BTreeMap Address (Round1Package types))
    (round2 : BTreeMap Address (Round2Package types)) :
    Except FrostError (KeyPackage types) := do
  if round1.size + 1 ≠ secret.maxSigners ∨ round1.keys ≠ round2.keys then throw .incorrectPackage
  round1.toList.forM fun (i, package) =>
    match round2[i]? with
    | none => .error .incorrectPackage
    | some share => verifyShare secret.identifier share.signingShare package.commitment
  let signingShare := secret.secretShare + (round2.values.map (·.signingShare)).sum
  let commitment ← sumCommitments (secret.commitment :: round1.values.map (·.commitment))
  let verifyingKey ← verifyingKeyFromCommitment commitment
  return { identifier := secret.identifier
           signingShare
           verifyingShare := mulG signingShare
           verifyingKey
           minSigners := secret.minSigners }

/-- `compute_binding_factor_list`, with the message for a hash. -/
noncomputable def bindingFactors (commitments : BTreeMap Address (SigningCommitments types))
    (message : B256) (key : CurvePoint) : Except FrostError (BTreeMap Address (ZMod N)) :=
  if key = 0 then .error .malformedElement
  else .ok (commitments.map fun _ _ => hashScalar message)

/-- `derive_interpolating_value`. -/
def interpolatingValue (i : Address) (commitments : BTreeMap Address (SigningCommitments types)) :
    Except FrostError (ZMod N) :=
  if i ∈ BTreeMap.keySet commitments then
    .ok (Polynomial.coefficientAtZero (BTreeMap.keySet commitments) identifier i)
  else .error .unknownIdentifier

/-- `compute_group_commitment`. -/
noncomputable def groupCommitment (commitments : BTreeMap Address (SigningCommitments types))
    (factors : BTreeMap Address (ZMod N)) : Except FrostError CurvePoint :=
  .ok (commitments.toList.map fun e =>
    e.2.hidingNonce + (factors[e.1]?.getD 0).val • e.2.bindingNonce).sum

/-- The challenge. -/
def challenge (r key : Point) (message : B256) : ZMod N := (Toy.challenge r key message : ZMod N)

/-- `round2::sign`. -/
noncomputable def sign (commitments : BTreeMap Address (SigningCommitments types))
    (message : B256) (nonces : SigningNonces types) (keyPackage : KeyPackage types) :
    Except FrostError (ZMod N) := by
  classical exact do
    if commitments.size < keyPackage.minSigners ∨
        commitments[keyPackage.identifier]? ≠ some nonces.commitments then
      throw .incorrectCommitment
    let factors ← bindingFactors commitments message keyPackage.verifyingKey
    let R ← groupCommitment commitments factors
    if R = 0 then throw .malformedElement
    let l ← interpolatingValue keyPackage.identifier commitments
    return nonces.hidingNonce + nonces.bindingNonce * (factors[keyPackage.identifier]?).getD 0 +
      l * keyPackage.signingShare *
        challenge (ofGroup R) (ofGroup keyPackage.verifyingKey) message

/-! What the signing functions return. -/

theorem bindingFactors_ok (commitments : BTreeMap Address (SigningCommitments types))
    (message : B256) {key : CurvePoint} (h : key ≠ 0) :
    ∃ factors, bindingFactors commitments message key = .ok factors ∧
      ∀ i : Address, (factors[i]?).isSome = (commitments[i]?).isSome := by
  refine ⟨_, if_neg h, fun i => ?_⟩
  rw [Std.ExtTreeMap.getElem?_map, Option.isSome_map]

theorem sign_ok {commitments : BTreeMap Address (SigningCommitments types)} {message : B256}
    {nonces : SigningNonces types} {keyPackage : KeyPackage types}
    {factors : BTreeMap Address (ZMod N)} {R : CurvePoint}
    (hsize : keyPackage.minSigners ≤ commitments.size)
    (hown : commitments[keyPackage.identifier]? = some nonces.commitments)
    (hfactors : bindingFactors commitments message keyPackage.verifyingKey = .ok factors)
    (hR : groupCommitment commitments factors = .ok R) (hne : R ≠ 0) :
    sign commitments message nonces keyPackage = .ok (nonces.hidingNonce +
      nonces.bindingNonce * (factors[keyPackage.identifier]?).getD 0 +
      Polynomial.coefficientAtZero (BTreeMap.keySet commitments) identifier keyPackage.identifier *
        keyPackage.signingShare *
        challenge (ofGroup R) (ofGroup keyPackage.verifyingKey) message) := by
  have hmem : keyPackage.identifier ∈ BTreeMap.keySet commitments :=
    (BTreeMap.mem_keySet _ _).mpr (by rw [hown]; rfl)
  have hguard : ¬(commitments.size < keyPackage.minSigners ∨
      commitments[keyPackage.identifier]? ≠ some nonces.commitments) := by
    rw [not_or, not_lt, not_not]
    exact ⟨hsize, hown⟩
  simp only [sign, if_neg hguard, Except.bind_eq_ok]
  refine ⟨factors, hfactors, R, hR, ?_⟩
  rw [if_neg hne, Except.bind_eq_ok]
  exact ⟨_, if_pos hmem, rfl⟩

end Reference

/-- The crates, with small hash functions. -/
noncomputable abbrev reference : Crates where
  toCrateTypes := Reference.types
  keccak256 := Toy.keccak256
  identity := (0 : CurvePoint)
  generator := G
  add := fun a b : CurvePoint => a + b
  mul := fun (s : ZMod N) (a : CurvePoint) => s.val • a
  xCoordinate := fun a : CurvePoint => (ofGroup a).x
  decodePoint := Reference.decodePoint
  encodePoint := ofGroup
  decodeScalar w := if w.val < N then some (Reference.hashScalar w) else none
  encodeScalar := scalarWord
  derive := id
  verifyProofOfKnowledge i commitment proof :=
    Reference.verifyProofOfKnowledge i commitment proof.R proof.z
  part2 := Reference.part2
  part3 := Reference.part3
  sumCommitments := Reference.sumCommitments
  verifyingKeyFromCommitment := Reference.verifyingKeyFromCommitment
  verifyingShareFromCommitment i := evaluateVss (Reference.identifier i)
  verifyShare := Reference.verifyShare
  sign := Reference.sign
  bindingFactors := Reference.bindingFactors
  interpolatingValue := Reference.interpolatingValue
  groupCommitment := Reference.groupCommitment

/-- They compute on the curve. -/
noncomputable abbrev referenceCurve : Curve reference where
  scalar := (id : ZMod N → ZMod N)
  point := (id : CurvePoint → CurvePoint)
  identifier := Reference.identifier
  identifier_injective := Reference.identifier_injective
  encodeScalar_eq _ := rfl
  point_eq_zero_iff _ := Iff.rfl
  encodePoint_eq _ _ := rfl
  point_generator := rfl
  point_add _ _ := rfl
  point_mul _ _ := rfl

end Frost

end Safenet
