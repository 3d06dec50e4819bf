/-
# Key generation, preprocessing and signing over the FROST crates

`frost/{marshal,keygen,preprocess,sign,ecdh}.rs`: the validator's wrappers around the
`frost_secp256k1` and `k256` crates.  The crates themselves are outside the repository, so
they are one parameter, `Crates`: the curve, the DKG rounds and the signing round are its
fields, and nothing below assumes a law of them.  What IS modelled is everything the wrappers
add -- the decoding of ABI points, the identifiers derived from addresses, which packages are
handed to which round, what is checked besides, and which errors come back.

The one fact the key-generation agreement rests on is `groupCommitments_of_shares`: a
participant's sharing state carries the SAME group commitments an observer computes.
-/
import Safenet.Consensus

namespace Safenet

/-! ## 1. The crates -/

/-- The errors of `frost_secp256k1` the wrappers name; every other one is `other`. -/
inductive FrostError where
  | malformedScalar
  | malformedElement
  | invalidIdentityElement
  | unknownIdentifier
  | incorrectCommitment
  | malformedVerifyingKey
  | incorrectNumberOfShares
  | incorrectPackage
  | other (code : Nat)
  deriving DecidableEq

/-- A Safenet FROST error: unexpected, or attributed to a misbehaving participant. -/
inductive Error where
  | unexpected (cause : FrostError)
  | participant (cause : FrostError) (culprit : Address)
  deriving DecidableEq

/-- `Culprit::err_unexpected`. -/
def errUnexpected {α : Type} (r : Except FrostError α) : Except Error α := r.mapError .unexpected

/-- `Culprit::err_with_culprit`. -/
def errWithCulprit {α : Type} (culprit : Address) (r : Except FrostError α) : Except Error α :=
  r.mapError (.participant · culprit)

/-- The types of the curve and of the participant identifiers. -/
structure CrateTypes where
  Identifier : Type
  Scalar : Type
  Element : Type
  [ordIdentifier : Ord Identifier]
  [transIdentifier : Std.TransOrd Identifier]
  [lawfulIdentifier : Std.LawfulEqOrd Identifier]
  [decIdentifier : DecidableEq Identifier]
  [decScalar : DecidableEq Scalar]
  [decElement : DecidableEq Element]

attribute [instance] CrateTypes.ordIdentifier CrateTypes.transIdentifier
  CrateTypes.lawfulIdentifier CrateTypes.decIdentifier CrateTypes.decScalar CrateTypes.decElement

section Packages

variable (C : CrateTypes)

/-- `frost::Signature`. -/
structure Signature where
  R : C.Element
  z : C.Scalar

/-- `keys::VerifiableSecretSharingCommitment`: the coefficient commitments. -/
abbrev VssCommitment : Type := List C.Element

/-- `dkg::round1::SecretPackage`. -/
structure Round1SecretPackage where
  identifier : C.Identifier
  coefficients : List C.Scalar
  commitment : VssCommitment C
  minSigners : Nat
  maxSigners : Nat

/-- `dkg::round1::Package`. -/
structure Round1Package where
  commitment : VssCommitment C
  proofOfKnowledge : Signature C

/-- `dkg::round2::SecretPackage`. -/
structure Round2SecretPackage where
  identifier : C.Identifier
  commitment : VssCommitment C
  secretShare : C.Scalar
  minSigners : Nat
  maxSigners : Nat

/-- `dkg::round2::Package`. -/
structure Round2Package where
  signingShare : C.Scalar

/-- `keys::KeyPackage`. -/
structure KeyPackage where
  identifier : C.Identifier
  signingShare : C.Scalar
  verifyingShare : C.Element
  verifyingKey : C.Element
  minSigners : Nat

/-- `round1::SigningCommitments`. -/
structure SigningCommitments where
  hidingNonce : C.Element
  bindingNonce : C.Element

/-- `round1::SigningNonces`. -/
structure SigningNonces where
  hidingNonce : C.Scalar
  bindingNonce : C.Scalar
  commitments : SigningCommitments C

end Packages

/-- The third-party code the validator calls: Keccak-256, `k256` and `frost_secp256k1`. -/
structure Crates extends CrateTypes where
  keccak256 : Bytes → B256
  /-- The identity, the generator and the group operations of the curve. -/
  identity : Element
  generator : Element
  add : Element → Element → Element
  mul : Scalar → Element → Element
  /-- The affine x coordinate, as the 32 bytes ECDH masks with. -/
  xCoordinate : Element → U256
  /-- SEC1 decoding and encoding of a non-identity point. -/
  decodePoint : Point → Option Element
  encodePoint : Element → Point
  /-- Canonical scalar decoding and encoding. -/
  decodeScalar : U256 → Option Scalar
  encodeScalar : Scalar → U256
  /-- `Identifier::derive`. -/
  derive : Address → Identifier
  verifyProofOfKnowledge : Identifier → List Element → Signature toCrateTypes →
    Except FrostError Unit
  part2 : Round1SecretPackage toCrateTypes → BTreeMap Identifier (Round1Package toCrateTypes) →
    Except FrostError
      (Round2SecretPackage toCrateTypes × BTreeMap Identifier (Round2Package toCrateTypes))
  part3 : Round2SecretPackage toCrateTypes → BTreeMap Identifier (Round1Package toCrateTypes) →
    BTreeMap Identifier (Round2Package toCrateTypes) →
    Except FrostError (KeyPackage toCrateTypes)
  sumCommitments : List (List Element) → Except FrostError (List Element)
  verifyingKeyFromCommitment : List Element → Except FrostError Element
  verifyingShareFromCommitment : Identifier → List Element → Element
  /-- `SecretShare::verify`. -/
  verifyShare : Identifier → Scalar → List Element → Except FrostError Unit
  /-- `round2::sign` over the signing package made of the commitments and the message. -/
  sign : BTreeMap Identifier (SigningCommitments toCrateTypes) → B256 →
    SigningNonces toCrateTypes → KeyPackage toCrateTypes → Except FrostError Scalar
  bindingFactors : BTreeMap Identifier (SigningCommitments toCrateTypes) → B256 → Element →
    Except FrostError (BTreeMap Identifier Scalar)
  interpolatingValue : Identifier → BTreeMap Identifier (SigningCommitments toCrateTypes) →
    Except FrostError Scalar
  groupCommitment : BTreeMap Identifier (SigningCommitments toCrateTypes) →
    BTreeMap Identifier Scalar → Except FrostError Element

instance Crates.transOrdIdentifier (E : Crates) : Std.TransOrd E.Identifier :=
  E.toCrateTypes.transIdentifier

instance Crates.lawfulEqOrdIdentifier (E : Crates) : Std.LawfulEqOrd E.Identifier :=
  E.toCrateTypes.lawfulIdentifier

/-! ## 2. Marshalling -/

namespace Frost

variable (E : Crates)

/-- Converts a point to its ABI form. -/
def solidityPoint (p : E.Element) : Point := if p = E.identity then ⟨0, 0⟩ else E.encodePoint p

/-- Converts an ABI point; the zero point decodes to the identity. -/
def frostPoint (p : Point) : Except FrostError E.Element :=
  if p.x = 0 ∧ p.y = 0 then .ok E.identity
  else match E.decodePoint p with
    | some e => .ok e
    | none => .error .malformedElement

/-- Converts a word to a canonical scalar. -/
def frostScalar (w : U256) : Except FrostError E.Scalar :=
  match E.decodeScalar w with
  | some s => .ok s
  | none => .error .malformedScalar

/-- `EncryptionPublicKey::from_point`. -/
def encryptionPublicKey (p : E.Element) : Except FrostError E.Element :=
  if p = E.identity then .error .invalidIdentityElement else .ok p

/-- Converts an ABI commitment to the peer's encryption key and its round 1 package. -/
def frostCommitment (c : KeyGenCommitment) :
    Except FrostError (E.Element × Round1Package E.toCrateTypes) := do
  let q ← frostPoint E c.q
  let encryptionKey ← encryptionPublicKey E q
  let coefficients ← c.c.mapM (frostPoint E)
  let r ← frostPoint E c.r
  let z ← frostScalar E c.mu
  return (encryptionKey, { commitment := coefficients, proofOfKnowledge := ⟨r, z⟩ })

/-- Converts revealed nonces; an identity point is malformed. -/
def frostSigningCommitments (nonces : SignNonces) :
    Except FrostError (SigningCommitments E.toCrateTypes) := do
  let hidingNonce ← frostPoint E nonces.d
  let bindingNonce ← frostPoint E nonces.e
  if hidingNonce = E.identity ∨ bindingNonce = E.identity then .error .malformedElement
  else return ⟨hidingNonce, bindingNonce⟩

/-- `msg XOR (receiver_pubkey * sender_privkey).x`, its own inverse. -/
def ecdh (privkey : E.Scalar) (pubkey : E.Element) (msg : U256) : U256 :=
  Fin.ofNat _ (msg.val ^^^ (E.xCoordinate (E.mul privkey pubkey)).val)

/-! ## 3. Key generation -/

/-- A participant's secrets, sampled once and persisted. -/
structure Secrets where
  encryptionKey : E.Scalar
  secretPackage : Round1SecretPackage E.toCrateTypes
  proofOfKnowledge : Signature E.toCrateTypes

/-- The onchain commitment of these secrets. -/
def Secrets.commitment (s : Secrets E) : KeyGenCommitment :=
  { q := solidityPoint E (E.mul s.encryptionKey E.generator)
    c := s.secretPackage.commitment.map (solidityPoint E)
    r := solidityPoint E s.proofOfKnowledge.R
    mu := E.encodeScalar s.proofOfKnowledge.z }

/-- A verified public commitment from a participant. -/
structure VerifiedCommitment where
  encryptionPublicKey : E.Element
  package : Round1Package E.toCrateTypes

/-- Decodes a participant's commitment and checks its proof of knowledge. -/
def verifyCommitment (participant : Address) (commitment : KeyGenCommitment) :
    Except Error (VerifiedCommitment E) :=
  errWithCulprit participant do
    let (encryptionPublicKey, package) ← frostCommitment E commitment
    E.verifyProofOfKnowledge (E.derive participant) package.commitment package.proofOfKnowledge
    return { encryptionPublicKey, package }

/-- FROST group commitments. -/
structure GroupCommitments where
  commitments : BTreeMap Address (VerifiedCommitment E)
  groupCommitment : VssCommitment E.toCrateTypes
  verifyingKey : E.Element

/-- The group public key in its onchain form. -/
def GroupCommitments.groupKey (g : GroupCommitments E) : Point := solidityPoint E g.verifyingKey

/-- The sum of the participants' commitments. -/
def groupCommitment (commitments : BTreeMap Address (VerifiedCommitment E)) :
    Except FrostError (VssCommitment E.toCrateTypes) :=
  E.sumCommitments (commitments.values.map (·.package.commitment))

/-- Derives the group's public key from every participant's commitment. -/
def groupCommitments (commitments : BTreeMap Address (VerifiedCommitment E)) :
    Except Error (GroupCommitments E) :=
  errUnexpected do
    let sum ← groupCommitment E commitments
    let verifyingKey ← E.verifyingKeyFromCommitment sum
    return { commitments, groupCommitment := sum, verifyingKey }

/-- A participant's secret state after sharing. -/
structure SharingState where
  encryptionKey : E.Scalar
  secretPackage : Round2SecretPackage E.toCrateTypes
  peerPackages : BTreeMap E.Identifier (Round2Package E.toCrateTypes)
  groupCommitments : GroupCommitments E

/-- The packages of `items` by identifier, split into the peers' and one's own. -/
def peerPackages {α β : Type} (me : E.Identifier) (items : BTreeMap Address α) (select : α → β) :
    Except Error (BTreeMap E.Identifier β × β) :=
  let peers : BTreeMap E.Identifier β :=
    items.toList.foldl (fun t e => t.insert (E.derive e.1) (select e.2)) ∅
  match peers[me]? with
  | some mine => .ok (peers.erase me, mine)
  | none => .error (.unexpected .unknownIdentifier)

/-- The sharing state and the encrypted shares for the peers, by ascending peer address. -/
def generateSecretShares (secrets : Secrets E)
    (commitments : BTreeMap Address (VerifiedCommitment E)) :
    Except Error (SharingState E × KeyGenSecretShare) := do
  let (peers, mine) ← peerPackages E secrets.secretPackage.identifier commitments (·.package)
  errUnexpected do
    let (secretPackage, round2Packages) ← E.part2 secrets.secretPackage peers
    -- the FROST library does not check the caller's own commitment
    if mine.commitment ≠ secretPackage.commitment then
      throw .incorrectCommitment
    let sum ← groupCommitment E commitments
    let verifyingShare := E.verifyingShareFromCommitment secrets.secretPackage.identifier sum
    let verifyingKey ← E.verifyingKeyFromCommitment sum
    let shares ← (commitments.toList.filter
        (fun e => E.derive e.1 ≠ secretPackage.identifier)).mapM fun e =>
      match round2Packages[E.derive e.1]? with
      | some package => Except.ok (ecdh E secrets.encryptionKey e.2.encryptionPublicKey
          (E.encodeScalar package.signingShare))
      | none => .error .unknownIdentifier
    return ({ encryptionKey := secrets.encryptionKey
              secretPackage
              peerPackages := round2Packages
              groupCommitments := { commitments, groupCommitment := sum, verifyingKey } },
            { y := solidityPoint E verifyingShare, f := shares })

/-- A verified public key share. -/
structure PublicKeyShare where
  verifyingShare : E.Element

/-- Checks that the advertised public key share matches the group commitments. -/
def verifySecretShare (g : GroupCommitments E) (participant : Address)
    (share : KeyGenSecretShare) : Except Error (PublicKeyShare E × List U256) :=
  if (g.commitments[participant]?).isNone then .error (.unexpected .unknownIdentifier)
  else errWithCulprit participant do
    let y ← frostPoint E share.y
    let verifyingShare := E.verifyingShareFromCommitment (E.derive participant) g.groupCommitment
    if y ≠ verifyingShare then
      throw .malformedVerifyingKey
    return (⟨verifyingShare⟩, share.f)

/-- A validated signing share from a participant. -/
structure VerifiedShare where
  package : Round2Package E.toCrateTypes

/-- Checks a plaintext share from `peer` for `me` against the peer's commitment. -/
def VerifiedShare.new (me : E.Identifier) (peer : Address)
    (commitment : VssCommitment E.toCrateTypes) (secretShare : U256) :
    Except Error (VerifiedShare E) :=
  errWithCulprit peer do
    let share ← frostScalar E secretShare
    E.verifyShare me share commitment
    return ⟨⟨share⟩⟩

/-- Decrypts this validator's share from a participant and checks it. -/
def verifyEncryptedSecretShare (s : SharingState E) (participant : Address)
    (encryptedShares : List U256) : Except Error (VerifiedShare E) := do
  let me := s.secretPackage.identifier
  let (commitment, secretShare) ←
    if E.derive participant = me then
      Except.ok (s.secretPackage.commitment, E.encodeScalar s.secretPackage.secretShare)
    else errUnexpected <|
      match s.groupCommitments.commitments[participant]? with
      | none => .error .unknownIdentifier
      | some round1 =>
        -- the position of our share among the dealer's, which leave out the dealer's own
        match ((s.groupCommitments.commitments.keys.filter (· ≠ participant)).findIdx?
            (fun a => E.derive a = me)) with
        | none => .error .unknownIdentifier
        | some index =>
          match encryptedShares[index]? with
          | none => .error .incorrectNumberOfShares
          | some encrypted => .ok (round1.package.commitment,
              ecdh E s.encryptionKey round1.encryptionPublicKey encrypted)
  VerifiedShare.new E me participant commitment secretShare

/-- Checks a share `accused` revealed in answer to a complaint by `plaintiff`. -/
def verifyRevealedSecretShare (g : GroupCommitments E) (plaintiff accused : Address)
    (secretShare : U256) : Except Error (VerifiedShare E) :=
  match g.commitments[accused]? with
  | none => .error (.unexpected .unknownIdentifier)
  | some c => VerifiedShare.new E (E.derive plaintiff) accused c.package.commitment secretShare

/-- This validator's own plaintext share for `peer`. -/
def revealSecretShare (s : SharingState E) (peer : Address) : Except Error U256 :=
  match s.peerPackages[E.derive peer]? with
  | some package => .ok (E.encodeScalar package.signingShare)
  | none => .error (.unexpected .unknownIdentifier)

/-- A participant's share of the group signing key. -/
structure KeyShare where
  keyPackage : KeyPackage E.toCrateTypes

/-- The signing threshold of the group. -/
def KeyShare.groupThreshold (k : KeyShare E) : Nat := k.keyPackage.minSigners

/-- Derives the key share from all participants' verified secret shares. -/
def finalize (s : SharingState E) (shares : BTreeMap Address (VerifiedShare E)) :
    Except Error (KeyShare E) := do
  let me := s.secretPackage.identifier
  let (round1Peers, _) ← peerPackages E me s.groupCommitments.commitments (·.package)
  let (round2Peers, round2Me) ← peerPackages E me shares (·.package)
  if round2Me.signingShare ≠ s.secretPackage.secretShare then
    throw (.unexpected .incorrectPackage)
  let keyPackage ← errUnexpected (E.part3 s.secretPackage round1Peers round2Peers)
  return ⟨keyPackage⟩

/-- **A participant and an observer hold the same group commitments.**  The sharing state is
built from the same sum over the same commitments that `groupCommitments` computes, so every
public check against it has the same outcome at every validator. -/
theorem groupCommitments_of_shares {secrets : Secrets E}
    {commitments : BTreeMap Address (VerifiedCommitment E)} {s : SharingState E}
    {share : KeyGenSecretShare}
    (h : generateSecretShares E secrets commitments = .ok (s, share)) :
    groupCommitments E commitments = .ok s.groupCommitments := by
  unfold generateSecretShares at h
  cases hp : peerPackages E secrets.secretPackage.identifier commitments (·.package) with
  | error e => simp [hp, bind, Except.bind] at h
  | ok pm =>
    cases h2 : E.part2 secrets.secretPackage pm.1 with
    | error e => simp [hp, h2, bind, Except.bind, errUnexpected, Except.mapError] at h
    | ok sp =>
      cases hs : groupCommitment E commitments with
      | error e =>
        by_cases hc : pm.2.commitment = sp.1.commitment <;>
          simp [hp, h2, hs, hc, bind, Except.bind, errUnexpected, Except.mapError, throw,
            throwThe, MonadExceptOf.throw] at h
      | ok sum =>
        cases hk : E.verifyingKeyFromCommitment sum with
        | error e =>
          by_cases hc : pm.2.commitment = sp.1.commitment <;>
            simp [hp, h2, hs, hc, hk, bind, Except.bind, errUnexpected, Except.mapError, throw,
              throwThe, MonadExceptOf.throw] at h
        | ok key =>
          by_cases hc : pm.2.commitment = sp.1.commitment
          · simp only [hp, h2, hs, hk, hc, bind, Except.bind, errUnexpected, Except.mapError, pure,
              Except.pure, ne_eq, not_true_eq_false, if_false] at h
            split at h
            · exact absurd h (by simp)
            · rename_i heq
              split at heq
              · exact absurd heq (by simp)
              · simp only [Except.ok.injEq] at heq h
                subst heq
                simp only [Prod.mk.injEq] at h
                obtain ⟨rfl, -⟩ := h
                simp [groupCommitments, hs, hk, bind, Except.bind, errUnexpected, Except.mapError,
                  pure, Except.pure]
          · simp [hp, h2, hc, bind, Except.bind, errUnexpected, Except.mapError, throw,
              throwThe, MonadExceptOf.throw] at h

/-! ## 4. Preprocessing -/

/-- The number of nonces committed to per `preprocess`. -/
def sequenceChunkSize : Nat := 1024

/-- The `(chunk, offset)` coordinates of a signing sequence. -/
def decodeSequence (sequence : Nat) : Nat × Nat :=
  (sequence / sequenceChunkSize, sequence % sequenceChunkSize)

/-- A nonce pair with its inclusion proof in the chunk's tree. -/
structure Nonces where
  signingNonces : SigningNonces E.toCrateTypes
  proof : List B256

/-- What is published to reveal the nonce. -/
def Nonces.reveal (n : Nonces E) : SignNonces × List B256 :=
  ({ d := solidityPoint E n.signingNonces.commitments.hidingNonce
     e := solidityPoint E n.signingNonces.commitments.bindingNonce }, n.proof)

/-- A freshly generated chunk of nonces and the root that commits to them. -/
structure NonceChunk where
  nonces : List (Nonces E)
  commitment : B256

/-! ## 5. Signing -/

/-- A validated revealed nonce commitment. -/
structure RevealedNonces where
  commitments : SigningCommitments E.toCrateTypes

/-- Checks that revealed nonce commitments are non-identity curve points. -/
def verifyRevealedNonces (participant : Address) (nonces : SignNonces) :
    Except Error (RevealedNonces E) :=
  errWithCulprit participant do
    let commitments ← frostSigningCommitments E nonces
    return ⟨commitments⟩

/-- The onchain artifacts of a `signShare` submission. -/
structure ShareSubmission where
  selection : SignSelection
  share : SignatureShare
  proof : List B256

/-- `keccak256(participant, r.x, r.y, l, group_r.x, group_r.y)`. -/
def signerLeaf (participant : Address) (r : Point) (l : U256) (groupR : Point) : B256 :=
  E.keccak256 (beBytes 32 participant.val ++ beBytes 32 r.x.val ++ beBytes 32 r.y.val
    ++ beBytes 32 l.val ++ beBytes 32 groupR.x.val ++ beBytes 32 groupR.y.val)

/-- Produces a signature share from one's nonce and every signer's revealed commitments. -/
def signatureShare (keyShare : KeyShare E) (nonces : Nonces E)
    (revealed : BTreeMap Address (RevealedNonces E)) (message : B256) :
    Except Error ShareSubmission :=
  let keyPackage := keyShare.keyPackage
  let commitments : BTreeMap E.Identifier (SigningCommitments E.toCrateTypes) :=
    revealed.toList.foldl (fun t e => t.insert (E.derive e.1) e.2.commitments) ∅
  errUnexpected do
    let z ← E.sign commitments message nonces.signingNonces keyPackage
    let bindingFactors ← E.bindingFactors commitments message keyPackage.verifyingKey
    let entries ← revealed.toList.mapM fun (address, revealed) => do
      let identifier := E.derive address
      let bindingFactor ← match bindingFactors[identifier]? with
        | some f => Except.ok f
        | none => .error .unknownIdentifier
      let interpolatingValue ← E.interpolatingValue identifier commitments
      let commitmentShare := E.add revealed.commitments.hidingNonce
        (E.mul bindingFactor revealed.commitments.bindingNonce)
      return (identifier, address, solidityPoint E commitmentShare,
        E.encodeScalar interpolatingValue)
    let signers : BTreeMap E.Identifier (Address × Point × U256) :=
      entries.foldl (fun t e => t.insert e.1 e.2) ∅
    let groupCommitment ← E.groupCommitment commitments bindingFactors
    let groupR := solidityPoint E groupCommitment
    let leaves := signers.values.map fun (address, r, l) => signerLeaf E address r l groupR
    let tree := MerkleTree.build E.keccak256 leaves
    match signers[keyPackage.identifier]? with
    | none => .error .unknownIdentifier
    | some (_, r, l) =>
      let index := (signers.keys.filter fun i => compare i keyPackage.identifier = .lt).length
      return { selection := { r := groupR, root := tree.root }
               share := { r, z := E.encodeScalar z, l }
               proof := tree.proof index }

end Frost

end Safenet
