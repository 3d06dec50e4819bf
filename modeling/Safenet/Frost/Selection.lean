/-
# The selection every signer builds

`frost/sign.rs` `signature_share`.  What a signer submits besides its own scalar is a function
`select` of the group key, the reveals and the message: the group commitment, and one entry for
each signer, sorted by identifier, whose leaves make the selection's tree.  So all signers of a
session submit one selection, and each one's proof is a proof of the leaf that
`FROSTSignatureShares.register` computes.

What the scalars add up to rests on `round2::sign`, which is not in the repository: `Signing`
states what it and the functions around it compute.
-/
import Safenet.Frost.Reference
import Safenet.Lib.Entries
import Safenet.Contracts.NonceChunks

namespace Safenet

open Secp256k1

namespace Frost

variable (E : Crates)

/-! ## 1. The public part of a submission -/

/-- The reveals, recorded as they arrive. -/
def recorded (reveals : List (Address × RevealedNonces E)) : BTreeMap Address (RevealedNonces E) :=
  BTreeMap.record Prod.fst Prod.snd reveals

/-- The commitments of the signing package. -/
def signingCommitments (revealed : BTreeMap Address (RevealedNonces E)) :
    BTreeMap E.Identifier (SigningCommitments E.toCrateTypes) :=
  BTreeMap.record (fun e => E.derive e.1) (fun e => e.2.commitments) revealed.toList

/-- A signer's entry: its commitment share and its Lagrange coefficient. -/
def signerEntry (commitments : BTreeMap E.Identifier (SigningCommitments E.toCrateTypes))
    (bindingFactors : BTreeMap E.Identifier E.Scalar) (e : Address × RevealedNonces E) :
    Except FrostError (E.Identifier × Address × Point × U256) := do
  let identifier := E.derive e.1
  let bindingFactor ← match bindingFactors[identifier]? with
    | some f => Except.ok f
    | none => .error .unknownIdentifier
  let interpolatingValue ← E.interpolatingValue identifier commitments
  let commitmentShare := E.add e.2.commitments.hidingNonce
    (E.mul bindingFactor e.2.commitments.bindingNonce)
  return (identifier, e.1, solidityPoint E commitmentShare, E.encodeScalar interpolatingValue)

/-- What every signer derives from the reveals. -/
structure Selected where
  signers : BTreeMap E.Identifier (Address × Point × U256)
  groupR : Point

namespace Selected

variable {E} (s : Selected E)

/-- The leaves of the selection, by ascending identifier. -/
def leaves : List B256 :=
  s.signers.values.map fun (address, r, l) => signerLeaf E address r l s.groupR

/-- The tree of the selection. -/
def tree : MerkleTree := MerkleTree.build E.keccak256 s.leaves

/-- The selection. -/
def selection : SignSelection := ⟨s.groupR, s.tree.root⟩

/-- The submission of the signer with a given identifier. -/
def submission (me : E.Identifier) (z : E.Scalar) : Except FrostError ShareSubmission :=
  match s.signers[me]? with
  | none => .error .unknownIdentifier
  | some (_, r, l) =>
    let index := (s.signers.keys.filter fun i => compare i me = .lt).length
    .ok { selection := s.selection
          share := { r, z := E.encodeScalar z, l }
          proof := s.tree.proof index }

end Selected

/-- The selection of a group for some reveals and a message. -/
def select (verifyingKey : E.Element) (revealed : BTreeMap Address (RevealedNonces E))
    (message : B256) : Except FrostError (Selected E) := do
  let commitments := signingCommitments E revealed
  let bindingFactors ← E.bindingFactors commitments message verifyingKey
  let entries ← revealed.toList.mapM (signerEntry E commitments bindingFactors)
  let groupCommitment ← E.groupCommitment commitments bindingFactors
  return ⟨BTreeMap.record Prod.fst Prod.snd entries, solidityPoint E groupCommitment⟩

/-- A signature share is a scalar and the public selection. -/
theorem signatureShare_eq (keyShare : KeyShare E) (nonces : Nonces E)
    (revealed : BTreeMap Address (RevealedNonces E)) (message : B256) :
    signatureShare E keyShare nonces revealed message = errUnexpected (do
      let z ← E.sign (signingCommitments E revealed) message nonces.signingNonces
        keyShare.keyPackage
      let selected ← select E keyShare.keyPackage.verifyingKey revealed message
      selected.submission keyShare.keyPackage.identifier z) := by
  simp only [signatureShare, select, bind_assoc, pure_bind]
  rfl

variable {E}

theorem signatureShare_eq_ok {keyShare : KeyShare E} {nonces : Nonces E}
    {revealed : BTreeMap Address (RevealedNonces E)} {message : B256} {sub : ShareSubmission} :
    signatureShare E keyShare nonces revealed message = .ok sub ↔
      ∃ z selected,
        E.sign (signingCommitments E revealed) message nonces.signingNonces keyShare.keyPackage =
          .ok z ∧
        select E keyShare.keyPackage.verifyingKey revealed message = .ok selected ∧
        selected.submission keyShare.keyPackage.identifier z = .ok sub := by
  rw [signatureShare_eq, errUnexpected, Except.mapError_eq_ok]
  simp only [Except.bind_eq_ok]
  constructor
  · rintro ⟨z, hz, selected, hselect, hsub⟩
    exact ⟨z, selected, hz, hselect, hsub⟩
  · rintro ⟨z, selected, hz, hselect, hsub⟩
    exact ⟨z, hz, selected, hselect, hsub⟩

theorem Selected.submission_eq_ok {s : Selected E} {me : E.Identifier} {z : E.Scalar}
    {sub : ShareSubmission} : s.submission me z = .ok sub ↔
      ∃ address r l, s.signers[me]? = some (address, r, l) ∧ sub =
        { selection := s.selection
          share := { r, z := E.encodeScalar z, l }
          proof := s.tree.proof (s.signers.keys.filter fun i => compare i me = .lt).length } := by
  unfold Selected.submission
  split
  · rename_i hnone
    simp [hnone]
  · rename_i address r l hsome
    rw [Except.ok.injEq]
    constructor
    · intro h
      exact ⟨address, r, l, hsome, h.symm⟩
    · rintro ⟨address', r', l', hsome', h⟩
      rw [hsome, Option.some.injEq, Prod.mk.injEq, Prod.mk.injEq] at hsome'
      obtain ⟨-, rfl, rfl⟩ := hsome'
      exact h.symm

/-! ## 2. Every signer stands in the selection -/

theorem signerEntry_eq_ok {commitments : BTreeMap E.Identifier (SigningCommitments E.toCrateTypes)}
    {factors : BTreeMap E.Identifier E.Scalar} {e : Address × RevealedNonces E}
    {entry : E.Identifier × Address × Point × U256} :
    signerEntry E commitments factors e = .ok entry ↔
      ∃ f l, factors[E.derive e.1]? = some f ∧
        E.interpolatingValue (E.derive e.1) commitments = .ok l ∧
        entry = (E.derive e.1, e.1, solidityPoint E (E.add e.2.commitments.hidingNonce
          (E.mul f e.2.commitments.bindingNonce)), E.encodeScalar l) := by
  unfold signerEntry
  cases hf : factors[E.derive e.1]? with
  | none => simp [hf, Except.bind_eq_ok]
  | some f =>
    simp only [hf, Except.bind_eq_ok, Except.pure_eq_ok, Except.ok.injEq, Option.some.injEq,
      exists_eq_left']
    constructor
    · rintro ⟨l, hl, rfl⟩
      exact ⟨f, l, rfl, hl, rfl⟩
    · rintro ⟨f', l, rfl, hl, rfl⟩
      exact ⟨l, hl, rfl⟩

/-- What returns along a list returned at each of its elements. -/
theorem mem_of_mapM {ε α β : Type} {f : α → Except ε β} {xs : List α} {ys : List β}
    (h : xs.mapM f = .ok ys) {x : α} (hx : x ∈ xs) : ∃ y ∈ ys, f x = .ok y := by
  induction xs generalizing ys with
  | nil => cases hx
  | cons x' xs ih =>
    simp only [List.mapM_cons, Except.bind_eq_ok, Except.pure_eq_ok] at h
    obtain ⟨y, hy, ys, hys, rfl⟩ := h
    rcases List.mem_cons.mp hx with rfl | hx
    · exact ⟨y, List.mem_cons_self, hy⟩
    · obtain ⟨y', hy', hok⟩ := ih hys hx
      exact ⟨y', List.mem_cons_of_mem _ hy', hok⟩

theorem map_eq_of_mapM {ε α β γ : Type} {f : α → Except ε β} {g : β → γ} {k : α → γ}
    (hf : ∀ x y, f x = .ok y → g y = k x) {xs : List α} {ys : List β} (h : xs.mapM f = .ok ys) :
    ys.map g = xs.map k := by
  induction xs generalizing ys with
  | nil =>
    rw [List.mapM_nil, Except.pure_eq_ok] at h
    rw [← h]
    rfl
  | cons x xs ih =>
    simp only [List.mapM_cons, Except.bind_eq_ok, Except.pure_eq_ok] at h
    obtain ⟨y, hy, ys, hys, rfl⟩ := h
    rw [List.map_cons, List.map_cons, hf x y hy, ih hys]

theorem mapM_eq_ok {ε α β : Type} {f : α → Except ε β} {g : α → β} {xs : List α}
    (h : ∀ x ∈ xs, f x = .ok (g x)) : xs.mapM f = .ok (xs.map g) := by
  induction xs with
  | nil => rfl
  | cons x xs ih =>
    rw [List.mapM_cons, h x List.mem_cons_self, ih fun y hy => h y (List.mem_cons_of_mem _ hy)]
    rfl

section Reveals

variable {reveals : List (Address × RevealedNonces E)}

theorem recorded_perm {reveals' : List (Address × RevealedNonces E)}
    (hperm : reveals'.Perm reveals) (hnodup : (reveals.map Prod.fst).Nodup) :
    recorded E reveals' = recorded E reveals :=
  (BTreeMap.record_perm hperm.symm hnodup).symm

/-- The recorded reveals are the reveals. -/
theorem toList_recorded (hnodup : (reveals.map Prod.fst).Nodup) :
    (recorded E reveals).toList.Perm reveals := by
  have h := @BTreeMap.toList_record _ _ _ _ _ _ _ Prod.fst Prod.snd reveals hnodup
  rwa [List.map_id'] at h

/-- Signers have different identifiers. -/
theorem derive_nodup (hnodup : (reveals.map Prod.fst).Nodup)
    (hinj : Set.InjOn E.derive {a | a ∈ reveals.map Prod.fst}) :
    ((recorded E reveals).toList.map fun e => E.derive e.1).Nodup := by
  have hperm := (toList_recorded hnodup).map fun e => E.derive e.1
  rw [hperm.nodup_iff, ← Function.comp_def E.derive Prod.fst, ← List.map_map]
  exact hnodup.map_on fun a ha b hb h => hinj ha hb h

theorem select_signers {key : E.Element} {message : B256} {selected : Selected E}
    (hnodup : (reveals.map Prod.fst).Nodup)
    (hinj : Set.InjOn E.derive {a | a ∈ reveals.map Prod.fst})
    (h : select E key (recorded E reveals) message = .ok selected) {a : Address}
    (ha : a ∈ reveals.map Prod.fst) :
    ∃ r l, selected.signers[E.derive a]? = some (a, r, l) := by
  simp only [select, Except.bind_eq_ok, Except.pure_eq_ok] at h
  obtain ⟨factors, -, entries, hentries, R, -, rfl⟩ := h
  have hkeys : entries.map Prod.fst = (recorded E reveals).toList.map fun e => E.derive e.1 := by
    refine map_eq_of_mapM (fun e entry hentry => ?_) hentries
    obtain ⟨f, l, -, -, rfl⟩ := signerEntry_eq_ok.mp hentry
    rfl
  obtain ⟨e, he, rfl⟩ := List.mem_map.mp ha
  obtain ⟨entry, hentry, hok⟩ := mem_of_mapM hentries ((toList_recorded hnodup).mem_iff.mpr he)
  obtain ⟨f, l, -, -, rfl⟩ := signerEntry_eq_ok.mp hok
  refine ⟨_, _, (BTreeMap.record_get ?_ _ _).mpr ⟨_, hentry, rfl, rfl⟩⟩
  rw [hkeys]
  exact derive_nodup hnodup hinj

end Reveals

/-! ## 3. The proofs -/

variable {L : ContractLibraries}

/-- The leaf the contract recomputes is the leaf the signers put in the tree. -/
theorem leaf_eq_signerLeaf (h : L.keccak256 = E.keccak256) (a : Address) (share : SignatureShare)
    (r : Point) : SignatureShares.leaf L a share r = signerLeaf E a share.r share.l r := by
  rw [SignatureShares.leaf, signerLeaf, h]
  simp only [B256.toBytes, List.append_assoc]

/-- **A signer's proof verifies** for the leaf the contract recomputes. -/
theorem Selected.merkleVerify_submission (hL : L.SortedPairs) (hkeccak : L.keccak256 = E.keccak256)
    {s : Selected E} {me : E.Identifier} {z : E.Scalar} {sub : ShareSubmission} {a : Address}
    {r : Point} {l : U256} (hme : s.signers[me]? = some (a, r, l))
    (h : s.submission me z = .ok sub) :
    L.merkleVerify sub.proof sub.selection.root
      (SignatureShares.leaf L a sub.share sub.selection.r) = true := by
  obtain ⟨a', r', l', hsome, rfl⟩ := Selected.submission_eq_ok.mp h
  rw [hme, Option.some.injEq, Prod.mk.injEq, Prod.mk.injEq] at hsome
  obtain ⟨rfl, rfl, rfl⟩ := hsome
  rw [hL.merkleVerify_iff, NonceCommitmentSet.processProof_eq_climb hL, hkeccak,
    leaf_eq_signerLeaf hkeccak]
  refine MerkleTree.climb_proof E.keccak256 _ _ _ _ le_rfl ?_
  rw [Selected.leaves, List.getElem?_map, BTreeMap.values_getElem? hme]
  rfl

/-! ## 4. What the signing round computes -/

/-- No commitment is the identity. -/
def NonIdentity (commitments : BTreeMap E.Identifier (SigningCommitments E.toCrateTypes)) : Prop :=
  ∀ e ∈ commitments.toList, e.2.hidingNonce ≠ E.identity ∧ e.2.bindingNonce ≠ E.identity

/-- The binding factor of a signer. -/
def Curve.factor (F : Curve E) (factors : BTreeMap E.Identifier E.Scalar) (i : E.Identifier) :
    ZMod N :=
  (factors[i]?.map F.scalar).getD 0

/-- **The signing round of FROST**: a binding factor for each signer, Lagrange coefficients at
zero, the group commitment, and from them each signer's scalar. -/
structure Signing (E : Crates) extends Curve E where
  /-- The challenge, from the group commitment, the group key and the message. -/
  challenge : Point → Point → B256 → ZMod N
  bindingFactors_ok : ∀ commitments message key, key ≠ E.identity → NonIdentity commitments →
    ∃ factors, E.bindingFactors commitments message key = .ok factors ∧
      ∀ i : E.Identifier, (factors[i]?).isSome = (commitments[i]?).isSome
  interpolatingValue_ok : ∀ commitments i, i ∈ BTreeMap.keySet commitments →
    ∃ l, E.interpolatingValue i commitments = .ok l ∧
      scalar l = Polynomial.coefficientAtZero (BTreeMap.keySet commitments) identifier i
  groupCommitment_ok : ∀ commitments factors, NonIdentity commitments →
    (∀ i : E.Identifier, (factors[i]?).isSome = (commitments[i]?).isSome) →
    ∃ R, E.groupCommitment commitments factors = .ok R ∧
      point R = (commitments.toList.map fun e => point e.2.hidingNonce +
        (toCurve.factor factors e.1).val • point e.2.bindingNonce).sum
  sign_ok : ∀ commitments message (nonces : SigningNonces E.toCrateTypes)
    (keyPackage : KeyPackage E.toCrateTypes) factors R,
    keyPackage.minSigners ≤ commitments.size →
    commitments[keyPackage.identifier]? = some nonces.commitments →
    E.bindingFactors commitments message keyPackage.verifyingKey = .ok factors →
    E.groupCommitment commitments factors = .ok R → R ≠ E.identity →
    ∃ z, E.sign commitments message nonces keyPackage = .ok z ∧
      scalar z = scalar nonces.hidingNonce +
        scalar nonces.bindingNonce * toCurve.factor factors keyPackage.identifier +
        Polynomial.coefficientAtZero (BTreeMap.keySet commitments) identifier
            keyPackage.identifier *
          scalar keyPackage.signingShare *
          challenge (solidityPoint E R) (solidityPoint E keyPackage.verifyingKey) message

/-- A signing session: who revealed what, and what the signers hold. -/
structure Session (E : Crates) where
  reveals : List (Address × RevealedNonces E)
  message : B256
  keyShare : Address → KeyShare E
  nonces : Address → Nonces E
  /-- The polynomial whose values are the signing shares. -/
  polynomial : Polynomial (ZMod N)
  threshold : Nat
  key : E.Element

/-- The signers, in the order of their reveals. -/
def Session.signers (S : Session E) : List Address := S.reveals.map Prod.fst

/-- The signers revealed the nonces they sign with, at least a threshold of them, and hold shares
of one key. -/
structure Session.Honest (F : Signing E) (S : Session E) : Prop where
  nodup : S.signers.Nodup
  derive_injective : Set.InjOn E.derive {a | a ∈ S.signers}
  enough : S.threshold ≤ S.reveals.length
  verified : ∀ e ∈ S.reveals, ∃ nonces, verifyRevealedNonces E e.1 nonces = .ok e.2
  own : ∀ e ∈ S.reveals, e.2.commitments = (S.nonces e.1).signingNonces.commitments
  opened : ∀ a ∈ S.signers, (S.nonces a).signingNonces.commitments =
    ⟨E.mul (S.nonces a).signingNonces.hidingNonce E.generator,
      E.mul (S.nonces a).signingNonces.bindingNonce E.generator⟩
  degree_lt : S.polynomial.degree < S.threshold
  identifier_eq : ∀ a ∈ S.signers, (S.keyShare a).keyPackage.identifier = E.derive a
  signingShare_eq : ∀ a ∈ S.signers, F.scalar (S.keyShare a).keyPackage.signingShare =
    S.polynomial.eval (F.identifier (E.derive a))
  verifyingKey_eq : ∀ a ∈ S.signers, (S.keyShare a).keyPackage.verifyingKey = S.key
  minSigners_eq : ∀ a ∈ S.signers, (S.keyShare a).keyPackage.minSigners = S.threshold
  key_eq : F.point S.key = mulG (S.polynomial.eval 0)
  key_ne : S.key ≠ E.identity
  commitment_ne : ∀ factors R,
    E.bindingFactors (signingCommitments E (recorded E S.reveals)) S.message S.key = .ok factors →
    E.groupCommitment (signingCommitments E (recorded E S.reveals)) factors = .ok R →
    R ≠ E.identity

/-- The Schnorr equation `z G = R + c Y`, which `FROST.verify` checks. -/
def Verifies (challenge : Point → Point → B256 → ZMod N) (key : Point) (σ : FrostSignature)
    (message : B256) : Prop :=
  σ.z.val < N ∧ ∃ R Y : CurvePoint, ofGroup R = σ.r ∧ ofGroup Y = key ∧
    σ.z.val • G = R + (challenge σ.r key message).val • Y

/-- The equation `z G = R_p + c l Y_p`, which `FROST.verifyShare` checks. -/
def VerifiesShare (challenge : Point → Point → B256 → ZMod N) (key groupR participant : Point)
    (share : SignatureShare) (message : B256) : Prop :=
  share.z.val < N ∧ ∃ R Y : CurvePoint, ofGroup R = share.r ∧ ofGroup Y = participant ∧
    share.z.val • G = R + (challenge groupR key message * (share.l.val : ZMod N)).val • Y

/-! ## 5. The shares add up -/

/-- **Registering shares adds them up**, whoever comes first. -/
theorem exists_registers {root : B256} {r : Point} {share : Address → SignatureShare}
    {proof : Address → List B256} (R : Address → CurvePoint) (z : Address → ZMod N)
    (order : List Address) (hr : ∀ a ∈ order, (share a).r = ofGroup (R a))
    (hz : ∀ a ∈ order, (share a).z = scalarWord (z a))
    (hproof : ∀ a ∈ order, L.merkleVerify (proof a) root (SignatureShares.leaf L a (share a) r) = true)
    (hnodup : order.Nodup) {shares : SignatureShares}
    (hfresh : ∀ a ∈ order, (shares.aggregates root).participants a = 0) {sumR : CurvePoint}
    {sumZ : ZMod N}
    (hsum : (shares.aggregates root).signature = ⟨ofGroup sumR, scalarWord sumZ⟩) :
    ∃ shares', shares.registers L (order.map fun a => ⟨a, share a, r, root, proof a⟩) = some shares' ∧
      shares'.groupSignature root =
        ⟨ofGroup (sumR + (order.map R).sum), scalarWord (sumZ + (order.map z).sum)⟩ := by
  induction order generalizing shares sumR sumZ with
  | nil => exact ⟨shares, rfl, by simpa [SignatureShares.groupSignature] using hsum⟩
  | cons a order ih =>
    simp only [List.forall_mem_cons] at hr hz hproof hfresh
    obtain ⟨ha, hnodup⟩ := List.nodup_cons.mp hnodup
    have hstep : ∃ shares', (shares.register L a (share a) r root (proof a)).map (·.1) =
        some shares' ∧ (∀ b ∈ order, (shares'.aggregates root).participants b = 0) ∧
        (shares'.aggregates root).signature =
          ⟨ofGroup (sumR + R a), scalarWord (sumZ + z a)⟩ := by
      simp only [SignatureShares.register, hproof.1, hfresh.1, hsum, hr.1, hz.1, add_ofGroup,
        and_self, if_true, Option.bind_eq_bind, Option.bind_some, pure, Option.map_some,
        scalarWord_add]
      refine ⟨_, rfl, fun b hb => ?_, ?_⟩
      · dsimp only
        rw [Function.update_self]
        dsimp only
        rw [Function.update_of_ne (ne_of_mem_of_not_mem hb ha)]
        exact hfresh.2 b hb
      · dsimp only
        rw [Function.update_self]
    obtain ⟨shares₁, h₁, hfresh₁, hsum₁⟩ := hstep
    obtain ⟨shares', h', hsig⟩ := ih hr.2 hz.2 hproof.2 hnodup hfresh₁ hsum₁
    refine ⟨shares', ?_, ?_⟩
    · rw [List.map_cons, SignatureShares.registers, List.foldlM_cons, h₁]
      exact h'
    · rw [hsig, List.map_cons, List.map_cons, List.sum_cons, List.sum_cons, add_assoc, add_assoc]

/-! ## 6. An honest session -/

namespace Session

variable (S : Session E)

/-- The commitments every signer signs over. -/
def commitments : BTreeMap E.Identifier (SigningCommitments E.toCrateTypes) :=
  signingCommitments E (recorded E S.reveals)

/-- The nonce of a signer, its binding factor applied. -/
def nonce (F : Curve E) (factors : BTreeMap E.Identifier E.Scalar) (a : Address) : ZMod N :=
  F.scalar (S.nonces a).signingNonces.hidingNonce +
    F.scalar (S.nonces a).signingNonces.bindingNonce * F.factor factors (E.derive a)

/-- The Lagrange coefficient of a signer. -/
def coefficient (F : Curve E) (a : Address) : ZMod N :=
  Polynomial.coefficientAtZero (BTreeMap.keySet S.commitments) F.identifier (E.derive a)

/-- The scalar of a signer, for a challenge. -/
def response (F : Curve E) (factors : BTreeMap E.Identifier E.Scalar) (c : ZMod N) (a : Address) :
    ZMod N :=
  S.nonce F factors a + S.coefficient F a * S.polynomial.eval (F.identifier (E.derive a)) * c

namespace Honest

variable {S} {F : Signing E} (h : S.Honest F)

include h

theorem toList_commitments : S.commitments.toList.Perm
    (S.reveals.map fun e => (E.derive e.1, e.2.commitments)) :=
  (BTreeMap.toList_record (derive_nodup h.nodup h.derive_injective)).trans
    ((toList_recorded h.nodup).map _)

theorem commitments_get {e : Address × RevealedNonces E} (he : e ∈ S.reveals) :
    S.commitments[E.derive e.1]? = some e.2.commitments :=
  (BTreeMap.record_get (derive_nodup h.nodup h.derive_injective) _ _).mpr
    ⟨e, (toList_recorded h.nodup).mem_iff.mpr he, rfl, rfl⟩

theorem signers_derive_nodup : (S.signers.map E.derive).Nodup :=
  h.nodup.map_on fun _ ha _ hb heq => h.derive_injective ha hb heq

theorem keySet_commitments :
    BTreeMap.keySet S.commitments = (S.signers.map E.derive).toFinset := by
  rw [commitments, signingCommitments,
    BTreeMap.keySet_record, signers, List.map_map]
  exact List.toFinset_eq_of_perm _ _ ((toList_recorded h.nodup).map _)

theorem size_commitments : S.commitments.size = S.reveals.length := by
  rw [← BTreeMap.card_keySet, h.keySet_commitments,
    List.toFinset_card_of_nodup h.signers_derive_nodup, List.length_map, signers, List.length_map]

/-- The reveals were checked. -/
theorem nonIdentity : NonIdentity S.commitments := by
  intro e he
  obtain ⟨reveal, hreveal, rfl⟩ := List.mem_map.mp (h.toList_commitments.mem_iff.mp he)
  obtain ⟨nonces, hnonces⟩ := h.verified reveal hreveal
  simp only [verifyRevealedNonces, errWithCulprit, Except.mapError_eq_ok, frostSigningCommitments,
    Except.bind_eq_ok, Except.pure_eq_ok] at hnonces
  obtain ⟨c, ⟨d, -, b, -, hc⟩, hreveal'⟩ := hnonces
  split at hc
  · exact absurd hc (by simp)
  · rename_i hid
    rw [Except.pure_eq_ok] at hc
    rw [← hreveal', ← hc]
    exact not_or.mp hid

theorem point_nonce {e : Address × RevealedNonces E} (he : e ∈ S.reveals) (k : ZMod N) :
    F.point e.2.commitments.hidingNonce + k.val • F.point e.2.commitments.bindingNonce =
      mulG (F.scalar (S.nonces e.1).signingNonces.hidingNonce +
        F.scalar (S.nonces e.1).signingNonces.bindingNonce * k) := by
  rw [h.own e he, h.opened e.1 (List.mem_map_of_mem he), F.point_mul_generator,
    F.point_mul_generator, ← mulG_mul, mul_comm k, map_add]

/-- The group commitment opens to the sum of the nonces. -/
theorem point_groupCommitment (factors : BTreeMap E.Identifier E.Scalar) :
    (S.commitments.toList.map fun e => F.point e.2.hidingNonce +
      (F.factor factors e.1).val • F.point e.2.bindingNonce).sum =
      mulG ((S.signers.map (S.nonce F.toCurve factors)).sum) := by
  rw [(h.toList_commitments.map _).sum_eq, List.map_map, map_list_sum, signers, List.map_map,
    List.map_map]
  refine congrArg List.sum (List.map_congr_left fun e he => ?_)
  exact h.point_nonce he _

/-- **The scalars of all signers sum to the nonces and the challenge times the secret.** -/
theorem sum_response (factors : BTreeMap E.Identifier E.Scalar) (c : ZMod N) :
    (S.signers.map (S.response F.toCurve factors c)).sum =
      (S.signers.map (S.nonce F.toCurve factors)).sum + S.polynomial.eval 0 * c := by
  have hdegree : S.polynomial.degree < (BTreeMap.keySet S.commitments).card := by
    rw [BTreeMap.card_keySet, h.size_commitments]
    exact lt_of_lt_of_le h.degree_lt (by exact_mod_cast h.enough)
  have hsecret : S.polynomial.eval 0 = (S.signers.map fun a =>
      S.coefficient F.toCurve a * S.polynomial.eval (F.identifier (E.derive a))).sum := by
    rw [Polynomial.eval_zero_eq_sum F.identifier_injective.injOn hdegree]
    simp only [coefficient, h.keySet_commitments]
    rw [List.sum_toFinset _ h.signers_derive_nodup, List.map_map]
    refine congrArg List.sum (List.map_congr_left fun a _ => ?_)
    exact mul_comm _ _
  rw [hsecret, ← List.sum_map_mul_right, ← List.sum_map_add]
  rfl

/-- The selection exists, and holds everyone's nonce and coefficient. -/
theorem select_eq_ok : ∃ factors R selected,
    E.bindingFactors S.commitments S.message S.key = .ok factors ∧
    E.groupCommitment S.commitments factors = .ok R ∧
    F.point R = mulG ((S.signers.map (S.nonce F.toCurve factors)).sum) ∧
    select E S.key (recorded E S.reveals) S.message = .ok selected ∧
    selected.groupR = solidityPoint E R ∧
    ∀ a ∈ S.signers, selected.signers[E.derive a]? =
      some (a, ofGroup (mulG (S.nonce F.toCurve factors a)),
        scalarWord (S.coefficient F.toCurve a)) := by
  obtain ⟨factors, hfactors, hdomain⟩ :=
    F.bindingFactors_ok S.commitments S.message S.key h.key_ne h.nonIdentity
  obtain ⟨R, hR, hpoint⟩ := F.groupCommitment_ok S.commitments factors h.nonIdentity hdomain
  let entry : Address × RevealedNonces E → E.Identifier × Address × Point × U256 := fun e =>
    (E.derive e.1, e.1, ofGroup (mulG (S.nonce F.toCurve factors e.1)),
      scalarWord (S.coefficient F.toCurve e.1))
  have hentry : ∀ e ∈ (recorded E S.reveals).toList,
      signerEntry E S.commitments factors e = .ok (entry e) := by
    intro e he
    have he := (toList_recorded h.nodup).mem_iff.mp he
    have hget := h.commitments_get he
    have hsome := hdomain (E.derive e.1)
    rw [hget, Option.isSome_some, Option.isSome_iff_exists] at hsome
    obtain ⟨f, hf⟩ := hsome
    obtain ⟨l, hl, hscalar⟩ := F.interpolatingValue_ok S.commitments (E.derive e.1)
      ((BTreeMap.mem_keySet _ _).mpr (by rw [hget]; rfl))
    refine signerEntry_eq_ok.mpr ⟨f, l, hf, hl, ?_⟩
    have hfactor : F.factor factors (E.derive e.1) = F.scalar f := by
      rw [Curve.factor, hf]
      rfl
    rw [F.solidityPoint_eq, F.point_add, F.point_mul, h.point_nonce he, F.encodeScalar_eq, hscalar,
      ← hfactor]
    rfl
  have hkeys : (((recorded E S.reveals).toList.map entry).map Prod.fst).Nodup := by
    rw [List.map_map]
    exact derive_nodup h.nodup h.derive_injective
  refine ⟨factors, R, ⟨BTreeMap.record Prod.fst Prod.snd
    ((recorded E S.reveals).toList.map entry), solidityPoint E R⟩, hfactors, hR,
    hpoint.trans (h.point_groupCommitment factors), ?_, rfl, ?_⟩
  · simp only [select, Except.bind_eq_ok, Except.pure_eq_ok]
    exact ⟨factors, hfactors, _, mapM_eq_ok hentry, R, hR, rfl⟩
  · intro a ha
    obtain ⟨e, he, rfl⟩ := List.mem_map.mp ha
    exact (BTreeMap.record_get hkeys _ _).mpr ⟨entry e,
      List.mem_map_of_mem ((toList_recorded h.nodup).mem_iff.mpr he), rfl, rfl⟩

/-- Every signer signs: with its nonce, its coefficient, its share and the one challenge. -/
theorem exists_sign {factors : BTreeMap E.Identifier E.Scalar} {R : E.Element}
    (hfactors : E.bindingFactors S.commitments S.message S.key = .ok factors)
    (hR : E.groupCommitment S.commitments factors = .ok R) {a : Address} (ha : a ∈ S.signers) :
    ∃ z, E.sign S.commitments S.message (S.nonces a).signingNonces (S.keyShare a).keyPackage =
        .ok z ∧
      F.scalar z = S.response F.toCurve factors
        (F.challenge (solidityPoint E R) (solidityPoint E S.key) S.message) a := by
  obtain ⟨e, he, rfl⟩ := List.mem_map.mp ha
  have hkey := h.verifyingKey_eq e.1 ha
  obtain ⟨z, hz, hscalar⟩ := F.sign_ok S.commitments S.message (S.nonces e.1).signingNonces
    (S.keyShare e.1).keyPackage factors R
    (by rw [h.minSigners_eq e.1 ha, h.size_commitments]; exact h.enough)
    (by rw [h.identifier_eq e.1 ha, h.commitments_get he, h.own e he])
    (by rw [hkey]; exact hfactors) hR (h.commitment_ne factors R hfactors hR)
  refine ⟨z, hz, ?_⟩
  rw [hscalar, h.identifier_eq e.1 ha, h.signingShare_eq e.1 ha, hkey]
  rfl

end Honest

end Session

/-- A call of `register` with a signer's submission. -/
def ShareSubmission.registration (sub : ShareSubmission) (a : Address) :
    SignatureShares.Registration :=
  ⟨a, sub.share, sub.selection.r, sub.selection.root, sub.proof⟩

/-- **All signers build the same selection.**  For every group key, every set of reveals and every
message there is one selection that every signer's submission carries, with the signer's own
commitment and coefficient in it and a proof that verifies.  And in an honest session every
signer's submission comes about, whatever the order of the reveals; each share verifies with the
one challenge; and their sum, registered in any order, verifies under the group key. -/
theorem selection_agreed (hL : L.SortedPairs) (hkeccak : L.keccak256 = E.keccak256) :
    (∀ (key : E.Element) (reveals : List (Address × RevealedNonces E)) (message : B256),
      (reveals.map Prod.fst).Nodup → Set.InjOn E.derive {a | a ∈ reveals.map Prod.fst} →
      ∃ selected : Selected E, ∀ reveals' a (keyShare : KeyShare E) nonces sub,
        reveals'.Perm reveals → a ∈ reveals.map Prod.fst →
        keyShare.keyPackage.identifier = E.derive a → keyShare.keyPackage.verifyingKey = key →
        signatureShare E keyShare nonces (recorded E reveals') message = .ok sub →
        sub.selection = selected.selection ∧
          selected.signers[E.derive a]? = some (a, sub.share.r, sub.share.l) ∧
          L.merkleVerify sub.proof sub.selection.root
            (SignatureShares.leaf L a sub.share sub.selection.r) = true) ∧
    ∀ (F : Signing E) (S : Session E), S.Honest F → ∃ submission : Address → ShareSubmission,
      (∀ a ∈ S.signers, ∀ reveals, reveals.Perm S.reveals →
        signatureShare E (S.keyShare a) (S.nonces a) (recorded E reveals) S.message =
          .ok (submission a)) ∧
      (∀ a ∈ S.signers, VerifiesShare F.challenge (solidityPoint E S.key) (submission a).selection.r
        (solidityPoint E (E.mul (S.keyShare a).keyPackage.signingShare E.generator))
        (submission a).share S.message) ∧
      ∀ (order : List Address) (shares : SignatureShares), order.Perm S.signers →
        (∀ a ∈ S.signers, shares.aggregates (submission a).selection.root =
          ⟨fun _ => 0, ⟨zero, 0⟩⟩) →
        ∃ shares', shares.registers L (order.map fun a => (submission a).registration a) =
            some shares' ∧
          ∀ a ∈ S.signers,
            (shares'.groupSignature (submission a).selection.root).r = (submission a).selection.r ∧
            Verifies F.challenge (solidityPoint E S.key)
              (shares'.groupSignature (submission a).selection.root) S.message := by
  constructor
  · intro key reveals message hnodup hinj
    cases hselect : select E key (recorded E reveals) message with
    | error e =>
      refine ⟨⟨∅, zero⟩, fun reveals' a keyShare nonces sub hperm _ _ hkey hsub => ?_⟩
      obtain ⟨z, selected, -, hok, -⟩ := signatureShare_eq_ok.mp hsub
      rw [recorded_perm hperm hnodup, hkey, hselect] at hok
      exact absurd hok (by simp)
    | ok selected =>
      refine ⟨selected, fun reveals' a keyShare nonces sub hperm ha hid hkey hsub => ?_⟩
      obtain ⟨z, selected', -, hok, hsub⟩ := signatureShare_eq_ok.mp hsub
      rw [recorded_perm hperm hnodup, hkey, hselect, Except.ok.injEq] at hok
      subst hok
      obtain ⟨r, l, hme⟩ := select_signers hnodup hinj hselect ha
      rw [hid] at hsub
      have hverify := Selected.merkleVerify_submission hL hkeccak hme hsub
      obtain ⟨a', r', l', hme', rfl⟩ := Selected.submission_eq_ok.mp hsub
      rw [hme, Option.some.injEq, Prod.mk.injEq, Prod.mk.injEq] at hme'
      obtain ⟨rfl, rfl, rfl⟩ := hme'
      exact ⟨rfl, hme, hverify⟩
  · intro F S h
    obtain ⟨factors, R, selected, hfactors, hR, hpoint, hselect, hgroupR, hsigners⟩ :=
      h.select_eq_ok
    let c := F.challenge (solidityPoint E R) (solidityPoint E S.key) S.message
    let submission : Address → ShareSubmission := fun a =>
      { selection := selected.selection
        share := ⟨ofGroup (mulG (S.nonce F.toCurve factors a)),
          scalarWord (S.response F.toCurve factors c a), scalarWord (S.coefficient F.toCurve a)⟩
        proof := selected.tree.proof
          (selected.signers.keys.filter fun i => compare i (E.derive a) = .lt).length }
    have hsub : ∀ a ∈ S.signers, ∃ z, E.sign S.commitments S.message
        (S.nonces a).signingNonces (S.keyShare a).keyPackage = .ok z ∧
        selected.submission (E.derive a) z = .ok (submission a) := by
      intro a ha
      obtain ⟨z, hz, hscalar⟩ := h.exists_sign hfactors hR ha
      refine ⟨z, hz, Selected.submission_eq_ok.mpr ⟨a, _, _, hsigners a ha, ?_⟩⟩
      rw [F.encodeScalar_eq, hscalar]
    refine ⟨submission, ?_, ?_, ?_⟩
    · intro a ha reveals hperm
      obtain ⟨z, hz, hok⟩ := hsub a ha
      rw [recorded_perm hperm h.nodup]
      refine signatureShare_eq_ok.mpr ⟨z, selected, hz, ?_, ?_⟩
      · rw [h.verifyingKey_eq a ha]
        exact hselect
      · rw [h.identifier_eq a ha]
        exact hok
    · intro a ha
      refine ⟨?_, _, _, rfl, (F.solidityPoint_eq _).symm, ?_⟩
      · rw [scalarWord_val]
        exact ZMod.val_lt _
      · dsimp only [submission]
        rw [scalarWord_val, scalarWord_val, ZMod.natCast_zmod_val, Selected.selection, hgroupR,
          F.point_mul_generator, h.signingShare_eq a ha, ← mulG_mul, ← mulG_eq, ← map_add]
        refine congrArg mulG ?_
        rw [Session.response]
        ring
    · intro order shares hperm hfresh
      by_cases hnil : S.signers = []
      · rw [hnil, List.perm_nil] at hperm
        rw [hperm, hnil]
        exact ⟨shares, rfl, by simp⟩
      obtain ⟨b, hb⟩ := List.exists_mem_of_ne_nil _ hnil
      have hempty : (shares.aggregates selected.selection.root).signature =
          ⟨ofGroup 0, scalarWord 0⟩ := congrArg Aggregate.signature (hfresh b hb)
      have hmem : ∀ a ∈ order, a ∈ S.signers := fun a ha => hperm.mem_iff.mp ha
      have hverify : ∀ a ∈ order, L.merkleVerify (submission a).proof selected.selection.root
          (SignatureShares.leaf L a (submission a).share selected.groupR) = true := by
        intro a ha
        obtain ⟨z, -, hok⟩ := hsub a (hmem a ha)
        exact Selected.merkleVerify_submission hL hkeccak (hsigners a (hmem a ha)) hok
      obtain ⟨shares', hshares', hsum⟩ := exists_registers (L := L)
        (fun a => mulG (S.nonce F.toCurve factors a)) (S.response F.toCurve factors c) order
        (fun _ _ => rfl) (fun _ _ => rfl) hverify (hperm.nodup_iff.mpr h.nodup)
        (fun a _ => congrFun (congrArg Aggregate.participants (hfresh b hb)) a) hempty
      have hR' : (order.map fun a => mulG (S.nonce F.toCurve factors a)).sum = F.point R := by
        rw [(hperm.map _).sum_eq, hpoint, map_list_sum, List.map_map]
        rfl
      have hz : (order.map (S.response F.toCurve factors c)).sum =
          (S.signers.map (S.nonce F.toCurve factors)).sum + S.polynomial.eval 0 * c := by
        rw [(hperm.map _).sum_eq, h.sum_response]
      rw [hR', hz, zero_add, zero_add, ← F.solidityPoint_eq] at hsum
      refine ⟨shares', hshares', fun a ha => ?_⟩
      dsimp only [submission]
      rw [hsum]
      refine ⟨hgroupR.symm, ?_, F.point R, F.point S.key, (F.solidityPoint_eq R).symm,
        (F.solidityPoint_eq _).symm, ?_⟩
      · rw [scalarWord_val]
        exact ZMod.val_lt _
      · rw [scalarWord_val, ← mulG_eq, map_add, hpoint, h.key_eq, ← mulG_mul, mul_comm]

/-! ## 7. The assumptions hold together -/

theorem factor_referenceCurve (factors : BTreeMap Address (ZMod N)) (i : Address) :
    referenceCurve.factor factors i = (factors[i]?).getD 0 :=
  congrArg (Option.getD · 0) Option.map_id'

/-- The reference signs as FROST does. -/
noncomputable def referenceSigning : Signing reference where
  toCurve := referenceCurve
  challenge := Reference.challenge
  bindingFactors_ok commitments message _ hkey _ :=
    Reference.bindingFactors_ok commitments message hkey
  interpolatingValue_ok commitments i hi := ⟨_, if_pos hi, rfl⟩
  groupCommitment_ok commitments factors _ _ := by
    refine ⟨_, rfl, ?_⟩
    refine congrArg List.sum (List.map_congr_left fun e _ => ?_)
    rw [factor_referenceCurve]
    rfl
  sign_ok commitments message nonces keyPackage factors R hsize hown hfactors hR hne := by
    refine ⟨_, Reference.sign_ok hsize hown hfactors hR hne, ?_⟩
    rw [factor_referenceCurve, referenceCurve.solidityPoint_eq, referenceCurve.solidityPoint_eq]
    rfl

/-- Two signers who revealed the generator twice, with shares of the polynomial `X + 1`. -/
noncomputable def twoSigners : Session reference where
  reveals := [(1, ⟨⟨G, G⟩⟩), (2, ⟨⟨G, G⟩⟩)]
  message := 7
  keyShare a := ⟨{ identifier := a
                   signingShare := Reference.identifier a + 1
                   verifyingShare := mulG (Reference.identifier a + 1)
                   verifyingKey := G
                   minSigners := 2 }⟩
  nonces _ := ⟨⟨(1 : ZMod N), (1 : ZMod N), ⟨G, G⟩⟩, []⟩
  polynomial := Polynomial.X + 1
  threshold := 2
  key := G

theorem mul_one_generator : reference.mul (1 : ZMod N) reference.generator = G := by
  have h := mulG_one
  rw [mulG_eq] at h
  exact h

theorem verifyRevealedNonces_generator (a : Address) :
    verifyRevealedNonces reference a ⟨generator, generator⟩ = .ok ⟨⟨G, G⟩⟩ := by
  have hpoint : frostPoint reference generator = .ok G := by
    have hdecode : reference.decodePoint generator = some G := by
      rw [← ofGroup_G]
      exact Reference.decodePoint_ofGroup G_ne_zero
    rw [frostPoint, if_neg (by decide), hdecode]
  have hid : ¬((G : reference.Element) = reference.identity ∨
      (G : reference.Element) = reference.identity) := by
    rintro (h | h) <;> exact G_ne_zero h
  simp only [verifyRevealedNonces, errWithCulprit, Except.mapError_eq_ok, frostSigningCommitments,
    Except.bind_eq_ok, Except.pure_eq_ok]
  exact ⟨_, ⟨_, hpoint, _, hpoint, by rw [if_neg hid]; rfl⟩, rfl⟩

theorem twoSigners_reveal {e : Address × RevealedNonces reference}
    (he : e ∈ twoSigners.reveals) : e.2 = ⟨⟨G, G⟩⟩ := by
  simp only [twoSigners, List.mem_cons, List.not_mem_nil, or_false] at he
  rcases he with rfl | rfl <;> rfl

theorem twoSigners_nodup : twoSigners.signers.Nodup := by decide

theorem toList_twoSigners :
    twoSigners.commitments.toList.Perm [((1 : Address), ⟨G, G⟩), ((2 : Address), ⟨G, G⟩)] :=
  (BTreeMap.toList_record (derive_nodup twoSigners_nodup fun _ _ _ _ h => h)).trans
    ((toList_recorded twoSigners_nodup).map _)

/-- Sixteen times the generator. -/
theorem twoSigners_commitment_ne {factors : BTreeMap Address (ZMod N)} {R : CurvePoint}
    (hfactors : Reference.bindingFactors twoSigners.commitments 7 G = .ok factors)
    (hR : Reference.groupCommitment twoSigners.commitments factors = .ok R) : R ≠ 0 := by
  rw [Reference.bindingFactors, if_neg G_ne_zero, Except.ok.injEq] at hfactors
  rw [Reference.groupCommitment, Except.ok.injEq] at hR
  have hfactor : ∀ a : Address, (a, ⟨G, G⟩) ∈ twoSigners.commitments.toList →
      factors[a]? = some 7 := by
    intro a ha
    rw [← hfactors, Std.ExtTreeMap.getElem?_map, (BTreeMap.mem_toList_iff _ _ _).mp ha]
    rfl
  have h1 := hfactor 1 (toList_twoSigners.mem_iff.mpr (by simp))
  have h2 := hfactor 2 (toList_twoSigners.mem_iff.mpr (by simp))
  have hsum : R = mulG 16 := by
    have hone : G + (7 : ZMod N).val • G = mulG 8 := by
      rw [← mulG_eq, ← mulG_one, ← map_add]
      norm_num
    rw [← hR, (toList_twoSigners.map _).sum_eq]
    simp only [List.map_cons, List.map_nil, List.sum_cons, List.sum_nil, h1, h2, Option.getD_some,
      hone, add_zero, ← map_add]
    norm_num
  rw [hsum, ← map_zero mulG]
  refine mulG_injective.ne ?_
  have h16 : ((16 : Nat) : ZMod N) ≠ 0 := by
    rw [ne_eq, ZMod.natCast_eq_zero_iff]
    norm_num [N]
  exact_mod_cast h16

theorem twoSigners_honest : twoSigners.Honest referenceSigning where
  nodup := twoSigners_nodup
  derive_injective := fun _ _ _ _ h => h
  enough := le_rfl
  verified e he := by
    rw [twoSigners_reveal he]
    exact ⟨_, verifyRevealedNonces_generator e.1⟩
  own e he := by
    rw [twoSigners_reveal he]
    rfl
  opened a _ := by
    have h := mul_one_generator.symm
    exact congrArg₂ SigningCommitments.mk h h
  degree_lt := by
    rw [twoSigners, ← Polynomial.C_1, Polynomial.degree_X_add_C]
    exact_mod_cast one_lt_two
  identifier_eq _ _ := rfl
  signingShare_eq a _ := by
    rw [twoSigners, Polynomial.eval_add, Polynomial.eval_X, Polynomial.eval_one]
    rfl
  verifyingKey_eq _ _ := rfl
  minSigners_eq _ _ := rfl
  key_eq := by
    rw [twoSigners, Polynomial.eval_add, Polynomial.eval_X, Polynomial.eval_one, zero_add, mulG_one]
    rfl
  key_ne := G_ne_zero
  commitment_ne _ _ hfactors hR := twoSigners_commitment_ne hfactors hR

/-- Both sign, the second having seen the reveals in the other order, and the sum of their shares
verifies. -/
theorem selection_agreed_two : ∃ submission : Address → ShareSubmission,
    signatureShare reference (twoSigners.keyShare 1) (twoSigners.nonces 1)
      (recorded reference [(1, ⟨⟨G, G⟩⟩), (2, ⟨⟨G, G⟩⟩)]) 7 = .ok (submission 1) ∧
    signatureShare reference (twoSigners.keyShare 2) (twoSigners.nonces 2)
      (recorded reference [(2, ⟨⟨G, G⟩⟩), (1, ⟨⟨G, G⟩⟩)]) 7 = .ok (submission 2) ∧
    ∃ shares', SignatureShares.registers Toy.libraries ⟨fun _ => ⟨fun _ => 0, ⟨zero, 0⟩⟩⟩
        [(submission 2).registration 2, (submission 1).registration 1] = some shares' ∧
      Verifies Reference.challenge (solidityPoint reference G)
        (shares'.groupSignature (submission 1).selection.root) 7 := by
  obtain ⟨submission, hsub, -, hsum⟩ :=
    (selection_agreed Toy.libraries_sortedPairs (by rfl)).2 referenceSigning twoSigners
      twoSigners_honest
  have h1 : (1 : Address) ∈ twoSigners.signers := by decide
  have h2 : (2 : Address) ∈ twoSigners.signers := by decide
  obtain ⟨shares', hshares', hverify⟩ := hsum [2, 1] ⟨fun _ => ⟨fun _ => 0, ⟨zero, 0⟩⟩⟩
    (List.Perm.swap _ _ _) fun _ _ => rfl
  exact ⟨submission, hsub 1 h1 _ (.refl _), hsub 2 h2 _ (List.Perm.swap _ _ _), shares', hshares',
    (hverify 1 h1).2⟩

end Frost

end Safenet
