/-
# The storage libraries of the coordinator

`FROSTParticipantMap.sol`, `FROSTNonceCommitmentSet.sol`, `FROSTSignatureShares.sol`,
`FROSTGroupId.sol` and `FROSTSignatureId.sol`.  A Solidity mapping is a total function with a
default, a call that reverts returns `none`, and a counter that would leave its width reverts
too.

What the contracts link against and is not modelled here is in `ContractLibraries`: Keccak-256,
OpenZeppelin's Merkle proofs, and the two Schnorr checks of `FROST.sol`, which end in the
`ecrecover` precompile.
-/
import Safenet.Merkle
import Safenet.Contracts.Secp256k1

namespace Safenet

/-! ## 1. What is linked -/

/-- `FROST.Signature`. -/
structure FrostSignature where
  r : Point
  z : U256
  deriving DecidableEq

/-- What the contracts link against. -/
structure ContractLibraries where
  keccak256 : Bytes → B256
  /-- `MerkleProof.processProofCalldata`: the proof and the leaf. -/
  processProof : List B256 → B256 → B256
  /-- `MerkleProof.verifyCalldata`: the proof, the root and the leaf. -/
  merkleVerify : List B256 → B256 → B256 → Bool
  /-- `FROST.verify`: the group key, the signature and the message. -/
  frostVerify : Point → FrostSignature → B256 → Bool
  /-- `FROST.verifyShare`: the group key, the group commitment, the participant key, the share
  and the message. -/
  frostVerifyShare : Point → Point → Point → SignatureShare → B256 → Bool

/-- OpenZeppelin's documented behaviour: a proof is folded over the leaf, each pair sorted and
hashed with Keccak-256, and verifying compares the result with the root. -/
structure ContractLibraries.SortedPairs (L : ContractLibraries) : Prop where
  processProof_eq : ∀ proof leaf,
    L.processProof proof leaf = proof.foldl (hashPair L.keccak256) leaf
  merkleVerify_iff : ∀ proof root leaf,
    L.merkleVerify proof root leaf = true ↔ L.processProof proof leaf = root

/-- A checked decrement. -/
def checkedPred (n : Nat) : Option Nat := if n = 0 then none else some (n - 1)

/-- A checked increment of a `uint16`. -/
def checkedSucc16 (n : Nat) : Option Nat := if n + 1 < 2 ^ 16 then some (n + 1) else none

/-- A checked increment of a `uint64`. -/
def checkedSucc64 (n : Nat) : Option Nat := if n + 1 < 2 ^ 64 then some (n + 1) else none

theorem checkedPred_eq_some {n m : Nat} (h : checkedPred n = some m) : n = m + 1 := by
  unfold checkedPred at h
  split at h
  · exact absurd h (by simp)
  · rw [Option.some.injEq] at h
    omega

theorem checkedSucc16_eq_some {n m : Nat} (h : checkedSucc16 n = some m) : m = n + 1 := by
  unfold checkedSucc16 at h
  split at h
  · exact (Option.some.inj h).symm
  · exact absurd h (by simp)

theorem checkedSucc64_eq_some {n m : Nat} (h : checkedSucc64 n = some m) :
    m = n + 1 ∧ n + 1 < 2 ^ 64 := by
  unfold checkedSucc64 at h
  split at h
  · exact ⟨(Option.some.inj h).symm, by assumption⟩
  · exact absurd h (by simp)

/-! ## 2. Identifiers -/

/-- `FROSTGroupId.mask`: the low 64 bits cleared. -/
def maskGroupId (w : B256) : B256 :=
  ⟨w.val / 2 ^ 64 * 2 ^ 64, lt_of_le_of_lt (Nat.div_mul_le_self _ _) w.isLt⟩

namespace SignatureId

/-- `FROSTSignatureId.group`. -/
def group (sid : B256) : B256 := maskGroupId sid

/-- `FROSTSignatureId.sequence`: one less than the low 64 bits, unchecked. -/
def sequence (sid : B256) : Nat := (sid.val + (2 ^ 64 - 1)) % 2 ^ 64

end SignatureId

/-! ## 3. The participant map -/

/-- `ParticipantStatus`. -/
inductive ParticipantStatus where
  | none
  | registered
  | confirmed
  deriving DecidableEq

/-- `ComplaintStatus`. -/
inductive ComplaintStatus where
  | none
  | submitted
  | responded
  deriving DecidableEq

/-- `ParticipantState`: the unresolved complaints filed and the unresolved accusations. -/
structure ParticipantState where
  status : ParticipantStatus
  complaints : Nat
  accusations : Nat
  deriving DecidableEq

/-- `FROSTParticipantMap.T`. -/
structure ParticipantMap where
  root : B256
  states : Address → ParticipantState
  keys : Address → Point
  complaints : Address → Address → ComplaintStatus

namespace ParticipantMap

/-- Update one participant's state. -/
def setState (self : ParticipantMap) (a : Address) (s : ParticipantState) : ParticipantMap :=
  { self with states := Function.update self.states a s }

/-- Update one complaint. -/
def setComplaint (self : ParticipantMap) (plaintiff accused : Address) (s : ComplaintStatus) :
    ParticipantMap :=
  let row := Function.update (self.complaints plaintiff) accused s
  { self with complaints := Function.update self.complaints plaintiff row }

/-- `init`. -/
def init (self : ParticipantMap) (root : B256) : Option ParticipantMap :=
  if root ≠ 0 ∧ self.root = 0 then some { self with root } else none

/-- `register`, for a participant whose proof verifies. -/
def register (self : ParticipantMap) (participant : Address) : Option ParticipantMap :=
  if (self.states participant).status = .none then
    some (self.setState participant { self.states participant with status := .registered })
  else none

/-- `set`, for a key on the curve. -/
def set (self : ParticipantMap) (participant : Address) (y : Point) : Option ParticipantMap :=
  if (self.states participant).status = .registered ∧ self.keys participant = ⟨0, 0⟩ then
    some { self with keys := Function.update self.keys participant y }
  else none

/-- `complain`: the unresolved accusations against `accused` once this one is filed. -/
def complain (self : ParticipantMap) (plaintiff accused : Address) :
    Option (ParticipantMap × Nat) := do
  if plaintiff ≠ accused ∧ self.complaints plaintiff accused = .none ∧
      (self.states plaintiff).status = .registered ∧ (self.states accused).status ≠ .none then
    let complaints ← checkedSucc16 (self.states plaintiff).complaints
    let accusations ← checkedSucc16 (self.states accused).accusations
    let self := self.setComplaint plaintiff accused .submitted
    let self := self.setState plaintiff { self.states plaintiff with complaints }
    let self := self.setState accused { self.states accused with accusations }
    return (self, accusations)
  else none

/-- `respond`. -/
def respond (self : ParticipantMap) (plaintiff accused : Address) : Option ParticipantMap := do
  if self.complaints plaintiff accused = .submitted then
    let self := self.setComplaint plaintiff accused .responded
    let complaints ← checkedPred (self.states plaintiff).complaints
    let self := self.setState plaintiff { self.states plaintiff with complaints }
    let accusations ← checkedPred (self.states accused).accusations
    return self.setState accused { self.states accused with accusations }
  else none

/-- `confirm`. -/
def confirm (self : ParticipantMap) (participant : Address) : Option ParticipantMap :=
  if (self.states participant).status = .registered ∧ (self.states participant).complaints = 0 then
    some (self.setState participant { self.states participant with status := .confirmed })
  else none

/-! What each operation did when it returned. -/

theorem register_eq_some {m m' : ParticipantMap} {a : Address} (h : m.register a = some m') :
    (m.states a).status = .none ∧
      m' = m.setState a { m.states a with status := .registered } := by
  unfold register at h
  split at h
  · rename_i hs
    exact ⟨hs, (Option.some.inj h).symm⟩
  · exact absurd h (by simp)

theorem set_eq_some {m m' : ParticipantMap} {a : Address} {y : Point} (h : m.set a y = some m') :
    (m.states a).status = .registered ∧ m.keys a = ⟨0, 0⟩ ∧
      m' = { m with keys := Function.update m.keys a y } := by
  unfold set at h
  split at h
  · rename_i hs
    exact ⟨hs.1, hs.2, (Option.some.inj h).symm⟩
  · exact absurd h (by simp)

theorem confirm_eq_some {m m' : ParticipantMap} {a : Address} (h : m.confirm a = some m') :
    (m.states a).status = .registered ∧ (m.states a).complaints = 0 ∧
      m' = m.setState a { m.states a with status := .confirmed } := by
  unfold confirm at h
  split at h
  · rename_i hs
    exact ⟨hs.1, hs.2, (Option.some.inj h).symm⟩
  · exact absurd h (by simp)

/-- A complaint is new, by a registered plaintiff, and raises one counter on each side. -/
theorem complain_eq_some {m m' : ParticipantMap} {p a : Address} {n : Nat}
    (h : m.complain p a = some (m', n)) :
    p ≠ a ∧ m.complaints p a = .none ∧ (m.states p).status = .registered ∧
      (m.states a).status ≠ .none ∧ n = (m.states a).accusations + 1 ∧ m'.root = m.root ∧
      m'.keys = m.keys ∧ m'.complaints = (m.setComplaint p a .submitted).complaints ∧
      ∀ x, m'.states x = ⟨(m.states x).status,
        (m.states x).complaints + if x = p then 1 else 0,
        (m.states x).accusations + if x = a then 1 else 0⟩ := by
  unfold complain at h
  split at h
  · rename_i hg
    obtain ⟨hpa, hc, hp, ha⟩ := hg
    simp only [bind, Option.bind_eq_some_iff, pure, Option.some.injEq, Prod.mk.injEq] at h
    obtain ⟨c, hc', n', hn', rfl, rfl⟩ := h
    have hc'' := checkedSucc16_eq_some hc'
    have hn'' := checkedSucc16_eq_some hn'
    refine ⟨hpa, hc, hp, ha, hn'', rfl, rfl, rfl, fun x => ?_⟩
    by_cases hxa : x = a
    · subst hxa
      simp [setState, setComplaint, hn'', Ne.symm hpa]
    · by_cases hxp : x = p
      · subst hxp
        simp [setState, setComplaint, hc'', hpa]
      · simp [setState, setComplaint, hxa, hxp]
  · exact absurd h (by simp)

/-- A response answers an open complaint, and lowers one counter on each side. -/
theorem respond_eq_some {m m' : ParticipantMap} {p a : Address} (h : m.respond p a = some m') :
    m.complaints p a = .submitted ∧ m'.root = m.root ∧ m'.keys = m.keys ∧
      m'.complaints = (m.setComplaint p a .responded).complaints ∧
      ∀ x, m'.states x = ⟨(m.states x).status,
        (m.states x).complaints - (if x = p then 1 else 0),
        (m.states x).accusations - if x = a then 1 else 0⟩ := by
  unfold respond at h
  split at h
  · rename_i hc
    simp only [bind, Option.bind_eq_some_iff, pure, Option.some.injEq] at h
    obtain ⟨c, hc', n, hn', rfl⟩ := h
    have hc'' := checkedPred_eq_some hc'
    have hn'' := checkedPred_eq_some hn'
    refine ⟨hc, rfl, rfl, rfl, fun x => ?_⟩
    by_cases hpa : p = a
    · subst hpa
      by_cases hxp : x = p
      · subst hxp
        simp_all [setState, setComplaint]
      · simp [setState, setComplaint, hxp]
    · by_cases hxa : x = a
      · subst hxa
        have hn : (m.states x).accusations = n + 1 := by
          simpa [setState, setComplaint, Ne.symm hpa] using hn''
        simp [setState, setComplaint, Ne.symm hpa, hn]
      · by_cases hxp : x = p
        · subst hxp
          have hc3 : (m.states x).complaints = c + 1 := hc''
          simp [setState, setComplaint, hpa, hc3]
        · simp [setState, setComplaint, hxa, hxp]
  · exact absurd h (by simp)

/-- `verify`. -/
def verify (self : ParticipantMap) (participant : Address) : Bool :=
  (self.states participant).status = .confirmed

/-- `getKey`. -/
def getKey (self : ParticipantMap) (participant : Address) : Option Point :=
  if self.keys participant = ⟨0, 0⟩ then none else some (self.keys participant)

end ParticipantMap

/-! ## 4. The nonce commitment set -/

/-- `Commitments`: one participant's next chunk and its chunks' packed roots. -/
structure NonceCommitments where
  next : Nat
  chunks : Nat → B256

/-- `FROSTNonceCommitmentSet.T`. -/
structure NonceCommitmentSet where
  commitments : Address → NonceCommitments

/-- `_CHUNKSZ`. -/
def chunkBits : Nat := 10

/-- `_ROOTMASK`: the low ten bits cleared. -/
def maskRoot (w : B256) : B256 :=
  ⟨w.val / 2 ^ chunkBits * 2 ^ chunkBits, lt_of_le_of_lt (Nat.div_mul_le_self _ _) w.isLt⟩

namespace NonceCommitmentSet

variable (L : ContractLibraries)

/-- `_sequence`. -/
def sequence (seq : Nat) : Nat × Nat := (seq / 2 ^ chunkBits, seq % 2 ^ chunkBits)

/-- `_root`: the masked root with an offset in its low bits. -/
def packRoot (commitment : B256) (offset : Nat) : B256 :=
  Fin.ofNat _ ((maskRoot commitment).val ||| offset)

/-- `_root`, the other way. -/
def unpackRoot (root : B256) : B256 × Nat := (maskRoot root, root.val % 2 ^ chunkBits)

/-- `_hash`: the leaf of a nonce pair at an offset. -/
def leaf (offset : Nat) (nonces : SignNonces) : B256 :=
  L.keccak256 (beBytes 32 offset ++ (B256.toBytes nonces.d.x ++ B256.toBytes nonces.d.y) ++
    (B256.toBytes nonces.e.x ++ B256.toBytes nonces.e.y))

/-- The chunk and the start offset of the next commitment: the current ones, unless the
participant is already ahead. -/
def assign (next seq : Nat) : Nat × Nat :=
  let (chunk, offset) := sequence seq
  if chunk < next then (next, 0) else (chunk, offset)

/-- `commit`: the set with the commitment at its chunk, and the chunk. -/
def commit (self : NonceCommitmentSet) (participant : Address) (commitment : B256) (seq : Nat) :
    Option (NonceCommitmentSet × Nat) :=
  let commitments := self.commitments participant
  let chunk := (assign commitments.next seq).1
  let offset := (assign commitments.next seq).2
  (checkedSucc64 chunk).map fun next =>
    let chunks := Function.update commitments.chunks chunk (packRoot commitment offset)
    (⟨Function.update self.commitments participant { next, chunks }⟩, chunk)

/-- A commitment goes to a chunk the participant has not used, from an offset no sequence in
use has reached; that offset is not zero only when the sequence lies inside the chunk. -/
theorem assign_spec (next q : Nat) :
    next ≤ (assign next q).1 ∧ q ≤ (assign next q).1 * 2 ^ chunkBits + (assign next q).2 ∧
      ((assign next q).2 = 0 ∨ (assign next q).1 * 2 ^ chunkBits + (assign next q).2 = q) ∧
      (assign next q).2 < 2 ^ chunkBits := by
  have hq : q / 2 ^ chunkBits * 2 ^ chunkBits + q % 2 ^ chunkBits = q := by
    rw [Nat.mul_comm]
    exact Nat.div_add_mod q (2 ^ chunkBits)
  have hmod := Nat.mod_lt q (Nat.two_pow_pos chunkBits)
  by_cases hlt : q / 2 ^ chunkBits < next
  · have ha : assign next q = (next, 0) := if_pos hlt
    rw [ha]
    have hmul : (q / 2 ^ chunkBits + 1) * 2 ^ chunkBits ≤ next * 2 ^ chunkBits :=
      Nat.mul_le_mul_right _ hlt
    rw [Nat.add_mul] at hmul
    exact ⟨le_rfl, by dsimp only; omega, .inl rfl, Nat.two_pow_pos _⟩
  · have ha : assign next q = (q / 2 ^ chunkBits, q % 2 ^ chunkBits) := if_neg hlt
    rw [ha]
    exact ⟨not_lt.mp hlt, hq.ge, .inr hq, hmod⟩

theorem commit_eq_some {m m' : NonceCommitmentSet} {a : Address} {commitment : B256}
    {q chunk : Nat} (h : m.commit a commitment q = some (m', chunk)) :
    chunk = (assign (m.commitments a).next q).1 ∧
      m' = ⟨Function.update m.commitments a
        ⟨chunk + 1, Function.update (m.commitments a).chunks chunk
          (packRoot commitment (assign (m.commitments a).next q).2)⟩⟩ := by
  obtain ⟨next, hnext, hr⟩ := Option.map_eq_some_iff.mp h
  obtain ⟨rfl, -⟩ := checkedSucc64_eq_some hnext
  rw [Prod.mk.injEq] at hr
  obtain ⟨rfl, rfl⟩ := hr
  exact ⟨rfl, rfl⟩

/-- Packing is undone by unpacking, up to the bits of the root it overwrites. -/
theorem unpackRoot_packRoot (commitment : B256) {offset : Nat} (h : offset < 2 ^ chunkBits) :
    unpackRoot (packRoot commitment offset) = (maskRoot commitment, offset) := by
  have hlt := commitment.isLt
  have hor : (maskRoot commitment).val ||| offset =
      2 ^ chunkBits * (commitment.val / 2 ^ chunkBits) + offset := by
    rw [Nat.two_pow_add_eq_or_of_lt h, Nat.mul_comm]
    rfl
  have hdm := Nat.div_add_mod commitment.val (2 ^ chunkBits)
  have hval : (packRoot commitment offset).val =
      2 ^ chunkBits * (commitment.val / 2 ^ chunkBits) + offset := by
    rw [packRoot, Fin.val_ofNat, hor, Nat.mod_eq_of_lt]
    simp only [chunkBits] at h hdm ⊢
    omega
  have hmod : (packRoot commitment offset).val % 2 ^ chunkBits = offset := by
    rw [hval, Nat.mul_add_mod, Nat.mod_eq_of_lt h]
  have hdiv : (packRoot commitment offset).val / 2 ^ chunkBits = commitment.val / 2 ^ chunkBits := by
    rw [hval, Nat.mul_add_div (Nat.two_pow_pos _), Nat.div_eq_of_lt h, Nat.add_zero]
  rw [unpackRoot, hmod]
  exact congrArg (·, offset) (Fin.ext (by simp only [maskRoot, hdiv]))

/-- `verify`: the nonce pair is accepted for the sequence. -/
def verify (self : NonceCommitmentSet) (participant : Address) (nonces : SignNonces) (seq : Nat)
    (proof : List B256) : Bool :=
  let (chunk, offset) := sequence seq
  let (commitment, startOffset) := unpackRoot ((self.commitments participant).chunks chunk)
  Secp256k1.satisfiesCurveEquation nonces.d && Secp256k1.satisfiesCurveEquation nonces.e &&
    startOffset ≤ offset && proof.length = chunkBits &&
    maskRoot (L.processProof proof (leaf L offset nonces)) = commitment

end NonceCommitmentSet

/-! ## 5. The signature shares -/

/-- `Aggregate`: each participant's leaf, and the signature summed so far. -/
structure Aggregate where
  participants : Address → B256
  signature : FrostSignature

/-- `FROSTSignatureShares.T`. -/
structure SignatureShares where
  aggregates : B256 → Aggregate

namespace SignatureShares

variable (L : ContractLibraries)

/-- `_hash`: the leaf of a participant's share. -/
def leaf (participant : Address) (share : SignatureShare) (r : Point) : B256 :=
  L.keccak256 (beBytes 32 participant.val ++ (B256.toBytes share.r.x ++ B256.toBytes share.r.y) ++
    B256.toBytes share.l ++ (B256.toBytes r.x ++ B256.toBytes r.y))

/-- `register`: the shares with one more, and the signature it sums to. -/
def register (self : SignatureShares) (participant : Address) (share : SignatureShare)
    (r : Point) (root : B256) (proof : List B256) : Option (SignatureShares × FrostSignature) := do
  let aggregate := self.aggregates root
  if aggregate.participants participant = 0 ∧
      L.merkleVerify proof root (leaf L participant share r) then
    let sum ← Secp256k1.add aggregate.signature.r share.r
    let signature : FrostSignature :=
      ⟨sum, Fin.ofNat _ ((aggregate.signature.z.val + share.z.val) % Secp256k1.N)⟩
    let participants := Function.update aggregate.participants participant (leaf L participant share r)
    return (⟨Function.update self.aggregates root { participants, signature }⟩, signature)
  else none

/-- `groupSignature`. -/
def groupSignature (self : SignatureShares) (root : B256) : FrostSignature :=
  (self.aggregates root).signature

end SignatureShares

end Safenet
