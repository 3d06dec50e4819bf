/-
# Nonce chunks, offchain

`frost/preprocess.rs`: a chunk is sampled as a list of nonce pairs, the tree over the leaves of
their commitments is built once, and every pair is stored with its own proof, so that one nonce
can be revealed without the rest of the chunk.  The root is what `preprocess` publishes.

`NonceChunk.withSize` is that construction over the pairs the random number generator returned.
What the contract checks when a nonce of it is revealed is settled here once
(`Generated.opens`): the contract hashes the same leaf, and the stored proof leads from it to the
chunk's root.
-/
import Safenet.Frost.Curve
import Safenet.Contracts.NonceChunks

namespace Safenet

open Secp256k1

namespace Frost

variable (E : Crates)

/-! ## 1. Generation -/

/-- `keccak256(abi.encode(offset, d.x, d.y, e.x, e.y))`; the offset is the last eight bytes of
its word. -/
def noncesLeaf (offset : Nat) (nonces : SignNonces) : B256 :=
  E.keccak256 (List.replicate 24 0 ++ beBytes 8 offset ++ beBytes 32 nonces.d.x.val ++
    beBytes 32 nonces.d.y.val ++ beBytes 32 nonces.e.x.val ++ beBytes 32 nonces.e.y.val)

/-- `solidity_sign_nonces`. -/
def soliditySignNonces (commitments : SigningCommitments E.toCrateTypes) : SignNonces where
  d := solidityPoint E commitments.hidingNonce
  e := solidityPoint E commitments.bindingNonce

/-- `NonceChunk::with_size`, over the pairs that were sampled. -/
def NonceChunk.withSize (signingNonces : List (SigningNonces E.toCrateTypes)) : NonceChunk E :=
  let leaves := signingNonces.zipIdx.map fun e =>
    noncesLeaf E e.2 (soliditySignNonces E e.1.commitments)
  let tree := MerkleTree.build E.keccak256 leaves
  { nonces := signingNonces.zipIdx.map fun e => ⟨e.1, tree.proof e.2⟩
    commitment := tree.root }

/-- `NonceChunk::generate` can return the chunk. -/
def Generated (chunk : NonceChunk E) : Prop :=
  ∃ signingNonces : List (SigningNonces E.toCrateTypes),
    signingNonces.length = sequenceChunkSize ∧ chunk = NonceChunk.withSize E signingNonces

variable {E}

/-- The offsets and pairs of a chunk are those that were sampled, each with its proof. -/
theorem withSize_nonces {ns : List (SigningNonces E.toCrateTypes)} {offset : Nat} {n : Nonces E}
    (h : (NonceChunk.withSize E ns).nonces[offset]? = some n) :
    ns[offset]? = some n.signingNonces ∧ n.proof = (MerkleTree.build E.keccak256
      (ns.zipIdx.map fun e => noncesLeaf E e.2 (soliditySignNonces E e.1.commitments))).proof
        offset := by
  simp only [NonceChunk.withSize, List.getElem?_map, List.getElem?_zipIdx, Option.map_map,
    Option.map_eq_some_iff, Nat.zero_add] at h
  obtain ⟨s, hs, rfl⟩ := h
  exact ⟨hs, rfl⟩

/-! ## 2. What the contract makes of a nonce -/

/-- Eight bytes in a word of zeros. -/
theorem beBytes_padded {offset : Nat} (h : offset < 2 ^ 64) :
    List.replicate 24 0 ++ beBytes 8 offset = beBytes 32 offset := by
  refine beNat_injective (by simp) ?_
  rw [beNat_append, beNat_beBytes, beNat_beBytes, Nat.mod_eq_of_lt (by omega),
    Nat.mod_eq_of_lt (by omega), show beNat (List.replicate 24 0) = 0 from rfl, Nat.zero_mul,
    Nat.zero_add]

/-- The contract hashes the leaf the validator put in the tree. -/
theorem leaf_eq_noncesLeaf {L : ContractLibraries} (hkeccak : L.keccak256 = E.keccak256)
    {offset : Nat} (h : offset < 2 ^ 64) (nonces : SignNonces) :
    NonceCommitmentSet.leaf L offset nonces = noncesLeaf E offset nonces := by
  rw [NonceCommitmentSet.leaf, noncesLeaf, hkeccak, beBytes_padded h]
  simp only [B256.toBytes, List.append_assoc]

/-- **A generated chunk opens at every offset**: the reveal of its nonce has a proof of the length
the contract wants, and the proof leads from the leaf the contract hashes to the root. -/
theorem Generated.opens {L : ContractLibraries} (hL : L.SortedPairs)
    (hkeccak : L.keccak256 = E.keccak256) {chunk : NonceChunk E} (h : Generated E chunk)
    {offset : Nat} {n : Nonces E} (hn : chunk.nonces[offset]? = some n) :
    (n.reveal E).2.length = chunkBits ∧
      L.processProof (n.reveal E).2 (NonceCommitmentSet.leaf L offset (n.reveal E).1) =
        chunk.commitment := by
  obtain ⟨ns, hlen, rfl⟩ := h
  obtain ⟨hs, hproof⟩ := withSize_nonces hn
  obtain ⟨hlt, -⟩ := List.getElem?_eq_some_iff.mp hs
  rw [hlen, sequenceChunkSize] at hlt
  have hreveal : n.reveal E = (soliditySignNonces E n.signingNonces.commitments, n.proof) := rfl
  rw [hreveal, leaf_eq_noncesLeaf hkeccak (by omega),
    NonceCommitmentSet.processProof_eq_climb hL, hkeccak, hproof]
  refine ⟨MerkleTree.proof_length E.keccak256 chunkBits _ _ _ ?_ le_rfl,
    MerkleTree.climb_proof E.keccak256 _ _ _ _ le_rfl ?_⟩
  · rw [List.length_map, List.length_zipIdx, hlen]
    rfl
  · rw [List.getElem?_map, List.getElem?_zipIdx, hs, Option.map_some, Option.map_some, Nat.zero_add]

/-- The crates' points are on the curve, the identity apart. -/
theorem Curve.satisfiesCurveEquation (F : Curve E) {e : E.Element} (h : e ≠ E.identity) :
    satisfiesCurveEquation (solidityPoint E e) = true := by
  rw [F.solidityPoint_eq]
  have hne : F.point e ≠ 0 := fun hz => h ((F.point_eq_zero_iff e).mp hz)
  cases hp : F.point e with
  | zero => exact absurd hp hne
  | some x y hxy => exact satisfiesCurveEquation_some hxy.1

end Frost

end Safenet
