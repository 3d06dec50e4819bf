/-
# One message, three encoders

What a validator group signs is hashed in three places: by the validators (`Consensus.lean`,
section 3), by the sentinel (`SentinelTransition.requestId`) and by the contracts, which build the
preimages in memory, with offsets written by hand and the last two steps in place over the first.
This module runs the contracts' assembly and proves that all three hash the same byte strings
(`messages_agree`, first part), and that the byte strings determine the packet and the domain as
far as Keccak-256 has no collision among them (second part).

The contracts carry the type hashes as constants; `TypeHashes` says that they are the hashes of
the type strings.
-/
import Safenet.Contracts.Consensus
import Safenet.Contracts.Hashing
import Safenet.Sentinel.Service

namespace Safenet

open Cells

/-! ## 1. The type hashes -/

/-- `DOMAIN_TYPEHASH`. -/
def domainTypehash : Nat := 0x47e79534a245952e8b16893a336b85a3d9ea9fa8c573f3d803afb92a79469218

/-- `EPOCH_ROLLOVER_TYPEHASH`. -/
def epochRolloverTypehash : Nat :=
  0x13de01993286119c9a7628720a5b7d7c32841dbf2d23752b59de86a7e03fe1bf

/-- `TRANSACTION_PROPOSAL_TYPEHASH`. -/
def transactionProposalTypehash : Nat :=
  0x9c6706f5afdb1de99f5ad39011e7770ce471f51d78380634f6cedb21a648b8d0

/-- `SAFE_TX_TYPEHASH`. -/
def safeTxTypehash : Nat := 0xbb8310d486368db6bd6f849402fdd73ad53d316b5a4b2644ad6efe0f941286d8

/-- The constants are the hashes of the type strings. -/
structure TypeHashes (keccak256 : Bytes → B256) : Prop where
  domain : (keccak256 (asBytes
    "EIP712Domain(uint256 chainId,address verifyingContract)")).val = domainTypehash
  epochRollover : (keccak256 (asBytes
    "EpochRollover(uint64 activeEpoch,uint64 proposedEpoch,uint64 rolloverBlock,uint256 groupKeyX,uint256 groupKeyY)")).val =
      epochRolloverTypehash
  transactionProposal : (keccak256 (asBytes
    "TransactionProposal(uint64 epoch,address oracle,bytes oracleData,bytes32 safeTxHash)")).val =
      transactionProposalTypehash
  safeTx : (keccak256 (asBytes
    "SafeTx(address to,uint256 value,bytes data,uint8 operation,uint256 safeTxGas,uint256 baseGas,uint256 gasPrice,address gasToken,address refundReceiver,uint256 nonce)")).val =
      safeTxTypehash

/-- The words of a struct, one after the other. -/
def words (values : List Nat) : Bytes := values.flatMap (beBytes 32)

/-- The words of a struct determine its values. -/
theorem words_injective {xs ys : List Nat} (hx : ∀ v ∈ xs, v < 2 ^ 256) (hy : ∀ v ∈ ys, v < 2 ^ 256)
    (h : words xs = words ys) : xs = ys := by
  induction xs generalizing ys with
  | nil =>
    cases ys with
    | nil => rfl
    | cons y ys => exact absurd (congrArg List.length h) (by simp [words]; omega)
  | cons x xs ih =>
    cases ys with
    | nil => exact absurd (congrArg List.length h) (by simp [words])
    | cons y ys =>
      rw [List.forall_mem_cons] at hx hy
      rw [words, words, List.flatMap_cons, List.flatMap_cons] at h
      obtain ⟨hhead, htail⟩ := List.append_inj h (by simp)
      have hmod := beBytes_mod hhead
      rw [show 256 ^ 32 = 2 ^ 256 by decide, Nat.mod_eq_of_lt hx.1, Nat.mod_eq_of_lt hy.1] at hmod
      rw [hmod, ih hx.2 hy.2 htail]

/-! ## 2. The contracts' assembly -/

namespace Assembly

variable (keccak256 : Bytes → B256)

/-- `ConsensusMessages.domain`. -/
def domain (m : Memory) (chainId : Nat) (verifyingContract : Address) : Memory × B256 :=
  let ptr := mload m 0x40
  let m := mstore m ptr domainTypehash
  let m := mstore m (ptr + 0x20) chainId
  let m := mstore m (ptr + 0x40) verifyingContract.val
  (m, keccak256 (read m ptr 0x60))

/-- The end that both messages share: the struct hash, the EIP-191 bytes before it and the
separator between them, each over a part of what was there. -/
def message (m : Memory) (ptr : Nat) (domainSeparator structHash : B256) : Memory × B256 :=
  let m := mstore m (ptr + 0x22) structHash.val
  let m := mstore m ptr (0x1901 <<< 240)
  let m := mstore m (ptr + 0x02) domainSeparator.val
  (m, keccak256 (read m ptr 0x42))

/-- `ConsensusMessages.epochRollover`, with the key in memory. -/
def epochRollover (m : Memory) (domainSeparator : B256)
    (activeEpoch proposedEpoch rolloverBlock groupKey : Nat) : Memory × B256 :=
  let ptr := mload m 0x40
  let m := mstore m ptr epochRolloverTypehash
  let m := mstore m (ptr + 0x20) activeEpoch
  let m := mstore m (ptr + 0x40) proposedEpoch
  let m := mstore m (ptr + 0x60) rolloverBlock
  let m := mcopy m (ptr + 0x80) groupKey 0x40
  message keccak256 m ptr domainSeparator (keccak256 (read m ptr 0xc0))

/-- `ConsensusMessages.transactionProposal`. -/
def transactionProposal (m : Memory) (domainSeparator : B256) (epoch : Nat) (oracle : Address)
    (oracleDataHash safeTxHash : B256) : Memory × B256 :=
  let ptr := mload m 0x40
  let m := mstore m ptr transactionProposalTypehash
  let m := mstore m (ptr + 0x20) epoch
  let m := mstore m (ptr + 0x40) oracle.val
  let m := mstore m (ptr + 0x60) oracleDataHash.val
  let m := mstore m (ptr + 0x80) safeTxHash.val
  message keccak256 m ptr domainSeparator (keccak256 (read m ptr 0xa0))

/-- `SafeTransaction.partialHash`. -/
def partialHash (m : Memory) (chainId : Nat) (safe : Address) (safeTxStructHash : B256) :
    Memory × B256 :=
  let ptr := mload m 0x40
  let m := mstore m ptr domainTypehash
  let m := mstore m (ptr + 0x20) chainId
  let m := mstore m (ptr + 0x40) safe.val
  let domainSeparator := keccak256 (read m ptr 0x60)
  let m := mstore m ptr 0x1901
  let m := mstore m (ptr + 0x20) domainSeparator.val
  let m := mstore m (ptr + 0x40) safeTxStructHash.val
  (m, keccak256 (read m (ptr + 0x1e) 0x42))

/-- `SafeTransaction.hash`, of the struct at `self`. -/
def hash (m : Memory) (self : Nat) : Memory × B256 :=
  let ptr := mload m 0x40
  let m := mstore m ptr safeTxTypehash
  let m := mcopy m (ptr + 0x20) (self + 0x40) 0x140
  let data := mload m (self + 0x80)
  let m := mstore m (ptr + 0x60) (keccak256 (read m (data + 0x20) (mload m data))).val
  let safeTxStructHash := keccak256 (read m ptr 0x160)
  partialHash keccak256 m (mload m self) (Fin.ofNat _ (mload m (self + 0x20))) safeTxStructHash

/-- A `Secp256k1.Point memory`, below the free memory pointer. -/
structure PointAt (m : Memory) (p : Nat) (key : Point) : Prop where
  words : read m p 0x40 = words [key.x.val, key.y.val]
  allocated : p + 0x40 ≤ mload m 0x40

/-- A `SafeTransaction.T memory` and its data, below the free memory pointer. -/
structure TransactionAt (m : Memory) (p : Nat) (tx : SafeTransaction) : Prop where
  chainId : mload m p = tx.chainId.val
  safe : mload m (p + 0x20) = tx.safe.val
  head : read m (p + 0x40) 0x40 = words [tx.to.val, tx.value.val]
  data : BytesAt m (mload m (p + 0x80)) tx.data
  tail : read m (p + 0xa0) 0xe0 =
    words [tx.operation.toNat, tx.safeTxGas.val, tx.baseGas.val, tx.gasPrice.val,
      tx.gasToken.val, tx.refundReceiver.val, tx.nonce.val]
  allocated : p + 0x180 ≤ mload m 0x40
  dataAllocated : mload m (p + 0x80) + 0x20 + tx.data.length ≤ mload m 0x40

/-! ## 3. What the assembly hashes -/

section Words

variable {m : Memory} {ptr n v : Nat}

/-- A word stored behind a window extends it. -/
theorem read_mstore_append (m : Memory) (ptr n v : Nat) :
    read (mstore m (ptr + n) v) ptr (n + 0x20) = read m ptr n ++ beBytes 32 v := by
  rw [read_add, read_mstore_word, (mstore_keeps m (ptr + n) v).read_eq (.inl le_rfl)]

/-- What is copied behind a window extends it. -/
theorem read_mcopy_append (m : Memory) (ptr n src len : Nat) :
    read (mcopy m (ptr + n) src len) ptr (n + len) = read m ptr n ++ read m src len := by
  rw [read_add, read_mcopy, (mcopy_keeps m (ptr + n) src len).read_eq (.inl le_rfl)]

/-- A part of a copied window is the part of its source. -/
theorem read_mcopy_part (m : Memory) (dst src : Nat) {a n len : Nat} (h : a + n ≤ len) :
    read (mcopy m dst src len) (dst + a) n = read m (src + a) n := by
  obtain ⟨rest, rfl⟩ := Nat.exists_eq_add_of_le h
  have hwhole := read_mcopy m dst src (a + n + rest)
  rw [read_add, read_add, read_add m, read_add m] at hwhole
  exact (List.append_inj (List.append_inj hwhole (by simp)).1 (by simp)).2

/-- Three words in a row. -/
theorem read_three (m : Memory) (ptr a b c : Nat) :
    read (mstore (mstore (mstore m ptr a) (ptr + 0x20) b) (ptr + 0x40) c) ptr 0x60 =
      beBytes 32 a ++ beBytes 32 b ++ beBytes 32 c := by
  rw [read_mstore_append _ ptr 0x40, read_mstore_append _ ptr 0x20, read_mstore_word]

end Words

section Hashing

variable {keccak256 : Bytes → B256} {m : Memory}

theorem beBytes_typehash {typeString : Bytes} {typehash : Nat}
    (h : (keccak256 typeString).val = typehash) :
    beBytes 32 typehash = B256.toBytes (keccak256 typeString) := by
  rw [← h, B256.toBytes]

theorem domain_eq (hK : TypeHashes keccak256) (m : Memory) (chainId : Nat)
    (verifyingContract : Address) :
    (domain keccak256 m chainId verifyingContract).2 =
      domainSeparator keccak256 chainId verifyingContract := by
  unfold domain
  dsimp only
  rw [read_three, beBytes_typehash hK.domain]
  rfl

/-- The two bytes before the separator and the two parts behind them are hashed, whatever the
words under them held. -/
theorem message_eq (m : Memory) (ptr : Nat) (domainSeparator structHash : B256) :
    (message keccak256 m ptr domainSeparator structHash).2 =
      signingHash keccak256 domainSeparator structHash := by
  unfold message
  dsimp only
  set m₁ := mstore m (ptr + 0x22) structHash.val
  set m₂ := mstore m₁ ptr (0x1901 <<< 240)
  set m₃ := mstore m₂ (ptr + 0x02) domainSeparator.val
  have hhead : read m₃ ptr 2 = [0x19, 0x01] := by
    rw [(mstore_keeps m₂ (ptr + 0x02) _).read_eq (.inl le_rfl), read_mstore m₁ ptr _ (by decide)]
    decide +kernel
  have hseparator : read m₃ (ptr + 2) 32 = B256.toBytes domainSeparator :=
    read_mstore_word m₂ (ptr + 0x02) _
  have hstruct : read m₃ (ptr + 0x22) 32 = B256.toBytes structHash := by
    rw [(mstore_keeps m₂ (ptr + 0x02) _).read_eq (.inr le_rfl),
      (mstore_keeps m₁ ptr _).read_eq (.inr (by omega))]
    exact read_mstore_word m (ptr + 0x22) _
  rw [show (0x42 : Nat) = 2 + 32 + 32 from rfl, read_add, read_add, hhead, hseparator,
    show ptr + (2 + 32) = ptr + 0x22 from rfl, hstruct, signingHash]

theorem transactionProposal_eq (hK : TypeHashes keccak256) (m : Memory) (domainSeparator : B256)
    (epoch : Nat) (oracle : Address) (oracleDataHash safeTxHash : B256) :
    (transactionProposal keccak256 m domainSeparator epoch oracle oracleDataHash safeTxHash).2 =
      ConsensusMessages.transactionProposal keccak256 domainSeparator epoch oracle oracleDataHash
        safeTxHash := by
  unfold transactionProposal
  dsimp only
  rw [message_eq, read_mstore_append _ _ 0x80, read_mstore_append _ _ 0x60, read_three,
    beBytes_typehash hK.transactionProposal]
  rfl

/-- The key is copied from memory that the words before it do not touch. -/
theorem epochRollover_eq (hK : TypeHashes keccak256) {groupKey : Nat} {key : Point}
    (hkey : PointAt m groupKey key) (domainSeparator : B256)
    (activeEpoch proposedEpoch rolloverBlock : Nat) :
    (epochRollover keccak256 m domainSeparator activeEpoch proposedEpoch rolloverBlock
      groupKey).2 =
      ConsensusMessages.epochRollover keccak256 domainSeparator activeEpoch proposedEpoch
        rolloverBlock key := by
  have hbelow := hkey.allocated
  unfold epochRollover
  dsimp only
  set ptr := mload m 0x40
  set m₁ := mstore m ptr epochRolloverTypehash
  set m₂ := mstore m₁ (ptr + 0x20) activeEpoch
  set m₃ := mstore m₂ (ptr + 0x40) proposedEpoch
  set m₄ := mstore m₃ (ptr + 0x60) rolloverBlock
  have hcopied : read m₄ groupKey 0x40 = words [key.x.val, key.y.val] := by
    rw [(mstore_keeps m₃ _ _).read_eq (.inl (by omega)),
      (mstore_keeps m₂ _ _).read_eq (.inl (by omega)),
      (mstore_keeps m₁ _ _).read_eq (.inl (by omega)),
      (mstore_keeps m ptr _).read_eq (.inl hbelow), hkey.words]
  rw [message_eq, read_mcopy_append _ ptr 0x80, hcopied, read_mstore_append _ ptr 0x60, read_three,
    beBytes_typehash hK.epochRollover]
  simp only [ConsensusMessages.epochRollover, words, List.flatMap_cons, List.flatMap_nil,
    List.append_nil, List.append_assoc]

/-- The EIP-191 bytes end the first word. -/
theorem partialHash_eq (hK : TypeHashes keccak256) (m : Memory) (chainId : Nat) (safe : Address)
    (safeTxStructHash : B256) :
    (partialHash keccak256 m chainId safe safeTxStructHash).2 =
      signingHash keccak256 (domainSeparator keccak256 chainId safe) safeTxStructHash := by
  unfold partialHash
  dsimp only
  rw [read_three, beBytes_typehash hK.domain]
  set ptr := mload m 0x40
  set separator := keccak256 (B256.toBytes (keccak256
    (asBytes "EIP712Domain(uint256 chainId,address verifyingContract)")) ++ beBytes 32 chainId ++
    beBytes 32 safe.val)
  set m₁ := mstore (mstore (mstore m ptr domainTypehash) (ptr + 0x20) chainId) (ptr + 0x40) safe.val
  have hwords := read_three m₁ ptr 0x1901 separator.val safeTxStructHash.val
  rw [show (0x60 : Nat) = 0x1e + 0x42 from rfl, read_add,
    show beBytes 32 0x1901 = List.replicate 30 0 ++ [0x19, 0x01] by decide +kernel,
    List.append_assoc, List.append_assoc] at hwords
  rw [(List.append_inj hwords (by simp)).2, signingHash, List.append_assoc]
  rfl

/-- The copied words, with the data's hash in the place of its pointer. -/
theorem hash_eq (hK : TypeHashes keccak256) {self : Nat} {tx : SafeTransaction}
    (htx : TransactionAt m self tx) :
    (hash keccak256 m self).2 = safeTxHash keccak256 tx := by
  have hbelow := htx.allocated
  have hdataBelow := htx.dataAllocated
  unfold hash
  dsimp only
  rw [partialHash_eq hK]
  set ptr := mload m 0x40
  set m₁ := mstore m ptr safeTxTypehash
  set m₂ := mcopy m₁ (ptr + 0x20) (self + 0x40) 0x140
  have k₁ : KeepsOutside m m₁ ptr (ptr + 0x160) := (mstore_keeps m ptr _).mono le_rfl (by omega)
  have k₂ : KeepsOutside m m₂ ptr (ptr + 0x160) :=
    k₁.trans ((mcopy_keeps m₁ _ _ _).mono (by omega) (by omega))
  have hpointer : mload m₂ (self + 0x80) = mload m (self + 0x80) := mload_eq k₂ (.inl (by omega))
  have hdata : BytesAt m₂ (mload m (self + 0x80)) tx.data := htx.data.keep k₂ (.inl hdataBelow)
  rw [hpointer, hdata.length, hdata.bytes]
  set m₃ := mstore m₂ (ptr + 0x60) (keccak256 tx.data).val
  have k₃ : KeepsOutside m₂ m₃ (ptr + 0x60) (ptr + 0x80) := mstore_keeps m₂ _ _
  have hbegin : read m₃ ptr 0x60 = beBytes 32 safeTxTypehash ++ words [tx.to.val, tx.value.val] := by
    have hfirst : read m₂ ptr 0x20 = beBytes 32 safeTxTypehash := by
      rw [(mcopy_keeps m₁ _ _ _).read_eq (.inl le_rfl), read_mstore_word]
    have hcopied : read m₂ (ptr + 0x20) 0x40 = read m₁ (self + 0x40) 0x40 :=
      read_mcopy_part m₁ (ptr + 0x20) (self + 0x40) (a := 0) (by decide)
    rw [k₃.read_eq (.inl le_rfl), show (0x60 : Nat) = 0x20 + 0x40 from rfl, read_add, hfirst, hcopied,
      k₁.read_eq (.inl (by omega)), htx.head]
  have hend : read m₃ (ptr + 0x80) 0xe0 = read m (self + 0xa0) 0xe0 := by
    have hcopied : read m₂ (ptr + 0x80) 0xe0 = read m₁ (self + 0xa0) 0xe0 :=
      read_mcopy_part m₁ (ptr + 0x20) (self + 0x40) (a := 0x60) (by decide)
    rw [k₃.read_eq (.inr le_rfl), hcopied, k₁.read_eq (.inl (by omega))]
  have hwhole : read m₃ ptr 0x160 = beBytes 32 safeTxTypehash ++ words [tx.to.val, tx.value.val] ++
      B256.toBytes (keccak256 tx.data) ++ read m (self + 0xa0) 0xe0 := by
    rw [show (0x160 : Nat) = 0x60 + 0x20 + 0xe0 from rfl, read_add, read_add, hbegin,
      show ptr + (0x60 + 0x20) = ptr + 0x80 from rfl, hend]
    exact congrArg (_ ++ · ++ _) (read_mstore_word m₂ (ptr + 0x60) _)
  have hsame : ∀ p, p + 0x20 ≤ ptr → mload m₃ p = mload m p := fun p hp => by
    rw [mload_eq k₃ (.inl (by omega)), mload_eq k₂ (.inl hp)]
  have hsafe : Fin.ofNat _ (mload m₃ (self + 0x20)) = tx.safe := by
    rw [hsame _ (by omega), htx.safe, Fin.ofNat_val_eq_self]
  rw [hwhole, htx.tail, hsame self (by omega), htx.chainId, hsafe, beBytes_typehash hK.safeTx]
  simp only [safeTxHash, safeTxStructHash, words, List.flatMap_cons, List.flatMap_nil,
    List.append_nil, List.append_assoc]

end Hashing

end Assembly

/-! ## 4. Packets and their preimages -/

/-- A packet, as the struct that is signed carries it. -/
inductive SignedPacket where
  | transactionProposal (epoch : Fin (2 ^ 64)) (oracle : Address) (oracleData : Bytes)
      (transaction : SafeTransaction)
  | epochRollover (activeEpoch proposedEpoch rolloverBlock : Fin (2 ^ 64)) (groupKey : Point)

section Preimages

variable (keccak256 : Bytes → B256)

/-- What the separator of a domain hashes. -/
def domainPreimage (chainId : U256) (verifyingContract : Address) : Bytes :=
  words [(keccak256 (asBytes "EIP712Domain(uint256 chainId,address verifyingContract)")).val,
    chainId.val, verifyingContract.val]

/-- What a message hashes. -/
def signingPreimage (separator structHash : B256) : Bytes :=
  [0x19, 0x01] ++ words [separator.val, structHash.val]

/-- What the struct hash of a Safe transaction hashes. -/
def safeTxPreimage (tx : SafeTransaction) : Bytes :=
  words [(keccak256 (asBytes
      "SafeTx(address to,uint256 value,bytes data,uint8 operation,uint256 safeTxGas,uint256 baseGas,uint256 gasPrice,address gasToken,address refundReceiver,uint256 nonce)")).val,
    tx.to.val, tx.value.val, (keccak256 tx.data).val, tx.operation.toNat, tx.safeTxGas.val,
    tx.baseGas.val, tx.gasPrice.val, tx.gasToken.val, tx.refundReceiver.val, tx.nonce.val]

/-- All that the hash of a Safe transaction hashes, the type strings apart. -/
def safeTxPreimages (tx : SafeTransaction) : Set Bytes :=
  {tx.data, domainPreimage keccak256 tx.chainId tx.safe, safeTxPreimage keccak256 tx,
    signingPreimage (domainSeparator keccak256 tx.chainId.val tx.safe)
      (safeTxStructHash keccak256 tx)}

namespace SignedPacket

/-- What the struct hash of a packet hashes. -/
def structPreimage : SignedPacket → Bytes
  | .transactionProposal epoch oracle oracleData transaction =>
    words [(keccak256 (asBytes
        "TransactionProposal(uint64 epoch,address oracle,bytes oracleData,bytes32 safeTxHash)")).val,
      epoch.val, oracle.val, (keccak256 oracleData).val, (safeTxHash keccak256 transaction).val]
  | .epochRollover activeEpoch proposedEpoch rolloverBlock groupKey =>
    words [(keccak256 (asBytes
        "EpochRollover(uint64 activeEpoch,uint64 proposedEpoch,uint64 rolloverBlock,uint256 groupKeyX,uint256 groupKeyY)")).val,
      activeEpoch.val, proposedEpoch.val, rolloverBlock.val, groupKey.x.val, groupKey.y.val]

/-- The message that is signed for a packet. -/
def message (chain : U256) (consensus : Address) : SignedPacket → B256
  | .transactionProposal epoch oracle oracleData transaction =>
    ConsensusMessages.transactionProposal keccak256
      (domainSeparator keccak256 chain.val consensus) epoch.val oracle (keccak256 oracleData)
      (safeTxHash keccak256 transaction)
  | .epochRollover activeEpoch proposedEpoch rolloverBlock groupKey =>
    ConsensusMessages.epochRollover keccak256 (domainSeparator keccak256 chain.val consensus)
      activeEpoch.val proposedEpoch.val rolloverBlock.val groupKey

/-- What a packet embeds by its hash. -/
def embedded : SignedPacket → Set Bytes
  | .transactionProposal _ _ oracleData transaction =>
    insert oracleData (safeTxPreimages keccak256 transaction)
  | .epochRollover .. => ∅

/-- All that is hashed on the way to a packet's message, the type strings apart. -/
def preimages (chain : U256) (consensus : Address) (packet : SignedPacket) : Set Bytes :=
  {domainPreimage keccak256 chain consensus, packet.structPreimage keccak256,
    signingPreimage (domainSeparator keccak256 chain.val consensus)
      (keccak256 (packet.structPreimage keccak256))} ∪ packet.embedded keccak256

end SignedPacket

theorem domainSeparator_eq (chainId : U256) (verifyingContract : Address) :
    domainSeparator keccak256 chainId.val verifyingContract =
      keccak256 (domainPreimage keccak256 chainId verifyingContract) := by
  simp only [domainSeparator, domainPreimage, words, List.flatMap_cons, List.flatMap_nil,
    List.append_nil, List.append_assoc, B256.toBytes]

theorem signingHash_eq (separator structHash : B256) :
    signingHash keccak256 separator structHash =
      keccak256 (signingPreimage separator structHash) := by
  simp only [signingHash, signingPreimage, words, List.flatMap_cons, List.flatMap_nil,
    List.append_nil, List.append_assoc, B256.toBytes]

theorem safeTxStructHash_eq (tx : SafeTransaction) :
    safeTxStructHash keccak256 tx = keccak256 (safeTxPreimage keccak256 tx) := by
  simp only [safeTxStructHash, safeTxPreimage, words, List.flatMap_cons, List.flatMap_nil,
    List.append_nil, List.append_assoc, B256.toBytes]

theorem SignedPacket.message_eq (chain : U256) (consensus : Address) (packet : SignedPacket) :
    packet.message keccak256 chain consensus =
      keccak256 (signingPreimage (domainSeparator keccak256 chain.val consensus)
        (keccak256 (packet.structPreimage keccak256))) := by
  rw [← signingHash_eq keccak256]
  cases packet <;>
    simp only [message, ConsensusMessages.transactionProposal, ConsensusMessages.epochRollover,
      structPreimage, words, List.flatMap_cons, List.flatMap_nil, List.append_nil,
      List.append_assoc, B256.toBytes]

end Preimages

/-! ## 5. What the preimages determine -/

section Determined

variable {keccak256 : Bytes → B256} {hashed : Set Bytes}

theorem signingPreimage_injective {a b a' b' : B256}
    (h : signingPreimage a b = signingPreimage a' b') : a = a' ∧ b = b' := by
  have hwords := words_injective (by simp) (by simp) (List.append_cancel_left h)
  simp only [List.cons.injEq, and_true] at hwords
  exact ⟨Fin.ext hwords.1, Fin.ext hwords.2⟩

/-- A separator determines its domain. -/
theorem domainSeparator_injective (hfree : hashed.InjOn keccak256) {chainId chainId' : U256}
    {verifyingContract verifyingContract' : Address}
    (hmem : domainPreimage keccak256 chainId verifyingContract ∈ hashed)
    (hmem' : domainPreimage keccak256 chainId' verifyingContract' ∈ hashed)
    (h : domainSeparator keccak256 chainId.val verifyingContract =
      domainSeparator keccak256 chainId'.val verifyingContract') :
    chainId = chainId' ∧ verifyingContract = verifyingContract' := by
  rw [domainSeparator_eq, domainSeparator_eq] at h
  have hwords := words_injective (by simp; omega) (by simp; omega) (hfree hmem hmem' h)
  simp only [List.cons.injEq, and_true, true_and] at hwords
  exact ⟨Fin.ext hwords.1, Fin.ext hwords.2⟩

theorem Operation.toNat_injective : Function.Injective Operation.toNat := by
  rintro (_ | _) (_ | _) h
  · rfl
  · cases h
  · cases h
  · rfl

theorem safeTxWords_lt (tx : SafeTransaction) : ∀ v ∈ [(keccak256 (asBytes
      "SafeTx(address to,uint256 value,bytes data,uint8 operation,uint256 safeTxGas,uint256 baseGas,uint256 gasPrice,address gasToken,address refundReceiver,uint256 nonce)")).val,
    tx.to.val, tx.value.val, (keccak256 tx.data).val, tx.operation.toNat, tx.safeTxGas.val,
    tx.baseGas.val, tx.gasPrice.val, tx.gasToken.val, tx.refundReceiver.val, tx.nonce.val],
    v < 2 ^ 256 := by
  have hop : tx.operation.toNat < 2 := by cases tx.operation <;> decide
  simp
  omega

/-- A transaction hash determines the transaction. -/
theorem safeTxHash_injective (hfree : hashed.InjOn keccak256) {tx tx' : SafeTransaction}
    (hsub : safeTxPreimages keccak256 tx ⊆ hashed) (hsub' : safeTxPreimages keccak256 tx' ⊆ hashed)
    (h : safeTxHash keccak256 tx = safeTxHash keccak256 tx') : tx = tx' := by
  rw [safeTxHash, safeTxHash, signingHash_eq, signingHash_eq] at h
  obtain ⟨hseparator, hstruct⟩ := signingPreimage_injective
    (hfree (hsub (by simp [safeTxPreimages])) (hsub' (by simp [safeTxPreimages])) h)
  obtain ⟨hchain, hsafe⟩ := domainSeparator_injective hfree (hsub (by simp [safeTxPreimages]))
    (hsub' (by simp [safeTxPreimages])) hseparator
  rw [safeTxStructHash_eq, safeTxStructHash_eq] at hstruct
  have hpreimage := hfree (hsub (by simp [safeTxPreimages])) (hsub' (by simp [safeTxPreimages])) hstruct
  have hwords := words_injective (safeTxWords_lt tx) (safeTxWords_lt tx') hpreimage
  simp only [List.cons.injEq, and_true, true_and] at hwords
  obtain ⟨hto, hvalue, hdata, hop, hgas, hbase, hprice, htoken, hreceiver, hnonce⟩ := hwords
  have hdata := hfree (hsub (by simp [safeTxPreimages])) (hsub' (by simp [safeTxPreimages]))
    (Fin.ext hdata)
  cases tx
  cases tx'
  simp only [SafeTransaction.mk.injEq]
  exact ⟨hchain, hsafe, Fin.ext hto, Fin.ext hvalue, hdata, Operation.toNat_injective hop,
    Fin.ext hgas, Fin.ext hbase, Fin.ext hprice, Fin.ext htoken, Fin.ext hreceiver, Fin.ext hnonce⟩

/-- The struct of a packet determines the packet; the two kinds differ in their length. -/
theorem SignedPacket.structPreimage_injective (hfree : hashed.InjOn keccak256)
    {p p' : SignedPacket} (hsub : p.embedded keccak256 ⊆ hashed)
    (hsub' : p'.embedded keccak256 ⊆ hashed)
    (h : p.structPreimage keccak256 = p'.structPreimage keccak256) : p = p' := by
  cases p with
  | transactionProposal epoch oracle oracleData tx =>
    cases p' with
    | transactionProposal epoch' oracle' oracleData' tx' =>
      have hwords := words_injective (by simp; omega) (by simp; omega) h
      simp only [List.cons.injEq, and_true, true_and] at hwords
      obtain ⟨hepoch, horacle, hdata, htx⟩ := hwords
      rw [embedded, Set.insert_subset_iff] at hsub hsub'
      rw [Fin.ext hepoch, Fin.ext horacle, hfree hsub.1 hsub'.1 (Fin.ext hdata),
        safeTxHash_injective hfree hsub.2 hsub'.2 (Fin.ext htx)]
    | epochRollover => exact absurd (congrArg List.length h) (by simp [structPreimage, words])
  | epochRollover activeEpoch proposedEpoch rolloverBlock groupKey =>
    cases p' with
    | transactionProposal => exact absurd (congrArg List.length h) (by simp [structPreimage, words])
    | epochRollover activeEpoch' proposedEpoch' rolloverBlock' groupKey' =>
      have hwords := words_injective (by simp; omega) (by simp; omega) h
      simp only [List.cons.injEq, and_true, true_and] at hwords
      obtain ⟨hactive, hproposed, hblock, hx, hy⟩ := hwords
      rw [Fin.ext hactive, Fin.ext hproposed, Fin.ext hblock,
        show groupKey = groupKey' by
          cases groupKey
          cases groupKey'
          exact congrArg₂ Point.mk (Fin.ext hx) (Fin.ext hy)]

end Determined

/-! ## 6. The encoders agree -/

theorem EpochId.rawValue_fromRaw (n : Nat) : (EpochId.fromRaw n).rawValue = n := by
  unfold fromRaw
  split
  · rfl
  · next h => exact (Nat.eq_zero_of_not_pos h).symm

/-- **One message, and one packet for it.**  Every encoder hashes the preimage of the packet's
message: the contracts when a transaction is proposed and, from its struct hash, when it is attested,
the validators from the packet and from the log of an attestation, the sentinel from the log of a
proposal.  Two packets have one message only if they are the same packet in the same domain, as long
as Keccak-256 has no collision among what is hashed for them. -/
theorem messages_agree {keccak256 : Bytes → B256} (hK : TypeHashes keccak256) :
    (∀ (chain : U256) (consensus : Address) (epoch : Fin (2 ^ 64)) (oracle : Address)
      (oracleData : Bytes) (tx : SafeTransaction) (m₁ m₂ m₃ m₄ : Memory) (self : Nat),
      Assembly.TransactionAt m₁ self tx →
      let d : ConsensusDomain := ⟨chain.val, consensus⟩
      let message := keccak256 (signingPreimage (domainSeparator keccak256 chain.val consensus)
        (keccak256 ((SignedPacket.transactionProposal epoch oracle oracleData tx).structPreimage
          keccak256)))
      let separator := (Assembly.domain keccak256 m₂ chain.val consensus).2
      let proposed := (Assembly.hash keccak256 m₁ self).2
      let attested := (Assembly.partialHash keccak256 m₃ tx.chainId.val tx.safe
        (safeTxStructHash keccak256 tx)).2
      d.transactionPacketHash keccak256 (EpochId.fromRaw epoch) oracle oracleData tx = message ∧
      (Assembly.transactionProposal keccak256 m₄ separator epoch oracle (keccak256 oracleData)
        proposed).2 = message ∧
      (Assembly.transactionProposal keccak256 m₄ separator epoch oracle (keccak256 oracleData)
        attested).2 = message ∧
      d.transactionProposalHash keccak256 (EpochId.fromRaw epoch) oracle (keccak256 oracleData)
        attested = message ∧
      ∀ (T : SentinelTransition) (event : TransactionProposed), T.keccak256 = keccak256 →
        T.chainId = chain → T.consensus = consensus → event.epoch = epoch.val →
        event.oracle = oracle → event.oracleData = oracleData → event.safeTxHash = proposed →
        T.requestId event = message) ∧
    (∀ (chain : U256) (consensus : Address) (activeEpoch proposedEpoch rolloverBlock : Fin (2 ^ 64))
      (key : Point) (m₁ m₂ : Memory) (groupKey : Nat), Assembly.PointAt m₁ groupKey key →
      let d : ConsensusDomain := ⟨chain.val, consensus⟩
      let message := keccak256 (signingPreimage (domainSeparator keccak256 chain.val consensus)
        (keccak256 ((SignedPacket.epochRollover activeEpoch proposedEpoch rolloverBlock
          key).structPreimage keccak256)))
      let separator := (Assembly.domain keccak256 m₂ chain.val consensus).2
      (∀ h : 0 < proposedEpoch.val, d.epochRolloverHash keccak256 (EpochId.fromRaw activeEpoch)
        ⟨proposedEpoch.val, h⟩ rolloverBlock key = message) ∧
      (Assembly.epochRollover keccak256 m₁ separator activeEpoch proposedEpoch rolloverBlock
        groupKey).2 = message) ∧
    ∀ (chain chain' : U256) (consensus consensus' : Address) (packet packet' : SignedPacket),
      (packet.preimages keccak256 chain consensus ∪
        packet'.preimages keccak256 chain' consensus').InjOn keccak256 →
      packet.message keccak256 chain consensus = packet'.message keccak256 chain' consensus' →
      chain = chain' ∧ consensus = consensus' ∧ packet = packet' := by
  refine ⟨?_, ?_, ?_⟩
  · intro chain consensus epoch oracle oracleData tx m₁ m₂ m₃ m₄ self htx
    have hmessage := SignedPacket.message_eq keccak256 chain consensus
      (.transactionProposal epoch oracle oracleData tx)
    dsimp only
    rw [Assembly.hash_eq hK htx, Assembly.partialHash_eq hK, Assembly.domain_eq hK,
      Assembly.transactionProposal_eq hK, Assembly.transactionProposal_eq hK]
    have hpacket : (⟨chain.val, consensus⟩ : ConsensusDomain).transactionPacketHash keccak256
        (EpochId.fromRaw epoch) oracle oracleData tx =
        SignedPacket.message keccak256 chain consensus
          (.transactionProposal epoch oracle oracleData tx) := by
      rw [ConsensusDomain.transactionPacketHash, ConsensusMessages.transactionProposalHash_eq,
        EpochId.rawValue_fromRaw]
      rfl
    refine ⟨hpacket.trans hmessage, hmessage, hmessage, hpacket.trans hmessage, ?_⟩
    rintro T event rfl rfl rfl hepoch rfl rfl hproposed
    refine Eq.trans ?_ hmessage
    rw [SentinelTransition.requestId, hepoch, hproposed]
    rfl
  · intro chain consensus activeEpoch proposedEpoch rolloverBlock key m₁ m₂ groupKey hkey
    have hmessage := SignedPacket.message_eq keccak256 chain consensus
      (.epochRollover activeEpoch proposedEpoch rolloverBlock key)
    dsimp only
    rw [Assembly.domain_eq hK, Assembly.epochRollover_eq hK hkey]
    refine ⟨fun h => Eq.trans ?_ hmessage, hmessage⟩
    have hrollover := ConsensusMessages.epochRolloverHash_eq keccak256 ⟨chain.val, consensus⟩
      (EpochId.fromRaw activeEpoch) ⟨proposedEpoch.val, h⟩ rolloverBlock key
    rw [EpochId.rawValue_fromRaw] at hrollover
    exact hrollover
  · intro chain chain' consensus consensus' packet packet' hfree h
    generalize hhashed : packet.preimages keccak256 chain consensus ∪
      packet'.preimages keccak256 chain' consensus' = hashed at hfree
    have hmem : packet.preimages keccak256 chain consensus ⊆ hashed :=
      hhashed ▸ Set.subset_union_left
    have hmem' : packet'.preimages keccak256 chain' consensus' ⊆ hashed :=
      hhashed ▸ Set.subset_union_right
    rw [SignedPacket.message_eq, SignedPacket.message_eq] at h
    obtain ⟨hseparator, hstruct⟩ := signingPreimage_injective
      (hfree (hmem (by simp [SignedPacket.preimages])) (hmem' (by simp [SignedPacket.preimages])) h)
    obtain ⟨hchain, hconsensus⟩ := domainSeparator_injective hfree
      (hmem (by simp [SignedPacket.preimages])) (hmem' (by simp [SignedPacket.preimages])) hseparator
    have hpacket := hfree (hmem (by simp [SignedPacket.preimages]))
      (hmem' (by simp [SignedPacket.preimages])) hstruct
    exact ⟨hchain, hconsensus, SignedPacket.structPreimage_injective hfree
      (Set.subset_union_right.trans hmem) (Set.subset_union_right.trans hmem') hpacket⟩

/-- A hash with the contracts' type hashes. -/
def typedKeccak (bytes : Bytes) : B256 :=
  if bytes = asBytes "EIP712Domain(uint256 chainId,address verifyingContract)" then
    Fin.ofNat _ domainTypehash
  else if bytes = asBytes "EpochRollover(uint64 activeEpoch,uint64 proposedEpoch,uint64 rolloverBlock,uint256 groupKeyX,uint256 groupKeyY)" then
    Fin.ofNat _ epochRolloverTypehash
  else if bytes = asBytes "TransactionProposal(uint64 epoch,address oracle,bytes oracleData,bytes32 safeTxHash)" then
    Fin.ofNat _ transactionProposalTypehash
  else if bytes = asBytes "SafeTx(address to,uint256 value,bytes data,uint8 operation,uint256 safeTxGas,uint256 baseGas,uint256 gasPrice,address gasToken,address refundReceiver,uint256 nonce)" then
    Fin.ofNat _ safeTxTypehash
  else Fin.ofNat _ (beNat bytes % Secp256k1.P)

theorem typeHashes_typedKeccak : TypeHashes typedKeccak where
  domain := by decide +kernel
  epochRollover := by decide +kernel
  transactionProposal := by decide +kernel
  safeTx := by decide +kernel

/-- What is hashed for two rollovers that differ in their block. -/
def rolloverPreimages : List Bytes :=
  [SignedPacket.epochRollover 1 2 3 ⟨4, 5⟩, SignedPacket.epochRollover 1 2 6 ⟨4, 5⟩].flatMap
    fun packet =>
      [domainPreimage typedKeccak 1 2, packet.structPreimage typedKeccak,
        signingPreimage (domainSeparator typedKeccak (1 : U256).val 2)
          (typedKeccak (packet.structPreimage typedKeccak))]

theorem messages_agree_rollovers :
    SignedPacket.message typedKeccak 1 2 (.epochRollover 1 2 3 ⟨4, 5⟩) ≠
      SignedPacket.message typedKeccak 1 2 (.epochRollover 1 2 6 ⟨4, 5⟩) := by
  intro h
  have hfree : (SignedPacket.preimages typedKeccak 1 2 (.epochRollover 1 2 3 ⟨4, 5⟩) ∪
      SignedPacket.preimages typedKeccak 1 2 (.epochRollover 1 2 6 ⟨4, 5⟩)).InjOn typedKeccak := by
    intro a ha b hb hab
    have hpairs : ∀ a ∈ rolloverPreimages, ∀ b ∈ rolloverPreimages,
        typedKeccak a = typedKeccak b → a = b := by decide +kernel
    have hlist : ∀ a, a ∈ SignedPacket.preimages typedKeccak 1 2 (.epochRollover 1 2 3 ⟨4, 5⟩) ∪
        SignedPacket.preimages typedKeccak 1 2 (.epochRollover 1 2 6 ⟨4, 5⟩) →
        a ∈ rolloverPreimages := fun a ha => by
      simp only [SignedPacket.preimages, SignedPacket.embedded, Set.union_empty, Set.mem_union,
        Set.mem_insert_iff, Set.mem_singleton_iff] at ha
      simp only [rolloverPreimages, List.flatMap_cons, List.flatMap_nil, List.append_nil,
        List.mem_append, List.mem_cons, List.not_mem_nil, or_false]
      exact ha
    exact hpairs a (hlist a ha) b (hlist b hb) hab
  obtain ⟨-, -, hpacket⟩ := (messages_agree typeHashes_typedKeccak).2.2 1 1 2 2 _ _ hfree h
  rw [SignedPacket.epochRollover.injEq] at hpacket
  exact absurd hpacket.2.2.1 (by decide)

end Safenet
