/-
# Epochs, key-generation groups and the signed messages

`consensus/epoch.rs`, `consensus/group.rs` and `consensus/hashing.rs`: which epoch a block
belongs to, which participants a key generation runs over and under which group id, and the
EIP-712 hashes a validator group signs.  Everything here is a pure function of the
configuration; Keccak-256 is the one thing taken from outside.
-/
import Safenet.Merkle

namespace Safenet

/-! ## 1. Epochs -/

/-- An epoch id. -/
inductive EpochId where
  /-- The genesis epoch. -/
  | genesis
  /-- A regular epoch established after genesis. -/
  | number (number : ℕ+)
  deriving DecidableEq

namespace EpochId

/-- The epoch as a raw number; genesis is `0`. -/
def rawValue : EpochId → Nat
  | .genesis => 0
  | .number n => n

/-- The epoch id for a raw value. -/
def fromRaw (value : Nat) : EpochId :=
  if h : 0 < value then .number ⟨value, h⟩ else .genesis

/-- The epoch number of a non-genesis epoch. -/
def number? : EpochId → Option ℕ+
  | .genesis => none
  | .number n => some n

/-- `Ord::min`: the first argument unless the second is strictly smaller. -/
def min (a b : EpochId) : EpochId := if b.rawValue < a.rawValue then b else a

instance : Ord EpochId := ⟨fun a b => compare a.rawValue b.rawValue⟩

theorem rawValue_injective : Function.Injective rawValue := by
  rintro (_ | a) (_ | b) h
  · rfl
  · exact absurd h.symm b.ne_zero
  · exact absurd h a.ne_zero
  · exact congrArg _ (PNat.coe_injective h)

instance : Std.TransOrd EpochId where
  eq_swap {a b} := Std.OrientedOrd.eq_swap (α := Nat) (a := a.rawValue) (b := b.rawValue)
  isLE_trans {a b c} h1 h2 :=
    Std.TransOrd.isLE_trans (α := Nat) (a := a.rawValue) (b := b.rawValue) (c := c.rawValue) h1 h2

instance : Std.LawfulEqOrd EpochId where
  compare_self {a} := Std.ReflOrd.compare_self (α := Nat) (a := a.rawValue)
  eq_of_compare {a b} h := rawValue_injective
    (Std.LawfulEqOrd.eq_of_compare (α := Nat) (a := a.rawValue) (b := b.rawValue) h)

end EpochId

/-- The next epoch number for `block`. -/
def nextNumber (block : Nat) (blocksPerEpoch : ℕ+) : ℕ+ :=
  ⟨satAdd 1 (block / blocksPerEpoch), by
    exact Nat.lt_min.mpr ⟨Nat.lt_of_lt_of_le Nat.one_pos (Nat.le_add_right 1 _), by decide⟩⟩

/-! ## 2. Groups -/

/-- A validator of the configured set, with its activity window. -/
structure Participant where
  address : Address
  activeFrom : Nat
  activeBefore : Option ℕ+

/-- The signing threshold of a group of `count` participants. -/
def groupThreshold (count : Nat) : Nat := count / 2 + 1

/-- The fewest participants a key generation may run with: strictly more than two thirds of
the epoch's default set, and at least two. -/
def minParticipants (count : Nat) : Nat := max 2 (count * 2 / 3 + 1)

/-- A key generation group. -/
structure Group where
  id : B256
  root : B256
  participants : Finset Address
  excluded : Finset Address
  count : Nat
  threshold : Nat
  context : B256
  deriving DecidableEq

namespace Group

/-- The participants excluded so far, and `alsoExcluded` with them. -/
def alsoExclude (g : Group) (alsoExcluded : Finset Address) : Finset Address :=
  g.excluded ∪ alsoExcluded

/-- Exclude every participant of the group outside `includeOnly`. -/
def excludeAllOthers (g : Group) (includeOnly : Finset Address) : Finset Address :=
  g.alsoExclude (g.participants \ includeOnly)

end Group

/-- A participant set. -/
structure ParticipantSet where
  addresses : Finset Address
  excluded : Finset Address
  context : B256
  deriving DecidableEq

/-- The epoch details for computing a participant set. -/
inductive EpochSpec where
  | genesis (salt : B256)
  | number (consensus : Address) (number : ℕ+) (excluded : Finset Address)

section Hashed

variable (keccak256 : Bytes → B256)

/-- The Merkle tree over the participants in ascending order. -/
def participantsTree (participants : Finset Address) : MerkleTree :=
  MerkleTree.build keccak256 ((ascending participants).map Address.intoWord)

/-- The top 192 bits of `keccak256(abi.encode(participants, count, threshold, context))`. -/
def groupId (participants : B256) (count threshold : Nat) (context : B256) : B256 :=
  let digest := keccak256 (B256.toBytes participants ++ beBytes 32 count ++ beBytes 32 threshold
    ++ B256.toBytes context)
  ⟨digest.val / 2 ^ 64 * 2 ^ 64, lt_of_le_of_lt (Nat.div_mul_le_self _ _) digest.isLt⟩

/-- `encodePacked(uint32 version = 0, address consensus, uint64 epoch)`. -/
def groupContext (consensus : Address) (epoch : Nat) : B256 :=
  Fin.ofNat _ (consensus.val * 2 ^ 64 + epoch % 2 ^ 64)

/-- The genesis context: zero when the salt is, `keccak256("genesis" ++ salt)` otherwise. -/
def genesisContext (salt : B256) : B256 :=
  if salt = 0 then 0
  else keccak256 ([0x67, 0x65, 0x6e, 0x65, 0x73, 0x69, 0x73] ++ B256.toBytes salt)

namespace ParticipantSet

/-- The group of a participant set. -/
def group (set : ParticipantSet) : Group :=
  let root := (participantsTree keccak256 set.addresses).root
  let count := set.addresses.card
  let threshold := groupThreshold count
  { id := groupId keccak256 root count threshold set.context
    root
    participants := set.addresses
    excluded := set.excluded
    count
    threshold
    context := set.context }

/-- The group and this address's proof of participation, if it takes part. -/
def participateAs (set : ParticipantSet) (address : Address) : Option (Group × List B256) :=
  if address ∈ set.addresses then
    let index := (set.addresses.filter (· < address)).card
    some (set.group keccak256, (participantsTree keccak256 set.addresses).proof index)
  else
    none

/-- Taking part and observing derive the same group. -/
theorem participateAs_group {set : ParticipantSet} {address : Address} {g : Group}
    {poap : List B256} (h : set.participateAs keccak256 address = some (g, poap)) :
    g = set.group keccak256 := by
  unfold participateAs at h
  split at h
  · simp only [Option.some.injEq, Prod.mk.injEq] at h
    exact h.1.symm
  · exact absurd h (by simp)

end ParticipantSet

/-- The excluded participants of an epoch. -/
def EpochSpec.excluded : EpochSpec → Finset Address
  | .genesis _ => ∅
  | .number _ _ excluded => excluded

/-- The key generation context of an epoch. -/
def EpochSpec.context : EpochSpec → B256
  | .genesis salt => genesisContext keccak256 salt
  | .number consensus n _ => groupContext consensus n

/-- The participants whose activity window covers the epoch. -/
def eligible (participants : List Participant) : EpochSpec → Finset Address
  | .genesis _ => ((participants.filter fun p => p.activeFrom = 0).map (·.address)).toFinset
  | .number _ number _ =>
    ((participants.filter fun p => p.activeFrom ≤ (number : Nat) &&
      p.activeBefore.all fun before => number < before).map (·.address)).toFinset

/-- The participant set active for `epoch`, if it is large enough. -/
def participantsSet (participants : List Participant) (epoch : EpochSpec) :
    Option ParticipantSet :=
  let total := (eligible participants epoch).card
  let addresses := eligible participants epoch \ epoch.excluded
  if total < 2 ^ 16 ∧ minParticipants total ≤ addresses.card then
    some { addresses, excluded := epoch.excluded, context := epoch.context keccak256 }
  else
    none

/-- A participant set fits in a `u16`, so its group's `count` is the real size. -/
theorem card_lt_of_participantsSet {participants : List Participant} {epoch : EpochSpec}
    {set : ParticipantSet} (h : participantsSet keccak256 participants epoch = some set) :
    set.addresses.card < 2 ^ 16 := by
  simp only [participantsSet] at h
  split at h
  · rename_i hc
    rw [Option.some.injEq] at h
    rw [← h]
    exact lt_of_le_of_lt (Finset.card_le_card Finset.sdiff_subset) hc.1
  · exact absurd h (by simp)

end Hashed

/-! ## 3. The signed messages -/

/-- The bytes of a type string. -/
def asBytes (s : String) : Bytes := s.toByteArray.data.toList

/-- The EIP-712 domain of the consensus contract. -/
structure ConsensusDomain where
  chain : Nat
  consensus : Address

section Hashing

variable (keccak256 : Bytes → B256)

/-- The EIP-712 separator of a domain with a chain id and a verifying contract. -/
def domainSeparator (chainId : Nat) (verifyingContract : Address) : B256 :=
  keccak256 (B256.toBytes (keccak256
      (asBytes "EIP712Domain(uint256 chainId,address verifyingContract)"))
    ++ beBytes 32 chainId ++ beBytes 32 verifyingContract.val)

/-- The EIP-712 signing hash of a struct hash under a separator. -/
def signingHash (separator structHash : B256) : B256 :=
  keccak256 ([0x19, 0x01] ++ B256.toBytes separator ++ B256.toBytes structHash)

/-- The `SafeTx` struct hash, without the target Safe's domain. -/
def safeTxStructHash (tx : SafeTransaction) : B256 :=
  keccak256 (B256.toBytes (keccak256 (asBytes
      "SafeTx(address to,uint256 value,bytes data,uint8 operation,uint256 safeTxGas,uint256 baseGas,uint256 gasPrice,address gasToken,address refundReceiver,uint256 nonce)"))
    ++ beBytes 32 tx.to.val ++ beBytes 32 tx.value.val ++ B256.toBytes (keccak256 tx.data)
    ++ beBytes 32 tx.operation.toNat ++ beBytes 32 tx.safeTxGas.val ++ beBytes 32 tx.baseGas.val
    ++ beBytes 32 tx.gasPrice.val ++ beBytes 32 tx.gasToken.val
    ++ beBytes 32 tx.refundReceiver.val ++ beBytes 32 tx.nonce.val)

/-- The Safe transaction hash, in the target Safe's own domain. -/
def safeTxHash (tx : SafeTransaction) : B256 :=
  signingHash keccak256 (domainSeparator keccak256 tx.chainId.val tx.safe)
    (safeTxStructHash keccak256 tx)

namespace ConsensusDomain

variable (d : ConsensusDomain)

/-- The consensus-domain hash of a transaction proposal, from the two already hashed parts. -/
def transactionProposalHash (epoch : EpochId) (oracle : Address)
    (oracleDataHash safeTxHash : B256) : B256 :=
  let structHash := keccak256 (B256.toBytes (keccak256 (asBytes
      "TransactionProposal(uint64 epoch,address oracle,bytes oracleData,bytes32 safeTxHash)"))
    ++ beBytes 32 epoch.rawValue ++ beBytes 32 oracle.val ++ B256.toBytes oracleDataHash
    ++ B256.toBytes safeTxHash)
  signingHash keccak256 (domainSeparator keccak256 d.chain d.consensus) structHash

/-- The consensus-domain hash of a transaction packet, from its preimages. -/
def transactionPacketHash (epoch : EpochId) (oracle : Address) (oracleData : Bytes)
    (tx : SafeTransaction) : B256 :=
  d.transactionProposalHash keccak256 epoch oracle (keccak256 oracleData) (safeTxHash keccak256 tx)

/-- The consensus-domain hash of an epoch rollover proposal. -/
def epochRolloverHash (activeEpoch : EpochId) (proposedEpoch : ℕ+) (rolloverBlock : Nat)
    (groupKey : Point) : B256 :=
  let structHash := keccak256 (B256.toBytes (keccak256 (asBytes
      "EpochRollover(uint64 activeEpoch,uint64 proposedEpoch,uint64 rolloverBlock,uint256 groupKeyX,uint256 groupKeyY)"))
    ++ beBytes 32 activeEpoch.rawValue ++ beBytes 32 proposedEpoch ++ beBytes 32 rolloverBlock
    ++ beBytes 32 groupKey.x.val ++ beBytes 32 groupKey.y.val)
  signingHash keccak256 (domainSeparator keccak256 d.chain d.consensus) structHash

end ConsensusDomain

end Hashing

end Safenet
