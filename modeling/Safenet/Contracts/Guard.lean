/-
# The guard of a Safe

`SafenetGuard.sol`, with `EpochRollover.sol` and `TransactionAnnouncement.sol`.  A Safe asks its guard
before it executes a transaction.  The guard lets it pass when it is a call of the guard's own
announcement functions, when its signatures carry an attestation by a group that the guard knows, or
when the Safe has announced it, a delay before and no longer than a window ago.

The guard knows the group it is constructed with, and every group that one it knows has signed a
rollover to: anyone may submit one.  The verification of a signature is `L.frostVerify`, whose errors
are one here.
-/
import Safenet.Contracts.Trailer

namespace Safenet

/-! ## 1. Storage and calls -/

/-- `TransactionAnnouncement.AnnouncedTransaction`: a Safe transaction without a nonce. -/
structure AnnouncedTransaction where
  «to» : Address
  value : U256
  data : Bytes
  operation : Operation
  safeTxGas : U256
  baseGas : U256
  gasPrice : U256
  gasToken : Address
  refundReceiver : Address
  deriving DecidableEq

/-- `TransactionAnnouncement.Window`; nothing is announced when it starts at zero. -/
structure AnnouncementWindow where
  activeFrom : Nat
  activeUntil : Nat
  deriving DecidableEq

/-- The storage of the guard. -/
structure SafenetGuard where
  epochs : Point → Nat → Bool
  announcements : Address → B256 → AnnouncementWindow

/-- What the guard is constructed with, and its own address. -/
structure GuardParams where
  L : ContractLibraries
  address : Address
  consensusChainId : U256
  consensusAddress : Address
  initialEpoch : Fin (2 ^ 64)
  initialGroupKey : Point
  allowTransactionDelay : U256
  allowTransactionWindow : U256

/-- The block, the caller, and what the caller answers when it is asked for its nonce. -/
structure GuardEnv where
  timestamp : Nat
  chainId : U256
  sender : Address
  nonce : U256

/-- What is logged. -/
inductive GuardLog where
  | epochRolledOver (parentEpoch epoch : Nat) (parentKey groupKey : Point)
  | transactionAnnounced (safe : Address) (announcementHash : B256) (activeFrom activeUntil : Nat)
  | announcementCancelled (safe : Address) (announcementHash : B256)
  | announcementConsumed (safe : Address) (announcementHash : B256)
  deriving DecidableEq

/-- A call of the guard.  The parameters of a check are those of an announcement, and signatures. -/
inductive GuardCall where
  | updateEpoch (parentKey : Point) (parentEpoch proposedEpoch rolloverBlock : Fin (2 ^ 64))
      (newGroupKey : Point) (signature : FrostSignature)
  | announceTransaction (announcement : AnnouncedTransaction)
  | cancelAnnouncement (announcementHash : B256)
  | checkTransaction (transaction : AnnouncedTransaction) (signatures : Bytes)
  deriving DecidableEq

namespace GuardParams

variable (P : GuardParams)

/-- `_CONSENSUS_DOMAIN_SEPARATOR`. -/
def consensusDomainSeparator : B256 :=
  domainSeparator P.L.keccak256 P.consensusChainId.val P.consensusAddress

/-- The selector of a function. -/
def selector (signature : String) : Bytes :=
  (B256.toBytes (P.L.keccak256 (asBytes signature))).take 4

end GuardParams

/-! ## 2. Announcements -/

namespace AnnouncedTransaction

/-- What the hash of an announcement hashes, its data apart. -/
def encode (keccak256 : Bytes → B256) (t : AnnouncedTransaction) : Bytes :=
  words [t.to.val, t.value.val, (keccak256 t.data).val, t.operation.toNat, t.safeTxGas.val,
    t.baseGas.val, t.gasPrice.val, t.gasToken.val, t.refundReceiver.val]

/-- `TransactionAnnouncement.hash`. -/
def hash (keccak256 : Bytes → B256) (t : AnnouncedTransaction) : B256 :=
  keccak256 (t.encode keccak256)

/-- The Safe transaction with a nonce. -/
def withNonce (t : AnnouncedTransaction) (chainId : U256) (safe : Address) (nonce : U256) :
    SafeTransaction where
  chainId := chainId
  safe := safe
  «to» := t.to
  value := t.value
  data := t.data
  operation := t.operation
  safeTxGas := t.safeTxGas
  baseGas := t.baseGas
  gasPrice := t.gasPrice
  gasToken := t.gasToken
  refundReceiver := t.refundReceiver
  nonce := nonce

end AnnouncedTransaction

namespace SafenetGuard

variable (P : GuardParams) (env : GuardEnv) (s : SafenetGuard)

/-- What a call that does not revert leaves and logs. -/
abbrev Outcome : Type := SafenetGuard × List GuardLog

/-- The window of an announcement is written. -/
def setWindow (safe : Address) (hash : B256) (window : AnnouncementWindow) : SafenetGuard :=
  let ofSafe := Function.update (s.announcements safe) hash window
  { s with announcements := Function.update s.announcements safe ofSafe }

/-- `TransactionAnnouncement.announce`.  The sums are those of a timestamp and two durations. -/
def announce (safe : Address) (hash : B256) : Except GuardError (SafenetGuard × Nat × Nat) := do
  let existing := s.announcements safe hash
  ensure (existing.activeFrom = 0 ∨ existing.activeUntil < env.timestamp) .announcementAlreadyExists
  let activeFrom := env.timestamp + P.allowTransactionDelay.val
  let activeUntil := activeFrom + P.allowTransactionWindow.val
  ensure (activeUntil < 2 ^ 256) .panic
  ensure (activeUntil < 2 ^ 128) .windowOverflow
  return (s.setWindow safe hash ⟨activeFrom, activeUntil⟩, activeFrom, activeUntil)

/-- `TransactionAnnouncement.cancel`. -/
def cancel (safe : Address) (hash : B256) : Except GuardError SafenetGuard := do
  ensure ((s.announcements safe hash).activeFrom ≠ 0) .announcementNotFound
  return s.setWindow safe hash ⟨0, 0⟩

/-- `TransactionAnnouncement.consume`, if there is an announcement to consume. -/
def consume (safe : Address) (hash : B256) : Option SafenetGuard :=
  let w := s.announcements safe hash
  if w.activeFrom ≠ 0 ∧ w.activeFrom ≤ env.timestamp ∧ env.timestamp ≤ w.activeUntil then
    some (s.setWindow safe hash ⟨0, 0⟩)
  else none

/-- `announceTransaction`. -/
def announceTransaction (announcement : AnnouncedTransaction) : Except GuardError Outcome := do
  let announcementHash := announcement.hash P.L.keccak256
  let (s, activeFrom, activeUntil) ← s.announce P env env.sender announcementHash
  return (s, [.transactionAnnounced env.sender announcementHash activeFrom activeUntil])

/-- `cancelAnnouncement`. -/
def cancelAnnouncement (announcementHash : B256) : Except GuardError Outcome := do
  let s ← s.cancel env.sender announcementHash
  return (s, [.announcementCancelled env.sender announcementHash])

/-! ## 3. Epochs -/

/-- `EpochRollover.isKnown`. -/
def isKnown (groupKey : Point) (epoch : Nat) : Bool := s.epochs groupKey epoch

/-- A group is known for an epoch. -/
def record (groupKey : Point) (epoch : Nat) : SafenetGuard :=
  { s with epochs := Function.update s.epochs groupKey (Function.update (s.epochs groupKey) epoch true) }

/-- `EpochRollover.rollover`. -/
def rollover (parentKey : Point) (parentEpoch proposedEpoch rolloverBlock : Nat)
    (newGroupKey : Point) (signature : FrostSignature) : Except GuardError Outcome := do
  ensure (s.isKnown parentKey parentEpoch = true) .unknownParent
  ensure (parentEpoch < proposedEpoch) .epochNotAdvancing
  ensure (Secp256k1.satisfiesCurveEquation newGroupKey = true) .notOnCurve
  let message := ConsensusMessages.epochRollover P.L.keccak256 P.consensusDomainSeparator
    parentEpoch proposedEpoch rolloverBlock newGroupKey
  ensure (P.L.frostVerify parentKey signature message = true) .invalidSignature
  if s.isKnown newGroupKey proposedEpoch = true then
    return (s, [])
  else
    return (s.record newGroupKey proposedEpoch,
      [.epochRolledOver parentEpoch proposedEpoch parentKey newGroupKey])

/-- The constructor. -/
def construct : Except GuardError SafenetGuard := do
  ensure (P.consensusAddress ≠ 0) .invalidAddress
  ensure (P.allowTransactionDelay.val ≠ 0 ∧ P.allowTransactionDelay.val < 2 ^ 64 ∧
    P.allowTransactionWindow.val ≠ 0 ∧ P.allowTransactionWindow.val < 2 ^ 64) .invalidParameter
  ensure (Secp256k1.satisfiesCurveEquation P.initialGroupKey = true) .notOnCurve
  return record ⟨fun _ _ => false, fun _ _ => ⟨0, 0⟩⟩ P.initialGroupKey P.initialEpoch.val

/-! ## 4. The check -/

/-- `_isAutoAllowed`. -/
def isAutoAllowed (t : AnnouncedTransaction) : Bool :=
  if t.to ≠ P.address ∨ t.value ≠ 0 ∨ t.operation ≠ .call ∨ t.gasPrice ≠ 0 ∨ t.data.length < 4 then
    false
  else
    let selector := t.data.take 4
    selector = P.selector
        "announceTransaction((address,uint256,bytes,uint8,uint256,uint256,uint256,address,address))" ∨
      selector = P.selector "cancelAnnouncement(bytes32)"

/-- The message that an attestation of a Safe transaction signs. -/
def attestedMessage (trailer : AttestationTrailer) (transaction : SafeTransaction) : B256 :=
  ConsensusMessages.transactionProposal P.L.keccak256 P.consensusDomainSeparator trailer.epoch.val
    trailer.oracle trailer.oracleDataHash (safeTxHash P.L.keccak256 transaction)

/-- `checkTransaction`. -/
def checkTransaction (t : AnnouncedTransaction) (signatures : Bytes) : Except GuardError Outcome :=
  if isAutoAllowed P t = true then .ok (s, [])
  else if AttestationTrailer.hasTrailer P.L.keccak256 signatures = true then do
    let trailer ← AttestationTrailer.decode P.L.keccak256 signatures
    ensure (s.isKnown trailer.groupKey trailer.epoch.val = true) .untrustedAttestationKey
    -- the Safe has counted this transaction already
    ensure (env.nonce.val ≠ 0) .panic
    let transaction := t.withNonce env.chainId env.sender (env.nonce - 1)
    ensure (P.L.frostVerify trailer.groupKey trailer.signature (attestedMessage P trailer transaction) =
      true) .invalidSignature
    return (s, [])
  else
    let announcementHash := t.hash P.L.keccak256
    match s.consume env env.sender announcementHash with
    | some s => .ok (s, [.announcementConsumed env.sender announcementHash])
    | none => .error .attestationNotFound

/-- A call. -/
def exec : GuardCall → Except GuardError Outcome
  | .updateEpoch parentKey parentEpoch proposedEpoch rolloverBlock newGroupKey signature =>
    s.rollover P parentKey parentEpoch.val proposedEpoch.val rolloverBlock.val newGroupKey signature
  | .announceTransaction announcement => s.announceTransaction P env announcement
  | .cancelAnnouncement announcementHash => s.cancelAnnouncement env announcementHash
  | .checkTransaction transaction signatures => s.checkTransaction P env transaction signatures

end SafenetGuard

end Safenet
