/-
# Staking

`Staking.sol`: stakes toward validators, and their withdrawal after a delay.  The pending withdrawals
of a staker are a doubly linked list in storage, sorted by the time they can be claimed at.  The delay
can shrink, so a new withdrawal may belong anywhere: `initiateWithdrawal` looks for its place from the
tail, `initiateWithdrawalAtPosition` is told it.  The delay and the validators are changed by the
owner, in two steps with a delay of their own between them.

What a call does to the storage is a function here, that also gives the logs and the payments in the
staked token, in order; `Contracts/StakingLedger.lean` makes the payments.
-/
import Safenet.Contracts.SentinelOracle
import Safenet.Lib.Links

namespace Safenet

/-! ## 1. Checked operations -/

/-- The errors of the contract, and of the contracts it is built on. -/
inductive StakingError where
  | invalidAmount
  | invalidAddress
  | notValidator
  | insufficientStake
  | proposalNotSet
  | invalidProposalHash
  | proposalNotExecutable
  | noProposalExists
  | insufficientRecoverableAmount
  | withdrawalQueueEmpty
  | noClaimableWithdrawal
  | arrayLengthMismatch
  | invalidParameter
  | invalidPreviousId
  | invalidOrdering
  | ownableUnauthorizedAccount
  | ownableInvalidOwner
  | safeCastOverflow
  | panic
  | outOfGas
  deriving DecidableEq

namespace Staking

/-- `require`. -/
def require (p : Prop) [Decidable p] (e : StakingError) : Except StakingError Unit :=
  if p then .ok () else .error e

/-- A checked addition of unsigned integers with a number of bits. -/
def checkedAdd (bits a b : Nat) : Except StakingError Nat :=
  if a + b < 2 ^ bits then .ok (a + b) else .error .panic

/-- A checked subtraction. -/
def checkedSub (a b : Nat) : Except StakingError Nat :=
  if b ≤ a then .ok (a - b) else .error .panic

end Staking

/-! ## 2. Storage -/

/-- A withdrawal, in the list of its staker.  Zero is no withdrawal. -/
structure WithdrawalNode where
  amount : Nat
  claimableAt : Nat
  previous : Nat
  next : Nat
  deriving DecidableEq

/-- The node of a slot that is not written. -/
def WithdrawalNode.empty : WithdrawalNode := ⟨0, 0, 0, 0⟩

/-- The ends of the list of a staker. -/
structure WithdrawalQueue where
  head : Nat
  tail : Nat
  deriving DecidableEq

/-- A pending configuration change; it exists when its time is not zero. -/
structure ConfigProposal where
  value : Nat
  executableAt : Nat
  deriving DecidableEq

/-- What is logged. -/
inductive StakingLog where
  | stakeIncreased (staker validator : Address) (amount : Nat)
  | withdrawalInitiated (staker validator : Address) (withdrawalId amount : Nat)
  | withdrawalClaimed (staker : Address) (withdrawalId amount : Nat)
  | validatorsProposed (validatorsHash : B256) (validators : List Address)
      (isRegistration : List Bool) (executableAt : Nat)
  | validatorUpdated (validator : Address) (isRegistered : Bool)
  | withdrawDelayProposed (currentDelay proposedDelay executableAt : Nat)
  | withdrawDelayChanged (oldDelay newDelay : Nat)
  | tokensRecovered (token recipient : Address) (amount : Nat)
  | ownershipTransferred (previousOwner newOwner : Address)
  deriving DecidableEq

/-- A call of the contract. -/
inductive StakingCall where
  | stake (validator : Address) (amount : U256)
  | initiateWithdrawal (validator : Address) (amount : U256)
  | initiateWithdrawalAtPosition (validator : Address) (amount : U256) (previousId : Fin (2 ^ 64))
  | claimWithdrawal
  | proposeWithdrawDelay (newDelay : Fin (2 ^ 128))
  | proposeValidators (validators : List Address) (isRegistration : List Bool)
  | executeWithdrawDelayChange
  | executeValidatorChanges (validators : List Address) (isRegistration : List Bool)
      (executableAt : U256)
  | recoverTokens (token recipient : Address)
  | transferOwnership (newOwner : Address)
  | renounceOwnership
  deriving DecidableEq

/-- What the contract is constructed with; the token and the delay of configuration changes are
immutable.  `address` is its own. -/
structure StakingParams where
  address : Address
  keccak256 : Bytes → B256
  initialOwner : Address
  safeToken : Address
  initialWithdrawDelay : Fin (2 ^ 128)
  configTimeDelay : U256

/-- The storage of the contract. -/
structure Staking where
  owner : Address
  totalStakedAmount : Nat
  totalPendingWithdrawals : Nat
  withdrawDelay : Nat
  nextWithdrawalId : Nat
  isValidator : Address → Bool
  totalValidatorStakes : Address → Nat
  stakes : Address → Address → Nat
  totalStakerStakes : Address → Nat
  withdrawalQueues : Address → WithdrawalQueue
  withdrawalNodes : Address → Nat → WithdrawalNode
  pendingWithdrawDelayChange : ConfigProposal
  pendingValidatorChangeHash : B256

/-- The block and the caller, and what the contract has in each token. -/
structure StakingEnv where
  timestamp : Nat
  sender : Address
  balanceOf : Address → Nat

namespace Staking

/-- The constructor. -/
def construct (params : StakingParams) : Except StakingError Staking := do
  require (params.initialOwner ≠ 0) .ownableInvalidOwner
  require (params.safeToken ≠ 0) .invalidAddress
  require (params.initialWithdrawDelay.val ≠ 0) .invalidParameter
  require (params.configTimeDelay.val ≠ 0) .invalidParameter
  require (params.initialWithdrawDelay.val ≤ params.configTimeDelay.val) .invalidParameter
  return {
    owner := params.initialOwner
    totalStakedAmount := 0
    totalPendingWithdrawals := 0
    withdrawDelay := params.initialWithdrawDelay.val
    nextWithdrawalId := 1
    isValidator := fun _ => false
    totalValidatorStakes := fun _ => 0
    stakes := fun _ _ => 0
    totalStakerStakes := fun _ => 0
    withdrawalQueues := fun _ => ⟨0, 0⟩
    withdrawalNodes := fun _ _ => .empty
    pendingWithdrawDelayChange := ⟨0, 0⟩
    pendingValidatorChangeHash := 0 }

/-- What a call that does not revert leaves, logs and pays. -/
abbrev Outcome : Type := Staking × List StakingLog × List Payment

variable (P : StakingParams) (env : StakingEnv) (s : Staking)

/-! ## 3. The list of a staker -/

/-- The node of a staker is changed. -/
def setNode (staker : Address) (id : Nat) (f : WithdrawalNode → WithdrawalNode) : Staking :=
  let nodes := Function.update (s.withdrawalNodes staker) id (f (s.withdrawalNodes staker id))
  { s with withdrawalNodes := Function.update s.withdrawalNodes staker nodes }

/-- The ends of the list of a staker are changed. -/
def setQueue (staker : Address) (f : WithdrawalQueue → WithdrawalQueue) : Staking :=
  let queues := Function.update s.withdrawalQueues staker (f (s.withdrawalQueues staker))
  { s with withdrawalQueues := queues }

/-- The last withdrawal of a staker that is not claimable later, from the tail on, with as much gas as
there are withdrawals. -/
def findPrevious (staker : Address) (claimableAt : Nat) : Option Nat :=
  Links.walk (fun id => (s.withdrawalNodes staker id).previous)
    (fun id => claimableAt < (s.withdrawalNodes staker id).claimableAt)
    (s.nextWithdrawalId + 1) (s.withdrawalQueues staker).tail

/-- Insert a withdrawal at the place that was found. -/
def insertFound (staker : Address) (withdrawalId amount claimableAt currentId : Nat) : Staking :=
  let queueTail := (s.withdrawalQueues staker).tail
  let (s, node) :=
    if currentId = queueTail then
      ((s.setNode staker queueTail ({ · with next := withdrawalId })).setQueue staker
          ({ · with tail := withdrawalId }),
        (⟨amount, claimableAt, queueTail, 0⟩ : WithdrawalNode))
    else if currentId = 0 then
      let queueHead := (s.withdrawalQueues staker).head
      ((s.setNode staker queueHead ({ · with previous := withdrawalId })).setQueue staker
          ({ · with head := withdrawalId }),
        ⟨amount, claimableAt, 0, queueHead⟩)
    else
      let nextId := (s.withdrawalNodes staker currentId).next
      ((s.setNode staker currentId ({ · with next := withdrawalId })).setNode staker nextId
          ({ · with previous := withdrawalId }),
        ⟨amount, claimableAt, currentId, nextId⟩)
  s.setNode staker withdrawalId fun _ => node

/-- Insert a withdrawal into the sorted list. -/
def insertSorted (staker : Address) (withdrawalId amount claimableAt : Nat) :
    Except StakingError Staking :=
  if (s.withdrawalQueues staker).head = 0 then
    .ok ((s.setQueue staker fun _ => ⟨withdrawalId, withdrawalId⟩).setNode staker withdrawalId
      fun _ => ⟨amount, claimableAt, 0, 0⟩)
  else
    match s.findPrevious staker claimableAt with
    | none => .error .outOfGas
    | some currentId => .ok (s.insertFound staker withdrawalId amount claimableAt currentId)

/-- The place after a withdrawal, if a withdrawal can go there: what is next to it. -/
def checkPosition (staker : Address) (claimableAt previousId : Nat) : Except StakingError Nat := do
  let nextId ← if previousId = 0 then
      pure (s.withdrawalQueues staker).head
    else do
      let previousNode := s.withdrawalNodes staker previousId
      require (0 < previousNode.claimableAt) .invalidPreviousId
      require (previousNode.claimableAt ≤ claimableAt) .invalidOrdering
      pure previousNode.next
  if nextId ≠ 0 then
    require (claimableAt ≤ (s.withdrawalNodes staker nextId).claimableAt) .invalidOrdering
  return nextId

/-- Insert a withdrawal between two others. -/
def insertBetween (staker : Address) (withdrawalId amount claimableAt previousId nextId : Nat) :
    Staking :=
  let s := s.setNode staker withdrawalId fun _ => ⟨amount, claimableAt, previousId, nextId⟩
  let s := if previousId ≠ 0 then s.setNode staker previousId ({ · with next := withdrawalId })
    else s.setQueue staker ({ · with head := withdrawalId })
  if nextId ≠ 0 then s.setNode staker nextId ({ · with previous := withdrawalId })
  else s.setQueue staker ({ · with tail := withdrawalId })

/-- The first withdrawal leaves the list. -/
def removeHead (staker : Address) : Staking :=
  let queueHead := (s.withdrawalQueues staker).head
  let node := s.withdrawalNodes staker queueHead
  let s := if node.next = 0 then s.setQueue staker fun _ => ⟨0, 0⟩
    else (s.setQueue staker ({ · with head := node.next })).setNode staker node.next
      ({ · with previous := 0 })
  s.setNode staker queueHead fun _ => .empty

/-! ## 4. Stakes and withdrawals -/

/-- `stake`. -/
def stake (validator : Address) (amount : Nat) : Except StakingError Outcome := do
  require (amount ≠ 0) .invalidAmount
  require (validator ≠ 0) .invalidAddress
  require (s.isValidator validator = true) .notValidator
  let stake ← checkedAdd 256 (s.stakes env.sender validator) amount
  let validatorStakes ← checkedAdd 256 (s.totalValidatorStakes validator) amount
  let stakerStakes ← checkedAdd 256 (s.totalStakerStakes env.sender) amount
  let totalStakedAmount ← checkedAdd 256 s.totalStakedAmount amount
  return ({ s with
      stakes := Function.update s.stakes env.sender
        (Function.update (s.stakes env.sender) validator stake)
      totalValidatorStakes := Function.update s.totalValidatorStakes validator validatorStakes
      totalStakerStakes := Function.update s.totalStakerStakes env.sender stakerStakes
      totalStakedAmount },
    [.stakeIncreased env.sender validator amount], [.pull env.sender amount])

/-- `_initiateWithdrawal`: the amount is pending, under a new id; its time is cast, not checked. -/
def beginWithdrawal (amount : Nat) (validator : Address) :
    Except StakingError (Staking × Nat × Nat × List StakingLog) := do
  require (amount ≠ 0) .invalidAmount
  require (amount ≤ s.stakes env.sender validator) .insufficientStake
  let claimableAt := (← checkedAdd 256 env.timestamp s.withdrawDelay) % 2 ^ 128
  let stake ← checkedSub (s.stakes env.sender validator) amount
  let validatorStakes ← checkedSub (s.totalValidatorStakes validator) amount
  let stakerStakes ← checkedSub (s.totalStakerStakes env.sender) amount
  let totalStakedAmount ← checkedSub s.totalStakedAmount amount
  let totalPendingWithdrawals ← checkedAdd 256 s.totalPendingWithdrawals amount
  let nextWithdrawalId ← checkedAdd 64 s.nextWithdrawalId 1
  return ({ s with
      stakes := Function.update s.stakes env.sender
        (Function.update (s.stakes env.sender) validator stake)
      totalValidatorStakes := Function.update s.totalValidatorStakes validator validatorStakes
      totalStakerStakes := Function.update s.totalStakerStakes env.sender stakerStakes
      totalStakedAmount, totalPendingWithdrawals, nextWithdrawalId },
    s.nextWithdrawalId, claimableAt,
    [.withdrawalInitiated env.sender validator s.nextWithdrawalId amount])

/-- `initiateWithdrawal`. -/
def initiateWithdrawal (validator : Address) (amount : Nat) : Except StakingError Outcome := do
  let (s, withdrawalId, claimableAt, logs) ← s.beginWithdrawal env amount validator
  let s ← s.insertSorted env.sender withdrawalId amount claimableAt
  return (s, logs, [])

/-- `initiateWithdrawalAtPosition`. -/
def initiateWithdrawalAtPosition (validator : Address) (amount previousId : Nat) :
    Except StakingError Outcome := do
  let (s, withdrawalId, claimableAt, logs) ← s.beginWithdrawal env amount validator
  let nextId ← s.checkPosition env.sender claimableAt previousId
  return (s.insertBetween env.sender withdrawalId amount claimableAt previousId nextId, logs, [])

/-- `claimWithdrawal`. -/
def claimWithdrawal : Except StakingError Outcome := do
  let queueHead := (s.withdrawalQueues env.sender).head
  require (queueHead ≠ 0) .withdrawalQueueEmpty
  let node := s.withdrawalNodes env.sender queueHead
  require (node.claimableAt ≤ env.timestamp) .noClaimableWithdrawal
  let totalPendingWithdrawals ← checkedSub s.totalPendingWithdrawals node.amount
  return ({ s.removeHead env.sender with totalPendingWithdrawals },
    [.withdrawalClaimed env.sender queueHead node.amount], [.push env.sender node.amount])

/-! ## 5. The configuration -/

/-- `onlyOwner`. -/
def checkOwner : Except StakingError Unit :=
  require (env.sender = s.owner) .ownableUnauthorizedAccount

/-- `proposeWithdrawDelay`. -/
def proposeWithdrawDelay (newDelay : Nat) : Except StakingError Outcome := do
  s.checkOwner env
  require (newDelay ≠ 0 ∧ newDelay ≤ P.configTimeDelay.val) .invalidParameter
  let executableAt ← checkedAdd 256 env.timestamp P.configTimeDelay.val
  require (executableAt < 2 ^ 128) .safeCastOverflow
  return ({ s with pendingWithdrawDelayChange := ⟨newDelay, executableAt⟩ },
    [.withdrawDelayProposed s.withdrawDelay newDelay executableAt], [])

/-- `executeWithdrawDelayChange`. -/
def executeWithdrawDelayChange : Except StakingError Outcome := do
  let proposal := s.pendingWithdrawDelayChange
  require (proposal.executableAt ≠ 0) .noProposalExists
  require (proposal.executableAt ≤ env.timestamp) .proposalNotExecutable
  return ({ s with withdrawDelay := proposal.value, pendingWithdrawDelayChange := ⟨0, 0⟩ },
    [.withdrawDelayChanged s.withdrawDelay proposal.value], [])

/-- `abi.encode(validators, isRegistration, executableAt)`: two offsets and the time, then each array
after its length. -/
def encodeValidators (validators : List Address) (isRegistration : List Bool) (executableAt : Nat) :
    Bytes :=
  beBytes 32 96 ++ beBytes 32 (96 + 32 * (1 + validators.length)) ++ beBytes 32 executableAt ++
    beBytes 32 validators.length ++ validators.flatMap (fun v => beBytes 32 v.val) ++
    beBytes 32 isRegistration.length ++ isRegistration.flatMap (fun b => beBytes 32 b.toNat)

/-- `_getValidatorsHash`. -/
def getValidatorsHash (validators : List Address) (isRegistration : List Bool) (executableAt : Nat) :
    B256 :=
  P.keccak256 (encodeValidators validators isRegistration executableAt)

/-- `proposeValidators`. -/
def proposeValidators (validators : List Address) (isRegistration : List Bool) :
    Except StakingError Outcome := do
  s.checkOwner env
  require (validators.length ≠ 0) .invalidParameter
  require (validators.length = isRegistration.length) .arrayLengthMismatch
  let executableAt ← checkedAdd 256 env.timestamp P.configTimeDelay.val
  let validatorsHash := getValidatorsHash P validators isRegistration executableAt
  require (validators.all (fun v => v ≠ 0 ∧ v ≠ P.address) = true) .invalidAddress
  return ({ s with pendingValidatorChangeHash := validatorsHash },
    [.validatorsProposed validatorsHash validators isRegistration executableAt], [])

/-- The changes of a proposal, one after the other: the last one of a validator counts. -/
def register (changes : List (Address × Bool)) : Address → Bool :=
  changes.foldl (fun registered change => Function.update registered change.1 change.2) s.isValidator

/-- `executeValidatorChanges`. -/
def executeValidatorChanges (validators : List Address) (isRegistration : List Bool)
    (executableAt : Nat) : Except StakingError Outcome := do
  let proposalHash := s.pendingValidatorChangeHash
  require (proposalHash ≠ 0) .noProposalExists
  let validatorsHash := getValidatorsHash P validators isRegistration executableAt
  require (proposalHash = validatorsHash) .invalidProposalHash
  require (executableAt ≠ 0) .proposalNotSet
  require (executableAt ≤ env.timestamp) .proposalNotExecutable
  -- an index past the end of the shorter array
  require (validators.length ≤ isRegistration.length) .panic
  let changes := validators.zip isRegistration
  return ({ s with isValidator := s.register changes, pendingValidatorChangeHash := 0 },
    changes.map fun change => .validatorUpdated change.1 change.2, [])

/-- `recoverTokens`; the transfer of another token is none of the staked one. -/
def recoverTokens (token recipient : Address) : Except StakingError Outcome := do
  s.checkOwner env
  require (recipient ≠ 0) .invalidAddress
  let recoverable ← if token = P.safeToken then do
      let unstaked ← checkedSub (env.balanceOf token) s.totalStakedAmount
      checkedSub unstaked s.totalPendingWithdrawals
    else pure (env.balanceOf token)
  require (recoverable ≠ 0) .insufficientRecoverableAmount
  return (s, [.tokensRecovered token recipient recoverable],
    if token = P.safeToken then [.push recipient recoverable] else [])

/-- `Ownable.transferOwnership`. -/
def transferOwnership (newOwner : Address) : Except StakingError Outcome := do
  s.checkOwner env
  require (newOwner ≠ 0) .ownableInvalidOwner
  return ({ s with owner := newOwner }, [.ownershipTransferred s.owner newOwner], [])

/-- `Ownable.renounceOwnership`. -/
def renounceOwnership : Except StakingError Outcome := do
  s.checkOwner env
  return ({ s with owner := 0 }, [.ownershipTransferred s.owner 0], [])

/-! ## 6. Calls -/

/-- A call. -/
def exec : StakingCall → Except StakingError Outcome
  | .stake validator amount => s.stake env validator amount.val
  | .initiateWithdrawal validator amount => s.initiateWithdrawal env validator amount.val
  | .initiateWithdrawalAtPosition validator amount previousId =>
    s.initiateWithdrawalAtPosition env validator amount.val previousId.val
  | .claimWithdrawal => s.claimWithdrawal env
  | .proposeWithdrawDelay newDelay => s.proposeWithdrawDelay P env newDelay.val
  | .proposeValidators validators isRegistration =>
    s.proposeValidators P env validators isRegistration
  | .executeWithdrawDelayChange => s.executeWithdrawDelayChange env
  | .executeValidatorChanges validators isRegistration executableAt =>
    s.executeValidatorChanges P env validators isRegistration executableAt.val
  | .recoverTokens token recipient => s.recoverTokens P env token recipient
  | .transferOwnership newOwner => s.transferOwnership env newOwner
  | .renounceOwnership => s.renounceOwnership env

/-- `getPendingWithdrawals`: the amounts and the times, from the head on. -/
def getPendingWithdrawals (staker : Address) : Option (List (Nat × Nat)) :=
  (Links.trail (fun id => (s.withdrawalNodes staker id).next) (s.nextWithdrawalId + 1)
    (s.withdrawalQueues staker).head).map fun ids => ids.map fun id =>
      ((s.withdrawalNodes staker id).amount, (s.withdrawalNodes staker id).claimableAt)

/-- `getNextClaimableWithdrawal`. -/
def getNextClaimableWithdrawal (staker : Address) : Nat × Nat :=
  let queue := s.withdrawalQueues staker
  if queue.head = 0 then (0, 0)
  else ((s.withdrawalNodes staker queue.head).amount, (s.withdrawalNodes staker queue.head).claimableAt)

end Staking

end Safenet
