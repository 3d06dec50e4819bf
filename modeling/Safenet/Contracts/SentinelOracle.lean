/-
# The sentinel oracle

`SentinelOracle.sol` with its libraries: a request is opened with the fee of its sponsor, sentinels
commit to a vote against a bond, reveal it, and someone finalizes.  One side alone decides; two sides
are a dispute, for the arbitrator; none is a timeout.  Then each sentinel claims.

What a call does to the storage is a function here, that also gives the logs and the payments, in
order; `Contracts/OracleSolvency.lean` makes the payments in a token.  A call that reverts says why,
and `panic` is the failure of a checked operation.

A commitment exists when its hash is not zero, to `checkNotCommitted`, and when it has a vote, to
`reveal`.  So a sentinel that commits to the hash zero can commit again (`zero_commits_twice`).
-/
import Safenet.Contracts.Libraries
import Safenet.Lib.Run

namespace Safenet

/-! ## 1. Checked operations -/

/-- The errors of the oracle. -/
inductive OracleError where
  | notArbitrator
  | notGovernance
  | notProposer
  | invalidAddress
  | zeroFee
  | zeroWindow
  | invalidFeeShare
  | sentinelNotActive
  | sentinelAlreadyScheduled
  | sentinelNotScheduled
  | invalidBondMultiplier
  | invalidSlashingMultiplier
  | requestAlreadyExists
  | requestNotFound
  | commitDeadlineInPast
  | revealDeadlineNotAfterCommit
  | requestNotPending
  | requestNotFrozen
  | requestNotResolved
  | commitWindowClosed
  | revealWindowNotOpen
  | revealWindowClosed
  | finalizeTooEarly
  | arbitrationNotTimedOut
  | alreadyCommitted
  | alreadyRevealed
  | invalidReveal
  | notCommitted
  | nothingToClaim
  | alreadyClaimed
  | safeCastOverflow
  | panic
  deriving DecidableEq

/-- `require`. -/
def require (p : Prop) [Decidable p] (e : OracleError) : Except OracleError Unit :=
  if p then .ok () else .error e

/-- `SafeCast`: a cast to so many bits. -/
def toUint (bits n : Nat) : Except OracleError Nat :=
  if n < 2 ^ bits then .ok n else .error .safeCastOverflow

/-- A checked addition of so many bits. -/
def checkedAdd (bits a b : Nat) : Except OracleError Nat :=
  if a + b < 2 ^ bits then .ok (a + b) else .error .panic

/-- A checked subtraction. -/
def checkedSub (a b : Nat) : Except OracleError Nat :=
  if b ≤ a then .ok (a - b) else .error .panic

/-! ## 2. Governed values -/

/-- `DelayedUint96.T` and `DelayedAddress.T`; nothing is pending when `pendingActiveAt` is zero. -/
structure Delayed (α : Type) where
  value : α
  pendingActiveAt : Nat
  pendingValue : α

namespace Delayed

variable {α : Type} [Zero α]

/-- `init`. -/
def init (initialValue : α) : Delayed α := ⟨initialValue, 0, 0⟩

/-- `applyPending`; the value it returns is the one it leaves. -/
def applyPending (self : Delayed α) (block : Nat) : Delayed α :=
  if self.pendingActiveAt = 0 ∨ block < self.pendingActiveAt then self else ⟨self.pendingValue, 0, 0⟩

/-- `schedule`. -/
def schedule (self : Delayed α) (block : Nat) (newValue : α) (governanceDelay : Nat) :
    Except OracleError (Delayed α) := do
  let activeAt ← toUint 64 (block + governanceDelay)
  return { self.applyPending block with pendingActiveAt := activeAt, pendingValue := newValue }

end Delayed

/-- `BondConfig.T`. -/
structure BondConfig where
  pendingActiveAt : Nat
  bondMultiplier : Nat
  slashingMultiplier : Nat
  pendingBondMultiplier : Nat
  pendingSlashingMultiplier : Nat

namespace BondConfig

/-- The checks of `init` and `schedule`. -/
def checkMultipliers (bondMultiplier slashingMultiplier : Nat) : Except OracleError Unit := do
  require (0 < bondMultiplier) .invalidBondMultiplier
  require (0 < slashingMultiplier ∧ slashingMultiplier ≤ bondMultiplier) .invalidSlashingMultiplier

/-- `init`. -/
def init (bondMultiplier slashingMultiplier : Nat) : Except OracleError BondConfig := do
  checkMultipliers bondMultiplier slashingMultiplier
  return ⟨0, bondMultiplier, slashingMultiplier, 0, 0⟩

/-- `applyPending`; the multipliers it returns are the ones it leaves. -/
def applyPending (self : BondConfig) (block : Nat) : BondConfig :=
  if self.pendingActiveAt = 0 ∨ block < self.pendingActiveAt then self
  else ⟨0, self.pendingBondMultiplier, self.pendingSlashingMultiplier, 0, 0⟩

/-- `schedule`. -/
def schedule (self : BondConfig) (block newBondMultiplier newSlashingMultiplier governanceDelay : Nat) :
    Except OracleError BondConfig := do
  checkMultipliers newBondMultiplier newSlashingMultiplier
  let activeAt ← toUint 64 (block + governanceDelay)
  return { self.applyPending block with
    pendingActiveAt := activeAt
    pendingBondMultiplier := newBondMultiplier
    pendingSlashingMultiplier := newSlashingMultiplier }

end BondConfig

/-! ## 3. Requests -/

/-- `SentinelOracleRequest.State`. -/
inductive OracleRequestState where
  | none
  | pending
  | frozen
  | resolvedApproved
  | resolvedDenied
  | timedOut
  deriving DecidableEq

/-- `SentinelOracleCommitment.Vote`. -/
inductive SentinelVote where
  | none
  | pending
  | approved
  | denied
  deriving DecidableEq

/-- `SentinelOracleRequest.Terms`. -/
structure OracleTerms where
  commitDeadline : Nat
  daoFeeShare : Nat
  revealDeadline : Nat
  bondTarget : Nat
  sponsor : Address
  slashAmount : Nat
  deriving DecidableEq

/-- `SentinelOracleRequest.Progress`. -/
structure OracleProgress where
  state : OracleRequestState
  fee : Nat
  arbitrationDeadline : Nat
  committedCount : Nat
  revealedCount : Nat
  approveSentinelCount : Nat
  denySentinelCount : Nat
  deriving DecidableEq

/-- `SentinelOracleRequest.T`. -/
structure OracleRequest where
  terms : OracleTerms
  progress : OracleProgress
  deriving DecidableEq

/-- `FEE_SHARE_DENOMINATOR`. -/
def feeShareDenominator : Nat := 100000

namespace OracleRequest

variable (self : OracleRequest)

/-- A slot that was never written. -/
def empty : OracleRequest := ⟨⟨0, 0, 0, 0, 0, 0⟩, ⟨.none, 0, 0, 0, 0, 0, 0⟩⟩

/-- `applyCommit`. -/
def applyCommit (block : Nat) : Except OracleError (OracleRequest × Nat) := do
  require (self.progress.state = .pending) .requestNotPending
  require (block ≤ self.terms.commitDeadline) .commitWindowClosed
  let committedCount ← checkedAdd 16 self.progress.committedCount 1
  return ({ self with progress := { self.progress with committedCount } }, self.terms.bondTarget)

/-- `applyReveal`. -/
def applyReveal (block : Nat) (approve : Bool) : Except OracleError OracleRequest := do
  require (self.progress.state = .pending) .requestNotPending
  require (self.terms.commitDeadline < block) .revealWindowNotOpen
  require (block ≤ self.terms.revealDeadline) .revealWindowClosed
  let revealedCount ← checkedAdd 16 self.progress.revealedCount 1
  if approve then
    let approveSentinelCount ← checkedAdd 16 self.progress.approveSentinelCount 1
    return { self with progress := { self.progress with revealedCount, approveSentinelCount } }
  else
    let denySentinelCount ← checkedAdd 16 self.progress.denySentinelCount 1
    return { self with progress := { self.progress with revealedCount, denySentinelCount } }

/-- The cut of `applyDaoFeeCut`, narrowed without a check. -/
def daoCut (feeAmount : Nat) : Nat :=
  feeAmount * self.terms.daoFeeShare / feeShareDenominator % 2 ^ 96

/-- `applyDaoFeeCut`: what is left of the fee, and the cut. -/
def applyDaoFeeCut (feeAmount : Nat) : Except OracleError (Nat × Nat) := do
  let rest ← checkedSub feeAmount (self.daoCut feeAmount)
  return (rest, self.daoCut feeAmount)

/-- So many times the slash amount, which is not checked to fit. -/
def slashTotal (count : Nat) : Nat := count * self.terms.slashAmount % 2 ^ 128

/-- Whether `finalize` is not too early. -/
def CanFinalize (block : Nat) : Prop :=
  self.terms.revealDeadline < block ∨
    (0 < self.progress.committedCount ∧
      self.progress.revealedCount = self.progress.committedCount) ∨
    (self.progress.committedCount = 0 ∧ self.terms.commitDeadline < block)

instance (block : Nat) : Decidable (self.CanFinalize block) := inferInstanceAs (Decidable (_ ∨ _))

/-- What `finalize` returns. -/
structure Finalized where
  newState : OracleRequestState
  refundFee : Nat
  unrevealedBond : Nat
  daoCut : Nat

/-- `finalize`. -/
def finalize (block arbitrationDeadline : Nat) : Except OracleError (OracleRequest × Finalized) := do
  let prog := self.progress
  require (prog.state = .pending) .requestNotPending
  require (self.CanFinalize block) .finalizeTooEarly
  let approveMet := decide (0 < prog.approveSentinelCount)
  let denyMet := decide (0 < prog.denySentinelCount)
  if approveMet || denyMet then
    let nonRevealerCount ← checkedSub prog.committedCount prog.revealedCount
    let unrevealedBond := self.slashTotal nonRevealerCount
    if approveMet && denyMet then
      return ({ self with progress := { prog with state := .frozen, arbitrationDeadline } },
        ⟨.frozen, 0, unrevealedBond, 0⟩)
    else
      let newState := if approveMet then .resolvedApproved else .resolvedDenied
      let (fee, daoCut) ← self.applyDaoFeeCut prog.fee
      return ({ self with progress := { prog with state := newState, fee } },
        ⟨newState, 0, unrevealedBond, daoCut⟩)
  else
    return ({ self with progress := { prog with state := .timedOut, fee := 0 } },
      ⟨.timedOut, prog.fee, 0, 0⟩)

/-- `outOfScope`. -/
def outOfScope : Except OracleError (OracleRequest × Nat) := do
  require (self.progress.state = .frozen) .requestNotFrozen
  return ({ self with progress := { self.progress with state := .timedOut, fee := 0 } },
    self.progress.fee)

/-- `timeoutArbitration`. -/
def timeoutArbitration (block : Nat) : Except OracleError (OracleRequest × Nat) := do
  require (self.progress.arbitrationDeadline < block) .arbitrationNotTimedOut
  self.outOfScope

/-- Whether a request is resolved. -/
def IsResolved : Prop :=
  self.progress.state = .resolvedApproved ∨ self.progress.state = .resolvedDenied ∨
    self.progress.state = .timedOut

instance : Decidable self.IsResolved := inferInstanceAs (Decidable (_ ∨ _))

/-- `requireResolved`. -/
def requireResolved : Except OracleError OracleRequestState := do
  require self.IsResolved .requestNotResolved
  return self.progress.state

/-- The sentinels on the side that a state is for. -/
def winningSideCount (state : OracleRequestState) : Nat :=
  if state = .resolvedApproved then self.progress.approveSentinelCount
  else self.progress.denySentinelCount

/-- `calcFeeReward`; to divide by zero is a panic. -/
def calcFeeReward (state : OracleRequestState) (vote : SentinelVote) : Except OracleError Nat :=
  if vote ≠ .approved ∧ vote ≠ .denied then .ok 0
  else if state ≠ .resolvedApproved ∧ state ≠ .resolvedDenied then .ok 0
  else if decide (vote = .approved) ≠ decide (state = .resolvedApproved) then .ok 0
  else if self.winningSideCount state = 0 then .error .panic
  else .ok (self.progress.fee / self.winningSideCount state)

/-- `slashAmountFor`. -/
def slashAmountFor (state : OracleRequestState) (vote : SentinelVote) : Nat :=
  if vote ≠ .approved ∧ vote ≠ .denied then
    if 0 < self.progress.approveSentinelCount ∨ 0 < self.progress.denySentinelCount then
      self.terms.slashAmount
    else 0
  else if state ≠ .resolvedApproved ∧ state ≠ .resolvedDenied then 0
  else if self.progress.approveSentinelCount = 0 ∨ self.progress.denySentinelCount = 0 then 0
  else if decide (vote = .approved) ≠ decide (state = .resolvedApproved) then self.terms.slashAmount
  else 0

/-- What `resolveDispute` returns. -/
structure Ruling where
  outcome : OracleRequestState
  slashed : Nat
  feeAmount : Nat
  daoCut : Nat

/-- `resolveDispute`. -/
def resolveDispute (approveWins : Bool) : Except OracleError (OracleRequest × Ruling) := do
  require (self.progress.state = .frozen) .requestNotFrozen
  let losingSideCount :=
    if approveWins then self.progress.denySentinelCount else self.progress.approveSentinelCount
  let slashed := self.slashTotal losingSideCount
  let outcome := if approveWins then .resolvedApproved else .resolvedDenied
  let feeAmount := self.progress.fee
  let (fee, daoCut) ← self.applyDaoFeeCut feeAmount
  return ({ self with progress := { self.progress with state := outcome, fee } },
    ⟨outcome, slashed, feeAmount, daoCut⟩)

end OracleRequest

/-- `SentinelOracleCommitment.Commitment`. -/
structure OracleCommitment where
  commitHash : B256
  bondAmount : Nat
  vote : SentinelVote
  claimed : Bool
  deriving DecidableEq

namespace OracleCommitment

/-- A slot that was never written. -/
def empty : OracleCommitment := ⟨0, 0, .none, false⟩

/-- `markClaimed`. -/
def markClaimed (self : OracleCommitment) : Except OracleError OracleCommitment := do
  require (0 < self.bondAmount) .nothingToClaim
  require (self.claimed = false) .alreadyClaimed
  return { self with claimed := true }

/-- `computeHash`. -/
def computeHash (keccak256 : Bytes → B256) (sentinel : Address) (requestId : B256) (approve : Bool)
    (salt : B256) (reason : Bytes) : B256 :=
  keccak256 ((if approve then 1 else 0) :: (B256.toBytes salt ++ beBytes 20 sentinel.val ++
    B256.toBytes requestId ++ reason))

end OracleCommitment

/-! ## 4. The contract -/

/-- The logs of the oracle that the services read. -/
inductive OracleLog where
  | newRequest (requestId : B256) (sponsor : Address) (fee bondTarget slashAmount : Nat)
      (commitDeadline revealDeadline : Nat)
  | committed (requestId : B256) (sentinel : Address) (bondAmount : Nat)
  | revealed (requestId : B256) (sentinel : Address) (approved : Bool) (bondAmount : Nat)
      (reason : Bytes)
  | disputeTriggered (requestId : B256) (deadline : Nat)
  | disputeResolved (requestId : B256) (outcome : OracleRequestState) (slashed : Nat)
      (context : Bytes)
  | disputeOutOfScope (requestId : B256) (context : Bytes)
  | arbitrationTimedOut (requestId : B256)
  | requestTimedOut (requestId : B256)
  | oracleResult (requestId : B256) (proposer : Address) (approved : Bool)
  | claimed (requestId : B256) (sentinel : Address) (bondReturn feeReward : Nat)
  deriving DecidableEq

/-- A transfer of the fee token: from a payer to the oracle, or from the oracle to a recipient. -/
inductive Payment where
  | pull (payer : Address) (amount : Nat)
  | push (recipient : Address) (amount : Nat)
  deriving DecidableEq

/-- A call of the oracle. -/
inductive OracleCall where
  | postRequest (requestId : B256) (sponsor : Address)
  | commit (requestId : B256) (commitHash : B256)
  | reveal (requestId : B256) (approve : Bool) (salt : B256) (reason : Bytes)
  | finalize (requestId : B256)
  | claim (requestId : B256)
  | resolveDispute (requestId : B256) (approveWins : Bool) (context : Bytes)
  | timeoutArbitration (requestId : B256)
  | markOutOfScope (requestId : B256) (context : Bytes)
  | addSentinel (sentinel : Address)
  | removeSentinel (sentinel : Address)
  | scheduleBondConfig (newBondMultiplier newSlashingMultiplier : Fin (2 ^ 32))
  | applyBondConfig
  | scheduleProtocolFundsReceiver (newValue : Address)
  | applyProtocolFundsReceiver
  | scheduleFee (newValue : Fin (2 ^ 96))
  | applyFee
  | scheduleDaoFeeShare (newValue : Fin (2 ^ 24))
  | applyDaoFeeShare
  deriving DecidableEq

/-- What the oracle is constructed with; most of it is immutable.  `address` is its own. -/
structure OracleParams where
  address : Address
  keccak256 : Bytes → B256
  arbitrator : Address
  governance : Address
  protocolFundsReceiver : Address
  proposer : Address
  feeToken : Address
  requestFee : Fin (2 ^ 96)
  initialBondMultiplier : Fin (2 ^ 32)
  initialSlashingMultiplier : Fin (2 ^ 32)
  initialDaoFeeShare : Fin (2 ^ 24)
  commitWindow : Fin (2 ^ 32)
  revealWindow : Fin (2 ^ 32)
  governanceDelay : Fin (2 ^ 32)
  arbitrationTimeout : Fin (2 ^ 32)

/-- The storage of the oracle.  `sentinelMap` is zero where no sentinel is scheduled. -/
structure SentinelOracle where
  bondConfig : BondConfig
  protocolFundsReceiverConfig : Delayed Address
  feeConfig : Delayed Nat
  daoFeeShareConfig : Delayed Nat
  sentinelMap : Address → Nat
  requests : B256 → OracleRequest
  commitments : B256 → Address → OracleCommitment

namespace SentinelOracle

/-- The constructor. -/
def construct (params : OracleParams) : Except OracleError SentinelOracle := do
  require (params.arbitrator ≠ 0) .invalidAddress
  require (params.governance ≠ 0) .invalidAddress
  require (params.protocolFundsReceiver ≠ 0) .invalidAddress
  require (params.proposer ≠ 0) .invalidAddress
  require (params.feeToken ≠ 0) .invalidAddress
  require (0 < params.requestFee.val) .zeroFee
  require (0 < params.commitWindow.val) .zeroWindow
  require (0 < params.revealWindow.val) .zeroWindow
  require (params.initialDaoFeeShare.val ≤ feeShareDenominator) .invalidFeeShare
  require (0 < params.arbitrationTimeout.val) .zeroWindow
  let bondConfig ← BondConfig.init params.initialBondMultiplier.val params.initialSlashingMultiplier.val
  return {
    bondConfig
    protocolFundsReceiverConfig := .init params.protocolFundsReceiver
    feeConfig := .init params.requestFee.val
    daoFeeShareConfig := .init params.initialDaoFeeShare.val
    sentinelMap := fun _ => 0
    requests := fun _ => .empty
    commitments := fun _ _ => .empty }

/-- What a call that does not revert leaves, logs and pays. -/
abbrev Outcome : Type := SentinelOracle × List OracleLog × List Payment

variable (P : OracleParams) (o : SentinelOracle) (block : Nat) (sender : Address)

/-- `SentinelMap.isActive`. -/
def isActive (sentinel : Address) : Prop :=
  o.sentinelMap sentinel ≠ 0 ∧ o.sentinelMap sentinel ≤ block

instance (sentinel : Address) : Decidable (o.isActive block sentinel) :=
  inferInstanceAs (Decidable (_ ∧ _))

/-- `SentinelOracleRequestMap.get`. -/
def getRequest (requestId : B256) : Except OracleError OracleRequest := do
  require ((o.requests requestId).progress.state ≠ .none) .requestNotFound
  return o.requests requestId

/-- Write a request. -/
def setRequest (requestId : B256) (request : OracleRequest) : SentinelOracle :=
  { o with requests := Function.update o.requests requestId request }

/-- Write a commitment. -/
def setCommitment (requestId : B256) (sentinel : Address) (commitment : OracleCommitment) :
    SentinelOracle :=
  let ofRequest := Function.update (o.commitments requestId) sentinel commitment
  { o with commitments := Function.update o.commitments requestId ofRequest }

/-- `SentinelOracleRequestMap.create`. -/
def createRequest (requestId : B256) (fee : Nat) (terms : OracleTerms) :
    Except OracleError SentinelOracle := do
  require ((o.requests requestId).progress.state = .none) .requestAlreadyExists
  require (block < terms.commitDeadline) .commitDeadlineInPast
  require (terms.commitDeadline < terms.revealDeadline) .revealDeadlineNotAfterCommit
  return o.setRequest requestId ⟨terms, ⟨.pending, fee, 0, 0, 0, 0, 0⟩⟩

/-- `postRequest`. -/
def postRequest (requestId : B256) (sponsor : Address) : Except OracleError Outcome := do
  require (sender = P.proposer) .notProposer
  let feeConfig := o.feeConfig.applyPending block
  let bondConfig := o.bondConfig.applyPending block
  let bondTarget ← toUint 96 (feeConfig.value * bondConfig.bondMultiplier)
  let slashAmount ← toUint 96 (feeConfig.value * bondConfig.slashingMultiplier)
  let daoFeeShareConfig := o.daoFeeShareConfig.applyPending block
  let daoFeeShare := daoFeeShareConfig.value % 2 ^ 24
  let commitDeadline ← toUint 64 (block + P.commitWindow.val)
  let revealDeadline ← toUint 64 (block + P.commitWindow.val + P.revealWindow.val)
  let o ← { o with feeConfig, bondConfig, daoFeeShareConfig }.createRequest block requestId
    feeConfig.value { commitDeadline, daoFeeShare, revealDeadline, bondTarget, sponsor, slashAmount }
  return (o, [.newRequest requestId sponsor feeConfig.value bondTarget slashAmount commitDeadline
    revealDeadline], [.pull sponsor feeConfig.value])

/-- `checkNotCommitted`, which looks at the hash. -/
def checkNotCommitted (requestId : B256) (sentinel : Address) : Except OracleError Unit :=
  require ((o.commitments requestId sentinel).commitHash = 0) .alreadyCommitted

/-- `SentinelOracleCommitmentMap.add`. -/
def addCommitment (requestId : B256) (sentinel : Address) (commitHash : B256) (bondAmount : Nat) :
    Except OracleError SentinelOracle := do
  o.checkNotCommitted requestId sentinel
  return o.setCommitment requestId sentinel ⟨commitHash, bondAmount, .pending, false⟩

/-- `commit`. -/
def commit (requestId commitHash : B256) : Except OracleError Outcome := do
  require (o.isActive block sender) .sentinelNotActive
  let request ← o.getRequest requestId
  let (request, bondAmount) ← request.applyCommit block
  let o ← (o.setRequest requestId request).addCommitment requestId sender commitHash bondAmount
  return (o, [.committed requestId sender bondAmount], [.pull sender bondAmount])

/-- `SentinelOracleCommitmentMap.reveal`: the commitment with the vote. -/
def revealCommitment (requestId : B256) (sentinel : Address) (approve : Bool) (salt : B256)
    (reason : Bytes) : Except OracleError OracleCommitment := do
  let commitment := o.commitments requestId sentinel
  require (commitment.vote ≠ .none) .notCommitted
  require (commitment.vote = .pending) .alreadyRevealed
  require (OracleCommitment.computeHash P.keccak256 sentinel requestId approve salt reason =
    commitment.commitHash) .invalidReveal
  return { commitment with vote := if approve then .approved else .denied }

/-- `reveal`. -/
def reveal (requestId : B256) (approve : Bool) (salt : B256) (reason : Bytes) :
    Except OracleError Outcome := do
  let request ← o.getRequest requestId
  let commitment ← o.revealCommitment P requestId sender approve salt reason
  let request ← request.applyReveal block approve
  return ((o.setCommitment requestId sender commitment).setRequest requestId request,
    [.revealed requestId sender approve commitment.bondAmount reason], [])

/-- Move the protocol funds receiver on, and give it. -/
def fundsReceiver : SentinelOracle × Address :=
  let config := o.protocolFundsReceiverConfig.applyPending block
  ({ o with protocolFundsReceiverConfig := config }, config.value)

/-- A transfer that is made when there is something to transfer. -/
def pushPositive (recipient : Address) (amount : Nat) : List Payment :=
  if 0 < amount then [.push recipient amount] else []

/-- The log of `finalize`. -/
def finalLog (requestId : B256) (sponsor : Address) (arbitrationDeadline : Nat) :
    OracleRequestState → OracleLog
  | .frozen => .disputeTriggered requestId arbitrationDeadline
  | .timedOut => .requestTimedOut requestId
  | newState => .oracleResult requestId sponsor (newState = .resolvedApproved)

/-- The payments of `finalize`. -/
def finalPayments (fundsReceiver sponsor : Address) (result : OracleRequest.Finalized) :
    List Payment :=
  pushPositive fundsReceiver result.unrevealedBond ++
    match result.newState with
    | .frozen => []
    | .timedOut => [.push sponsor result.refundFee]
    | _ => pushPositive fundsReceiver result.daoCut

/-- `finalize`. -/
def finalize (requestId : B256) : Except OracleError Outcome := do
  let request ← o.getRequest requestId
  let sponsor := request.terms.sponsor
  let arbitrationDeadline ← toUint 64 (block + P.arbitrationTimeout.val)
  let (request, result) ← request.finalize block arbitrationDeadline
  let (o, fundsReceiver) := (o.setRequest requestId request).fundsReceiver block
  return (o, [finalLog requestId sponsor arbitrationDeadline result.newState],
    finalPayments fundsReceiver sponsor result)

/-- `claim`. -/
def claim (requestId : B256) : Except OracleError Outcome := do
  let request ← o.getRequest requestId
  let state ← request.requireResolved
  let commitment := o.commitments requestId sender
  let claimed ← commitment.markClaimed
  let feeReward ← request.calcFeeReward state commitment.vote
  let bondReturn ← checkedSub commitment.bondAmount (request.slashAmountFor state commitment.vote)
  return (o.setCommitment requestId sender claimed,
    [.claimed requestId sender bondReturn feeReward], pushPositive sender (bondReturn + feeReward))

/-- `resolveDispute`. -/
def resolveDispute (requestId : B256) (approveWins : Bool) (context : Bytes) :
    Except OracleError Outcome := do
  require (sender = P.arbitrator) .notArbitrator
  let request ← o.getRequest requestId
  let sponsor := request.terms.sponsor
  let (request, ruling) ← request.resolveDispute approveWins
  let (o, fundsReceiver) := (o.setRequest requestId request).fundsReceiver block
  let kept ← checkedSub ruling.slashed ruling.feeAmount
  let kept ← checkedAdd 128 kept ruling.daoCut
  return (o, [.disputeResolved requestId ruling.outcome ruling.slashed context],
    [.push sponsor ruling.feeAmount, .push fundsReceiver kept])

/-- `timeoutArbitration`. -/
def timeoutArbitration (requestId : B256) : Except OracleError Outcome := do
  let request ← o.getRequest requestId
  let sponsor := request.terms.sponsor
  let (request, refundFee) ← request.timeoutArbitration block
  return (o.setRequest requestId request, [.arbitrationTimedOut requestId], [.push sponsor refundFee])

/-- `markOutOfScope`. -/
def markOutOfScope (requestId : B256) (context : Bytes) : Except OracleError Outcome := do
  require (sender = P.arbitrator) .notArbitrator
  let request ← o.getRequest requestId
  let sponsor := request.terms.sponsor
  let (request, refundFee) ← request.outOfScope
  return (o.setRequest requestId request, [.disputeOutOfScope requestId context],
    [.push sponsor refundFee])

/-- The governance calls. -/
def govern (call : OracleCall) : Except OracleError SentinelOracle := do
  require (sender = P.governance) .notGovernance
  match call with
  | .addSentinel sentinel =>
    require (sentinel ≠ 0) .invalidAddress
    require (o.sentinelMap sentinel = 0) .sentinelAlreadyScheduled
    let activeAt := block + P.governanceDelay.val
    return { o with sentinelMap := Function.update o.sentinelMap sentinel activeAt }
  | .removeSentinel sentinel =>
    require (o.sentinelMap sentinel ≠ 0) .sentinelNotScheduled
    return { o with sentinelMap := Function.update o.sentinelMap sentinel 0 }
  | .scheduleBondConfig newBondMultiplier newSlashingMultiplier =>
    let bondConfig ← o.bondConfig.schedule block newBondMultiplier.val newSlashingMultiplier.val
      P.governanceDelay.val
    return { o with bondConfig }
  | .scheduleProtocolFundsReceiver newValue =>
    require (newValue ≠ 0) .invalidAddress
    let protocolFundsReceiverConfig ←
      o.protocolFundsReceiverConfig.schedule block newValue P.governanceDelay.val
    return { o with protocolFundsReceiverConfig }
  | .scheduleFee newValue =>
    require (0 < newValue.val) .zeroFee
    let feeConfig ← o.feeConfig.schedule block newValue.val P.governanceDelay.val
    return { o with feeConfig }
  | .scheduleDaoFeeShare newValue =>
    require (newValue.val ≤ feeShareDenominator) .invalidFeeShare
    let daoFeeShareConfig ← o.daoFeeShareConfig.schedule block newValue.val P.governanceDelay.val
    return { o with daoFeeShareConfig }
  | _ => return o

/-- A call. -/
def exec (call : OracleCall) : Except OracleError Outcome :=
  match call with
  | .postRequest requestId sponsor => o.postRequest P block sender requestId sponsor
  | .commit requestId commitHash => o.commit block sender requestId commitHash
  | .reveal requestId approve salt reason => o.reveal P block sender requestId approve salt reason
  | .finalize requestId => o.finalize P block requestId
  | .claim requestId => o.claim sender requestId
  | .resolveDispute requestId approveWins context =>
    o.resolveDispute P block sender requestId approveWins context
  | .timeoutArbitration requestId => o.timeoutArbitration block requestId
  | .markOutOfScope requestId context => o.markOutOfScope P sender requestId context
  | .applyBondConfig => .ok ({ o with bondConfig := o.bondConfig.applyPending block }, [], [])
  | .applyProtocolFundsReceiver => .ok ((o.fundsReceiver block).1, [], [])
  | .applyFee => .ok ({ o with feeConfig := o.feeConfig.applyPending block }, [], [])
  | .applyDaoFeeShare =>
    .ok ({ o with daoFeeShareConfig := o.daoFeeShareConfig.applyPending block }, [], [])
  | call => (o.govern P block sender call).map fun o => (o, [], [])

end SentinelOracle

/-- A call in a block. -/
structure OracleTx where
  block : Nat
  sender : Address
  call : OracleCall

/-- What a call that did not revert has logged and paid. -/
structure OracleReceipt where
  tx : OracleTx
  logs : List OracleLog
  payments : List Payment

/-- Execute a call.  One that reverts changes nothing. -/
def SentinelOracle.execTx (P : OracleParams) (o : SentinelOracle) (tx : OracleTx) :
    SentinelOracle × List OracleReceipt :=
  match o.exec P tx.block tx.sender tx.call with
  | .ok (o, logs, payments) => (o, [⟨tx, logs, payments⟩])
  | .error _ => (o, [])

/-! ## 5. What a call does to a request -/

/-- The request of a call. -/
def OracleCall.request : OracleCall → Option B256
  | .postRequest requestId _ | .commit requestId _ | .reveal requestId _ _ _ | .finalize requestId
  | .claim requestId | .resolveDispute requestId _ _ | .timeoutArbitration requestId
  | .markOutOfScope requestId _ => some requestId
  | _ => none

/-- A request and the commitments to it. -/
structure OracleBook where
  request : OracleRequest
  commitments : Address → OracleCommitment

/-- What the oracle stores of a request. -/
def SentinelOracle.book (o : SentinelOracle) (requestId : B256) : OracleBook :=
  ⟨o.requests requestId, o.commitments requestId⟩

/-- The fee and the terms of a request that is posted in a block. -/
structure SentinelOracle.Offers (o : SentinelOracle) (block fee : Nat) (terms : OracleTerms) :
    Prop where
  value : fee = (o.feeConfig.applyPending block).value
  bond : terms.bondTarget = fee * (o.bondConfig.applyPending block).bondMultiplier
  slash : terms.slashAmount = fee * (o.bondConfig.applyPending block).slashingMultiplier
  share : terms.daoFeeShare = (o.daoFeeShareConfig.applyPending block).value % 2 ^ 24
  bound : terms.bondTarget < 2 ^ 96
  window : block < terms.commitDeadline ∧ terms.commitDeadline < terms.revealDeadline

/-- What a call that does not revert does to its request.  `Offer` is what a request is posted with,
`receiver` the address the protocol's funds go to. -/
inductive OracleBook.Step (P : OracleParams) (Offer : Nat → OracleTerms → Prop) (receiver : Address)
    (id : B256) (block : Nat) (sender : Address) (b : OracleBook) :
    OracleCall → OracleBook → List OracleLog → List Payment → Prop where
  | posted {fee : Nat} {terms : OracleTerms} :
      b.request.progress.state = .none → Offer fee terms →
      Step P Offer receiver id block sender b (.postRequest id terms.sponsor)
        { b with request := ⟨terms, ⟨.pending, fee, 0, 0, 0, 0, 0⟩⟩ }
        [.newRequest id terms.sponsor fee terms.bondTarget terms.slashAmount terms.commitDeadline
          terms.revealDeadline] [.pull terms.sponsor fee]
  | committed {commitHash : B256} {request : OracleRequest} :
      b.request.applyCommit block = .ok (request, b.request.terms.bondTarget) →
      (b.commitments sender).commitHash = 0 →
      Step P Offer receiver id block sender b (.commit id commitHash)
        ⟨request, Function.update b.commitments sender
          ⟨commitHash, b.request.terms.bondTarget, .pending, false⟩⟩
        [.committed id sender b.request.terms.bondTarget] [.pull sender b.request.terms.bondTarget]
  | revealed {approve : Bool} {salt : B256} {reason : Bytes} {request : OracleRequest} :
      (b.commitments sender).vote = .pending →
      OracleCommitment.computeHash P.keccak256 sender id approve salt reason =
        (b.commitments sender).commitHash →
      b.request.applyReveal block approve = .ok request →
      Step P Offer receiver id block sender b (.reveal id approve salt reason)
        ⟨request, Function.update b.commitments sender
          { b.commitments sender with vote := if approve then .approved else .denied }⟩
        [.revealed id sender approve (b.commitments sender).bondAmount reason] []
  | finalized {deadline : Nat} {request : OracleRequest} {result : OracleRequest.Finalized} :
      b.request.finalize block deadline = .ok (request, result) →
      Step P Offer receiver id block sender b (.finalize id) { b with request }
        [SentinelOracle.finalLog id b.request.terms.sponsor deadline result.newState]
        (SentinelOracle.finalPayments receiver b.request.terms.sponsor result)
  | claimed {feeReward bondReturn : Nat} :
      b.request.IsResolved →
      0 < (b.commitments sender).bondAmount → (b.commitments sender).claimed = false →
      b.request.calcFeeReward b.request.progress.state (b.commitments sender).vote = .ok feeReward →
      checkedSub (b.commitments sender).bondAmount
        (b.request.slashAmountFor b.request.progress.state (b.commitments sender).vote) =
          .ok bondReturn →
      Step P Offer receiver id block sender b (.claim id)
        { b with commitments :=
          Function.update b.commitments sender { b.commitments sender with claimed := true } }
        [.claimed id sender bondReturn feeReward]
        (SentinelOracle.pushPositive sender (bondReturn + feeReward))
  | ruled {approveWins : Bool} {context : Bytes} {request : OracleRequest}
      {ruling : OracleRequest.Ruling} {kept : Nat} :
      b.request.resolveDispute approveWins = .ok (request, ruling) →
      (checkedSub ruling.slashed ruling.feeAmount >>= fun kept => checkedAdd 128 kept ruling.daoCut) =
        .ok kept →
      Step P Offer receiver id block sender b (.resolveDispute id approveWins context)
        { b with request } [.disputeResolved id ruling.outcome ruling.slashed context]
        [.push b.request.terms.sponsor ruling.feeAmount, .push receiver kept]
  | refunded {call : OracleCall} {request : OracleRequest} {refundFee : Nat} {log : OracleLog} :
      b.request.outOfScope = .ok (request, refundFee) →
      (call = .timeoutArbitration id ∧ log = .arbitrationTimedOut id ∨
        ∃ context, call = .markOutOfScope id context ∧ log = .disputeOutOfScope id context) →
      Step P Offer receiver id block sender b call { b with request } [log]
        [.push b.request.terms.sponsor refundFee]

theorem require_eq_ok {p : Prop} [Decidable p] {e : OracleError} {u : Unit} :
    require p e = .ok u ↔ p := by
  unfold require
  split <;> simp_all

theorem require_eq_error {p : Prop} [Decidable p] {e e' : OracleError} :
    require p e = .error e' ↔ ¬p ∧ e = e' := by
  unfold require
  split <;> simp_all

theorem toUint_eq_ok {bits n m : Nat} : toUint bits n = .ok m ↔ n = m ∧ n < 2 ^ bits := by
  unfold toUint
  split
  · rename_i h
    simp only [Except.ok.injEq, h, and_true]
  · rename_i h
    simp only [reduceCtorEq, h, and_false]

theorem checkedAdd_eq_ok {bits a b c : Nat} :
    checkedAdd bits a b = .ok c ↔ a + b = c ∧ a + b < 2 ^ bits := by
  unfold checkedAdd
  split
  · rename_i h
    simp only [Except.ok.injEq, h, and_true]
  · rename_i h
    simp only [reduceCtorEq, h, and_false]

theorem checkedAdd_eq_error {bits a b : Nat} {e : OracleError} :
    checkedAdd bits a b = .error e ↔ ¬a + b < 2 ^ bits ∧ OracleError.panic = e := by
  unfold checkedAdd
  split
  · rename_i h
    simp only [reduceCtorEq, h, not_true, false_and]
  · rename_i h
    simp only [Except.error.injEq, h, not_false_eq_true, true_and]

theorem checkedSub_eq_ok {a b c : Nat} : checkedSub a b = .ok c ↔ a - b = c ∧ b ≤ a := by
  unfold checkedSub
  split <;> simp_all

namespace SentinelOracle

variable {P : OracleParams} {o o' : SentinelOracle} {block : Nat} {sender : Address} {id : B256}

theorem getRequest_eq_ok {request : OracleRequest} :
    o.getRequest id = .ok request ↔
      (o.requests id).progress.state ≠ .none ∧ o.requests id = request := by
  simp only [getRequest, Except.bind_eq_ok, require_eq_ok, Except.pure_eq_ok, exists_const]

@[simp] theorem book_setRequest_self (request : OracleRequest) :
    (o.setRequest id request).book id = { o.book id with request } := by
  simp [setRequest, book]

@[simp] theorem book_setRequest_ne {id' : B256} (h : id' ≠ id) (request : OracleRequest) :
    (o.setRequest id request).book id' = o.book id' := by
  simp [setRequest, book, h]

@[simp] theorem book_setCommitment_self (commitment : OracleCommitment) :
    (o.setCommitment id sender commitment).book id =
      { o.book id with commitments := Function.update (o.book id).commitments sender commitment } := by
  simp [setCommitment, book]

@[simp] theorem book_setCommitment_ne {id' : B256} (h : id' ≠ id) (commitment : OracleCommitment) :
    (o.setCommitment id sender commitment).book id' = o.book id' := by
  simp [setCommitment, book, h]

/-- Governance touches no request. -/
theorem govern_book {call : OracleCall} (h : o.govern P block sender call = .ok o') (id : B256) :
    o'.book id = o.book id := by
  unfold govern at h
  obtain ⟨_, -, h⟩ := Except.bind_eq_ok.mp h
  cases call with
  | addSentinel sentinel =>
    obtain ⟨-, -, rfl⟩ := by
      simpa only [Except.bind_eq_ok, exists_const, require_eq_ok, Except.pure_eq_ok] using h
    rfl
  | removeSentinel sentinel =>
    obtain ⟨-, rfl⟩ := by
      simpa only [Except.bind_eq_ok, exists_const, require_eq_ok, Except.pure_eq_ok] using h
    rfl
  | scheduleBondConfig newBondMultiplier newSlashingMultiplier =>
    obtain ⟨bondConfig, -, h⟩ := Except.bind_eq_ok.mp h
    exact congrArg (·.book id) (Except.ok.inj h).symm
  | scheduleProtocolFundsReceiver newValue =>
    obtain ⟨-, config, -, rfl⟩ := by
      simpa only [Except.bind_eq_ok, exists_const, require_eq_ok, Except.pure_eq_ok] using h
    rfl
  | scheduleFee newValue =>
    obtain ⟨-, config, -, rfl⟩ := by
      simpa only [Except.bind_eq_ok, exists_const, require_eq_ok, Except.pure_eq_ok] using h
    rfl
  | scheduleDaoFeeShare newValue =>
    obtain ⟨-, config, -, rfl⟩ := by
      simpa only [Except.bind_eq_ok, exists_const, require_eq_ok, Except.pure_eq_ok] using h
    rfl
  | _ => exact congrArg (·.book id) (Except.ok.inj h).symm

/-- A call steps its request, and touches no other. -/
structure Steps (P : OracleParams) (o : SentinelOracle) (id : B256) (block : Nat) (sender : Address)
    (call : OracleCall) (outcome : Outcome) : Prop where
  others : ∀ id' ≠ id, outcome.1.book id' = o.book id'
  step : (o.book id).Step P (o.Offers block) (o.protocolFundsReceiverConfig.applyPending block).value
    id block sender call (outcome.1.book id) outcome.2.1 outcome.2.2

variable {outcome : Outcome}

theorem postRequest_steps {sponsor : Address} (h : o.postRequest P block sender id sponsor = .ok outcome) :
    o.Steps P id block sender (.postRequest id sponsor) outcome := by
  simp only [postRequest, createRequest, Except.bind_eq_ok, exists_const, require_eq_ok,
    Except.pure_eq_ok, toUint_eq_ok] at h
  obtain ⟨-, bond, ⟨rfl, hbond⟩, slash, ⟨rfl, -⟩, _, ⟨rfl, -⟩, _, ⟨rfl, -⟩, _, ⟨hnone, hcommit,
    hreveal, rfl⟩, rfl⟩ := h
  refine ⟨fun id' hid => book_setRequest_ne hid _, ?_⟩
  rw [book_setRequest_self]
  have hstate : (o.book id).request.progress.state = .none := hnone
  have hoffer : o.Offers block (o.feeConfig.applyPending block).value ⟨block + P.commitWindow.val,
      (o.daoFeeShareConfig.applyPending block).value % 2 ^ 24,
      block + P.commitWindow.val + P.revealWindow.val, _, sponsor, _⟩ :=
    ⟨rfl, rfl, rfl, rfl, hbond, hcommit, hreveal⟩
  exact .posted hstate hoffer

theorem applyCommit_bond {request request' : OracleRequest} {bondAmount : Nat}
    (h : request.applyCommit block = .ok (request', bondAmount)) :
    bondAmount = request.terms.bondTarget := by
  simp only [OracleRequest.applyCommit, Except.bind_eq_ok, Except.pure_eq_ok, Prod.mk.injEq] at h
  obtain ⟨-, -, -, -, -, -, -, h⟩ := h
  exact h.symm

theorem commit_steps {commitHash : B256} (h : o.commit block sender id commitHash = .ok outcome) :
    o.Steps P id block sender (.commit id commitHash) outcome := by
  simp only [commit, addCommitment, checkNotCommitted, Except.bind_eq_ok, exists_const,
    require_eq_ok, getRequest_eq_ok, Except.pure_eq_ok, Prod.exists] at h
  obtain ⟨-, request, ⟨-, rfl⟩, request', bondAmount, hcommit, _, ⟨hhash, rfl⟩, rfl⟩ := h
  obtain rfl := applyCommit_bond hcommit
  constructor
  · intro id' hid
    rw [book_setCommitment_ne hid, book_setRequest_ne hid]
  · rw [book_setCommitment_self, book_setRequest_self]
    exact .committed hcommit hhash

theorem reveal_steps {approve : Bool} {salt : B256} {reason : Bytes}
    (h : o.reveal P block sender id approve salt reason = .ok outcome) :
    o.Steps P id block sender (.reveal id approve salt reason) outcome := by
  simp only [reveal, revealCommitment, Except.bind_eq_ok, exists_const, require_eq_ok,
    getRequest_eq_ok, Except.pure_eq_ok] at h
  obtain ⟨request, ⟨-, rfl⟩, commitment, ⟨-, hvote, hhash, rfl⟩, request', hreveal, rfl⟩ := h
  constructor
  · intro id' hid
    rw [book_setRequest_ne hid, book_setCommitment_ne hid]
  · rw [book_setRequest_self, book_setCommitment_self]
    exact .revealed hvote hhash hreveal

theorem finalize_steps (h : o.finalize P block id = .ok outcome) :
    o.Steps P id block sender (.finalize id) outcome := by
  simp only [finalize, Except.bind_eq_ok, getRequest_eq_ok, Except.pure_eq_ok, Prod.exists] at h
  obtain ⟨request, ⟨-, rfl⟩, deadline, -, request', result, hfinalize, rfl⟩ := h
  have hself : (((o.setRequest id request').fundsReceiver block).1).book id =
      { o.book id with request := request' } := book_setRequest_self _
  refine ⟨fun id' hid => book_setRequest_ne hid _, ?_⟩
  rw [hself]
  exact .finalized hfinalize

theorem claim_steps (h : o.claim sender id = .ok outcome) :
    o.Steps P id block sender (.claim id) outcome := by
  simp only [claim, OracleRequest.requireResolved, OracleCommitment.markClaimed, Except.bind_eq_ok,
    exists_const, require_eq_ok, getRequest_eq_ok, Except.pure_eq_ok] at h
  obtain ⟨request, ⟨-, rfl⟩, state, ⟨hresolved, rfl⟩, claimed, ⟨hbond, hclaimed, rfl⟩, feeReward, hfee,
    bondReturn, hreturn, rfl⟩ := h
  refine ⟨fun id' hid => book_setCommitment_ne hid _, ?_⟩
  rw [book_setCommitment_self]
  exact .claimed hresolved hbond hclaimed hfee hreturn

theorem resolveDispute_steps {approveWins : Bool} {context : Bytes}
    (h : o.resolveDispute P block sender id approveWins context = .ok outcome) :
    o.Steps P id block sender (.resolveDispute id approveWins context) outcome := by
  simp only [resolveDispute, Except.bind_eq_ok, exists_const, require_eq_ok, getRequest_eq_ok,
    Except.pure_eq_ok, Prod.exists] at h
  obtain ⟨-, request, ⟨-, rfl⟩, request', ruling, hruling, kept, hkept, kept', hkept', rfl⟩ := h
  have hself : (((o.setRequest id request').fundsReceiver block).1).book id =
      { o.book id with request := request' } := book_setRequest_self _
  refine ⟨fun id' hid => book_setRequest_ne hid _, ?_⟩
  rw [hself]
  exact .ruled hruling (Except.bind_eq_ok.mpr ⟨kept, hkept, hkept'⟩)

theorem timeoutArbitration_steps (h : o.timeoutArbitration block id = .ok outcome) :
    o.Steps P id block sender (.timeoutArbitration id) outcome := by
  simp only [timeoutArbitration, OracleRequest.timeoutArbitration, Except.bind_eq_ok, exists_const,
    require_eq_ok, getRequest_eq_ok, Except.pure_eq_ok, Prod.exists] at h
  obtain ⟨request, ⟨-, rfl⟩, request', refundFee, ⟨-, hrefund⟩, rfl⟩ := h
  refine ⟨fun id' hid => book_setRequest_ne hid _, ?_⟩
  rw [book_setRequest_self]
  exact .refunded hrefund (.inl ⟨rfl, rfl⟩)

theorem markOutOfScope_steps {context : Bytes}
    (h : o.markOutOfScope P sender id context = .ok outcome) :
    o.Steps P id block sender (.markOutOfScope id context) outcome := by
  simp only [markOutOfScope, Except.bind_eq_ok, exists_const, require_eq_ok, getRequest_eq_ok,
    Except.pure_eq_ok, Prod.exists] at h
  obtain ⟨-, request, ⟨-, rfl⟩, request', refundFee, hrefund, rfl⟩ := h
  refine ⟨fun id' hid => book_setRequest_ne hid _, ?_⟩
  rw [book_setRequest_self]
  exact .refunded hrefund (.inr ⟨context, rfl, rfl⟩)

/-- **What a call that does not revert does**: nothing to the requests, or a step of one of them. -/
theorem exec_cases {call : OracleCall} (h : o.exec P block sender call = .ok outcome) :
    (call.request = none ∧ (∀ id, outcome.1.book id = o.book id) ∧ outcome.2 = ([], [])) ∨
      ∃ id, call.request = some id ∧ o.Steps P id block sender call outcome := by
  have hgovern : (o.govern P block sender call).map (fun o => (o, [], [])) = .ok outcome →
      (∀ id, outcome.1.book id = o.book id) ∧ outcome.2 = ([], []) := by
    intro h
    obtain ⟨o', ho', rfl⟩ := Except.map_eq_ok.mp h
    exact ⟨govern_book ho', rfl⟩
  cases call with
  | postRequest id sponsor => exact .inr ⟨id, rfl, postRequest_steps h⟩
  | commit id commitHash => exact .inr ⟨id, rfl, commit_steps h⟩
  | reveal id approve salt reason => exact .inr ⟨id, rfl, reveal_steps h⟩
  | finalize id => exact .inr ⟨id, rfl, finalize_steps h⟩
  | claim id => exact .inr ⟨id, rfl, claim_steps h⟩
  | resolveDispute id approveWins context => exact .inr ⟨id, rfl, resolveDispute_steps h⟩
  | timeoutArbitration id => exact .inr ⟨id, rfl, timeoutArbitration_steps h⟩
  | markOutOfScope id context => exact .inr ⟨id, rfl, markOutOfScope_steps h⟩
  | applyBondConfig =>
    obtain rfl := Except.ok.inj h
    exact .inl ⟨rfl, fun _ => rfl, rfl⟩
  | applyProtocolFundsReceiver =>
    obtain rfl := Except.ok.inj h
    exact .inl ⟨rfl, fun _ => rfl, rfl⟩
  | applyFee =>
    obtain rfl := Except.ok.inj h
    exact .inl ⟨rfl, fun _ => rfl, rfl⟩
  | applyDaoFeeShare =>
    obtain rfl := Except.ok.inj h
    exact .inl ⟨rfl, fun _ => rfl, rfl⟩
  | _ => exact .inl ⟨rfl, hgovern h⟩

end SentinelOracle

end Safenet
