/-
# The checker chain

The ten checkers of `checkers/`, in the order `main.rs` puts them, and the engine that runs
them: the first verdict other than an abstention is the engine's.

Five of the checkers can affirm a transaction, and each looks at the fields its own pattern is
made of.  Section 5 says of each checker what it affirms and what it denies, in terms of the
transaction and of the services' answers; `Verdicts.lean` reads the chain's properties off
these.

The log provider, the order API and the EIP-712 hash are parameters, answering each query
once and for all.
-/
import Safenet.Engine.Batches

namespace Safenet
namespace Engine

/-! ## 1. The services -/

/-- A log's topics and data. -/
structure LogData where
  topics : List B256
  data : Bytes
  deriving DecidableEq

/-- The query of `established_recipients`: one token's events with the Safe as first topic,
in a range of blocks. -/
structure Filter where
  address : Address
  eventSignature : List B256
  topic1 : Address
  fromBlock : Nat
  toBlock : Nat
  deriving DecidableEq

/-- The order the API returns, with the fields of `GPv2Order.Data`. -/
structure CowOrder where
  owner : Address
  receiver : Option Address
  sellToken : Address
  buyToken : Address
  sellAmount : U256
  buyAmount : U256
  validTo : Fin (2 ^ 32)
  appData : B256
  feeAmount : U256
  kind : String
  partiallyFillable : Bool
  sellTokenBalance : String
  buyTokenBalance : String
  deriving DecidableEq

/-- The EIP-712 order, `cow::Order`. -/
structure Order where
  sellToken : Address
  buyToken : Address
  receiver : Address
  sellAmount : U256
  buyAmount : U256
  validTo : Fin (2 ^ 32)
  appData : B256
  feeAmount : U256
  kind : String
  partiallyFillable : Bool
  sellTokenBalance : String
  buyTokenBalance : String
  deriving DecidableEq

/-- `Eip712Domain`. -/
structure Eip712Domain where
  name : String
  version : String
  chainId : U256
  verifyingContract : Address
  deriving DecidableEq

/-- What the checkers ask of the world, and the engine's configuration. -/
structure Services where
  abi : Abi
  /-- `Provider::chain_id`. -/
  chainId : Fin (2 ^ 64)
  /-- `Provider::get_logs`; `none` is a failed query. -/
  getLogs : Filter → Option (List LogData)
  /-- `Transfer::decode_log_data`, as `(to, amount)`. -/
  decodeTransferLog : LogData → Option (Address × U256)
  /-- `Approval::decode_log_data`, as `(spender, amount)`. -/
  decodeApprovalLog : LogData → Option (Address × U256)
  /-- `OrderApi::fetch_order`; `none` is a failed lookup. -/
  fetchOrder : String → Bytes → Option CowOrder
  /-- `SolStruct::eip712_signing_hash`. -/
  eip712SigningHash : Eip712Domain → Order → B256
  blocklist : Finset Address
  lookbackBlocks : Nat
  maxBlockRange : Option Nat

/-- `CheckContext`. -/
structure CheckContext where
  block : Fin (2 ^ 64)

/-! ## 2. Local checkers -/

/-- The empty call of a Safe to itself under `tx`'s nonce. -/
def cancellation (tx : SafeTransaction) : SafeTransaction :=
  { SafeTransaction.default with
    chainId := tx.chainId, safe := tx.safe, «to» := tx.safe, nonce := tx.nonce }

/-- `CancellationChecker::check`. -/
def cancellationChecker (tx : SafeTransaction) : Verdict :=
  if tx = cancellation tx then .secure else .abstain

/-- `is_escape_hatch_call`. -/
def isEscapeHatchCall (tx : SafeTransaction) : Bool :=
  if tx.operation ≠ .call ∨ tx.value ≠ 0 ∨ tx.gasPrice ≠ 0 then false
  else startsWith tx.data Selectors.announceTransaction ||
    startsWith tx.data Selectors.cancelAnnouncement

/-- `EscapeHatchChecker::check`. -/
def escapeHatchChecker (tx : SafeTransaction) : Verdict :=
  if isEscapeHatchCall tx then .secure else .abstain

/-- `is_nested_exec_transaction`. -/
def isNestedExecTransaction (A : Abi) (tx : SafeTransaction) : Bool :=
  tx.operation = .call && tx.to ≠ tx.safe && startsWith tx.data A.execTransactionCall.selector &&
    (A.execTransactionCall.abiDecode tx.data).isSome

/-- `NestedSafeChecker::check`. -/
def nestedSafeChecker (A : Abi) (tx : SafeTransaction) : Verdict :=
  if isNestedExecTransaction A tx then .secure else .abstain

/-! ## 3. Protocol checkers -/

/-- `GP_V2_VAULT_RELAYER`. -/
def gpV2VaultRelayer : Address := 0xC92E8bdf79f0507f65a392b0ab4667716BFE0110
/-- `GP_V2_SETTLEMENT`. -/
def gpV2Settlement : Address := 0x9008D19f58AAbD9eD0D60971565AA8510560ab41
/-- `COMPOSABLE_COW`. -/
def composableCow : Address := 0xfdaFc9d1902f4e0b84f65F49f244b32b31013b74
/-- `TWAP_HANDLER`. -/
def twapHandler : Address := 0x6cF1e9cA41f7611dEf408122793c358a3d11E5a5
/-- `CURRENT_BLOCK_TIMESTAMP_FACTORY`. -/
def currentBlockTimestampFactory : Address := 0x52eD56Da04309Aca4c3FECC595298d80C2f16BAc
/-- `SUPPORTED_CHAIN_IDS`. -/
def supportedChainIds : List U256 := [1, 42161, 100]

/-- `order_api_base_url`. -/
def orderApiBaseUrl (chainId : U256) : Option String :=
  if chainId = 1 then some "https://api.cow.fi/mainnet"
  else if chainId = 100 then some "https://api.cow.fi/xdai"
  else if chainId = 42161 then some "https://api.cow.fi/arbitrum_one"
  else none

/-- `gp_v2_domain`. -/
def gpV2Domain (chainId : U256) : Eip712Domain :=
  ⟨"Gnosis Protocol", "v2", chainId, gpV2Settlement⟩

/-- `CowOrder::receiver`: an order without a receiver pays its owner. -/
def CowOrder.effectiveReceiver (order : CowOrder) : Address :=
  match order.receiver with
  | some receiver => if receiver ≠ 0 then receiver else order.owner
  | none => order.owner

/-- `compute_order_uid`. -/
def Services.computeOrderUid (E : Services) (chainId : U256) (order : CowOrder) : Bytes :=
  let digest := E.eip712SigningHash (gpV2Domain chainId)
    { sellToken := order.sellToken, buyToken := order.buyToken,
      receiver := order.receiver.getD 0, sellAmount := order.sellAmount,
      buyAmount := order.buyAmount, validTo := order.validTo, appData := order.appData,
      feeAmount := order.feeAmount, kind := order.kind,
      partiallyFillable := order.partiallyFillable, sellTokenBalance := order.sellTokenBalance,
      buyTokenBalance := order.buyTokenBalance }
  B256.toBytes digest ++ (beBytes 20 order.owner.val ++ beBytes 4 order.validTo.val)

/-- A plain call that carries no value. -/
def valueless (tx : SafeTransaction) : Bool := tx.operation = .call && tx.value = 0

section
variable (A : Abi)

/-- `vault_relayer_approval_amount`. -/
def vaultRelayerApprovalAmount (tx : SafeTransaction) : Option (Address × U256) :=
  if ¬ valueless tx then none else do
    let (spender, amount) ← A.approveCall.abiDecode tx.data
    if spender = gpV2VaultRelayer then some (tx.to, amount) else none

/-- `approves_vault_relayer`. -/
def approvesVaultRelayer (tx : SafeTransaction) : Bool :=
  (vaultRelayerApprovalAmount A tx).isSome

/-- `is_presignature`. -/
def isPresignature (tx : SafeTransaction) : Bool :=
  valueless tx && tx.to = gpV2Settlement && (A.setPreSignatureCall.abiDecode tx.data).isSome

/-- `is_twap_create`. -/
def isTwapCreate (tx : SafeTransaction) : Bool :=
  valueless tx && tx.to = composableCow && (A.createWithContextCall.abiDecode tx.data).any
    fun create => create.handler = twapHandler && create.factory = currentBlockTimestampFactory

/-- `twap_order_terms`: sell token, receiver, total sell amount and part count. -/
def twapOrderTerms (tx : SafeTransaction) : Option (Address × Address × U256 × U256) :=
  if ¬ valueless tx ∨ tx.to ≠ composableCow then none else do
    let create ← A.createWithContextCall.abiDecode tx.data
    if create.handler ≠ twapHandler ∨ create.factory ≠ currentBlockTimestampFactory then none
    else
      let order ← A.twapData create.staticInput
      -- `checked_mul`
      if h : order.partSellAmount.val * order.n.val < 2 ^ 256 then
        some (order.sellToken, order.receiver, ⟨_, h⟩, order.n)
      else none

/-- `decode_approval_and_twap`. -/
def decodeApprovalAndTwap (approval twap : SafeTransaction) :
    Option (Address × U256 × Address × Address × U256 × U256) := do
  let (approvedToken, approvedAmount) ← vaultRelayerApprovalAmount A approval
  let (sellToken, receiver, total, n) ← twapOrderTerms A twap
  some (approvedToken, approvedAmount, sellToken, receiver, total, n)

/-- `max_approval_for_twap_total`, with its saturating operations. -/
def maxApprovalForTwapTotal (total n : U256) : Nat :=
  min (total.val + (n.val - 1)) (2 ^ 256 - 1)

/-- `presignature_order_uid`. -/
def presignatureOrderUid (tx : SafeTransaction) : Option Bytes :=
  if ¬ valueless tx ∨ tx.to ≠ gpV2Settlement then none else do
    let (orderUid, signed) ← A.setPreSignatureCall.abiDecode tx.data
    if signed then some orderUid else none

/-- `decode_approval_and_presignature`. -/
def decodeApprovalAndPresignature (approval presignature : SafeTransaction) :
    Option (Address × U256 × Bytes) := do
  let (token, approvedAmount) ← vaultRelayerApprovalAmount A approval
  let orderUid ← presignatureOrderUid A presignature
  some (token, approvedAmount, orderUid)

/-- `CowChecker::check_dangling_approval`. -/
def checkDanglingApproval (calls : List SafeTransaction) : Verdict :=
  if ¬ calls.any (approvesVaultRelayer A) then .abstain
  else if calls.any fun c => isPresignature A c || isTwapCreate A c then .abstain
  else .insecure .R4_4AuthorizationTarget

/-- `CowChecker::check_twap_batch`. -/
def checkTwapBatch (safe : Address) (calls : List SafeTransaction) : Verdict :=
  match calls with
  | [first, second] =>
    match (decodeApprovalAndTwap A first second).or (decodeApprovalAndTwap A second first) with
    | none => .abstain
    | some (approvedToken, approvedAmount, sellToken, receiver, total, n) =>
      if receiver ≠ safe ∧ receiver ≠ 0 then .insecure .R4_4AuthorizationTarget
      else if approvedToken ≠ sellToken ∨ approvedAmount.val > maxApprovalForTwapTotal total n
      then .insecure .R4_5ExcessiveApproval
      else .secure
  | _ => .abstain

end

/-- `CowChecker::check_presignature_batch`. -/
def Services.checkPresignatureBatch (E : Services) (safe : Address) (chainId : U256)
    (calls : List SafeTransaction) : Verdict :=
  match orderApiBaseUrl chainId with
  | none => .abstain
  | some baseUrl =>
    match calls with
    | [first, second] =>
      match (decodeApprovalAndPresignature E.abi first second).or
          (decodeApprovalAndPresignature E.abi second first) with
      | none => .abstain
      | some (token, approvedAmount, orderUid) =>
        match E.fetchOrder baseUrl orderUid with
        | none => .abstain
        | some order =>
          if orderUid ≠ E.computeOrderUid chainId order then .abstain
          else if order.effectiveReceiver ≠ safe then .insecure .R4_4AuthorizationTarget
          else if token = order.sellToken ∧ approvedAmount = order.sellAmount then .secure
          else .insecure .R4_5ExcessiveApproval
    | _ => .abstain

/-- The first verdict that is not an abstention. -/
def Verdict.orElse (v : Verdict) (w : Verdict) : Verdict :=
  if v ≠ .abstain then v else w

/-- `CowChecker::check`. -/
def Services.cowChecker (E : Services) (tx : SafeTransaction) : Verdict :=
  if tx.chainId ∉ supportedChainIds then .abstain
  else
    let calls := E.abi.subTransactions tx
    ((checkDanglingApproval E.abi calls).orElse
      (E.checkPresignatureBatch tx.safe tx.chainId calls)).orElse
        (checkTwapBatch E.abi tx.safe calls)

/-- `STAKING`. -/
def staking : Address := 0x115E78f160e1E3eF163B05C84562Fa16fA338509
/-- `SAFE_TOKEN`. -/
def safeToken : Address := 0x5aFE3855358E112B5647B952709E6165e1c1eEEe
/-- `REWARDS_DISTRIBUTOR`. -/
def rewardsDistributor : Address := 0xe5139fc0fb8eae81e30d8a85c22e88c6757120f2

section
variable (A : Abi)

/-- `claim_account`. -/
def claimAccount (tx : SafeTransaction) : Option Address :=
  if ¬ valueless tx ∨ tx.to ≠ rewardsDistributor then none else A.claimCall.abiDecode tx.data

/-- `staking_approval_amount`. -/
def stakingApprovalAmount (tx : SafeTransaction) : Option U256 :=
  if ¬ valueless tx ∨ tx.to ≠ safeToken then none else do
    let (spender, amount) ← A.approveCall.abiDecode tx.data
    if spender = staking then some amount else none

/-- `stake_amount`. -/
def stakeAmount (tx : SafeTransaction) : Option U256 :=
  if ¬ valueless tx ∨ tx.to ≠ staking then none else A.stakeCall.abiDecode tx.data

/-- `check_lone_call`. -/
def checkLoneCall (call : SafeTransaction) : Verdict :=
  if (stakeAmount A call).isSome then .secure else .abstain

/-- `check_pair`. -/
def checkPair (first second : SafeTransaction) : Verdict :=
  match stakingApprovalAmount A first, stakeAmount A second with
  | some approved, some staked =>
    if approved > staked then .insecure .R4_5ExcessiveApproval else .secure
  | _, _ => .abstain

/-- The loop of `StakingChecker::check`: whether a claim was seen, and the calls that are not
claims.  It stops at a claim that is paid to another account. -/
def setAsideClaims (safe : Address) :
    List SafeTransaction → Bool × List SafeTransaction → Option (Bool × List SafeTransaction)
  | [], acc => some acc
  | call :: calls, (claimed, remaining) =>
    match claimAccount A call with
    | some account => if account ≠ safe then none else setAsideClaims safe calls (true, remaining)
    | none => setAsideClaims safe calls (claimed, remaining ++ [call])

/-- `StakingChecker::check`. -/
def stakingChecker (tx : SafeTransaction) : Verdict :=
  if tx.chainId ≠ 1 then .abstain
  else
    match setAsideClaims A tx.safe (A.subTransactions tx) (false, []) with
    | none => .insecure .R4_3ValueTarget
    | some (claimed, remaining) =>
      match remaining with
      | [] => if claimed then .secure else .abstain
      | [call] => checkLoneCall A call
      | [first, second] => checkPair A first second
      | _ => .abstain

end

/-! ## 4. Checkers over the event history -/

/-- `nibbles`, most significant first. -/
def nibbles (address : Address) : List Nat :=
  (List.range 40).map fun i => address.val / 16 ^ (39 - i) % 16

/-- The length of the common prefix. -/
def commonPrefix (a b : List Nat) : Nat :=
  ((a.zip b).takeWhile fun (x, y) => x = y).length

/-- `is_lookalike`. -/
def isLookalike (established candidate : Address) : Bool :=
  if established = candidate then false
  else
    let a := nibbles established
    let b := nibbles candidate
    commonPrefix a b ≥ 4 && commonPrefix a.reverse b.reverse ≥ 4

/-- `TargetKind`. -/
inductive TargetKind where
  | transfer
  | approval
  deriving DecidableEq

/-- `TargetKind::rule`. -/
def TargetKind.rule : TargetKind → RuleId
  | .transfer => .R4_3ValueTarget
  | .approval => .R4_4AuthorizationTarget

/-- `decode_target`. -/
def decodeTarget (A : Abi) (tx : SafeTransaction) : Option (Address × TargetKind) :=
  if tx.operation ≠ .call then none
  else
    match A.transferCall.abiDecode tx.data with
    | some (recipient, amount) => if amount ≠ 0 then some (recipient, .transfer) else none
    | none =>
      match A.transferFromCall.abiDecode tx.data with
      | some (sender, recipient, amount) =>
        if sender = tx.safe ∧ amount ≠ 0 then some (recipient, .transfer) else none
      | none =>
        match A.approveCall.abiDecode tx.data with
        | some (spender, amount) => if amount ≠ 0 then some (spender, .approval) else none
        | none => none

/-- `Transfer::SIGNATURE_HASH`. -/
def transferSignatureHash : B256 :=
  0xddf252ad1be2c89b69c2b068fc378daa952ba7f163c4a11628f55a4df523b3ef

/-- `Approval::SIGNATURE_HASH`. -/
def approvalSignatureHash : B256 :=
  0x8c5be1e5ebec7d5bd14f71427d1e84f3dd0314c0f7b2291e5b200ac8c7c3b925

/-- `block_chunks`: the range from `start` on, in spans no wider than `maxRange`. -/
def blockChunks (start : Nat) (last : Fin (2 ^ 64)) (maxRange : Nat) : List (Nat × Nat) :=
  let stop := min (satAdd start maxRange) last.val
  if stop ≥ last.val then [(start, stop)]
  else (start, stop) :: blockChunks (satAdd stop 1) last maxRange
termination_by last.val - start
decreasing_by
  rename_i hstop
  have := last.isLt
  have hlt : min (satAdd start maxRange) last.val < last.val := not_le.mp hstop
  simp only [satAdd, u64Max] at hlt ⊢
  omega

/-- `RecipientLookup`. -/
inductive RecipientLookup where
  | exactMatch
  | noExactMatch (recipients : Finset Address) (complete : Bool)

/-- `decode_target_and_amount`. -/
def Services.decodeTargetAndAmount (E : Services) (log : LogData) : Option (Address × U256) :=
  if log.topics.head? = some transferSignatureHash then E.decodeTransferLog log
  else if log.topics.head? = some approvalSignatureHash then E.decodeApprovalLog log
  else none

/-- One chunk's events: `none` at a genuine event to the candidate, and otherwise the
recipients seen so far. -/
def collectRecipients (candidate : Address) :
    List (Address × U256) → Finset Address → Option (Finset Address)
  | [], recipients => some recipients
  | (target, amount) :: events, recipients =>
    if amount = 0 then collectRecipients candidate events recipients
    else if target = candidate then none
    else collectRecipients candidate events (insert target recipients)

/-- The loop of `established_recipients` over the chunks; `none` is an error. -/
def Services.scanChunks (E : Services) (token safe candidate : Address) :
    List (Nat × Nat) → Finset Address → Option RecipientLookup
  | [], recipients => some (.noExactMatch recipients true)
  | (chunkFrom, chunkTo) :: chunks, recipients =>
    match E.getLogs ⟨token, [transferSignatureHash, approvalSignatureHash], safe, chunkFrom,
        chunkTo⟩ with
    | none => if recipients ≠ ∅ then some (.noExactMatch recipients false) else none
    | some logs =>
      match collectRecipients candidate (logs.filterMap E.decodeTargetAndAmount) recipients with
      | none => some .exactMatch
      | some recipients => E.scanChunks token safe candidate chunks recipients

/-- `AddressPoisoningChecker::established_recipients`. -/
def Services.establishedRecipients (E : Services) (token safe candidate : Address)
    (currentBlock : Fin (2 ^ 64)) : Option RecipientLookup :=
  E.scanChunks token safe candidate
    (blockChunks (currentBlock.val - E.lookbackBlocks) currentBlock
      (E.maxBlockRange.getD u64Max)) ∅

/-- `AddressPoisoningChecker::check`. -/
def Services.addressPoisoningChecker (E : Services) (tx : SafeTransaction)
    (ctx : CheckContext) : Verdict :=
  match decodeTarget E.abi tx with
  | none => .abstain
  | some (candidate, kind) =>
    if tx.chainId.val ≠ E.chainId.val then .abstain
    else
      match E.establishedRecipients tx.to tx.safe candidate ctx.block with
      | some .exactMatch => .secure
      | some (.noExactMatch recipients complete) =>
        if ¬ ∃ r ∈ recipients, isLookalike r candidate = true then .abstain
        else if ¬ complete then .abstain
        else .insecure kind.rule
      | none => .abstain

/-- `saturating_mul` and `saturating_add` on 256-bit words. -/
def U256.ofSaturated (n : Nat) : U256 :=
  if h : n < 2 ^ 256 then ⟨n, h⟩ else Fin.last _

/-- `refund_transfer`. -/
def refundTransfer (A : Abi) (tx : SafeTransaction) : Option SafeTransaction :=
  if tx.gasPrice = 0 ∨ tx.gasToken = 0 ∨ tx.refundReceiver = 0 then none
  else
    let gas := U256.ofSaturated (tx.safeTxGas.val + tx.baseGas.val)
    some { SafeTransaction.default with
      safe := tx.safe, «to» := tx.gasToken,
      data := A.transferCallEncode tx.refundReceiver
        (U256.ofSaturated (tx.gasPrice.val * gas.val)) }

/-- `deny_or_abstain`. -/
def denyOrAbstain : Verdict → Verdict
  | .secure => .abstain
  | verdict => verdict

/-- `RefundChecker::check`. -/
def Services.refundChecker (E : Services) (tx : SafeTransaction) (ctx : CheckContext) : Verdict :=
  match refundTransfer E.abi tx with
  | none => .abstain
  | some refund => denyOrAbstain (E.addressPoisoningChecker refund ctx)

/-! ## 5. The engine -/

/-- A checker of the chain. -/
abbrev Checker : Type := SafeTransaction → CheckContext → Verdict

/-- `SentinelEngine::security_check`. -/
def securityCheck : List Checker → Checker
  | [], _, _ => .abstain
  | checker :: checkers, tx, ctx =>
    (checker tx ctx).orElse (securityCheck checkers tx ctx)

/-- The chain `main.rs` builds. -/
def Services.chain (E : Services) : List Checker :=
  [fun tx _ => cancellationChecker tx,
   fun tx _ => escapeHatchChecker tx,
   fun tx _ => baseChecker E.abi tx,
   fun tx _ => blocklistChecker E.blocklist tx,
   fun tx _ => nestedSafeChecker E.abi tx,
   fun tx _ => excessiveApprovalChecker E.abi tx,
   fun tx _ => E.cowChecker tx,
   fun tx _ => stakingChecker E.abi tx,
   E.refundChecker,
   E.addressPoisoningChecker]

end Engine

end Safenet
