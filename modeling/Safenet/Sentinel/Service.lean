/-
# The sentinel service

`safenet_sentinel`: the state machine that follows each proposed oracle transaction through the
phases of its request, and votes.  The engine's verdict on the transaction and the oracle's
`NewRequest` may come in either order; then the sentinel commits, reveals, finalizes and claims.

A handler changes the entry of ONE request, so it is a function of that entry here
(`SentinelTransition.onRequest` looks it up and writes it back), and only the advance of the block
goes through all of them.  The machine is the product of its requests: what it does to one is a
transition of that entry alone (`apply_entry`), in a run as well (`run_entry`).
-/
import Safenet.Consensus
import Safenet.Core.StateMachine
import Safenet.Contracts.SentinelOracle

namespace Safenet

/-! ## 1. States, actions and effects -/

/-- `RuleId`. -/
structure RuleId where
  charter : Nat
  rule : Nat
  deriving DecidableEq

/-- The text of a rule. -/
def RuleId.text (r : RuleId) : Bytes := asBytes ("R-" ++ toString r.charter ++ "." ++ toString r.rule)

/-- `CheckOutcome`. -/
inductive CheckOutcome where
  | approved
  | denied (rule : RuleId)
  | unknown
  deriving DecidableEq

/-- The vote of an outcome, with its reason. -/
def CheckOutcome.vote : CheckOutcome → Option (Bool × Bytes)
  | .approved => some (true, [])
  | .denied rule => some (false, rule.text)
  | .unknown => none

/-- `state::Request`. -/
structure VotingRequest where
  bondTarget : Nat
  slashAmount : Nat
  commitDeadline : Nat
  revealDeadline : Nat
  deriving DecidableEq

/-- `SentinelRequestState::CollectingCommitments`. -/
structure SentinelRequestState.CollectingCommitments where
  approve : Bool
  reason : Bytes
  slashAmount : Nat
  commitDeadline : Nat
  revealDeadline : Nat
  committedCount : Nat
  selfCommitted : Bool
  deriving DecidableEq

/-- `SentinelRequestState::CollectingVotes`. -/
structure SentinelRequestState.CollectingVotes where
  approve : Bool
  slashAmount : Nat
  revealDeadline : Nat
  committedCount : Nat
  revealedCount : Nat
  approveCount : Nat
  denyCount : Nat
  selfRevealed : Bool
  deriving DecidableEq

/-- `SentinelRequestState`. -/
inductive SentinelRequestState where
  | waitingForEngineCheck (deadline : Nat) (request : Option VotingRequest)
  | waitingForRequest (approve : Bool) (reason : Bytes) (deadline : Nat)
  | collectingCommitments (phase : SentinelRequestState.CollectingCommitments)
  | collectingVotes (phase : SentinelRequestState.CollectingVotes)
  | waitingForOutcome (approve : Bool) (slashAmount : Nat)
  | waitingForDisputeResolution (approve : Bool) (slashAmount : Nat)
  deriving DecidableEq

/-- `approve_and_slash_amount`. -/
def SentinelRequestState.approveAndSlashAmount : SentinelRequestState → Option (Bool × Nat)
  | .waitingForEngineCheck _ _ | .waitingForRequest _ _ _ => none
  | .collectingCommitments phase =>
    if phase.selfCommitted then some (phase.approve, phase.slashAmount) else none
  | .collectingVotes phase => some (phase.approve, phase.slashAmount)
  | .waitingForOutcome approve slashAmount | .waitingForDisputeResolution approve slashAmount =>
    some (approve, slashAmount)

/-- The requests in flight. -/
abbrev SentinelState : Type := BTreeMap B256 SentinelRequestState

/-- `SentinelActionKind`. -/
inductive SentinelActionKind where
  | approveToken (bond : Nat)
  | commit (id hash : B256)
  | reveal (id : B256) (approve : Bool) (salt : B256) (reason : Bytes)
  | finalize (id : B256)
  | claim (id : B256)
  deriving DecidableEq

/-- `SentinelAction`. -/
structure SentinelAction where
  kind : SentinelActionKind
  expiresAt : Option Nat
  deriving DecidableEq

/-- `Effect::EngineCheck`. -/
inductive SentinelEffect where
  | engineCheck (requestId : B256) (transaction : SafeTransaction) (block : Nat)
  deriving DecidableEq

/-- `Resume::EngineCheckResult`. -/
inductive SentinelResume where
  | engineCheckResult (requestId : B256) (outcome : CheckOutcome)
  deriving DecidableEq

/-- `Consensus::TransactionProposed`, as far as it is read. -/
structure TransactionProposed where
  epoch : Nat
  oracle : Address
  oracleData : Bytes
  safeTxHash : B256
  transaction : SafeTransaction
  deriving DecidableEq

/-- `SentinelEvents`. -/
inductive SentinelEvent where
  | transactionProposed (event : TransactionProposed)
  | oracle (log : OracleLog)
  deriving DecidableEq

deriving instance DecidableEq for Command

abbrev SentinelCommand : Type := Command SentinelAction SentinelEffect

abbrev SentinelMessage : Type := Message SentinelEvent SentinelResume

/-- `SentinelEncoder`: the call of the oracle that an action is, if it is not one of the token. -/
def SentinelActionKind.call : SentinelActionKind → Option OracleCall
  | .approveToken _ => none
  | .commit id hash => some (.commit id hash)
  | .reveal id approve salt reason => some (.reveal id approve salt reason)
  | .finalize id => some (.finalize id)
  | .claim id => some (.claim id)

/-- The request a command is about.  An approval of the token is not about one. -/
def SentinelCommand.request : SentinelCommand → Option B256
  | .action action => action.kind.call.bind OracleCall.request
  | .effect (.engineCheck requestId _ _) => some requestId

/-! ## 2. The handlers -/

/-- `SentinelTransition`; the signer is its address and its salts. -/
structure SentinelTransition where
  keccak256 : Bytes → B256
  oracle : Address
  consensus : Address
  address : Address
  revealSalt : B256 → B256
  chainId : U256
  votingWindow : Nat

namespace SentinelTransition

/-- What a handler leaves of an entry, and its commands. -/
abbrev Handled : Type := Option SentinelRequestState × List SentinelCommand

variable (T : SentinelTransition)

/-- `commit_hash`. -/
def commitHash (requestId : B256) (approve : Bool) (salt : B256) (reason : Bytes) : B256 :=
  T.keccak256 ((if approve then 1 else 0) :: (B256.toBytes salt ++ beBytes 20 T.address.val ++
    B256.toBytes requestId ++ reason))

/-- `oracle_tx_proposal_hash`, of an event. -/
def requestId (event : TransactionProposed) : B256 :=
  let structHash := T.keccak256 (B256.toBytes (T.keccak256 (asBytes
      "TransactionProposal(uint64 epoch,address oracle,bytes oracleData,bytes32 safeTxHash)"))
    ++ beBytes 32 event.epoch ++ beBytes 32 event.oracle.val
    ++ B256.toBytes (T.keccak256 event.oracleData) ++ B256.toBytes event.safeTxHash)
  signingHash T.keccak256 (domainSeparator T.keccak256 T.chainId.val T.consensus) structHash

/-- `handle_oracle_transaction_proposed`. -/
def handleOracleTransactionProposed (block : Nat) (event : TransactionProposed)
    (entry : Option SentinelRequestState) : Handled :=
  if event.oracle ≠ T.oracle then (entry, [])
  else
    match entry with
    | some entry => (some entry, [])
    | none =>
      (some (.waitingForEngineCheck (satAdd block T.votingWindow) none),
        [.effect (.engineCheck (T.requestId event) event.transaction block)])

/-- `commit_vote`. -/
def commitVote (requestId : B256) (approve : Bool) (reason : Bytes) (request : VotingRequest) : Handled :=
  let hash := T.commitHash requestId approve (T.revealSalt requestId) reason
  (some (.collectingCommitments {
      approve
      reason
      slashAmount := request.slashAmount
      commitDeadline := request.commitDeadline
      revealDeadline := request.revealDeadline
      committedCount := 0
      selfCommitted := false }),
    [.action ⟨.approveToken request.bondTarget, some request.commitDeadline⟩,
      .action ⟨.commit requestId hash, some request.commitDeadline⟩])

/-- `handle_engine_check_result`. -/
def handleEngineCheckResult (requestId : B256) (outcome : CheckOutcome)
    (entry : Option SentinelRequestState) : Handled :=
  match entry with
  | some (.waitingForEngineCheck deadline request) =>
    match outcome.vote with
    | none => (none, [])
    | some (approve, reason) =>
      match request with
      | some request => T.commitVote requestId approve reason request
      | none => (some (.waitingForRequest approve reason deadline), [])
  | entry => (entry, [])

/-- `handle_new_request`. -/
def handleNewRequest (requestId : B256) (request : VotingRequest)
    (entry : Option SentinelRequestState) : Handled :=
  match entry with
  | some (.waitingForRequest approve reason _) => T.commitVote requestId approve reason request
  | some (.waitingForEngineCheck deadline none) =>
    (some (.waitingForEngineCheck deadline (some request)), [])
  | entry => (entry, [])

/-- `handle_committed`. -/
def handleCommitted (sentinel : Address) (entry : Option SentinelRequestState) : Handled :=
  match entry with
  | some (.collectingCommitments phase) =>
    (some (.collectingCommitments { phase with
      committedCount := phase.committedCount + 1
      selfCommitted := phase.selfCommitted || sentinel = T.address }), [])
  | entry => (entry, [])

/-- `finalize`, of the phase in which it is called. -/
def finalize (requestId : B256) (phase : SentinelRequestState.CollectingVotes) : Handled :=
  let timedOut := decide (phase.revealedCount = 0)
  if phase.selfRevealed = false ∧ timedOut = false then (none, [])
  else (some (.waitingForOutcome phase.approve phase.slashAmount), [.action ⟨.finalize requestId, none⟩])

/-- The tally of `handle_revealed`. -/
def tally (sentinel : Address) (approved : Bool) (phase : SentinelRequestState.CollectingVotes) :
    SentinelRequestState.CollectingVotes :=
  { phase with
    revealedCount := phase.revealedCount + 1
    approveCount := phase.approveCount + if approved then 1 else 0
    denyCount := phase.denyCount + if approved then 0 else 1
    selfRevealed := phase.selfRevealed || sentinel = T.address }

/-- `handle_revealed`. -/
def handleRevealed (requestId : B256) (sentinel : Address) (approved : Bool)
    (entry : Option SentinelRequestState) : Handled :=
  match entry with
  | some (.collectingVotes phase) =>
    let phase := T.tally sentinel approved phase
    if phase.revealedCount < phase.committedCount then (some (.collectingVotes phase), [])
    else finalize requestId phase
  | entry => (entry, [])

/-- `handle_block_advance`, of one entry. -/
def advance (block : Nat) (requestId : B256) (entry : SentinelRequestState) : Handled :=
  match entry with
  | .waitingForEngineCheck deadline request =>
    let limit := (request.map (·.commitDeadline)).getD deadline
    (if block ≤ limit then some entry else none, [])
  | .waitingForRequest _ _ deadline => (if block ≤ deadline then some entry else none, [])
  | .collectingCommitments phase =>
    if block ≤ phase.commitDeadline then (some entry, [])
    -- the commitment never landed, so a reveal would revert
    else if phase.selfCommitted = false then (none, [])
    else
      (some (.collectingVotes {
          approve := phase.approve
          slashAmount := phase.slashAmount
          revealDeadline := phase.revealDeadline
          committedCount := phase.committedCount
          revealedCount := 0
          approveCount := 0
          denyCount := 0
          selfRevealed := false }),
        [.action ⟨.reveal requestId phase.approve (T.revealSalt requestId) phase.reason,
          some phase.revealDeadline⟩])
  | .collectingVotes phase =>
    if block ≤ phase.revealDeadline then (some entry, []) else finalize requestId phase
  | .waitingForOutcome _ _ => (some entry, [])
  | .waitingForDisputeResolution _ _ => (some entry, [])

/-- The action all outcomes lead to. -/
def claim (requestId : B256) : SentinelCommand := .action ⟨.claim requestId, none⟩

/-- `handle_resolved`. -/
def handleResolved (requestId : B256) (entry : Option SentinelRequestState) : Handled :=
  match entry with
  | some (.waitingForDisputeResolution _ _) => (none, [claim requestId])
  | entry => (entry, [])

/-- `handle_arbitration_timeout`, which claims for any entry. -/
def handleArbitrationTimeout (requestId : B256) (entry : Option SentinelRequestState) : Handled :=
  match entry with
  | some _ => (none, [claim requestId])
  | none => (none, [])

/-- `handle_request_timed_out` and `handle_oracle_result`, which differ in a metric. -/
def handleSettled (requestId : B256) (entry : Option SentinelRequestState) : Handled :=
  match entry with
  | some entry =>
    match entry.approveAndSlashAmount with
    | none => (none, [])
    | some _ => (none, [claim requestId])
  | none => (none, [])

/-- `handle_request_timed_out`. -/
def handleRequestTimedOut := handleSettled

/-- `handle_oracle_result`. -/
def handleOracleResult := handleSettled

/-- `handle_dispute_triggered`. -/
def handleDisputeTriggered (entry : Option SentinelRequestState) : Handled :=
  match entry with
  | some entry =>
    match entry.approveAndSlashAmount with
    | some (approve, slashAmount) => (some (.waitingForDisputeResolution approve slashAmount), [])
    | none => (none, [])
  | none => (none, [])

/-! ## 3. The transition -/

/-- The request of an event, and its handler. -/
def handleEvent (block : Nat) : SentinelEvent → B256 × (Option SentinelRequestState → Handled)
  | .transactionProposed event => (T.requestId event, T.handleOracleTransactionProposed block event)
  | .oracle log =>
    match log with
    | .newRequest requestId _ _ bondTarget slashAmount commitDeadline revealDeadline =>
      (requestId, T.handleNewRequest requestId ⟨bondTarget, slashAmount, commitDeadline, revealDeadline⟩)
    | .committed requestId sentinel _ => (requestId, T.handleCommitted sentinel)
    | .revealed requestId sentinel approved _ _ =>
      (requestId, T.handleRevealed requestId sentinel approved)
    | .requestTimedOut requestId => (requestId, handleRequestTimedOut requestId)
    | .oracleResult requestId _ _ => (requestId, handleOracleResult requestId)
    | .disputeTriggered requestId _ => (requestId, handleDisputeTriggered)
    | .disputeResolved requestId _ _ _ => (requestId, handleResolved requestId)
    | .arbitrationTimedOut requestId => (requestId, handleArbitrationTimeout requestId)
    | .disputeOutOfScope requestId _ => (requestId, handleArbitrationTimeout requestId)
    -- `handle_claimed` records a metric
    | .claimed requestId _ _ _ => (requestId, fun entry => (entry, []))

/-- Handle an entry, and write back what is left of it. -/
def onRequest (state : SentinelState) (requestId : B256)
    (handler : Option SentinelRequestState → Handled) : SentinelState × List SentinelCommand :=
  match handler state[requestId]? with
  | (some entry, commands) => (state.insert requestId entry, commands)
  | (none, commands) => (state.erase requestId, commands)

/-- `handle_block_advance`. -/
def handleBlockAdvance (state : SentinelState) (block : Nat) : SentinelState × List SentinelCommand :=
  (state.filterMap fun id entry => (T.advance block id entry).1,
    state.toList.flatMap fun e => (T.advance block e.1 e.2).2)

/-- `apply_transition`. -/
def apply : TransitionFn SentinelState SentinelEvent SentinelResume SentinelAction SentinelEffect :=
  fun state message =>
    match message with
    | .newBlock block => T.handleBlockAdvance state block
    | .event log =>
      let (requestId, handler) := T.handleEvent log.block log.data
      onRequest state requestId handler
    | .resume (.engineCheckResult requestId outcome) =>
      onRequest state requestId (T.handleEngineCheckResult requestId outcome)

/-! ## 4. One request at a time -/

/-- What a message does to the entry of a request. -/
def entryStep (id : B256) (entry : Option SentinelRequestState) : SentinelMessage → Handled
  | .newBlock block =>
    match entry with
    | some entry => T.advance block id entry
    | none => (none, [])
  | .event log =>
    if (T.handleEvent log.block log.data).1 = id then (T.handleEvent log.block log.data).2 entry
    else (entry, [])
  | .resume (.engineCheckResult requestId outcome) =>
    if requestId = id then T.handleEngineCheckResult id outcome entry else (entry, [])

/-- The commands about a request. -/
def about (id : B256) (commands : List SentinelCommand) : List SentinelCommand :=
  commands.filter fun c => c.request = some id

variable {T}

/-- The commands of a handler are about its request, but for the approval. -/
def Concerns (requestId : B256) (commands : List SentinelCommand) : Prop :=
  ∀ c ∈ commands, c.request = some requestId ∨ c.request = none

theorem about_append (id : B256) (commands commands' : List SentinelCommand) :
    about id (commands ++ commands') = about id commands ++ about id commands' :=
  List.filter_append _ _

theorem Concerns.about_ne {id requestId : B256} (h : id ≠ requestId) {commands : List SentinelCommand}
    (hc : Concerns requestId commands) : about id commands = [] := by
  refine List.filter_eq_nil_iff.mpr fun c hmem => ?_
  rcases hc c hmem with hc | hc <;> simp [hc, Ne.symm h]

theorem concerns_nil (requestId : B256) : Concerns requestId [] := by simp [Concerns]

theorem concerns_commitVote (requestId : B256) (approve : Bool) (reason : Bytes)
    (request : VotingRequest) : Concerns requestId (T.commitVote requestId approve reason request).2 := by
  simp [Concerns, commitVote, SentinelCommand.request, SentinelActionKind.call, OracleCall.request]

theorem concerns_finalize (requestId : B256) (phase : SentinelRequestState.CollectingVotes) :
    Concerns requestId (finalize requestId phase).2 := by
  unfold finalize
  dsimp only
  split
  · exact concerns_nil requestId
  · simp [Concerns, SentinelCommand.request, SentinelActionKind.call, OracleCall.request]

theorem concerns_claim (requestId : B256) : Concerns requestId [claim requestId] := by
  simp [Concerns, claim, SentinelCommand.request, SentinelActionKind.call, OracleCall.request]

theorem concerns_advance (block : Nat) (requestId : B256) (entry : SentinelRequestState) :
    Concerns requestId (T.advance block requestId entry).2 := by
  cases entry with
  | collectingCommitments phase =>
    simp only [advance]
    split
    · exact concerns_nil requestId
    · split
      · exact concerns_nil requestId
      · simp [Concerns, SentinelCommand.request, SentinelActionKind.call, OracleCall.request]
  | collectingVotes phase =>
    simp only [advance]
    split
    · exact concerns_nil requestId
    · exact concerns_finalize requestId phase
  | _ => exact concerns_nil requestId

theorem concerns_engineCheckResult (requestId : B256) (outcome : CheckOutcome)
    (entry : Option SentinelRequestState) :
    Concerns requestId (T.handleEngineCheckResult requestId outcome entry).2 := by
  unfold handleEngineCheckResult
  split
  · split
    · exact concerns_nil requestId
    · split
      · exact concerns_commitVote requestId _ _ _
      · exact concerns_nil requestId
  · exact concerns_nil requestId

theorem concerns_event (block : Nat) (event : SentinelEvent) (entry : Option SentinelRequestState) :
    Concerns (T.handleEvent block event).1 ((T.handleEvent block event).2 entry).2 := by
  cases event with
  | transactionProposed event =>
    simp only [handleEvent, handleOracleTransactionProposed]
    split
    · exact concerns_nil _
    · split
      · exact concerns_nil _
      · simp [Concerns, SentinelCommand.request]
  | oracle log =>
    cases log with
    | newRequest requestId _ _ _ _ _ _ =>
      simp only [handleEvent, handleNewRequest]
      split
      · exact concerns_commitVote requestId _ _ _
      · exact concerns_nil _
      · exact concerns_nil _
    | committed requestId sentinel _ =>
      simp only [handleEvent, handleCommitted]
      split <;> exact concerns_nil _
    | revealed requestId sentinel approved _ _ =>
      simp only [handleEvent, handleRevealed]
      split
      · split
        · exact concerns_nil _
        · exact concerns_finalize requestId _
      · exact concerns_nil _
    | requestTimedOut requestId =>
      simp only [handleEvent, handleRequestTimedOut, handleSettled]
      split
      · split
        · exact concerns_nil _
        · exact concerns_claim requestId
      · exact concerns_nil _
    | oracleResult requestId _ _ =>
      simp only [handleEvent, handleOracleResult, handleSettled]
      split
      · split
        · exact concerns_nil _
        · exact concerns_claim requestId
      · exact concerns_nil _
    | disputeTriggered requestId _ =>
      simp only [handleEvent, handleDisputeTriggered]
      split
      · split <;> exact concerns_nil _
      · exact concerns_nil _
    | disputeResolved requestId _ _ _ =>
      simp only [handleEvent, handleResolved]
      split
      · exact concerns_claim requestId
      · exact concerns_nil _
    | arbitrationTimedOut requestId =>
      simp only [handleEvent, handleArbitrationTimeout]
      split
      · exact concerns_claim requestId
      · exact concerns_nil _
    | disputeOutOfScope requestId _ =>
      simp only [handleEvent, handleArbitrationTimeout]
      split
      · exact concerns_claim requestId
      · exact concerns_nil _
    | claimed requestId _ _ _ => exact concerns_nil _

/-- A handler of one request changes its entry, and no other. -/
theorem onRequest_entry (state : SentinelState) (requestId id : B256)
    (handler : Option SentinelRequestState → Handled)
    (hc : ∀ entry, Concerns requestId (handler entry).2) :
    (onRequest state requestId handler).1[id]? =
        (if requestId = id then (handler state[id]?).1 else state[id]?) ∧
      about id (onRequest state requestId handler).2 =
        about id (if requestId = id then (handler state[id]?).2 else []) := by
  have hwrite : (onRequest state requestId handler).1[id]? =
        (if id = requestId then (handler state[requestId]?).1 else state[id]?) ∧
      (onRequest state requestId handler).2 = (handler state[requestId]?).2 := by
    unfold onRequest
    split
    · rename_i entry commands h
      rw [h]
      exact ⟨BTreeMap.get_insert state requestId id entry, rfl⟩
    · rename_i commands h
      rw [h]
      exact ⟨BTreeMap.get_erase state requestId id, rfl⟩
  rw [hwrite.1, hwrite.2]
  by_cases hid : requestId = id
  · subst hid
    simp
  · rw [if_neg (Ne.symm hid), if_neg hid, if_neg hid, (hc _).about_ne (Ne.symm hid)]
    exact ⟨rfl, rfl⟩

/-- The commands about a key, of commands for every entry of a map. -/
theorem about_flatMap (state : SentinelState) (f : B256 → SentinelRequestState → List SentinelCommand)
    (hf : ∀ id entry, Concerns id (f id entry)) (id : B256) :
    about id (state.toList.flatMap fun e => f e.1 e.2) =
      match state[id]? with
      | some entry => about id (f id entry)
      | none => [] := by
  have hkeys : state.toList.Pairwise fun a b => a.1 ≠ b.1 := by
    refine (Std.ExtTreeMap.ordered_keys_toList (t := state)).imp fun h heq => ?_
    rw [heq, Std.compare_eq_iff_eq.mpr rfl] at h
    exact absurd h (by simp)
  have hget : ∀ entry, (id, entry) ∈ state.toList ↔ state[id]? = some entry :=
    fun entry => BTreeMap.mem_toList_iff state id entry
  generalize state[id]? = entry at hget
  generalize state.toList = es at *
  induction es generalizing entry with
  | nil =>
    cases entry with
    | none => rfl
    | some entry => exact absurd ((hget entry).mpr rfl) List.not_mem_nil
  | cons e es ih =>
    obtain ⟨hhead, htail⟩ := List.pairwise_cons.mp hkeys
    rw [List.flatMap_cons, about_append]
    by_cases hid : e.1 = id
    · have hentry : entry = some e.2 := ((hget e.2).mp (by rw [← hid]; exact List.mem_cons_self)).symm ▸ rfl
      have hrest := ih none htail fun x => by
        simp only [reduceCtorEq, iff_false]
        exact fun hmem => hhead (id, x) hmem hid
      rw [hentry, hrest, ← hid, List.append_nil]
    · rw [(hf e.1 e.2).about_ne (Ne.symm hid), List.nil_append]
      refine ih entry htail fun x => ?_
      rw [← hget x, List.mem_cons]
      exact ⟨.inr, fun h => h.resolve_left fun heq => hid (by rw [← heq])⟩

/-- **A message does to each request what it does to its entry.** -/
theorem apply_entry (state : SentinelState) (message : SentinelMessage) (id : B256) :
    (T.apply state message).1[id]? = (T.entryStep id state[id]? message).1 ∧
      about id (T.apply state message).2 = about id (T.entryStep id state[id]? message).2 := by
  cases message with
  | newBlock block =>
    have hget : (T.apply state (.newBlock block)).1[id]? =
        state[id]?.bind fun entry => (T.advance block id entry).1 := BTreeMap.get_filterMap _ _ _
    have habout := about_flatMap state (fun id entry => (T.advance block id entry).2)
      (fun id entry => concerns_advance block id entry) id
    rw [hget]
    refine ⟨?_, habout.trans ?_⟩ <;> cases state[id]? <;> rfl
  | event log =>
    obtain ⟨hget, habout⟩ := onRequest_entry state (T.handleEvent log.block log.data).1 id
      (T.handleEvent log.block log.data).2 fun entry => concerns_event log.block log.data entry
    refine ⟨hget.trans ?_, habout.trans ?_⟩ <;> simp only [entryStep] <;> split <;> rfl
  | resume result =>
    obtain ⟨requestId, outcome⟩ := result
    obtain ⟨hget, habout⟩ := onRequest_entry state requestId id
      (T.handleEngineCheckResult requestId outcome) fun entry =>
        concerns_engineCheckResult requestId outcome entry
    refine ⟨hget.trans ?_, habout.trans ?_⟩ <;> simp only [entryStep] <;> split
    all_goals first | (rename_i h; rw [h]) | rfl

/-- **A run does to each request what it does to its entry.** -/
theorem run_entry (state : SentinelState) (messages : List SentinelMessage) (id : B256) :
    (Reactive.runState T.apply state messages)[id]? =
        Reactive.runState (T.entryStep id) state[id]? messages ∧
      about id (Reactive.runOutputs T.apply state messages) =
        about id (Reactive.runOutputs (T.entryStep id) state[id]? messages) := by
  induction messages generalizing state with
  | nil => exact ⟨rfl, rfl⟩
  | cons message messages ih =>
    obtain ⟨hget, habout⟩ := apply_entry (T := T) state message id
    obtain ⟨hstate, hout⟩ := ih (T.apply state message).1
    rw [hget] at hstate hout
    refine ⟨hstate, ?_⟩
    simp only [Reactive.runOutputs, about_append, habout, hout]

end SentinelTransition

end Safenet
