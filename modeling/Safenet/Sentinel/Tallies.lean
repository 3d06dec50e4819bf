/-
# The sentinel's tallies

A sentinel beside its oracle (`Watched`): the calls the oracle accepts, each with its log delivered at
once, blocks that are announced and blocks that are not, proposals, and the verdicts of the engine,
in any order.

While a request collects, the sentinel's counts are the oracle's (`Tracks`), and then a request it
finalizes early can be.  But a log is not tallied where the phase does not expect it (`Untallied`): a
commitment that lands while the engine still checks, though the request is open, and a reveal before
the block that ends the commitments is announced.  Then the counts fall short, and the request is
finalized too early (`commits_untallied`).
-/
import Safenet.Sentinel.Service
import Safenet.Contracts.OracleAccounting

namespace Safenet

/-! ## 1. A sentinel and its oracle -/

/-- The oracle, the sentinel, and the block that is being made. -/
structure Watched where
  oracle : SentinelOracle
  sentinel : SentinelState
  block : Nat

/-- What happens. -/
inductive WatchedStep where
  /-- The next block, announced to the sentinel. -/
  | newBlock (block : Nat)
  /-- A block that is not announced: the sentinel gets its logs as a page of a range. -/
  | warp (block : Nat)
  | call (sender : Address) (call : OracleCall)
  | proposed (event : TransactionProposed)
  | engine (requestId : B256) (outcome : CheckOutcome)
  deriving DecidableEq

/-- The request of a log. -/
def OracleLog.request : OracleLog → B256
  | .newRequest requestId _ _ _ _ _ _ | .committed requestId _ _ | .revealed requestId _ _ _ _
  | .disputeTriggered requestId _ | .disputeResolved requestId _ _ _ | .disputeOutOfScope requestId _
  | .arbitrationTimedOut requestId | .requestTimedOut requestId | .oracleResult requestId _ _
  | .claimed requestId _ _ _ => requestId

/-- The message of a log. -/
def OracleLog.message (block : Nat) (address : Address) (log : OracleLog) : SentinelMessage :=
  .event ⟨block, 0, address, .oracle log⟩

namespace Watched

variable (P : OracleParams) (T : SentinelTransition)

/-- The messages of a step, and what the oracle and the block are after it. -/
def happens (s : Watched) : WatchedStep → SentinelOracle × Nat × List SentinelMessage
  | .newBlock block =>
    if s.block < block then (s.oracle, block, [.newBlock block]) else (s.oracle, s.block, [])
  | .warp block => (s.oracle, max s.block block, [])
  | .call sender call =>
    match s.oracle.exec P s.block sender call with
    | .ok (oracle, logs, _) => (oracle, s.block, logs.map (OracleLog.message s.block P.address))
    | .error _ => (s.oracle, s.block, [])
  | .proposed event => (s.oracle, s.block, [.event ⟨s.block, 0, T.consensus, .transactionProposed event⟩])
  | .engine requestId outcome => (s.oracle, s.block, [.resume (.engineCheckResult requestId outcome)])

/-- A step, with the commands of the sentinel. -/
def step (s : Watched) (step : WatchedStep) : Watched × List SentinelCommand :=
  let (oracle, block, messages) := s.happens P T step
  (⟨oracle, Reactive.runState T.apply s.sentinel messages, block⟩,
    Reactive.runOutputs T.apply s.sentinel messages)

variable {P T} {s : Watched} {id : B256}

/-- What a step does to a request. -/
inductive Moves (P : OracleParams) (T : SentinelTransition) (id : B256) (s s' : Watched) :
    WatchedStep → List SentinelCommand → Prop where
  | idle {step : WatchedStep} : s'.oracle.book id = s.oracle.book id → s'.sentinel[id]? = s.sentinel[id]? →
      s.block ≤ s'.block →
      (∀ sender call, step = .call sender call →
        (s.oracle.exec P s.block sender call).isOk = true → call.request ≠ some id) →
      Moves P T id s s' step []
  | newBlock {block : Nat} {entry : SentinelRequestState} : s'.oracle.book id = s.oracle.book id →
      s.sentinel[id]? = some entry → s'.sentinel[id]? = (T.advance block id entry).1 →
      s.block < block → s'.block = block →
      Moves P T id s s' (.newBlock block) (SentinelTransition.about id (T.advance block id entry).2)
  | call {sender : Address} {call : OracleCall} {log : OracleLog} {Offer : Nat → OracleTerms → Prop}
      {receiver : Address} {payments : List Payment} :
      (s.oracle.exec P s.block sender call).isOk = true →
      (s.oracle.book id).Step P Offer receiver id s.block sender call (s'.oracle.book id) [log] payments →
      s'.block = s.block →
      s'.sentinel[id]? = ((T.handleEvent s.block (.oracle log)).2 s.sentinel[id]?).1 →
      Moves P T id s s' (.call sender call)
        (SentinelTransition.about id ((T.handleEvent s.block (.oracle log)).2 s.sentinel[id]?).2)
  | proposed {event : TransactionProposed} : s'.oracle.book id = s.oracle.book id →
      s'.block = s.block →
      s'.sentinel[id]? = (T.handleOracleTransactionProposed s.block event s.sentinel[id]?).1 →
      Moves P T id s s' (.proposed event)
        (SentinelTransition.about id (T.handleOracleTransactionProposed s.block event s.sentinel[id]?).2)
  | engine {outcome : CheckOutcome} : s'.oracle.book id = s.oracle.book id → s'.block = s.block →
      s'.sentinel[id]? = (T.handleEngineCheckResult id outcome s.sentinel[id]?).1 →
      Moves P T id s s' (.engine id outcome)
        (SentinelTransition.about id (T.handleEngineCheckResult id outcome s.sentinel[id]?).2)

theorem handleEvent_request (block : Nat) (log : OracleLog) :
    (T.handleEvent block (.oracle log)).1 = log.request := by
  cases log <;> rfl

theorem finalLog_request (id : B256) (sponsor : Address) (deadline : Nat) (state : OracleRequestState) :
    (SentinelOracle.finalLog id sponsor deadline state).request = id := by
  cases state <;> rfl

end Watched

/-- A step of a request logs once, about it. -/
theorem OracleBook.Step.log {P : OracleParams} {Offer : Nat → OracleTerms → Prop}
    {receiver sender : Address} {id : B256} {block : Nat} {b b' : OracleBook} {call : OracleCall}
    {logs : List OracleLog} {payments : List Payment}
    (hs : b.Step P Offer receiver id block sender call b' logs payments) :
    ∃ log, logs = [log] ∧ log.request = id := by
  cases hs with
  | finalized _ => exact ⟨_, rfl, Watched.finalLog_request _ _ _ _⟩
  | refunded _ hcall => rcases hcall with ⟨-, rfl⟩ | ⟨_, -, rfl⟩ <;> exact ⟨_, rfl, rfl⟩
  | _ => exact ⟨_, rfl, rfl⟩

namespace Watched

variable {P : OracleParams} {T : SentinelTransition} {s : Watched} {id : B256}

/-- What one message does to a request. -/
theorem message_entry (state : SentinelState) (message : SentinelMessage) (id : B256) :
    (Reactive.runState T.apply state [message])[id]? = (T.entryStep id state[id]? message).1 ∧
      SentinelTransition.about id (Reactive.runOutputs T.apply state [message]) =
        SentinelTransition.about id (T.entryStep id state[id]? message).2 := by
  have hout : Reactive.runOutputs T.apply state [message] = (T.apply state message).2 := by
    simp [Reactive.runOutputs]
  rw [hout, Reactive.runState_cons, Reactive.runState_nil]
  exact SentinelTransition.apply_entry state message id

/-- **What a step does to a request**: nothing, or what the step is. -/
theorem step_moves (P : OracleParams) (T : SentinelTransition) (s : Watched) (m : WatchedStep)
    (id : B256) :
    Moves P T id s (s.step P T m).1 m (SentinelTransition.about id (s.step P T m).2) := by
  cases m with
  | newBlock block =>
    by_cases hblock : s.block < block
    · obtain ⟨hentry, habout⟩ := message_entry (T := T) s.sentinel (.newBlock block) id
      have hrun : s.step P T (.newBlock block) =
          (⟨s.oracle, Reactive.runState T.apply s.sentinel [.newBlock block], block⟩,
            Reactive.runOutputs T.apply s.sentinel [.newBlock block]) := by
        simp only [step, happens, if_pos hblock]
      rw [hrun]
      cases hget : s.sentinel[id]? with
      | none =>
        rw [hget] at hentry habout
        rw [habout]
        exact .idle rfl (hentry.trans hget.symm) hblock.le (by simp)
      | some entry =>
        rw [hget] at hentry habout
        rw [habout]
        exact .newBlock rfl hget hentry hblock rfl
    · have hrun : s.step P T (.newBlock block) = (s, []) := by
        simp [step, happens, if_neg hblock, Reactive.runOutputs]
      rw [hrun]
      exact .idle rfl rfl le_rfl (by simp)
  | warp block => exact .idle rfl rfl (le_max_left _ _) (by simp)
  | call sender call =>
    cases hexec : s.oracle.exec P s.block sender call with
    | error e =>
      have hrun : s.step P T (.call sender call) = (s, []) := by
        simp [step, happens, hexec, Reactive.runOutputs]
      rw [hrun]
      refine .idle rfl rfl le_rfl fun sender' call' hcall hok => ?_
      obtain ⟨rfl, rfl⟩ := WatchedStep.call.inj hcall
      rw [hexec] at hok
      exact absurd hok (by simp [Except.isOk, Except.toBool])
    | ok outcome =>
      obtain ⟨oracle, logs, payments⟩ := outcome
      have hrun : s.step P T (.call sender call) = (⟨oracle, Reactive.runState T.apply s.sentinel
          (logs.map (OracleLog.message s.block P.address)), s.block⟩,
          Reactive.runOutputs T.apply s.sentinel (logs.map (OracleLog.message s.block P.address))) := by
        simp only [step, happens, hexec]
      rw [hrun]
      rcases SentinelOracle.exec_cases hexec with ⟨hnone, hbook, hnil⟩ | ⟨id', hid', hsteps⟩
      · obtain ⟨rfl, -⟩ := Prod.mk.inj hnil
        refine .idle (hbook id) rfl le_rfl fun sender' call' hcall _ => ?_
        obtain ⟨rfl, rfl⟩ := WatchedStep.call.inj hcall
        simp [hnone]
      · obtain ⟨log, hlogs, hrequest⟩ := hsteps.step.log
        have hlogs : logs = [log] := hlogs
        subst hlogs
        obtain ⟨hentry, habout⟩ := message_entry (T := T) s.sentinel
          (log.message s.block P.address) id
        have hrequest := (handleEvent_request (T := T) s.block log).trans hrequest
        rw [List.map_singleton, habout]
        by_cases hid : id' = id
        · subst hid
          simp only [OracleLog.message, SentinelTransition.entryStep, if_pos hrequest] at hentry ⊢
          exact .call (by rw [hexec]; rfl) hsteps.step rfl hentry
        · simp only [OracleLog.message, SentinelTransition.entryStep, hrequest, if_neg hid] at hentry ⊢
          refine .idle (hsteps.others id (Ne.symm hid)) hentry le_rfl fun sender' call' hcall _ => ?_
          obtain ⟨rfl, rfl⟩ := WatchedStep.call.inj hcall
          simp [hid', hid]
  | proposed event =>
    obtain ⟨hentry, habout⟩ := message_entry (T := T) s.sentinel
      (.event ⟨s.block, 0, T.consensus, .transactionProposed event⟩) id
    have hrun : s.step P T (.proposed event) = (⟨s.oracle, Reactive.runState T.apply s.sentinel
        [.event ⟨s.block, 0, T.consensus, .transactionProposed event⟩], s.block⟩,
        Reactive.runOutputs T.apply s.sentinel
          [.event ⟨s.block, 0, T.consensus, .transactionProposed event⟩]) := rfl
    have hhandle : T.entryStep id s.sentinel[id]?
        (.event ⟨s.block, 0, T.consensus, .transactionProposed event⟩) =
        if T.requestId event = id then
          T.handleOracleTransactionProposed s.block event s.sentinel[id]?
        else (s.sentinel[id]?, []) := rfl
    rw [hrun, habout, hhandle]
    rw [hhandle] at hentry
    by_cases hid : T.requestId event = id
    · rw [if_pos hid] at hentry ⊢
      exact .proposed rfl rfl hentry
    · rw [if_neg hid] at hentry ⊢
      exact .idle rfl hentry le_rfl (by simp)
  | engine requestId outcome =>
    obtain ⟨hentry, habout⟩ := message_entry (T := T) s.sentinel
      (.resume (.engineCheckResult requestId outcome)) id
    have hrun : s.step P T (.engine requestId outcome) = (⟨s.oracle, Reactive.runState T.apply s.sentinel
        [.resume (.engineCheckResult requestId outcome)], s.block⟩,
        Reactive.runOutputs T.apply s.sentinel [.resume (.engineCheckResult requestId outcome)]) := rfl
    rw [hrun, habout]
    by_cases hid : requestId = id
    · subst hid
      simp only [SentinelTransition.entryStep, if_true] at hentry ⊢
      exact .engine rfl rfl hentry
    · simp only [SentinelTransition.entryStep, if_neg hid] at hentry ⊢
      exact .idle rfl hentry le_rfl (by simp)

end Watched

/-! ## 2. What is tallied -/

/-- A request in its voting, with these deadlines. -/
structure OracleBook.Voting (b : OracleBook) (commitDeadline revealDeadline : Nat) : Prop where
  state : b.request.progress.state = .pending
  commitDeadline : b.request.terms.commitDeadline = commitDeadline
  revealDeadline : b.request.terms.revealDeadline = revealDeadline

/-- **What an entry knows of its request**: as long as it counts, the counts. -/
def OracleBook.Tracks (b : OracleBook) (block : Nat) : Option SentinelRequestState → Prop
  | some (.waitingForEngineCheck _ (some request)) =>
    b.Voting request.commitDeadline request.revealDeadline ∧ b.request.progress.committedCount = 0
  | some (.collectingCommitments phase) =>
    b.Voting phase.commitDeadline phase.revealDeadline ∧
      b.request.progress.committedCount = phase.committedCount ∧ b.request.progress.revealedCount = 0
  | some (.collectingVotes phase) =>
    b.Voting b.request.terms.commitDeadline phase.revealDeadline ∧
      b.request.terms.commitDeadline < block ∧
      b.request.progress.committedCount = phase.committedCount ∧
      b.request.progress.revealedCount = phase.revealedCount ∧
      b.request.progress.approveSentinelCount = phase.approveCount ∧
      b.request.progress.denySentinelCount = phase.denyCount
  | _ => True

/-- Entries that count nothing. -/
inductive Countless : Option SentinelRequestState → Prop where
  | none : Countless none
  | proposed (deadline : Nat) : Countless (some (.waitingForEngineCheck deadline none))
  | decided (approve : Bool) (reason : Bytes) (deadline : Nat) :
      Countless (some (.waitingForRequest approve reason deadline))
  | outcome (approve : Bool) (slashAmount : Nat) : Countless (some (.waitingForOutcome approve slashAmount))
  | dispute (approve : Bool) (slashAmount : Nat) :
      Countless (some (.waitingForDisputeResolution approve slashAmount))

theorem Countless.tracks {entry : Option SentinelRequestState} (h : Countless entry) (b : OracleBook)
    (block : Nat) : b.Tracks block entry := by
  cases h <;> trivial

namespace OracleBook.Tracks

variable {b : OracleBook} {block : Nat} {entry : Option SentinelRequestState}

/-- A request that is not in its voting is not counted. -/
theorem countless (h : b.Tracks block entry) (hstate : b.request.progress.state ≠ .pending) :
    Countless entry := by
  cases entry with
  | none => exact .none
  | some entry =>
    cases entry with
    | waitingForEngineCheck deadline request =>
      cases request with
      | none => exact .proposed deadline
      | some request => exact absurd h.1.state hstate
    | waitingForRequest approve reason deadline => exact .decided approve reason deadline
    | collectingCommitments phase => exact absurd h.1.state hstate
    | collectingVotes phase => exact absurd h.1.state hstate
    | waitingForOutcome approve slashAmount => exact .outcome approve slashAmount
    | waitingForDisputeResolution approve slashAmount => exact .dispute approve slashAmount

/-- Time passes. -/
theorem later (h : b.Tracks block entry) {block' : Nat} (hle : block ≤ block') : b.Tracks block' entry := by
  cases entry with
  | none => trivial
  | some entry =>
    cases entry with
    | waitingForEngineCheck deadline request => cases request <;> exact h
    | collectingVotes phase => exact ⟨h.1, h.2.1.trans_le hle, h.2.2⟩
    | _ => exact h

end OracleBook.Tracks

namespace SentinelTransition

variable (T : SentinelTransition)

/-- A finalization leaves nothing to count. -/
theorem finalize_countless (id : B256) (phase : SentinelRequestState.CollectingVotes) :
    Countless (finalize id phase).1 := by
  unfold finalize
  dsimp only
  split
  · exact .none
  · exact .outcome _ _

/-- The logs that end the voting leave nothing to count. -/
theorem handleSettled_countless (id : B256) (entry : Option SentinelRequestState) :
    Countless (handleSettled id entry).1 := by
  unfold handleSettled
  split
  · split <;> exact .none
  · exact .none

theorem handleDisputeTriggered_countless (entry : Option SentinelRequestState) :
    Countless (handleDisputeTriggered entry).1 := by
  unfold handleDisputeTriggered
  split
  · split
    · exact .dispute _ _
    · exact .none
  · exact .none

theorem handleArbitrationTimeout_countless (id : B256) (entry : Option SentinelRequestState) :
    Countless (handleArbitrationTimeout id entry).1 := by
  unfold handleArbitrationTimeout
  split <;> exact .none

theorem handleResolved_countless {entry : Option SentinelRequestState} (h : Countless entry) (id : B256) :
    Countless (handleResolved id entry).1 := by
  unfold handleResolved
  split
  · exact .none
  · exact h

end SentinelTransition

/-! ## 3. One step -/

/-- The commands finalize a request. -/
def Finalizes (id : B256) (commands : List SentinelCommand) : Prop :=
  ∃ expiresAt, .action ⟨.finalize id, expiresAt⟩ ∈ commands

theorem not_finalizes_nil (id : B256) : ¬Finalizes id [] := by simp [Finalizes]

namespace OracleBook.Tracks

variable {b b' : OracleBook} {block : Nat} {entry : Option SentinelRequestState} {id : B256}
  {T : SentinelTransition}

/-- A block is announced.  What is finalized then is past its deadline. -/
theorem advance (id : B256) (hb : b.Sound) {entry : SentinelRequestState}
    (h : b.Tracks block (some entry)) {next : Nat} (hle : block < next) :
    b.Tracks next (T.advance next id entry).1 ∧
      (Finalizes id (T.advance next id entry).2 → b.request.CanFinalize next) := by
  have hlater := h.later hle.le
  cases entry with
  | waitingForEngineCheck deadline request =>
    simp only [SentinelTransition.advance]
    refine ⟨?_, fun hf => absurd hf (not_finalizes_nil id)⟩
    split
    · exact hlater
    · trivial
  | waitingForRequest approve reason deadline =>
    simp only [SentinelTransition.advance]
    refine ⟨?_, fun hf => absurd hf (not_finalizes_nil id)⟩
    split <;> trivial
  | collectingCommitments phase =>
    simp only [SentinelTransition.advance]
    split
    · exact ⟨hlater, fun hf => absurd hf (not_finalizes_nil id)⟩
    · rename_i hclosed
      split
      · exact ⟨trivial, fun hf => absurd hf (not_finalizes_nil id)⟩
      · obtain ⟨hvoting, hcommitted, hrevealed⟩ := h
        have hsum := hb.revealed
        refine ⟨⟨⟨hvoting.state, rfl, hvoting.revealDeadline⟩, ?_, hcommitted, hrevealed, ?_, ?_⟩, ?_⟩
        · rw [hvoting.commitDeadline]
          omega
        · dsimp only
          omega
        · dsimp only
          omega
        · simp [Finalizes]
  | collectingVotes phase =>
    simp only [SentinelTransition.advance]
    split
    · exact ⟨hlater, fun hf => absurd hf (not_finalizes_nil id)⟩
    · rename_i hclosed
      refine ⟨(SentinelTransition.finalize_countless id phase).tracks b next, fun _ => .inl ?_⟩
      rw [h.1.revealDeadline]
      omega
  | waitingForOutcome approve slashAmount => exact ⟨trivial, fun hf => absurd hf (not_finalizes_nil id)⟩
  | waitingForDisputeResolution approve slashAmount =>
    exact ⟨trivial, fun hf => absurd hf (not_finalizes_nil id)⟩

/-- The sentinel votes.  It starts to count at zero. -/
theorem commitVote (id : B256) (hb : b.Sound) (request : VotingRequest)
    (hvoting : b.Voting request.commitDeadline request.revealDeadline)
    (hzero : b.request.progress.committedCount = 0) (approve : Bool) (reason : Bytes) :
    b.Tracks block (T.commitVote id approve reason request).1 ∧
      ¬Finalizes id (T.commitVote id approve reason request).2 := by
  have hpending := hb.pending
  refine ⟨⟨⟨hvoting.state, hvoting.commitDeadline, hvoting.revealDeadline⟩, hzero, by omega⟩, ?_⟩
  simp [Finalizes, SentinelTransition.commitVote]

/-- The engine answers. -/
theorem engine (id : B256) (hb : b.Sound) (h : b.Tracks block entry) (outcome : CheckOutcome) :
    b.Tracks block (T.handleEngineCheckResult id outcome entry).1 ∧
      ¬Finalizes id (T.handleEngineCheckResult id outcome entry).2 := by
  unfold SentinelTransition.handleEngineCheckResult
  split
  · split
    · exact ⟨trivial, not_finalizes_nil id⟩
    · split
      · exact commitVote id hb _ h.1 h.2 _ _
      · exact ⟨trivial, not_finalizes_nil id⟩
  · exact ⟨h, not_finalizes_nil id⟩

/-- A proposal. -/
theorem proposed (id : B256) (h : b.Tracks block entry) (event : TransactionProposed) :
    b.Tracks block (T.handleOracleTransactionProposed block event entry).1 ∧
      ¬Finalizes id (T.handleOracleTransactionProposed block event entry).2 := by
  unfold SentinelTransition.handleOracleTransactionProposed
  split
  · exact ⟨h, not_finalizes_nil id⟩
  · split
    · exact ⟨h, not_finalizes_nil id⟩
    · exact ⟨trivial, by simp [Finalizes]⟩

end OracleBook.Tracks

/-- A log that is not tallied: a commitment while the engine checks an open request, or a reveal before
the commitments are closed. -/
def Untallied (id : B256) : Option SentinelRequestState → OracleCall → Prop
  | some (.waitingForEngineCheck _ (some _)), .commit requestId _ => requestId = id
  | some (.collectingCommitments _), .reveal requestId _ _ _ => requestId = id
  | _, _ => False

instance (id : B256) (entry : Option SentinelRequestState) (call : OracleCall) :
    Decidable (Untallied id entry call) := by
  induction entry using Option.casesOn with
  | none => exact .isFalse not_false
  | some e =>
    induction e using SentinelRequestState.casesOn with
    | waitingForEngineCheck _ request =>
      induction request using Option.casesOn <;> induction call using OracleCall.casesOn <;>
        unfold Untallied <;> infer_instance
    | _ => induction call using OracleCall.casesOn <;> unfold Untallied <;> infer_instance

section

variable {P : OracleParams} {T : SentinelTransition} {Offer : Nat → OracleTerms → Prop}
  {receiver sender : Address} {id : B256} {block : Nat} {b b' : OracleBook} {call : OracleCall}
  {log : OracleLog} {payments : List Payment} {entry : Option SentinelRequestState}

/-- **A call of the oracle**, with its log.  What is finalized then was revealed by everyone. -/
theorem OracleBook.Tracks.logged (hb' : b'.Sound) (h : b.Tracks block entry)
    (hs : b.Step P Offer receiver id block sender call b' [log] payments)
    (hok : ¬Untallied id entry call) :
    b'.Tracks block ((T.handleEvent block (.oracle log)).2 entry).1 ∧
      (Finalizes id ((T.handleEvent block (.oracle log)).2 entry).2 → b'.request.CanFinalize block) := by
  generalize hlogs : [log] = logs at hs
  cases hs with
  | @posted fee terms hnone _ =>
    obtain rfl := List.singleton_inj.mp hlogs
    have hcountless := h.countless (by simp [hnone])
    cases hcountless with
    | decided approve reason deadline =>
      obtain ⟨htracks, hf⟩ := OracleBook.Tracks.commitVote (T := T) id hb'
        ⟨terms.bondTarget, terms.slashAmount, terms.commitDeadline, terms.revealDeadline⟩
        ⟨rfl, rfl, rfl⟩ rfl approve reason
      exact ⟨htracks, fun h => absurd h hf⟩
    | proposed deadline => exact ⟨⟨⟨rfl, rfl, rfl⟩, rfl⟩, fun h => absurd h (not_finalizes_nil id)⟩
    | none => exact ⟨trivial, fun h => absurd h (not_finalizes_nil id)⟩
    | outcome _ _ => exact ⟨trivial, fun h => absurd h (not_finalizes_nil id)⟩
    | dispute _ _ => exact ⟨trivial, fun h => absurd h (not_finalizes_nil id)⟩
  | @committed hash request hcommit hhash =>
    obtain rfl := List.singleton_inj.mp hlogs
    obtain ⟨hstate, hopen, -, rfl⟩ := OracleRequest.applyCommit_spec hcommit
    dsimp only [SentinelTransition.handleEvent, SentinelTransition.handleCommitted]
    cases entry with
    | none => exact ⟨trivial, fun h => absurd h (not_finalizes_nil id)⟩
    | some entry =>
      refine ⟨?_, fun hf => ?_⟩
      · cases entry with
        | waitingForEngineCheck deadline request =>
          cases request with
          | none => trivial
          | some request => exact absurd rfl hok
        | collectingCommitments phase =>
          obtain ⟨hvoting, hcommitted, hrevealed⟩ := h
          exact ⟨⟨hstate, hvoting.commitDeadline, hvoting.revealDeadline⟩,
            congrArg (· + 1) hcommitted, hrevealed⟩
        | collectingVotes phase =>
          obtain ⟨-, hclosed, -⟩ := h
          omega
        | _ => trivial
      · cases entry <;> exact absurd hf (not_finalizes_nil id)
  | @revealed approve salt reason request hvote hhash hreveal =>
    obtain rfl := List.singleton_inj.mp hlogs
    obtain ⟨hstate, -, -, rfl⟩ := OracleRequest.applyReveal_spec hreveal
    have hle : b.request.progress.revealedCount + 1 ≤ b.request.progress.committedCount :=
      (Nat.le_add_left _ _).trans hb'.pending
    dsimp only [SentinelTransition.handleEvent, SentinelTransition.handleRevealed]
    cases entry with
    | none => exact ⟨trivial, fun h => absurd h (not_finalizes_nil id)⟩
    | some entry =>
      cases entry with
      | waitingForEngineCheck deadline request =>
        refine ⟨?_, fun hf => absurd hf (not_finalizes_nil id)⟩
        cases request with
        | none => trivial
        | some request =>
          have hzero := h.2
          omega
      | collectingCommitments phase =>
        exact absurd rfl hok
      | collectingVotes phase =>
        obtain ⟨hvoting, hclosed, hcommitted, hrevealed, happroved, hdenied⟩ := h
        dsimp only
        by_cases hless :
            (T.tally sender approve phase).revealedCount < (T.tally sender approve phase).committedCount
        · rw [if_pos hless]
          exact ⟨⟨⟨hstate, rfl, hvoting.revealDeadline⟩, hclosed, hcommitted, congrArg (· + 1) hrevealed,
            congrArg (· + if approve then 1 else 0) happroved,
            congrArg (· + if approve then 0 else 1) hdenied⟩, fun hf => absurd hf (not_finalizes_nil id)⟩
        · rw [if_neg hless]
          refine ⟨(SentinelTransition.finalize_countless id _).tracks _ block, fun _ => .inr (.inl ?_)⟩
          have hall : ¬phase.revealedCount + 1 < phase.committedCount := hless
          dsimp only
          omega
      | waitingForRequest _ _ _ => exact ⟨trivial, fun hf => absurd hf (not_finalizes_nil id)⟩
      | waitingForOutcome _ _ => exact ⟨trivial, fun hf => absurd hf (not_finalizes_nil id)⟩
      | waitingForDisputeResolution _ _ => exact ⟨trivial, fun hf => absurd hf (not_finalizes_nil id)⟩
  | @finalized deadline request result hfinalize =>
    obtain rfl := List.singleton_inj.mp hlogs
    generalize b.request.terms.sponsor = sponsor
    generalize result.newState = state
    have hsettled : ¬Finalizes id (SentinelTransition.handleSettled id entry).2 := by
      unfold SentinelTransition.handleSettled
      split
      · split <;> simp [Finalizes, SentinelTransition.claim]
      · exact not_finalizes_nil id
    have hdispute : ¬Finalizes id (SentinelTransition.handleDisputeTriggered entry).2 := by
      unfold SentinelTransition.handleDisputeTriggered
      split
      · split <;> exact not_finalizes_nil id
      · exact not_finalizes_nil id
    cases state with
    | frozen =>
      exact ⟨(SentinelTransition.handleDisputeTriggered_countless entry).tracks _ block,
        fun hf => absurd hf hdispute⟩
    | _ =>
      exact ⟨(SentinelTransition.handleSettled_countless id entry).tracks _ block,
        fun hf => absurd hf hsettled⟩
  | @claimed feeReward bondReturn hresolved _ _ _ _ =>
    obtain rfl := List.singleton_inj.mp hlogs
    have hcountless := h.countless fun hp => by
      rcases hresolved with hs | hs | hs <;> exact absurd (hp.symm.trans hs) (by simp)
    exact ⟨hcountless.tracks _ block, fun hf => absurd hf (not_finalizes_nil id)⟩
  | @ruled approveWins context request ruling kept hruling _ =>
    obtain rfl := List.singleton_inj.mp hlogs
    obtain ⟨hstate, -⟩ := OracleRequest.resolveDispute_spec hruling
    have hcountless := h.countless (by simp [hstate])
    refine ⟨(SentinelTransition.handleResolved_countless hcountless id).tracks _ block, fun hf => ?_⟩
    refine absurd hf ?_
    dsimp only [SentinelTransition.handleEvent, SentinelTransition.handleResolved]
    split <;> simp [Finalizes, SentinelTransition.claim]
  | @refunded call request refundFee log' hrefund hcall =>
    obtain rfl := List.singleton_inj.mp hlogs
    have harbitration : ¬Finalizes id (SentinelTransition.handleArbitrationTimeout id entry).2 := by
      unfold SentinelTransition.handleArbitrationTimeout
      split <;> simp [Finalizes, SentinelTransition.claim]
    rcases hcall with ⟨-, rfl⟩ | ⟨_, -, rfl⟩ <;>
      exact ⟨(SentinelTransition.handleArbitrationTimeout_countless id entry).tracks _ block,
        fun hf => absurd hf harbitration⟩

end

namespace Watched

variable {P : OracleParams} {T : SentinelTransition} {id : B256}

/-- A step with a log that is not tallied. -/
def Misses (P : OracleParams) (id : B256) (s : Watched) : WatchedStep → Prop
  | .call sender call =>
    (s.oracle.exec P s.block sender call).isOk = true ∧ Untallied id s.sentinel[id]? call
  | _ => False

instance (id : B256) (s : Watched) (m : WatchedStep) : Decidable (Misses P id s m) := by
  induction m using WatchedStep.casesOn <;> unfold Misses <;> infer_instance

/-- The request is sound, and the sentinel's entry knows it. -/
def Counted (id : B256) (s : Watched) : Prop :=
  (s.oracle.book id).Sound ∧ (s.oracle.book id).Tracks s.block s.sentinel[id]?

theorem finalizes_about {commands : List SentinelCommand} (h : Finalizes id commands) :
    Finalizes id (SentinelTransition.about id commands) := by
  obtain ⟨expiresAt, hmem⟩ := h
  exact ⟨expiresAt, List.mem_filter.mpr ⟨hmem, by
    simp [SentinelCommand.request, SentinelActionKind.call, OracleCall.request]⟩⟩

theorem finalizes_of_about {commands : List SentinelCommand}
    (h : Finalizes id (SentinelTransition.about id commands)) : Finalizes id commands := by
  obtain ⟨expiresAt, hmem⟩ := h
  exact ⟨expiresAt, (List.mem_filter.mp hmem).1⟩

/-- **One step** keeps the counts, when its log is tallied; and what it finalizes can be. -/
theorem Counted.step {s : Watched} (h : Counted id s) {m : WatchedStep} (hok : ¬Misses P id s m) :
    Counted id (s.step P T m).1 ∧
      (Finalizes id (s.step P T m).2 →
        ((s.step P T m).1.oracle.book id).request.CanFinalize (s.step P T m).1.block) := by
  obtain ⟨hsound, htracks⟩ := h
  have hmoves := step_moves P T s m id
  have habout : Finalizes id (s.step P T m).2 →
      Finalizes id (SentinelTransition.about id (s.step P T m).2) := finalizes_about
  unfold Counted
  generalize SentinelTransition.about id (s.step P T m).2 = commands at *
  generalize (s.step P T m).1 = s' at *
  cases hmoves with
  | idle hbook hentry hblock _ =>
    rw [hbook, hentry]
    exact ⟨⟨hsound, htracks.later hblock⟩, fun hf => absurd (habout hf) (not_finalizes_nil id)⟩
  | newBlock hbook hsome hentry hblock hnext =>
    rw [hsome] at htracks
    obtain ⟨hnew, hf⟩ := htracks.advance (T := T) id hsound hblock
    rw [hbook, hentry, hnext]
    exact ⟨⟨hsound, hnew⟩, fun h => hf (finalizes_of_about (habout h))⟩
  | call hexec hs hblock hentry =>
    obtain ⟨hnew, hf⟩ := htracks.logged (T := T) (hsound.step hs) hs fun hmiss => hok ⟨hexec, hmiss⟩
    rw [hentry, hblock]
    exact ⟨⟨hsound.step hs, hnew⟩, fun h => hf (finalizes_of_about (habout h))⟩
  | @proposed event hbook hblock hentry =>
    obtain ⟨hnew, hf⟩ := htracks.proposed (T := T) id event
    rw [hbook, hentry, hblock]
    exact ⟨⟨hsound, hnew⟩, fun h => absurd (finalizes_of_about (habout h)) hf⟩
  | @engine outcome hbook hblock hentry =>
    obtain ⟨hnew, hf⟩ := htracks.engine (T := T) id hsound outcome
    rw [hbook, hentry, hblock]
    exact ⟨⟨hsound, hnew⟩, fun h => absurd (finalizes_of_about (habout h)) hf⟩

/-- The sentinel's counts are the oracle's. -/
structure Tallied (id : B256) (s : Watched) : Prop where
  commitments : ∀ phase, s.sentinel[id]? = some (.collectingCommitments phase) →
    phase.committedCount = (s.oracle.requests id).progress.committedCount
  votes : ∀ phase, s.sentinel[id]? = some (.collectingVotes phase) →
    phase.committedCount = (s.oracle.requests id).progress.committedCount ∧
      phase.revealedCount = (s.oracle.requests id).progress.revealedCount ∧
      phase.approveCount = (s.oracle.requests id).progress.approveSentinelCount ∧
      phase.denyCount = (s.oracle.requests id).progress.denySentinelCount

/-- A finalization is not too early, from a block on. -/
def Timely (P : OracleParams) (id : B256) (s : Watched) : Prop :=
  ∀ block ≥ s.block, s.oracle.finalize P block id ≠ .error .finalizeTooEarly

theorem Counted.tallied {s : Watched} (h : Counted id s) : Tallied id s := by
  obtain ⟨-, htracks⟩ := h
  constructor
  · intro phase hentry
    rw [hentry] at htracks
    exact htracks.2.1.symm
  · intro phase hentry
    rw [hentry] at htracks
    obtain ⟨-, -, hcommitted, hrevealed, happroved, hdenied⟩ := htracks
    exact ⟨hcommitted.symm, hrevealed.symm, happroved.symm, hdenied.symm⟩

theorem finalize_not_early {r : OracleRequest} {block deadline : Nat} (hcan : r.CanFinalize block) :
    r.finalize block deadline ≠ .error .finalizeTooEarly := by
  intro h
  rcases Except.bind_eq_error.mp h with h | ⟨-, -, h⟩
  · exact absurd (require_eq_error.mp h).2 (by simp)
  rcases Except.bind_eq_error.mp h with h | ⟨-, -, h⟩
  · exact (require_eq_error.mp h).1 hcan
  dsimp only at h
  split at h
  · rcases Except.bind_eq_error.mp h with h | ⟨_, -, h⟩
    · unfold checkedSub at h
      split at h <;> simp at h
    · split at h
      · exact absurd h (by simp [pure, Except.pure])
      · rcases Except.bind_eq_error.mp h with h | ⟨_, -, h⟩
        · simp only [OracleRequest.applyDaoFeeCut, checkedSub] at h
          split at h <;> simp [bind, Except.bind, pure, Except.pure] at h
        · exact absurd h (by simp [pure, Except.pure])
  · exact absurd h (by simp [pure, Except.pure])

theorem timely_of_canFinalize {s : Watched} (h : (s.oracle.book id).request.CanFinalize s.block) :
    Timely P id s := by
  intro block hle hearly
  have hcan : (s.oracle.requests id).CanFinalize block := by
    rcases h with h | h | ⟨hzero, h⟩
    · exact .inl (h.trans_le hle)
    · exact .inr (.inl h)
    · exact .inr (.inr ⟨hzero, h.trans_le hle⟩)
  unfold SentinelOracle.finalize at hearly
  rcases Except.bind_eq_error.mp hearly with hget | ⟨request, hget, hearly⟩
  · rcases Except.bind_eq_error.mp hget with hget | ⟨_, -, hget⟩
    · exact absurd (require_eq_error.mp hget).2 (by simp)
    · exact absurd hget (by simp [pure, Except.pure])
  obtain ⟨-, rfl⟩ := SentinelOracle.getRequest_eq_ok.mp hget
  rcases Except.bind_eq_error.mp hearly with hcast | ⟨deadline, -, hearly⟩
  · unfold toUint at hcast
    split at hcast <;> simp at hcast
  rcases Except.bind_eq_error.mp hearly with hfinalize | ⟨_, -, hearly⟩
  · exact finalize_not_early hcan hfinalize
  · exact absurd hearly (by simp [pure, Except.pure])

/-- What the tallies of a run are for. -/
structure Refines (P : OracleParams) (T : SentinelTransition) (id : B256) (s : Watched)
    (steps : List WatchedStep) : Prop where
  tallied : Tallied id (Reactive.runState (step P T) s steps)
  timely : Reactive.Along (step P T) (fun s m =>
    Finalizes id (s.step P T m).2 → Timely P id (s.step P T m).1) s steps

/-- The sentinel before its first message, beside an oracle that has run. -/
def beside (P : OracleParams) (o : SentinelOracle) (txs : List OracleTx) (block : Nat) : Watched :=
  ⟨Reactive.runState (SentinelOracle.execTx P) o txs, ∅, block⟩

/-- **The tallies refine the oracle**, in every run in which each log is tallied. -/
theorem tallies_refine (P : OracleParams) (T : SentinelTransition) (o : SentinelOracle)
    (h : SentinelOracle.construct P = .ok o) (txs : List OracleTx) (block : Nat) (id : B256)
    (steps : List WatchedStep)
    (hok : Reactive.Along (step P T) (fun s m => ¬Misses P id s m) (beside P o txs block) steps) :
    Refines P T id (beside P o txs block) steps := by
  have hstart : Counted id (beside P o txs block) := by
    refine ⟨SentinelOracle.run_sound h txs id, ?_⟩
    have hnone : (beside P o txs block).sentinel[id]? = none := by simp [beside]
    rw [hnone]
    trivial
  obtain ⟨hend, htimely⟩ := hok.induction (I := Counted id) hstart fun s m hcounted hm =>
    ⟨(hcounted.step (T := T) hm).1, fun hf => timely_of_canFinalize ((hcounted.step hm).2 hf)⟩
  exact ⟨hend.tallied, htimely⟩

/-- A sentinel with the hash of the toy oracle. -/
def toySentinel : SentinelTransition where
  keccak256 := SentinelOracle.toyParams.keccak256
  oracle := 99
  consensus := 50
  address := 7
  revealSalt _ := 0
  chainId := 1
  votingWindow := 100

/-- Two sentinels are added. -/
def toySentinels : List OracleTx := [⟨1, 2, .addSentinel 7⟩, ⟨1, 2, .addSentinel 8⟩]

/-- A proposal; with the toy hash its request is 26. -/
def toyProposal : TransactionProposed where
  epoch := 1
  oracle := 99
  oracleData := []
  safeTxHash := 0
  transaction := ⟨1, 0, 0, 0, [], .call, 0, 0, 0, 0, 0, 0⟩

/-- Both sentinels commit after the verdict, and reveal. -/
def toyVote : List WatchedStep :=
  [.proposed toyProposal, .engine 26 .approved, .call 4 (.postRequest 26 6), .call 8 (.commit 26 2),
    .call 7 (.commit 26 2), .newBlock 13, .call 7 (.reveal 26 true 0 []), .call 8 (.reveal 26 true 0 [])]

/-- A vote of two. -/
theorem tallies_refine_vote : ∃ o, SentinelOracle.construct SentinelOracle.toyParams = .ok o ∧
    Refines SentinelOracle.toyParams toySentinel 26
      (beside SentinelOracle.toyParams o toySentinels 2) toyVote :=
  ⟨_, rfl, tallies_refine SentinelOracle.toyParams toySentinel _ rfl toySentinels 2 26 toyVote
    (by decide +kernel)⟩

/-- The other sentinel commits before the verdict. -/
def toyHastyVote : List WatchedStep :=
  [.proposed toyProposal, .call 4 (.postRequest 26 6), .call 8 (.commit 26 2), .engine 26 .approved,
    .call 7 (.commit 26 2), .newBlock 13, .call 7 (.reveal 26 true 0 [])]

/-- Whether a computation fails because it is too early. -/
def isTooEarly {α : Type} : Except OracleError α → Bool
  | .error e => e = .finalizeTooEarly
  | .ok _ => false

theorem error_of_tooEarly {α : Type} {x : Except OracleError α} (h : isTooEarly x = true) :
    x = .error .finalizeTooEarly := by
  cases x with
  | error e => exact congrArg _ (of_decide_eq_true h)
  | ok a => exact absurd h (by simp [isTooEarly])

/-- The sentinel finalizes when it has revealed, and the other has not. -/
theorem commits_untallied : ∃ o, SentinelOracle.construct SentinelOracle.toyParams = .ok o ∧
    ¬Refines SentinelOracle.toyParams toySentinel 26
      (beside SentinelOracle.toyParams o toySentinels 2) toyHastyVote := by
  refine ⟨_, rfl, fun h => ?_⟩
  obtain ⟨-, -, -, -, -, -, htimely, -⟩ := h.timely
  refine htimely ⟨none, by decide +kernel⟩ 13 (by decide +kernel) (error_of_tooEarly ?_)
  decide +kernel

end Watched

end Safenet
