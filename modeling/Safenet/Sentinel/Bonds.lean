/-
# The sentinel's bond

Once the sentinel's own commitment is recorded, its entry stays until the request is settled: it
reveals, finalizes, waits for the outcome or for the ruling, and at the log that settles the request
it claims.  The entry has to keep pace with the oracle (`Recovering`): in the voting it is one of
those that have committed, in a dispute it waits for the ruling, and after that it has claimed once.

It does not keep pace where a reveal of its own is missed and another's is not: `finalize` then drops
the entry, and the bond, of which only a part is slashed, is not claimed (`missed_reveal_strands`).
Nor does it where the commitment lands while the entry does not expect it.  `Strands` is both.
-/
import Safenet.Sentinel.Tallies
import Safenet.Contracts.OracleSolvency

namespace Safenet

/-! ## 1. Entries with a bond -/

/-- The entries of a sentinel that has committed, until the voting ends. -/
inductive Bonded : Option SentinelRequestState → Prop where
  | commitments {phase : SentinelRequestState.CollectingCommitments} :
      phase.selfCommitted = true → Bonded (some (.collectingCommitments phase))
  | votes (phase : SentinelRequestState.CollectingVotes) : Bonded (some (.collectingVotes phase))
  | outcome (approve : Bool) (slashAmount : Nat) : Bonded (some (.waitingForOutcome approve slashAmount))

/-- An entry that waits for a ruling. -/
inductive Disputed : Option SentinelRequestState → Prop where
  | waiting (approve : Bool) (slashAmount : Nat) :
      Disputed (some (.waitingForDisputeResolution approve slashAmount))

/-- The votes are in, and the sentinel's own is not. -/
def SentinelRequestState.CollectingVotes.Missed (phase : SentinelRequestState.CollectingVotes) : Prop :=
  phase.selfRevealed = false ∧ phase.revealedCount ≠ 0

instance (phase : SentinelRequestState.CollectingVotes) : Decidable phase.Missed :=
  inferInstanceAs (Decidable (_ ∧ _))

namespace SentinelTransition

variable {T : SentinelTransition} {id : B256} {entry : Option SentinelRequestState}

/-- A finalization keeps the bond, unless the reveal is missed. -/
theorem finalize_bonded {phase : SentinelRequestState.CollectingVotes} (h : ¬phase.Missed) :
    Bonded (finalize id phase).1 := by
  unfold finalize
  rw [if_neg]
  · exact .outcome _ _
  · rintro ⟨hself, hrevealed⟩
    exact h ⟨hself, by simpa using hrevealed⟩

/-- An entry with a bond says what it is. -/
theorem approve_of_bonded (h : Bonded entry) :
    ∃ e approve slashAmount, entry = some e ∧ e.approveAndSlashAmount = some (approve, slashAmount) := by
  cases h with
  | commitments hself => exact ⟨_, _, _, rfl, if_pos hself⟩
  | votes phase => exact ⟨_, _, _, rfl, rfl⟩
  | outcome approve slashAmount => exact ⟨_, _, _, rfl, rfl⟩

/-- How often a request is claimed. -/
def claims (id : B256) (commands : List SentinelCommand) : Nat := commands.count (claim id)

theorem claims_append (commands commands' : List SentinelCommand) :
    claims id (commands ++ commands') = claims id commands + claims id commands' := List.count_append

theorem claims_about (commands : List SentinelCommand) : claims id (about id commands) = claims id commands := by
  refine List.count_filter ?_
  simp [claim, SentinelCommand.request, SentinelActionKind.call, OracleCall.request]

@[simp] theorem claims_nil : claims id [] = 0 := rfl

@[simp] theorem claims_claim : claims id [claim id] = 1 := by simp [claims]

@[simp] theorem claims_finalize (phase : SentinelRequestState.CollectingVotes) :
    claims id (finalize id phase).2 = 0 := by
  unfold finalize
  dsimp only
  split <;> simp [claims, claim]

theorem claims_commitVote (approve : Bool) (reason : Bytes) (request : VotingRequest) :
    claims id (T.commitVote id approve reason request).2 = 0 := by
  simp [claims, claim, commitVote]

theorem claims_advance (block : Nat) (entry : SentinelRequestState) :
    claims id (T.advance block id entry).2 = 0 := by
  cases entry with
  | collectingCommitments phase =>
    simp only [advance]
    split
    · rfl
    · split
      · rfl
      · simp [claims, claim]
  | collectingVotes phase =>
    simp only [advance]
    split
    · rfl
    · exact claims_finalize phase
  | _ => rfl

theorem claims_engineCheckResult (outcome : CheckOutcome) (entry : Option SentinelRequestState) :
    claims id (T.handleEngineCheckResult id outcome entry).2 = 0 := by
  unfold handleEngineCheckResult
  split
  · split
    · rfl
    · split
      · exact claims_commitVote _ _ _
      · rfl
  · rfl

theorem claims_proposed (block : Nat) (event : TransactionProposed)
    (entry : Option SentinelRequestState) :
    claims id (T.handleOracleTransactionProposed block event entry).2 = 0 := by
  unfold handleOracleTransactionProposed
  split
  · rfl
  · split
    · rfl
    · simp [claims, claim]

theorem claims_newRequest (id : B256) (request : VotingRequest) (entry : Option SentinelRequestState) :
    claims id (T.handleNewRequest id request entry).2 = 0 := by
  unfold handleNewRequest
  split
  · exact claims_commitVote _ _ _
  · rfl
  · rfl

theorem claims_committed (id : B256) (sender : Address) (entry : Option SentinelRequestState) :
    claims id (T.handleCommitted sender entry).2 = 0 := by
  unfold handleCommitted
  split <;> rfl

theorem claims_revealed (id : B256) (sender : Address) (approved : Bool) (entry : Option SentinelRequestState) :
    claims id (T.handleRevealed id sender approved entry).2 = 0 := by
  unfold handleRevealed
  split
  · dsimp only
    split
    · rfl
    · exact claims_finalize _
  · rfl

theorem claims_disputeTriggered (id : B256) (entry : Option SentinelRequestState) :
    claims id (handleDisputeTriggered entry).2 = 0 := by
  unfold handleDisputeTriggered
  split
  · split <;> rfl
  · rfl

end SentinelTransition

/-! ## 2. One step -/

/-- How an entry keeps pace with its request.  `own` is whether the sentinel's commitment has been
recorded, and `n` how often the request has been claimed. -/
structure OracleBook.Recovering (b : OracleBook) (own : Prop) (n : Nat)
    (entry : Option SentinelRequestState) : Prop where
  unclaimed : ¬b.request.IsResolved → n = 0
  opened : own → b.request.progress.state ≠ .none
  bonded : own → b.request.progress.state = .pending → Bonded entry
  disputed : own → b.request.progress.state = .frozen → Disputed entry
  claimed : own → b.request.IsResolved → n = 1

namespace OracleBook.Recovering

variable {b b' : OracleBook} {own : Prop} {n : Nat} {entry : Option SentinelRequestState}
  {T : SentinelTransition} {id : B256}

/-- The state of a request that is settled, or in a dispute, or in its voting. -/
theorem cases_of_own (h : b.Recovering own n entry) (hown : own) :
    b.request.progress.state = .pending ∨ b.request.progress.state = .frozen ∨ b.request.IsResolved := by
  cases hstate : b.request.progress.state with
  | none => exact absurd hstate (h.opened hown)
  | pending => exact .inl rfl
  | frozen => exact .inr (.inl rfl)
  | resolvedApproved => exact .inr (.inr (.inl hstate))
  | resolvedDenied => exact .inr (.inr (.inr (.inl hstate)))
  | timedOut => exact .inr (.inr (.inr (.inr hstate)))

/-- A step that the request does not see, and that claims nothing. -/
theorem same (h : b.Recovering own n entry) {entry' : Option SentinelRequestState} {k : Nat} (hk : k = 0)
    (hbonded : Bonded entry → Bonded entry') (hdisputed : Disputed entry → Disputed entry') :
    b.Recovering own (n + k) entry' := by
  subst hk
  exact {
    unclaimed := h.unclaimed
    opened := h.opened
    bonded := fun hown hstate => hbonded (h.bonded hown hstate)
    disputed := fun hown hstate => hdisputed (h.disputed hown hstate)
    claimed := h.claimed }

/-- A block is announced. -/
theorem advance {entry : SentinelRequestState} (h : b.Recovering own n (some entry)) {block : Nat}
    (hok : ∀ phase, entry = .collectingVotes phase → phase.revealDeadline < block → ¬phase.Missed) :
    b.Recovering own (n + SentinelTransition.claims id (T.advance block id entry).2)
      (T.advance block id entry).1 := by
  refine h.same (SentinelTransition.claims_advance block entry) (fun hb => ?_) (fun hd => ?_)
  · cases hb with
    | @commitments phase hself =>
      simp only [SentinelTransition.advance]
      split
      · exact .commitments hself
      · rw [if_neg (by simp [hself])]
        exact .votes _
    | votes phase =>
      simp only [SentinelTransition.advance]
      split
      · exact .votes phase
      · rename_i hclosed
        exact SentinelTransition.finalize_bonded (hok phase rfl (by omega))
    | outcome approve slashAmount => exact .outcome approve slashAmount
  · cases hd
    exact .waiting _ _

/-- The engine answers. -/
theorem engine (h : b.Recovering own n entry) (outcome : CheckOutcome) :
    b.Recovering own (n + SentinelTransition.claims id (T.handleEngineCheckResult id outcome entry).2)
      (T.handleEngineCheckResult id outcome entry).1 := by
  refine h.same (SentinelTransition.claims_engineCheckResult outcome entry) (fun hb => ?_) (fun hd => ?_)
  · cases hb with
    | commitments hself => exact .commitments hself
    | votes phase => exact .votes phase
    | outcome approve slashAmount => exact .outcome approve slashAmount
  · cases hd
    exact .waiting _ _

/-- A proposal. -/
theorem proposed (h : b.Recovering own n entry) (block : Nat) (event : TransactionProposed) :
    b.Recovering own
      (n + SentinelTransition.claims id (T.handleOracleTransactionProposed block event entry).2)
      (T.handleOracleTransactionProposed block event entry).1 := by
  have hkeep : ∀ e, entry = some e →
      (T.handleOracleTransactionProposed block event entry).1 = entry := by
    rintro e rfl
    unfold SentinelTransition.handleOracleTransactionProposed
    split <;> rfl
  refine h.same (SentinelTransition.claims_proposed block event entry) (fun hb => ?_) (fun hd => ?_)
  · obtain ⟨e, -, -, he, -⟩ := SentinelTransition.approve_of_bonded hb
    rw [hkeep e he]
    exact hb
  · cases hd
    rw [hkeep _ rfl]
    exact .waiting _ _

end OracleBook.Recovering

/-- A step at which the sentinel lets go of its bond: the voting is over for its entry, and its own
reveal is missed; or its own commitment lands where the entry does not expect it. -/
def Strands (T : SentinelTransition) (id : B256) (sender : Address) :
    Option SentinelRequestState → OracleCall → Prop
  | some (.collectingVotes phase), .reveal requestId approve _ _ => requestId = id ∧
    ¬(T.tally sender approve phase).revealedCount < phase.committedCount ∧
      (T.tally sender approve phase).Missed
  | some (.collectingCommitments _), .commit _ _ => False
  | _, .commit requestId _ => requestId = id ∧ sender = T.address
  | _, _ => False

instance (T : SentinelTransition) (id : B256) (sender : Address) (entry : Option SentinelRequestState)
    (call : OracleCall) : Decidable (Strands T id sender entry call) := by
  unfold Strands
  split <;> infer_instance

/-- The sentinel's own commitment. -/
def OwnCommit (T : SentinelTransition) (id : B256) (sender : Address) : OracleCall → Prop
  | .commit requestId _ => requestId = id ∧ sender = T.address
  | _ => False

instance (T : SentinelTransition) (id : B256) (sender : Address) (call : OracleCall) :
    Decidable (OwnCommit T id sender call) := by
  unfold OwnCommit
  split <;> infer_instance

section

variable {P : OracleParams} {T : SentinelTransition} {Offer : Nat → OracleTerms → Prop}
  {receiver sender : Address} {id : B256} {block : Nat} {b b' : OracleBook} {call : OracleCall}
  {log : OracleLog} {payments : List Payment} {entry : Option SentinelRequestState} {own : Prop} {n : Nat}

/-- **A call of the oracle**, with its log. -/
theorem OracleBook.Recovering.logged (h : b.Recovering own n entry)
    (hs : b.Step P Offer receiver id block sender call b' [log] payments)
    (hok : ¬Strands T id sender entry call) :
    b'.Recovering (own ∨ OwnCommit T id sender call)
      (n + SentinelTransition.claims id ((T.handleEvent block (.oracle log)).2 entry).2)
      ((T.handleEvent block (.oracle log)).2 entry).1 := by
  generalize hlogs : [log] = logs at hs
  cases hs with
  | @posted fee terms hnone _ =>
    obtain rfl := List.singleton_inj.mp hlogs
    have hown : ¬own := fun hown => h.opened hown hnone
    have hn := h.unclaimed (by simp [OracleRequest.IsResolved, hnone])
    have hfalse : ¬(own ∨ OwnCommit T id sender (.postRequest id terms.sponsor)) := by
      rintro (h | h)
      · exact hown h
      · exact h
    have hzero := SentinelTransition.claims_newRequest (T := T) id
      ⟨terms.bondTarget, terms.slashAmount, terms.commitDeadline, terms.revealDeadline⟩ entry
    exact {
      unclaimed := fun _ => by rw [hn]; exact (Nat.zero_add _).trans hzero
      opened := fun h => absurd h hfalse
      bonded := fun h => absurd h hfalse
      disputed := fun h => absurd h hfalse
      claimed := fun h => absurd h hfalse }
  | @committed hash request hcommit hhash =>
    obtain rfl := List.singleton_inj.mp hlogs
    obtain ⟨hstate, -, -, rfl⟩ := OracleRequest.applyCommit_spec hcommit
    have hn := h.unclaimed (by simp [OracleRequest.IsResolved, hstate])
    have hzero := SentinelTransition.claims_committed (T := T) id sender entry
    exact {
      unclaimed := fun _ => by rw [hn]; exact (Nat.zero_add _).trans hzero
      opened := fun _ => by simp [hstate]
      bonded := fun hown _ => by
        rcases hown with hown | ⟨-, hself⟩
        · have hbonded := h.bonded hown hstate
          cases hbonded with
          | commitments hself => exact .commitments (by simp [hself])
          | votes phase => exact .votes phase
          | outcome approve slashAmount => exact .outcome approve slashAmount
        · cases entry with
          | none => exact absurd ⟨rfl, hself⟩ hok
          | some entry =>
            cases entry with
            | collectingCommitments phase => exact .commitments (by simp [hself])
            | _ => exact absurd ⟨rfl, hself⟩ hok
      disputed := by simp [hstate]
      claimed := by simp [OracleRequest.IsResolved, hstate] }
  | @revealed approve salt reason request hvote hhash hreveal =>
    obtain rfl := List.singleton_inj.mp hlogs
    obtain ⟨hstate, -, -, rfl⟩ := OracleRequest.applyReveal_spec hreveal
    have hn := h.unclaimed (by simp [OracleRequest.IsResolved, hstate])
    have hzero := SentinelTransition.claims_revealed (T := T) id sender approve entry
    exact {
      unclaimed := fun _ => by rw [hn]; exact (Nat.zero_add _).trans hzero
      opened := fun _ => by simp [hstate]
      bonded := fun hown _ => by
        have hbonded := h.bonded (hown.resolve_right not_false) hstate
        cases hbonded with
        | commitments hself => exact .commitments hself
        | votes phase =>
          dsimp only [SentinelTransition.handleEvent, SentinelTransition.handleRevealed]
          split
          · exact .votes _
          · rename_i hall
            exact SentinelTransition.finalize_bonded fun hmissed => hok ⟨rfl, hall, hmissed⟩
        | outcome approve slashAmount => exact .outcome approve slashAmount
      disputed := by simp [hstate]
      claimed := by simp [OracleRequest.IsResolved, hstate] }
  | @finalized deadline request result hfinalize =>
    obtain rfl := List.singleton_inj.mp hlogs
    obtain ⟨hstate, -, hto⟩ := OracleRequest.finalize_spec hfinalize
    have hn := h.unclaimed (by simp [OracleRequest.IsResolved, hstate])
    have hnew : result.newState = request.progress.state := by cases hto <;> rfl
    have hends : request.progress.state = .frozen ∨ request.IsResolved := by
      cases hto with
      | frozen _ _ _ => exact .inl rfl
      | resolved hside _ _ =>
        rcases hside with ⟨rfl, -⟩ | ⟨rfl, -⟩
        · exact .inr (.inl rfl)
        · exact .inr (.inr (.inl rfl))
      | timedOut _ _ => exact .inr (.inr (.inr rfl))
    generalize b.request.terms.sponsor = sponsor
    rw [hnew]
    rcases hends with hfrozen | hresolved
    · rw [hfrozen]
      have hzero := SentinelTransition.claims_disputeTriggered id entry
      exact {
        unclaimed := fun _ => by rw [hn]; exact (Nat.zero_add _).trans hzero
        opened := fun _ => by simp [hfrozen]
        bonded := by simp [hfrozen]
        disputed := fun hown _ => by
          have hbonded := h.bonded (hown.resolve_right not_false) hstate
          obtain ⟨e, approve, slashAmount, rfl, he⟩ := SentinelTransition.approve_of_bonded hbonded
          dsimp only [SentinelTransition.handleEvent, SentinelOracle.finalLog,
            SentinelTransition.handleDisputeTriggered]
          rw [he]
          exact .waiting approve slashAmount
        claimed := by simp [OracleRequest.IsResolved, hfrozen] }
    · obtain ⟨hnone, hpending, hfrozen⟩ := hresolved.state_ne
      have hhandler : ((T.handleEvent block (.oracle (SentinelOracle.finalLog id sponsor deadline
          request.progress.state))).2 entry) = SentinelTransition.handleSettled id entry := by
        rcases hresolved with hs | hs | hs <;> rw [hs] <;> rfl
      rw [hhandler]
      exact {
        unclaimed := fun hnot => absurd hresolved hnot
        opened := fun _ => hnone
        bonded := fun _ hs => absurd hs hpending
        disputed := fun _ hs => absurd hs hfrozen
        claimed := fun hown _ => by
          have hbonded := h.bonded (hown.resolve_right not_false) hstate
          obtain ⟨e, approve, slashAmount, rfl, he⟩ := SentinelTransition.approve_of_bonded hbonded
          dsimp only [SentinelTransition.handleSettled]
          rw [he, hn]
          exact (Nat.zero_add _).trans SentinelTransition.claims_claim }
  | @claimed feeReward bondReturn hresolved _ _ _ _ =>
    obtain rfl := List.singleton_inj.mp hlogs
    obtain ⟨hnone, hpending, hfrozen⟩ := hresolved.state_ne
    exact {
      unclaimed := fun hnot => absurd hresolved hnot
      opened := fun _ => hnone
      bonded := fun _ hs => absurd hs hpending
      disputed := fun _ hs => absurd hs hfrozen
      claimed := fun hown _ => h.claimed (hown.resolve_right not_false) hresolved }
  | @ruled approveWins context request ruling kept hruling _ =>
    obtain rfl := List.singleton_inj.mp hlogs
    obtain ⟨hstate, fee, -, -, rfl⟩ := OracleRequest.resolveDispute_spec hruling
    have hn := h.unclaimed (by simp [OracleRequest.IsResolved, hstate])
    have hresolved : OracleRequest.IsResolved { b.request with progress := { b.request.progress with
        state := if approveWins then .resolvedApproved else .resolvedDenied, fee := fee } } := by
      cases approveWins
      · exact .inr (.inl rfl)
      · exact .inl rfl
    obtain ⟨hnone, hpending, hfrozen⟩ := hresolved.state_ne
    exact {
      unclaimed := fun hnot => absurd hresolved hnot
      opened := fun _ => hnone
      bonded := fun _ hs => absurd hs hpending
      disputed := fun _ hs => absurd hs hfrozen
      claimed := fun hown _ => by
        have hdisputed := h.disputed (hown.resolve_right not_false) hstate
        cases hdisputed
        rw [hn]
        exact (Nat.zero_add _).trans SentinelTransition.claims_claim }
  | @refunded call request refundFee log' hrefund hcall =>
    obtain rfl := List.singleton_inj.mp hlogs
    obtain ⟨hstate, -, rfl⟩ := OracleRequest.outOfScope_spec hrefund
    have hn := h.unclaimed (by simp [OracleRequest.IsResolved, hstate])
    have hcalls : ¬OwnCommit T id sender call := by
      rcases hcall with ⟨rfl, -⟩ | ⟨_, rfl, -⟩ <;> exact not_false
    have hhandler : (T.handleEvent block (.oracle log)).2 entry =
        SentinelTransition.handleArbitrationTimeout id entry := by
      rcases hcall with ⟨-, rfl⟩ | ⟨_, -, rfl⟩ <;> rfl
    rw [hhandler]
    exact {
      unclaimed := fun hnot => absurd (.inr (.inr rfl)) hnot
      opened := by simp
      bonded := by simp
      disputed := by simp
      claimed := fun hown _ => by
        have hdisputed := h.disputed (hown.resolve_right hcalls) hstate
        cases hdisputed
        rw [hn]
        exact (Nat.zero_add _).trans SentinelTransition.claims_claim }

end

/-! ## 3. A run -/

/-- A block at which the entry finds its own reveal missed. -/
def Lapses (block : Nat) : Option SentinelRequestState → Prop
  | some (.collectingVotes phase) => phase.revealDeadline < block ∧ phase.Missed
  | _ => False

instance (block : Nat) (entry : Option SentinelRequestState) : Decidable (Lapses block entry) := by
  unfold Lapses
  split <;> infer_instance

namespace Watched

variable {P : OracleParams} {T : SentinelTransition} {id : B256}

/-- A step at which the sentinel lets go of its bond. -/
def Drops (P : OracleParams) (T : SentinelTransition) (id : B256) (s : Watched) : WatchedStep → Prop
  | .newBlock block => s.block < block ∧ Lapses block s.sentinel[id]?
  | .call sender call =>
    (s.oracle.exec P s.block sender call).isOk = true ∧ Strands T id sender s.sentinel[id]? call
  | _ => False

instance (s : Watched) (m : WatchedStep) : Decidable (Drops P T id s m) := by
  unfold Drops
  split <;> infer_instance

/-- A step at which the sentinel's own commitment is recorded. -/
def Commits (P : OracleParams) (T : SentinelTransition) (id : B256) (s : Watched) : WatchedStep → Prop
  | .call sender call =>
    (s.oracle.exec P s.block sender call).isOk = true ∧ OwnCommit T id sender call
  | _ => False

instance (s : Watched) (m : WatchedStep) : Decidable (Commits P T id s m) := by
  unfold Commits
  split <;> infer_instance

theorem OwnCommit.request {sender : Address} {call : OracleCall} (h : OwnCommit T id sender call) :
    call.request = some id := by
  cases call with
  | commit requestId hash => exact congrArg some h.1
  | _ => exact absurd h not_false

/-- **One step** keeps pace, unless the bond is dropped at it. -/
theorem recovering_step {s : Watched} {own : Prop} {n : Nat} {m : WatchedStep}
    (h : (s.oracle.book id).Recovering own n s.sentinel[id]?) (hok : ¬Drops P T id s m) :
    ((s.step P T m).1.oracle.book id).Recovering (own ∨ Commits P T id s m)
      (n + SentinelTransition.claims id (s.step P T m).2) (s.step P T m).1.sentinel[id]? := by
  have hmoves := step_moves P T s m id
  rw [← SentinelTransition.claims_about (s.step P T m).2]
  generalize SentinelTransition.about id (s.step P T m).2 = commands at *
  generalize (s.step P T m).1 = s' at *
  cases hmoves with
  | idle hbook hentry _ hcalls =>
    have hnot : ¬Commits P T id s m := by
      cases m with
      | call sender call => exact fun hown => hcalls sender call rfl hown.1 (OwnCommit.request hown.2)
      | _ => exact not_false
    rw [hbook, hentry, or_iff_left hnot]
    exact h.same rfl (fun hb => hb) (fun hd => hd)
  | @newBlock block entry hbook hsome hentry hblock _ =>
    rw [hsome] at h
    rw [hbook, hentry, SentinelTransition.claims_about,
      or_iff_left (show ¬Commits P T id s (.newBlock block) from not_false)]
    refine h.advance fun phase hphase hclosed hmissed => hok ⟨hblock, ?_⟩
    rw [hsome, hphase]
    exact ⟨hclosed, hmissed⟩
  | @call sender call log _ _ _ hexec hs _ hentry =>
    rw [hentry, SentinelTransition.claims_about]
    have hown : (own ∨ Commits P T id s (.call sender call)) = (own ∨ OwnCommit T id sender call) :=
      congrArg (own ∨ ·) (propext (and_iff_right hexec))
    rw [hown]
    exact h.logged hs fun hstrands => hok ⟨hexec, hstrands⟩
  | @proposed event hbook _ hentry =>
    rw [hbook, hentry, SentinelTransition.claims_about,
      or_iff_left (show ¬Commits P T id s (.proposed event) from not_false)]
    exact h.proposed s.block event
  | @engine outcome hbook _ hentry =>
    rw [hbook, hentry, SentinelTransition.claims_about,
      or_iff_left (show ¬Commits P T id s (.engine id outcome) from not_false)]
    exact h.engine outcome

/-- **A run** keeps pace, when the bond is dropped at none of its steps. -/
theorem recovering_run {s : Watched} {own : Prop} {n : Nat} {steps : List WatchedStep}
    (h : (s.oracle.book id).Recovering own n s.sentinel[id]?)
    (hok : Reactive.Along (step P T) (fun s m => ¬Drops P T id s m) s steps) :
    ((Reactive.runState (step P T) s steps).oracle.book id).Recovering
      (own ∨ Reactive.Sometime (step P T) (Commits P T id) s steps)
      (n + SentinelTransition.claims id (Reactive.runOutputs (step P T) s steps))
      (Reactive.runState (step P T) s steps).sentinel[id]? := by
  induction steps generalizing s own n with
  | nil =>
    rw [Reactive.Sometime, or_false]
    exact h
  | cons m steps ih =>
    obtain ⟨hm, hsteps⟩ := hok
    have hrest := ih (recovering_step h hm) hsteps
    rw [or_assoc, Nat.add_assoc, ← SentinelTransition.claims_append] at hrest
    exact hrest

/-- The sentinel's commitment as it is claimed. -/
def ownClaim (T : SentinelTransition) (id : B256) (s : Watched) : Nat :=
  (s.oracle.requests id).claimable { s.oracle.commitments id T.address with claimed := false }

/-- Once the sentinel has committed and the request is settled, it claims what it is due. -/
def Recovers (P : OracleParams) (T : SentinelTransition) (id : B256) (s : Watched)
    (steps : List WatchedStep) : Prop :=
  Reactive.Sometime (step P T) (Commits P T id) s steps →
    ((Reactive.runState (step P T) s steps).oracle.requests id).IsResolved →
    0 < ownClaim T id (Reactive.runState (step P T) s steps) →
    SentinelTransition.claims id (Reactive.runOutputs (step P T) s steps) = 1

/-- **The bond is claimed once**, in every run in which it is not dropped. -/
theorem claims_once (P : OracleParams) (T : SentinelTransition) (o : SentinelOracle)
    (txs : List OracleTx) (block : Nat) (id : B256) (steps : List WatchedStep)
    (hok : Reactive.Along (step P T) (fun s m => ¬Drops P T id s m) (beside P o txs block) steps) :
    Recovers P T id (beside P o txs block) steps := by
  intro hown hresolved _
  have hstart : ((beside P o txs block).oracle.book id).Recovering False 0
      (beside P o txs block).sentinel[id]? := {
    unclaimed := fun _ => rfl
    opened := False.elim
    bonded := False.elim
    disputed := False.elim
    claimed := False.elim }
  have hend := (recovering_run hstart hok).claimed (.inr hown) hresolved
  rwa [Nat.zero_add] at hend

/-- A vote that is settled. -/
def toySettledVote : List WatchedStep := toyVote ++ [.call 4 (.finalize 26)]

/-- A sentinel that votes with the other claims once. -/
theorem claims_once_vote : ∃ o, SentinelOracle.construct SentinelOracle.toyParams = .ok o ∧
    SentinelTransition.claims 26 (Reactive.runOutputs (step SentinelOracle.toyParams toySentinel)
      (beside SentinelOracle.toyParams o toySentinels 2) toySettledVote) = 1 :=
  ⟨_, rfl, claims_once SentinelOracle.toyParams toySentinel _ toySentinels 2 26 toySettledVote
    (by decide +kernel) (by decide +kernel) (by decide +kernel) (by decide +kernel)⟩

/-- A vote in which only the other sentinel reveals. -/
def toyMissedVote : List WatchedStep :=
  [.proposed toyProposal, .engine 26 .approved, .call 4 (.postRequest 26 6), .call 8 (.commit 26 2),
    .call 7 (.commit 26 2), .newBlock 13, .call 8 (.reveal 26 true 0 []), .newBlock 23,
    .call 4 (.finalize 26)]

/-- The rest of the bond is due, and not claimed. -/
theorem missed_reveal_strands : ∃ o, SentinelOracle.construct SentinelOracle.toyParams = .ok o ∧
    ¬Recovers SentinelOracle.toyParams toySentinel 26
      (beside SentinelOracle.toyParams o toySentinels 2) toyMissedVote := by
  refine ⟨_, rfl, fun h => ?_⟩
  have hclaims := h (by decide +kernel) (by decide +kernel) (by decide +kernel)
  revert hclaims
  decide +kernel

end Watched

end Safenet
