/-
# The sentinel's reveals

A reveal opens the commitment that the oracle has, or it reverts.  The salt is derived from the
request, but the vote and its reason are the engine's, and the state carries them from the verdict
to the reveal (`Agrees`).

After a reorg or a restart the machine goes back to a snapshot, asks the engine again, and carries
the new verdict.  As long as the engine decides the same on a request each time (`Consistent`), each
reveal opens each commitment that was ever broadcast.  When it decides otherwise, the first
commitment may be the one on the chain (`verdict_changes`).
-/
import Safenet.Sentinel.Tallies

namespace Safenet

/-! ## 1. The vote that an entry carries -/

/-- The vote and the reason that an entry carries to its commitment or to its reveal. -/
def SentinelRequestState.vote : SentinelRequestState → Option (Bool × Bytes)
  | .waitingForRequest approve reason _ => some (approve, reason)
  | .collectingCommitments phase => some (phase.approve, phase.reason)
  | _ => none

namespace SentinelTransition

variable (T : SentinelTransition)

/-- A command that commits to a vote, or opens one. -/
def Carries (id : B256) (vote : Bool × Bytes) : SentinelCommand → Prop
  | .action ⟨.commit _ hash, _⟩ => hash = T.commitHash id vote.1 (T.revealSalt id) vote.2
  | .action ⟨.reveal _ approve salt reason, _⟩ => approve = vote.1 ∧ salt = T.revealSalt id ∧ reason = vote.2
  | _ => True

/-- The entry carries no other vote. -/
def AgreesAt (vote : Bool × Bytes) (entry : Option SentinelRequestState) : Prop :=
  ∀ e v, entry = some e → e.vote = some v → v = vote

/-- A handler that leaves no other vote, and says no other. -/
structure Keeps (id : B256) (vote : Bool × Bytes) (handled : Handled) : Prop where
  entry : AgreesAt vote handled.1
  commands : ∀ c ∈ handled.2, T.Carries id vote c

variable {T} {id : B256} {vote : Bool × Bytes} {entry : Option SentinelRequestState}

theorem agreesAt_none : AgreesAt vote none := by
  intro e v he
  exact absurd he (by simp)

/-- An entry without a vote. -/
theorem agreesAt_voteless {e : SentinelRequestState} (h : e.vote = none) : AgreesAt vote (some e) := by
  rintro _ v ⟨⟩ hv
  exact absurd (h.symm.trans hv) (by simp)

theorem agreesAt_vote {e : SentinelRequestState} (h : e.vote = some vote) : AgreesAt vote (some e) := by
  rintro _ v ⟨⟩ hv
  exact (Option.some.inj (h.symm.trans hv)).symm

theorem AgreesAt.eq {e : SentinelRequestState} {v : Bool × Bytes} (h : AgreesAt vote (some e))
    (hv : e.vote = some v) : v = vote := h e v rfl hv

/-- A handler that says nothing. -/
theorem Keeps.silent (h : AgreesAt vote entry) : T.Keeps id vote (entry, []) :=
  ⟨h, by simp⟩

theorem Keeps.claimed : T.Keeps id vote (none, [claim id]) :=
  ⟨agreesAt_none, by simp [claim, Carries]⟩

theorem commitVote_keeps (request : VotingRequest) :
    T.Keeps id vote (T.commitVote id vote.1 vote.2 request) where
  entry := agreesAt_vote rfl
  commands := by simp [commitVote, Carries]

theorem finalize_keeps (phase : SentinelRequestState.CollectingVotes) : T.Keeps id vote (finalize id phase) := by
  unfold finalize
  dsimp only
  split
  · exact .silent agreesAt_none
  · exact ⟨agreesAt_voteless rfl, by simp [Carries]⟩

theorem advance_keeps (block : Nat) {entry : SentinelRequestState} (h : AgreesAt vote (some entry)) :
    T.Keeps id vote (T.advance block id entry) := by
  cases entry with
  | waitingForEngineCheck deadline request =>
    refine .silent ?_
    split
    · exact h
    · exact agreesAt_none
  | waitingForRequest approve reason deadline =>
    refine .silent ?_
    split
    · exact h
    · exact agreesAt_none
  | collectingCommitments phase =>
    have hvote := h.eq rfl
    simp only [advance]
    split
    · exact .silent h
    · split
      · exact .silent agreesAt_none
      · refine ⟨agreesAt_voteless rfl, ?_⟩
        simp [Carries, ← hvote]
  | collectingVotes phase =>
    simp only [advance]
    split
    · exact .silent h
    · exact finalize_keeps phase
  | waitingForOutcome approve slashAmount => exact .silent h
  | waitingForDisputeResolution approve slashAmount => exact .silent h

theorem engineCheckResult_keeps (h : AgreesAt vote entry) {outcome : CheckOutcome}
    (hvote : ∀ v, outcome.vote = some v → v = vote) :
    T.Keeps id vote (T.handleEngineCheckResult id outcome entry) := by
  unfold handleEngineCheckResult
  split
  · split
    · exact .silent agreesAt_none
    · rename_i approve reason hdecided
      obtain rfl := hvote _ hdecided
      split
      · exact commitVote_keeps _
      · exact .silent (agreesAt_vote rfl)
  · exact .silent h

theorem event_keeps (h : AgreesAt vote entry) (block : Nat) (event : SentinelEvent) :
    T.Keeps (T.handleEvent block event).1 vote ((T.handleEvent block event).2 entry) := by
  cases event with
  | transactionProposed event =>
    simp only [handleEvent, handleOracleTransactionProposed]
    split
    · exact .silent h
    · split
      · exact .silent h
      · exact ⟨agreesAt_voteless rfl, by simp [Carries]⟩
  | oracle log =>
    cases log with
    | newRequest requestId _ _ _ _ _ _ =>
      simp only [handleEvent, handleNewRequest]
      split
      · obtain rfl := h.eq rfl
        exact commitVote_keeps _
      · exact .silent (agreesAt_voteless rfl)
      · exact .silent h
    | committed requestId sentinel _ =>
      simp only [handleEvent, handleCommitted]
      split
      · exact .silent (agreesAt_vote (congrArg some (h.eq rfl)))
      · exact .silent h
    | revealed requestId sentinel approved _ _ =>
      simp only [handleEvent, handleRevealed]
      split
      · split
        · exact .silent (agreesAt_voteless rfl)
        · exact finalize_keeps _
      · exact .silent h
    | requestTimedOut requestId =>
      simp only [handleEvent, handleRequestTimedOut, handleSettled]
      split
      · split
        · exact .silent agreesAt_none
        · exact .claimed
      · exact .silent agreesAt_none
    | oracleResult requestId _ _ =>
      simp only [handleEvent, handleOracleResult, handleSettled]
      split
      · split
        · exact .silent agreesAt_none
        · exact .claimed
      · exact .silent agreesAt_none
    | disputeTriggered requestId _ =>
      simp only [handleEvent, handleDisputeTriggered]
      split
      · split
        · exact .silent (agreesAt_voteless rfl)
        · exact .silent agreesAt_none
      · exact .silent agreesAt_none
    | disputeResolved requestId _ _ _ =>
      simp only [handleEvent, handleResolved]
      split
      · exact .claimed
      · exact .silent h
    | arbitrationTimedOut requestId =>
      simp only [handleEvent, handleArbitrationTimeout]
      split
      · exact .claimed
      · exact .silent agreesAt_none
    | disputeOutOfScope requestId _ =>
      simp only [handleEvent, handleArbitrationTimeout]
      split
      · exact .claimed
      · exact .silent agreesAt_none
    | claimed requestId _ _ _ => exact .silent h

/-! ## 2. A transition and a machine -/

/-- Each entry carries the vote of its request, if it carries one. -/
def Agrees (votes : B256 → Bool × Bytes) (state : SentinelState) : Prop :=
  ∀ id, AgreesAt (votes id) state[id]?

/-- A verdict that decides as the votes say. -/
def Says (votes : B256 → Bool × Bytes) : SentinelResume → Prop
  | .engineCheckResult requestId outcome => ∀ v, outcome.vote = some v → v = votes requestId

theorem entryStep_keeps {votes : B256 → Bool × Bytes} (h : AgreesAt (votes id) entry)
    {message : SentinelMessage} (hverdict : ∀ result, message = .resume result → Says votes result) :
    T.Keeps id (votes id) (T.entryStep id entry message) := by
  cases message with
  | newBlock block =>
    cases entry with
    | none => exact .silent agreesAt_none
    | some entry => exact advance_keeps block h
  | event log =>
    dsimp only [entryStep]
    split
    · rename_i hid
      subst hid
      exact event_keeps h log.block log.data
    · exact .silent h
  | resume result =>
    obtain ⟨requestId, outcome⟩ := result
    dsimp only [entryStep]
    split
    · rename_i hid
      subst hid
      exact engineCheckResult_keeps h (hverdict _ rfl)
    · exact .silent h

/-- A command carries the vote of the request it is about. -/
def CarriesVote (T : SentinelTransition) (votes : B256 → Bool × Bytes) (c : SentinelCommand) : Prop :=
  ∀ id, c.request = some id → T.Carries id (votes id) c

/-- **A transition carries the votes**, and commits to them and opens them. -/
theorem apply_agrees {votes : B256 → Bool × Bytes} {state : SentinelState} (h : Agrees votes state)
    {message : SentinelMessage} (hverdict : ∀ result, message = .resume result → Says votes result) :
    Agrees votes (T.apply state message).1 ∧ ∀ c ∈ (T.apply state message).2, T.CarriesVote votes c := by
  constructor
  · intro id
    rw [(apply_entry state message id).1]
    exact (entryStep_keeps (h id) hverdict).entry
  · intro c hmem id hid
    have habout : c ∈ about id (T.apply state message).2 := List.mem_filter.mpr ⟨hmem, by simp [hid]⟩
    rw [(apply_entry state message id).2] at habout
    exact (entryStep_keeps (h id) hverdict).commands c (List.mem_filter.mp habout).1

abbrev SentinelInput : Type := Input SentinelEvent SentinelResume

abbrev SentinelMachine : Type := StateMachine SentinelState

/-- One input of the sentinel's machine. -/
def input (T : SentinelTransition) (M : SentinelMachine) (i : SentinelInput) :
    SentinelMachine × List SentinelCommand :=
  M.input T.apply ∅ i

/-- The commands that a sentinel broadcasts, from the start of its database. -/
def broadcast (T : SentinelTransition) (inputs : List SentinelInput) : List SentinelCommand :=
  Reactive.runOutputs T.input (.withInit ∅ ∅) inputs

/-- **A machine carries the votes**, through reorgs and restarts. -/
theorem outputs_carry {votes : B256 → Bool × Bytes} {inputs : List SentinelInput}
    (hverdict : ∀ result, .resume result ∈ inputs → Says votes result) {M : SentinelMachine}
    (h : M.AllStates (Agrees votes)) :
    ∀ c ∈ Reactive.runOutputs T.input M inputs, T.CarriesVote votes c := by
  induction inputs generalizing M with
  | nil => simp [Reactive.runOutputs]
  | cons i inputs ih =>
    have hinit : Agrees votes ∅ := fun id => by
      rw [show (∅ : SentinelState)[id]? = none by simp]
      exact agreesAt_none
    have hmessage : ∀ message : SentinelMessage, (∀ x, message = .resume x → i = .resume x) →
        ∀ result, message = .resume result → Says votes result := fun message hm result hr =>
      hverdict result (by rw [← hm result hr]; exact List.mem_cons_self)
    have hkeep : ∀ (s : SentinelState) (m : SentinelMessage), (∀ x, m = .resume x → i = .resume x) →
        Agrees votes s → Agrees votes (T.apply s m).1 :=
      fun s m hm hs => (apply_agrees hs (hmessage m hm)).1
    intro c hmem
    rcases List.mem_append.mp hmem with hmem | hmem
    · obtain ⟨s, m, hs, hc, hm⟩ := input_emits_of hkeep h hmem
      exact (apply_agrees hs (hmessage m hm)).2 c hc
    · exact ih (fun result hr => hverdict result (List.mem_cons_of_mem _ hr))
        (input_allStates_of hinit hkeep h) c hmem

/-! ## 3. The reveals -/

/-- The engine decides on each request once, or the same each time. -/
def Consistent (inputs : List SentinelInput) : Prop :=
  ∀ id outcome outcome' v v', .resume (.engineCheckResult id outcome) ∈ inputs →
    .resume (.engineCheckResult id outcome') ∈ inputs → outcome.vote = some v → outcome'.vote = some v' →
    v = v'

/-- The votes of an engine that is consistent. -/
theorem Consistent.votes {inputs : List SentinelInput} (h : Consistent inputs) :
    ∃ votes, ∀ result, .resume result ∈ inputs → Says votes result := by
  classical
  have hvote : ∀ id, ∃ vote, ∀ outcome, .resume (.engineCheckResult id outcome) ∈ inputs →
      ∀ v, outcome.vote = some v → v = vote := by
    intro id
    by_cases hdecided : ∃ outcome v, .resume (.engineCheckResult id outcome) ∈ inputs ∧
        outcome.vote = some v
    · obtain ⟨outcome, v, hmem, hv⟩ := hdecided
      exact ⟨v, fun outcome' hmem' v' hv' => h id outcome' outcome v' v hmem' hmem hv' hv⟩
    · exact ⟨(false, []), fun outcome hmem v hv => absurd ⟨outcome, v, hmem, hv⟩ hdecided⟩
  choose votes hvotes using hvote
  exact ⟨votes, fun ⟨id, outcome⟩ hmem v hv => hvotes id outcome hmem v hv⟩

/-- Each reveal of a sentinel opens each commitment it broadcasts, when that is the one the oracle
has. -/
def RevealsOpen (P : OracleParams) (T : SentinelTransition) (inputs : List SentinelInput) : Prop :=
  ∀ id approve salt reason expiresAt hash expiresAt',
    .action ⟨.reveal id approve salt reason, expiresAt⟩ ∈ T.broadcast inputs →
    .action ⟨.commit id hash, expiresAt'⟩ ∈ T.broadcast inputs →
    ∀ (o : SentinelOracle) (block : Nat), (o.commitments id T.address).commitHash = hash →
      o.reveal { P with keccak256 := T.keccak256 } block T.address id approve salt reason ≠
        .error .invalidReveal

/-- A reveal fails for its hash only if the hash is another. -/
theorem hash_of_invalidReveal {P : OracleParams} {o : SentinelOracle} {block : Nat} {sender : Address}
    {id salt : B256} {approve : Bool} {reason : Bytes}
    (h : o.reveal P block sender id approve salt reason = .error .invalidReveal) :
    OracleCommitment.computeHash P.keccak256 sender id approve salt reason ≠
      (o.commitments id sender).commitHash := by
  have happly : ∀ request : OracleRequest, request.applyReveal block approve ≠ .error .invalidReveal := by
    intro request hr
    cases approve <;>
      simp only [OracleRequest.applyReveal, Except.bind_eq_error, require_eq_error, checkedAdd_eq_error,
        pure, Except.pure, if_true, Bool.false_eq_true, if_false, reduceCtorEq, and_false, exists_false,
        or_false] at hr
  have hget : o.getRequest id ≠ .error .invalidReveal := by
    intro hr
    simp only [SentinelOracle.getRequest, Except.bind_eq_error, require_eq_error, pure, Except.pure,
      reduceCtorEq, and_false, exists_false, or_false] at hr
  rcases Except.bind_eq_error.mp h with h | ⟨request, -, h⟩
  · exact absurd h hget
  rcases Except.bind_eq_error.mp h with h | ⟨commitment, -, h⟩
  · simp only [SentinelOracle.revealCommitment, Except.bind_eq_error, require_eq_error, require_eq_ok,
      pure, Except.pure, reduceCtorEq, and_false, exists_const, and_true, or_false, false_or] at h
    exact h.2.2
  rcases Except.bind_eq_error.mp h with h | ⟨_, -, h⟩
  · exact absurd h (happly request)
  · exact absurd h (by simp [pure, Except.pure])

/-- **Each reveal opens what was committed**, in every run in which the engine is consistent. -/
theorem reveals_open (P : OracleParams) (T : SentinelTransition) (inputs : List SentinelInput)
    (h : Consistent inputs) : RevealsOpen P T inputs := by
  obtain ⟨votes, hverdict⟩ := h.votes
  have hstart : (StateMachine.withInit (∅ : SentinelState) ∅).AllStates (Agrees votes) := by
    refine allStates_withInit (fun id => ?_) (fun n state hn => absurd hn (by simp))
    rw [show (∅ : SentinelState)[id]? = none by simp]
    exact agreesAt_none
  have hcarry := outputs_carry (T := T) hverdict hstart
  intro id approve salt reason expiresAt hash expiresAt' hreveal hcommit o block hhash
  have hopened : T.Carries id (votes id) (.action ⟨.reveal id approve salt reason, expiresAt⟩) :=
    hcarry _ hreveal id rfl
  have hcommitted : T.Carries id (votes id) (.action ⟨.commit id hash, expiresAt'⟩) :=
    hcarry _ hcommit id rfl
  intro hinvalid
  refine hash_of_invalidReveal hinvalid ?_
  obtain ⟨rfl, rfl, rfl⟩ := hopened
  exact (hhash.trans hcommitted).symm

/-- A block with its logs. -/
def toyBlock (block : Nat) (logs : List SentinelEvent) : List SentinelInput :=
  [.update (.new block), .update (.logs block block (logs.mapIdx fun i data => ⟨block, i, 99, data⟩))]

/-- The proposal, a verdict on it, and its request. -/
def toyOpened (outcome : CheckOutcome) : List SentinelInput :=
  toyBlock 5 [.transactionProposed Watched.toyProposal] ++
    [.resume (.engineCheckResult 26 outcome)] ++
    toyBlock 6 [.oracle (.newRequest 26 6 10 30 20 16 26)]

/-- The request is opened, and opened again after a reorg; the sentinel's commitment is recorded. -/
def toyReplay (outcome outcome' : CheckOutcome) : List SentinelInput :=
  toyBlock 4 [] ++ toyOpened outcome ++ [.update (.uncle 5)] ++ toyOpened outcome' ++
    toyBlock 7 [.oracle (.committed 26 7 30)] ++ (List.range' 8 10).flatMap fun block => toyBlock block []

/-- The engine approves twice. -/
theorem reveals_open_replay :
    RevealsOpen SentinelOracle.toyParams Watched.toySentinel (toyReplay .approved .approved) := by
  refine reveals_open SentinelOracle.toyParams Watched.toySentinel (toyReplay .approved .approved) ?_
  intro id outcome outcome' v v' h h' hv hv'
  simp [toyReplay, toyOpened, toyBlock] at h h'
  obtain ⟨rfl, rfl⟩ := h
  obtain ⟨-, rfl⟩ := h'
  exact Option.some.inj (hv.symm.trans hv')

/-- The engine approves, and after the reorg denies, and the first commitment is on the chain. -/
theorem verdict_changes :
    ¬RevealsOpen SentinelOracle.toyParams Watched.toySentinel (toyReplay .approved (.denied ⟨1, 1⟩)) := by
  intro h
  obtain ⟨o, ho⟩ : ∃ o, SentinelOracle.construct SentinelOracle.toyParams = .ok o := ⟨_, rfl⟩
  refine h 26 false 0 (RuleId.text ⟨1, 1⟩) (some 26) 2 (some 16) (by decide +kernel) (by decide +kernel)
    (Reactive.runState (SentinelOracle.execTx SentinelOracle.toyParams) o
      [⟨1, 2, .addSentinel 7⟩, ⟨6, 4, .postRequest 26 6⟩, ⟨7, 7, .commit 26 2⟩]) 17 ?_ ?_
  · obtain rfl := Except.ok.inj ho
    decide +kernel
  · obtain rfl := Except.ok.inj ho
    rfl

end SentinelTransition

end Safenet
