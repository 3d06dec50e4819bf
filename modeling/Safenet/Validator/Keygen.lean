/-
# Key generation and epoch rollover

`state/keygen.rs`: the handlers of `State.rollover`.  One key generation passes through three
rounds -- commitments, secret shares, confirmations -- each collected from logs and closed by a
deadline on the block clock; a participant that stalls, or that is complained about, is left
out of the next attempt.

The two complaint handlers accept logs in two of the rounds, with different windows.  What they
read is therefore first brought to one form, `ComplaintPhase` and `ResponsePhase`, as the
source does with its tuples.
-/
import Safenet.Validator.Sign

namespace Safenet

open Frost

namespace Transition

variable {E : Crates} (T : Transition E)

/-! ## 1. Starting and failing a key generation -/

/-- The participants of a regular epoch's key generation. -/
def epochParticipants (number : ℕ+) (excluded : Finset Address) : Option ParticipantSet :=
  participantsSet E.keccak256 T.config.participants
    (.number T.config.consensus number excluded)

/-- Starts a key generation, as a participant or as an observer. -/
def startKeyGen (state : State E) (nextEpoch : EpochId) (participants : ParticipantSet)
    (deadline : Option Nat) : State E × Commands E :=
  match participants.participateAs E.keccak256 T.account with
  | some (group, poap) =>
    ({ state with rollover := (.collectingCommitments
        { nextEpoch, group, secrets := .participating poap none, commitments := ∅, deadline }) },
      [.effect (.keyGenSetup group.id group.count group.threshold)])
  | none =>
    ({ state with rollover := (.collectingCommitments
        { nextEpoch, group := participants.group E.keccak256, secrets := .observing
          commitments := ∅, deadline }) }, [])

/-- Restarts a key generation excluding `excluded`; skips the epoch when too few participants
would remain, and halts at genesis, whose group id cannot change. -/
def restartKeyGenExcluding (state : State E) (nextEpoch : EpochId) (excluded : Finset Address)
    (deadline : Option Nat) : State E × Commands E :=
  let participants := match nextEpoch with
    | .number number => T.epochParticipants number excluded
    | .genesis => none
  match participants with
  | some participants => T.startKeyGen state nextEpoch participants deadline
  | none => ({ state with rollover := rolloverFailure nextEpoch }, [])

/-- `fail_rollover!`. -/
def failRollover (state : State E) (nextEpoch : EpochId) : State E × Commands E :=
  ({ state with rollover := rolloverFailure nextEpoch }, [])

/-- The deadline of a fresh round; genesis has none. -/
def freshDeadline (block : Nat) (deadline : Option Nat) : Option Nat :=
  deadline.map fun _ => satAdd block T.config.keyGenTimeout

/-- Joins the genesis key generation once its group is created onchain. -/
def handleGenesisKeyGen (state : State E) (gid : B256) : State E × Commands E :=
  match state.rollover with
  | .waitingForGenesis =>
    if gid = (T.genesis.group E.keccak256).id then
      T.startKeyGen state .genesis T.genesis none
    else (state, [])
  | _ => (state, [])

/-! ## 2. Commitments -/

/-- Closes a commitment round everyone committed to. -/
def finalizeKeyGenCommitments (nextEpoch : EpochId) (group : Group) (secrets : Option (Secrets E))
    (commitments : BTreeMap Address (VerifiedCommitment E)) (deadline : Option Nat) :
    RolloverState E × Commands E :=
  let result : Except Error (KeyGenParticipation E × Commands E) :=
    match secrets with
    | some secrets => (generateSecretShares E secrets commitments).map fun r =>
        (.participating r.1, [.action (.keyGenSecretShare group.id r.2 deadline)])
    | none => (groupCommitments E commitments).map fun g => (.observing g, [])
  match result with
  | .ok (participation, commands) =>
    (.collectingShares { nextEpoch, group, participation, publicKeys := ∅, shares := ∅
                         complaints := ∅, deadline }, commands)
  | .error _ => (rolloverFailure nextEpoch, [])

/-- Fills in the secrets a setup effect produced, publishing the commitment unless a replayed
log already carried it; closes the round when every commitment is already there. -/
def handleKeyGenSetup (state : State E) (groupId : B256) (secrets : Secrets E) :
    State E × Commands E :=
  match state.rollover with
  | .collectingCommitments c =>
    match c.secrets with
    | .participating poap none =>
      if groupId = c.group.id then
        let commands : Commands E :=
          if (c.commitments[T.account]?).isSome then []
          else [.action (.keyGenAndCommit c.group.root c.group.count c.group.threshold
            c.group.context poap (secrets.commitment E) c.deadline)]
        if asU16 c.commitments.size ≠ c.group.count then
          ({ state with rollover := (.collectingCommitments
              { c with secrets := .participating poap (some secrets) }) }, commands)
        else
          let deadline := c.deadline.map fun d => satAdd d T.config.keyGenTimeout
          let (rollover, finalizeCommands) :=
            finalizeKeyGenCommitments c.nextEpoch c.group (some secrets) c.commitments deadline
          ({ state with rollover }, commands ++ finalizeCommands)
      else (state, [])
    | _ => (state, [])
  | _ => (state, [])

/-- The commitments with a participant's registered, if it verifies. -/
def registerCommitment (commitments : BTreeMap Address (VerifiedCommitment E))
    (participant : Address) (commitment : KeyGenCommitment) :
    BTreeMap Address (VerifiedCommitment E) :=
  match verifyCommitment E participant commitment with
  | .ok commitment => commitments.insert participant commitment
  | .error _ => commitments

/-- Registers a commitment; the last one closes the round, unless this validator's own setup is
still outstanding. -/
def handleKeyGenCommitted (state : State E) (block : Nat) (gid : B256) (participant : Address)
    (commitment : KeyGenCommitment) : State E × Commands E :=
  match state.rollover with
  | .collectingCommitments c =>
    if c.group.id = gid then
      let c := { c with commitments := registerCommitment c.commitments participant commitment }
      if asU16 c.commitments.size ≠ c.group.count then
        ({ state with rollover := .collectingCommitments c }, [])
      else
        match c.secrets with
        | .participating _ none => ({ state with rollover := .collectingCommitments c }, [])
        | .participating _ (some secrets) =>
          let (rollover, commands) := finalizeKeyGenCommitments c.nextEpoch c.group (some secrets)
            c.commitments (T.freshDeadline block c.deadline)
          ({ state with rollover }, commands)
        | .observing =>
          let (rollover, commands) := finalizeKeyGenCommitments c.nextEpoch c.group none
            c.commitments (T.freshDeadline block c.deadline)
          ({ state with rollover }, commands)
    else (state, [])
  | _ => (state, [])

/-! ## 3. Secret shares -/

/-- The callback that proposes a regular epoch once its last participant confirms. -/
def keyGenConfirmationCallback : EpochId → Option Callback
  | .genesis => none
  | .number number =>
    some { target := T.config.consensus
           context := .proposeEpoch number (satMul number T.config.blocksPerEpoch) }

/-- The commands that confirm a newly established key share. -/
def confirmKeyGen (epoch : EpochId) (group : Group) (sharingState : SharingState E)
    (shares : BTreeMap Address (VerifiedShare E)) (deadlines : Option ConfirmationDeadlines) :
    Except Error (KeyGenConfirmation E × Commands E) :=
  (finalize E sharingState shares).map fun keyShare =>
    (.confirmed keyShare,
      [.action (.keyGenConfirm group.id (T.keyGenConfirmationCallback epoch)
          (deadlines.map (·.confirm))),
        .effect (.startNonceGeneration group.id keyShare)])

/-- The confirmation deadlines counted from the block of the last share. -/
def confirmationDeadlines (block : Nat) (deadline : Option Nat) : Option ConfirmationDeadlines :=
  deadline.map fun _ =>
    { complain := satAdd block T.config.keyGenTimeout
      response := satAdd block (satMul T.config.keyGenTimeout 2)
      confirm := satAdd block (satMul T.config.keyGenTimeout 3) }

/-- A share as this validator registers it: the public key share when it matches the
commitments, and, for a participant, its own decrypted share or a complaint. -/
def registerShare (c : CollectingShares E) (block : Nat) (participant : Address)
    (share : KeyGenSecretShare) : CollectingShares E × Commands E :=
  match verifySecretShare E c.participation.groupCommitments participant share with
  | .error _ => (c, [])
  | .ok (publicKey, encryptedShares) =>
    let c := { c with publicKeys := c.publicKeys.insert participant publicKey }
    match c.participation with
    | .observing _ => (c, [])
    | .participating sharingState =>
      match verifyEncryptedSecretShare E sharingState participant encryptedShares with
      | .ok share => ({ c with shares := c.shares.insert participant share }, [])
      | .error _ => (c, [.action (.keyGenComplain c.group.id participant
          (T.freshDeadline block c.deadline))])

/-- Registers a secret share; the last one moves the group into confirmation collection, and
confirms when every share received was valid. -/
def handleKeyGenSecretShared (state : State E) (block : Nat) (gid : B256) (participant : Address)
    (share : KeyGenSecretShare) : State E × Commands E :=
  match state.rollover with
  | .collectingShares c =>
    if c.group.id = gid then
      let (c, commands) := T.registerShare c block participant share
      if asU16 c.publicKeys.size ≠ c.group.count then
        ({ state with rollover := .collectingShares c }, commands)
      else
        let deadlines := T.confirmationDeadlines block c.deadline
        let confirmations (status : KeyGenConfirmation E) : RolloverState E :=
          .collectingConfirmations
            { nextEpoch := c.nextEpoch, group := c.group, participation := c.participation, status
              confirmations := ∅, complaints := c.complaints, deadlines }
        match c.participation with
        | .participating sharingState =>
          if asU16 c.shares.size = c.group.count then
            match T.confirmKeyGen c.nextEpoch c.group sharingState c.shares deadlines with
            | .ok (status, confirmCommands) =>
              ({ state with rollover := confirmations status }, commands ++ confirmCommands)
            | .error _ => failRollover state c.nextEpoch
          else ({ state with rollover := confirmations (.collecting c.shares) }, commands)
        | .observing _ => ({ state with rollover := confirmations .observing }, commands)
    else (state, [])
  | _ => (state, [])

/-! ## 4. Confirmations and staging -/

/-- Retains the epoch of a generated group this validator has a key share of, and asks for its
first nonce tree. -/
def finalizeKeyGen (state : State E) (epoch : EpochId) (group : Group)
    (keyShare : Option (KeyShare E)) : State E × Commands E :=
  match keyShare with
  | some keyShare =>
    let entry : Epoch E := { group, keyShare, nonces := (NonceState.default.reserveChunk).1 }
    ({ state with epochs := state.epochs.insert epoch entry }, [.effect (.nonceTree group.id)])
  | none => (state, [])

/-- The rollover packet for the proposed epoch's group, and the message that signs it. -/
def rolloverPacket (activeEpoch : EpochId) (proposedEpoch : ℕ+) (groupId : B256)
    (groupKey : Point) : Packet × B256 :=
  let rolloverBlock := satMul proposedEpoch T.config.blocksPerEpoch
  (.epochRollover activeEpoch proposedEpoch rolloverBlock groupId groupKey,
    T.consensus.epochRolloverHash E.keccak256 activeEpoch proposedEpoch rolloverBlock groupKey)

/-- Genesis is complete: retain its key and begin the next epoch's key generation. -/
def completeGenesis (state : State E) (block : Nat) (c : CollectingConfirmations E) :
    State E × Commands E :=
  let nextEpoch := nextNumber block T.config.blocksPerEpoch
  let (state, finalizeCommands) := finalizeKeyGen
    { state with rollover := .epochSkipped nextEpoch } .genesis c.group c.status.keyShare
  match T.epochParticipants nextEpoch ∅ with
  | none => (state, finalizeCommands)
  | some participants =>
    let (state, keygenCommands) := T.startKeyGen state (.number nextEpoch) participants
      (some (satAdd block T.config.keyGenTimeout))
    (state, finalizeCommands ++ keygenCommands)

/-- A regular epoch's key generation is complete: its rollover is proposed, and signed when
this validator is in the active epoch. -/
def proposeRollover (state : State E) (block : Nat) (c : CollectingConfirmations E)
    (proposedEpoch : ℕ+) (participant : Address) : State E × Commands E :=
  let (packet, message) := T.rolloverPacket state.activeEpoch proposedEpoch c.group.id
    (c.participation.groupCommitments.groupKey E)
  let signing := match state.epochs[state.activeEpoch]? with
    | some participatingEpoch => state.signing.insert message (.waitingForRequest
        { keyShare := participatingEpoch.keyShare
          groupId := participatingEpoch.group.id
          responsible := some participant
          packet
          signers := participatingEpoch.group.participants
          deadline := satAdd block T.config.signingTimeout })
    | none => state.signing
  ({ state with
      signing
      rollover := .signingRollover
        { nextEpoch := proposedEpoch, group := c.group, keyShare := c.status.keyShare, message } },
    [])

/-- Registers a confirmation; the last one completes the key generation. -/
def handleKeyGenConfirmed (state : State E) (block : Nat) (gid : B256) (participant : Address) :
    State E × Commands E :=
  match state.rollover with
  | .collectingConfirmations c =>
    if c.group.id = gid then
      let c := { c with confirmations := insert participant c.confirmations }
      if asU16 c.confirmations.card ≠ c.group.count then
        ({ state with rollover := .collectingConfirmations c }, [])
      else match c.nextEpoch with
        | .genesis => T.completeGenesis state block c
        | .number proposedEpoch => T.proposeRollover state block c proposedEpoch participant
    else (state, [])
  | _ => (state, [])

/-- Finalizes a staged epoch, or recovers from one seen before genesis. -/
def handleEpochStaged (state : State E) (proposedEpoch : Nat) (groupId : B256) :
    State E × Commands E :=
  match state.rollover with
  | .signingRollover c =>
    if c.group.id = groupId then
      let (state, keygenCommands) := finalizeKeyGen
        { state with rollover := .epochStaged c.nextEpoch } (.number c.nextEpoch) c.group c.keyShare
      let (state, attestedCommands) := handleSignAttested state c.message
      (state, keygenCommands ++ attestedCommands)
    else (state, [])
  | .waitingForGenesis =>
    let rollover := if h : 0 < proposedEpoch then .epochSkipped ⟨proposedEpoch, h⟩ else .halted
    ({ state with rollover }, [])
  | _ => (state, [])

/-! ## 5. Complaints -/

/-- What a complaint is counted against. -/
structure ComplaintPhase (E : Crates) where
  nextEpoch : EpochId
  group : Group
  participation : KeyGenParticipation E
  complaints : BTreeMap Address Complaint
  restartDeadline : Option Nat
  responseExpiresAt : Option Nat

/-- The phase that counts a complaint at `block`: share collection, or confirmation collection
until the complaint deadline. -/
def complaintPhase (block : Nat) (gid : B256) : RolloverState E → Option (ComplaintPhase E)
  | .collectingShares c =>
    if c.group.id = gid then
      let restartDeadline := T.freshDeadline block c.deadline
      some { nextEpoch := c.nextEpoch, group := c.group, participation := c.participation
             complaints := c.complaints, restartDeadline, responseExpiresAt := restartDeadline }
    else none
  | .collectingConfirmations c =>
    if c.group.id = gid ∧ (c.deadlines.all fun d => block ≤ d.complain) then
      some { nextEpoch := c.nextEpoch, group := c.group, participation := c.participation
             complaints := c.complaints
             restartDeadline := T.freshDeadline block (c.deadlines.map (·.complain))
             responseExpiresAt := c.deadlines.map (·.response) }
    else none
  | _ => none

/-- The rollover state with its complaints replaced. -/
def withComplaints (complaints : BTreeMap Address Complaint) : RolloverState E → RolloverState E
  | .collectingShares c => .collectingShares { c with complaints }
  | .collectingConfirmations c => .collectingConfirmations { c with complaints }
  | r => r

/-- The complaint with one more raised. -/
def raiseComplaint (c : Complaint) : Complaint := ⟨c.total + 1, c.unresponded + 1⟩

/-- The answer of an accused participant: its plaintext share for the plaintiff. -/
def complaintResponse (p : ComplaintPhase E) (plaintiff accused : Address) : Commands E :=
  match p.participation with
  | .participating sharingState =>
    if accused = T.account then
      match revealSecretShare E sharingState plaintiff with
      | .ok secretShare => [.action (.keyGenComplaintResponse p.group.id plaintiff secretShare
          p.responseExpiresAt)]
      | .error _ => []
    else []
  | .observing _ => []

/-- Counts a complaint.  At a threshold of complaints, answered or not, enough is revealed to
compute a secret share, so the key generation is restarted without the accused. -/
def handleKeyGenComplained (state : State E) (block : Nat) (gid : B256)
    (plaintiff accused : Address) : State E × Commands E :=
  match T.complaintPhase block gid state.rollover with
  | none => (state, [])
  | some p =>
    let complaint := raiseComplaint (p.complaints[accused]?.getD default)
    let state :=
      { state with rollover := withComplaints (p.complaints.insert accused complaint) state.rollover }
    if p.group.threshold ≤ complaint.total then
      T.restartKeyGenExcluding state p.nextEpoch (p.group.alsoExclude {accused}) p.restartDeadline
    else (state, T.complaintResponse p plaintiff accused)

/-- What a response is checked against. -/
structure ResponsePhase (E : Crates) where
  nextEpoch : EpochId
  group : Group
  participation : KeyGenParticipation E
  complaints : BTreeMap Address Complaint
  deadline : Option Nat

/-- The phase that accepts a response at `block`: share collection, or confirmation collection
until the response deadline. -/
def responsePhase (block : Nat) (gid : B256) : RolloverState E → Option (ResponsePhase E)
  | .collectingShares c =>
    if c.group.id = gid then
      some { nextEpoch := c.nextEpoch, group := c.group, participation := c.participation
             complaints := c.complaints, deadline := c.deadline }
    else none
  | .collectingConfirmations c =>
    if c.group.id = gid ∧ (c.deadlines.all fun d => block ≤ d.response) then
      some { nextEpoch := c.nextEpoch, group := c.group, participation := c.participation
             complaints := c.complaints, deadline := c.deadlines.map (·.response) }
    else none
  | _ => none

/-- The shares with a revealed one registered, when this validator was its plaintiff. -/
def registerRevealed (plaintiff accused : Address) (share : VerifiedShare E)
    (shares : BTreeMap Address (VerifiedShare E)) : BTreeMap Address (VerifiedShare E) :=
  if plaintiff = T.account then shares.insert accused share else shares

/-- The rollover state with a verified response registered. -/
def registerResponse (plaintiff accused : Address) (share : VerifiedShare E)
    (complaints : BTreeMap Address Complaint) : RolloverState E → RolloverState E
  | .collectingShares c => .collectingShares
      { c with shares := T.registerRevealed plaintiff accused share c.shares, complaints }
  | .collectingConfirmations c =>
    let status := match c.status with
      | .collecting shares => .collecting (T.registerRevealed plaintiff accused share shares)
      | status => status
    .collectingConfirmations { c with status, complaints }
  | r => r

/-- Confirms the key generation when a response brought the last missing share. -/
def confirmAfterResponse (state : State E) : State E × Commands E :=
  match state.rollover with
  | .collectingConfirmations c =>
    match c.participation, c.status with
    | .participating sharingState, .collecting shares =>
      if asU16 shares.size = c.group.count then
        match T.confirmKeyGen c.nextEpoch c.group sharingState shares c.deadlines with
        | .ok (status, commands) =>
          ({ state with rollover := .collectingConfirmations { c with status } }, commands)
        | .error _ => failRollover state c.nextEpoch
      else (state, [])
    | _, _ => (state, [])
  | _ => (state, [])

/-- Registers the share revealed in answer to a complaint.  The plaintiff is not looked at: any
response, if the accused has an unanswered complaint, answers one. -/
def handleKeyGenComplaintResponded (state : State E) (block : Nat) (gid : B256)
    (plaintiff accused : Address) (secretShare : U256) : State E × Commands E :=
  match responsePhase block gid state.rollover with
  | none => (state, [])
  | some p =>
    match p.complaints[accused]? with
    | none => (state, [])
    | some complaint =>
      if complaint.unresponded = 0 then (state, [])
      else
        match verifyRevealedSecretShare E p.participation.groupCommitments plaintiff accused
            secretShare with
        | .ok share =>
          let complaints := p.complaints.insert accused
            { complaint with unresponded := complaint.unresponded - 1 }
          T.confirmAfterResponse { state with
            rollover := T.registerResponse plaintiff accused share complaints state.rollover }
        | .error _ =>
          T.restartKeyGenExcluding state p.nextEpoch (p.group.alsoExclude {accused})
            (T.freshDeadline block p.deadline)

/-! ## 6. The block clock -/

/-- Rolls a staged epoch over and starts the key generation of the epoch that is due. -/
def handleRolloverNewBlock (state : State E) (block : Nat) : State E × Commands E :=
  match state.rollover.nextEpoch.bind EpochId.number? with
  | none => (state, [])
  | some targetEpoch =>
    let nextEpoch := nextNumber block T.config.blocksPerEpoch
    if nextEpoch ≤ targetEpoch then (state, [])
    else
      let activeEpoch := match state.rollover with
        | .epochStaged _ => .number targetEpoch
        | _ => state.activeEpoch
      let state := { state with activeEpoch }
      match T.epochParticipants nextEpoch ∅ with
      | some participants => T.startKeyGen state (.number nextEpoch) participants
          (some (satAdd block T.config.keyGenTimeout))
      | none => ({ state with rollover := .epochSkipped nextEpoch }, [])

/-- The epoch of a commitment round everyone committed to but whose own setup never resumed. -/
def stuckKeyGen (block : Nat) : RolloverState E → Option EpochId
  | .collectingCommitments c =>
    match c.secrets, c.deadline with
    | .participating _ none, some deadline =>
      if deadline ≤ block ∧ asU16 c.commitments.size = c.group.count then some c.nextEpoch else none
    | _, _ => none
  | _ => none

/-- The accused participants with an unanswered complaint. -/
def unresponded (complaints : BTreeMap Address Complaint) : Finset Address :=
  (BTreeMap.keySet complaints).filter fun a => 0 < (complaints[a]?.getD default).unresponded

/-- The participants a round past its deadline is restarted without. -/
def stalledKeyGen (block : Nat) : RolloverState E → Option (EpochId × Finset Address)
  | .collectingCommitments c =>
    if c.deadline.any (· ≤ block) then
      some (c.nextEpoch, c.group.excludeAllOthers (BTreeMap.keySet c.commitments))
    else none
  | .collectingShares c =>
    if c.deadline.any (· ≤ block) then
      some (c.nextEpoch, c.group.excludeAllOthers (BTreeMap.keySet c.publicKeys))
    else none
  | .collectingConfirmations c =>
    match c.deadlines with
    | none => none
    | some deadlines =>
      if deadlines.response ≤ block ∧ unresponded c.complaints ≠ ∅ then
        some (c.nextEpoch, c.group.alsoExclude (unresponded c.complaints))
      else if deadlines.confirm ≤ block then
        some (c.nextEpoch, c.group.excludeAllOthers c.confirmations)
      else none
  | _ => none

/-- Restarts the key generation excluding the participants that stalled it. -/
def handleKeyGenTimeouts (state : State E) (block : Nat) : State E × Commands E :=
  match stuckKeyGen block state.rollover with
  | some nextEpoch => failRollover state nextEpoch
  | none =>
    match stalledKeyGen block state.rollover with
    | none => (state, [])
    | some (nextEpoch, excluded) =>
      T.restartKeyGenExcluding state nextEpoch excluded (some (satAdd block T.config.keyGenTimeout))

/-! ## 7. The transition -/

/-- One log. -/
def applyEvent (state : State E) (log : EventLog Event) : State E × Commands E :=
  match log.data with
  | .keyGen gid => T.handleGenesisKeyGen state gid
  | .keyGenCommitted gid participant commitment =>
    T.handleKeyGenCommitted state log.block gid participant commitment
  | .keyGenSecretShared gid participant share =>
    T.handleKeyGenSecretShared state log.block gid participant share
  | .keyGenConfirmed gid participant => T.handleKeyGenConfirmed state log.block gid participant
  | .keyGenComplained gid plaintiff accused _ =>
    T.handleKeyGenComplained state log.block gid plaintiff accused
  | .keyGenComplaintResponded gid plaintiff accused secretShare =>
    T.handleKeyGenComplaintResponded state log.block gid plaintiff accused secretShare
  | .preprocess gid participant chunk commitment =>
    T.handlePreprocess state gid participant chunk commitment
  | .sign gid message sid sequence => T.handleSign state log.block gid message sid sequence
  | .signRevealedNonces sid participant nonces =>
    T.handleSignRevealedNonces state log.block sid participant nonces
  | .signShared sid selectionRoot participant => handleSignShared state sid selectionRoot participant
  | .signCompleted sid => T.handleSignCompleted state log.block sid
  | .epochStaged proposedEpoch groupId _ => handleEpochStaged state proposedEpoch groupId
  | .transactionProposed oracle epoch oracleData transaction =>
    T.handleTransactionProposed state log.block oracle epoch oracleData transaction
  | .transactionAttested safeTxHash oracle epoch oracleDataHash _ =>
    T.handleTransactionAttested state safeTxHash oracle epoch oracleDataHash
  | .oracleResult requestId approved =>
    T.handleOracleResult state log.block log.address requestId approved
  | .unhandled => (state, [])

/-- One block: rollover, key-generation timeouts, signing timeouts, nonce top-up and
reconciliation, in this order. -/
def applyBlock (state : State E) (block : Nat) : State E × Commands E :=
  let (state, rolloverCommands) := T.handleRolloverNewBlock state block
  let (state, keygenTimeoutCommands) := T.handleKeyGenTimeouts state block
  let (state, signingTimeoutCommands) := T.handleSigningTimeouts state block
  let (state, nonceTopupCommands) := handleNonceTopup state
  let (state, reconciliationCommands) := handleGroupReconciliation state
  (state, rolloverCommands ++ keygenTimeoutCommands ++ signingTimeoutCommands
    ++ nonceTopupCommands ++ reconciliationCommands)

/-- One resume. -/
def applyResume (state : State E) : Resume E → State E × Commands E
  | .noop => (state, [])
  | .setup groupId secrets => T.handleKeyGenSetup state groupId secrets
  | .nonceTree groupId commitment => handleNonceTree state groupId commitment
  | .nonceCommitments signatureId message nonces proof =>
    handleNonceCommitments state signatureId message nonces proof
  | .nonce message nonces => T.handleNonces state message nonces

/-- **The pure validator state transition.** -/
def applyTransition : TransitionFn (State E) Event (Resume E) Action (Effect E) :=
  fun state message => match message with
    | .newBlock block => T.applyBlock state block
    | .event log => T.applyEvent state log
    | .resume result => T.applyResume state result

end Transition

end Safenet
