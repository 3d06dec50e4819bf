/-
# What one message does to one session

The transition updates two maps, the sessions and the signature id index, in about ten
handlers.  This module says ONCE what a message can do to them, so that every later property of
a session is proved by looking at that session alone:

* `sessionAfter` -- the session of a message `m` after one message, as a function of the
  session before it and of the few things a handler looks at besides (`signing_applyTransition`);
* `SessionStep` -- the ways a session after a message comes about (`session_step`); two of them
  open a session (`Opened`), and the others keep the packet it had (`session_origin`).

Key generation never touches either map: its handlers change `rollover` and nothing else
(`OnlyRollover`), except for the one that proposes a rollover and the one that stages an epoch.
-/
import Safenet.Validator.Keygen

namespace Safenet

open Frost

variable {E : Crates}

/-! ## 1. Handlers that move one part of the state -/

/-- Two states that differ at most in their rollover. -/
def OnlyRollover (s s' : State E) : Prop := ∃ r, s' = { s with rollover := r }

theorem OnlyRollover.refl (s : State E) : OnlyRollover s s := ⟨s.rollover, rfl⟩

theorem OnlyRollover.trans {s t u : State E} (h : OnlyRollover s t) (h' : OnlyRollover t u) :
    OnlyRollover s u := by
  obtain ⟨r, rfl⟩ := h
  obtain ⟨r', rfl⟩ := h'
  exact ⟨r', rfl⟩

theorem OnlyRollover.signing {s s' : State E} (h : OnlyRollover s s') :
    s'.signing = s.signing := by
  obtain ⟨r, rfl⟩ := h
  rfl

theorem OnlyRollover.index {s s' : State E} (h : OnlyRollover s s') :
    s'.signatureIdToMessage = s.signatureIdToMessage := by
  obtain ⟨r, rfl⟩ := h
  rfl

theorem OnlyRollover.epochs {s s' : State E} (h : OnlyRollover s s') : s'.epochs = s.epochs := by
  obtain ⟨r, rfl⟩ := h
  rfl

theorem OnlyRollover.activeEpoch {s s' : State E} (h : OnlyRollover s s') :
    s'.activeEpoch = s.activeEpoch := by
  obtain ⟨r, rfl⟩ := h
  rfl

/-- Two states that differ at most in their sessions and the index of these. -/
def OnlySessions (s s' : State E) : Prop :=
  ∃ x i, s' = { s with signing := x, signatureIdToMessage := i }

theorem OnlySessions.refl (s : State E) : OnlySessions s s := ⟨s.signing, s.signatureIdToMessage, rfl⟩

theorem OnlySessions.rollover {s s' : State E} (h : OnlySessions s s') :
    s'.rollover = s.rollover := by
  obtain ⟨x, i, rfl⟩ := h
  rfl

theorem OnlySessions.epochs {s s' : State E} (h : OnlySessions s s') : s'.epochs = s.epochs := by
  obtain ⟨x, i, rfl⟩ := h
  rfl

theorem OnlySessions.activeEpoch {s s' : State E} (h : OnlySessions s s') :
    s'.activeEpoch = s.activeEpoch := by
  obtain ⟨x, i, rfl⟩ := h
  rfl

namespace Transition

variable (T : Transition E)

theorem startKeyGen_onlyRollover (s : State E) (e : EpochId) (p : ParticipantSet)
    (d : Option Nat) : OnlyRollover s (T.startKeyGen s e p d).1 := by
  unfold startKeyGen
  split
  · exact ⟨_, rfl⟩
  · exact ⟨_, rfl⟩

theorem restartKeyGenExcluding_onlyRollover (s : State E) (e : EpochId) (x : Finset Address)
    (d : Option Nat) : OnlyRollover s (T.restartKeyGenExcluding s e x d).1 := by
  unfold restartKeyGenExcluding
  dsimp only
  split
  · exact T.startKeyGen_onlyRollover _ _ _ _
  · exact ⟨_, rfl⟩

theorem handleGenesisKeyGen_onlyRollover (s : State E) (gid : B256) :
    OnlyRollover s (T.handleGenesisKeyGen s gid).1 := by
  unfold handleGenesisKeyGen
  split
  · split
    · exact T.startKeyGen_onlyRollover _ _ _ _
    · exact .refl s
  · exact .refl s

theorem handleKeyGenSetup_onlyRollover (s : State E) (gid : B256) (secrets : Secrets E) :
    OnlyRollover s (T.handleKeyGenSetup s gid secrets).1 := by
  unfold handleKeyGenSetup
  split
  · split
    · split
      · dsimp only
        split
        · exact ⟨_, rfl⟩
        · exact ⟨_, rfl⟩
      · exact .refl s
    · exact .refl s
  · exact .refl s

theorem handleKeyGenCommitted_onlyRollover (s : State E) (block : Nat) (gid : B256) (p : Address)
    (k : KeyGenCommitment) : OnlyRollover s (T.handleKeyGenCommitted s block gid p k).1 := by
  unfold handleKeyGenCommitted
  split
  · split
    · dsimp only
      split
      · exact ⟨_, rfl⟩
      · split
        · exact ⟨_, rfl⟩
        · exact ⟨_, rfl⟩
        · exact ⟨_, rfl⟩
    · exact .refl s
  · exact .refl s

theorem handleKeyGenSecretShared_onlyRollover (s : State E) (block : Nat) (gid : B256)
    (p : Address) (k : KeyGenSecretShare) :
    OnlyRollover s (T.handleKeyGenSecretShared s block gid p k).1 := by
  unfold handleKeyGenSecretShared
  split
  · split
    · dsimp only
      split
      · exact ⟨_, rfl⟩
      · split
        · split
          · split
            · exact ⟨_, rfl⟩
            · exact ⟨_, rfl⟩
          · exact ⟨_, rfl⟩
        · exact ⟨_, rfl⟩
    · exact .refl s
  · exact .refl s

theorem handleKeyGenComplained_onlyRollover (s : State E) (block : Nat) (gid : B256)
    (p a : Address) : OnlyRollover s (T.handleKeyGenComplained s block gid p a).1 := by
  unfold handleKeyGenComplained
  split
  · exact .refl s
  · dsimp only
    split
    · exact OnlyRollover.trans ⟨_, rfl⟩ (T.restartKeyGenExcluding_onlyRollover _ _ _ _)
    · exact ⟨_, rfl⟩

theorem confirmAfterResponse_onlyRollover (s : State E) :
    OnlyRollover s (T.confirmAfterResponse s).1 := by
  unfold confirmAfterResponse
  split
  · split
    · split
      · split
        · exact ⟨_, rfl⟩
        · exact ⟨_, rfl⟩
      · exact .refl s
    · exact .refl s
  · exact .refl s

theorem handleKeyGenComplaintResponded_onlyRollover (s : State E) (block : Nat) (gid : B256)
    (p a : Address) (x : U256) :
    OnlyRollover s (T.handleKeyGenComplaintResponded s block gid p a x).1 := by
  unfold handleKeyGenComplaintResponded
  split
  · exact .refl s
  · split
    · exact .refl s
    · split
      · exact .refl s
      · split
        · exact OnlyRollover.trans ⟨_, rfl⟩ (T.confirmAfterResponse_onlyRollover _)
        · exact T.restartKeyGenExcluding_onlyRollover _ _ _ _

theorem handleKeyGenTimeouts_onlyRollover (s : State E) (block : Nat) :
    OnlyRollover s (T.handleKeyGenTimeouts s block).1 := by
  unfold handleKeyGenTimeouts
  split
  · exact ⟨_, rfl⟩
  · split
    · exact .refl s
    · exact T.restartKeyGenExcluding_onlyRollover _ _ _ _

/-- The rollover's block clock moves the rollover and, at most, the active epoch. -/
theorem handleRolloverNewBlock_signing (s : State E) (block : Nat) :
    (T.handleRolloverNewBlock s block).1.signing = s.signing ∧
      (T.handleRolloverNewBlock s block).1.signatureIdToMessage = s.signatureIdToMessage ∧
      (T.handleRolloverNewBlock s block).1.epochs = s.epochs := by
  unfold handleRolloverNewBlock
  split
  · exact ⟨rfl, rfl, rfl⟩
  · dsimp only
    split
    · exact ⟨rfl, rfl, rfl⟩
    · split
      · have h := fun t => T.startKeyGen_onlyRollover t
          (.number (nextNumber block T.config.blocksPerEpoch)) ‹_›
          (some (satAdd block T.config.keyGenTimeout))
        exact ⟨(h _).signing, (h _).index, (h _).epochs⟩
      · exact ⟨rfl, rfl, rfl⟩

/-! ## 2. One session -/

/-- A session after a `Sign` log over its message. -/
def afterRequest (block : Nat) (gid message sid : B256) (nonce : Option NonceIndex) :
    Option (SigningState E) → Option (SigningState E)
  | some (.waitingForRequest s) =>
    match nonce with
    | some nonce =>
      if s.groupId = gid then some (T.openRequest block message sid nonce s).1
      else some (.waitingForRequest s)
    | none => none
  | session => session

/-- The session an approving oracle result leads to. -/
def approve (block : Nat) (s : WaitingForOracle E) : CollectNonceCommitments E :=
  { keyShare := s.keyShare, groupId := s.groupId, signatureId := s.signatureId
    nonce := s.nonce, revealed := ∅, lastSigner := none, packet := s.packet
    signers := s.signers, deadline := satAdd block T.config.signingTimeout }

/-- A session after an oracle result for its message. -/
def afterOracleResult (block : Nat) (oracle : Address) (approved : Bool) :
    Option (SigningState E) → Option (SigningState E)
  | some (.waitingForOracle s) =>
    if s.oracle = oracle then
      if approved then some (.collectNonceCommitments (T.approve block s)) else none
    else some (.waitingForOracle s)
  | session => session

/-- The share round that opens once every signer has revealed. -/
def openShares (block : Nat) (s : CollectNonceCommitments E) : CollectSigningShares E :=
  { keyShare := s.keyShare, groupId := s.groupId, signatureId := s.signatureId
    revealed := s.revealed, selections := ∅, packet := s.packet, signers := s.signers
    deadline := satAdd block T.config.signingTimeout }

/-- A session after revealed nonces for its signature id. -/
def afterReveal (block : Nat) (participant : Address) (nonces : SignNonces) :
    Option (SigningState E) → Option (SigningState E)
  | some (.collectNonceCommitments s) =>
    let s := registerReveal s participant nonces
    if s.revealed.size < s.signers.card then some (.collectNonceCommitments s)
    else some (.collectSigningShares (T.openShares block s))
  | session => session

/-- The share round with one more share in a selection. -/
def registerSelection (s : CollectSigningShares E) (selectionRoot : B256) (participant : Address) :
    CollectSigningShares E :=
  let selection := s.selections[selectionRoot]?.getD default
  let selection : SigningSelection :=
    { sharesFrom := insert participant selection.sharesFrom, lastSigner := some participant }
  { s with selections := s.selections.insert selectionRoot selection }

/-- A session after a signature share for its signature id. -/
def afterShare (selectionRoot : B256) (participant : Address) :
    Option (SigningState E) → Option (SigningState E)
  | some (.collectSigningShares s) =>
    some (.collectSigningShares (registerSelection s selectionRoot participant))
  | session => session

/-- A session after its signature completed. -/
def afterCompleted (block : Nat) : Option (SigningState E) → Option (SigningState E)
  | some (.collectSigningShares s) => some (.waitingForAttestation
      { signatureId := s.signatureId, packet := s.packet
        deadline := satAdd block T.config.signingTimeout })
  | session => session

/-- The session a transaction proposal opens. -/
def proposedSession (block : Nat) (epoch : EpochId) (entry : Epoch E) (oracle : Address)
    (oracleData : Bytes) (transaction : SafeTransaction) : WaitingForRequest E :=
  { keyShare := entry.keyShare, groupId := entry.group.id, responsible := none
    packet := .transaction epoch oracle oracleData transaction
    signers := entry.group.participants, deadline := satAdd block T.config.signingTimeout }

/-- The message a transaction proposal is signed under. -/
def proposalMessage (rawEpoch : Nat) (oracle : Address) (oracleData : Bytes)
    (transaction : SafeTransaction) : B256 :=
  T.consensus.transactionPacketHash E.keccak256 (EpochId.fromRaw rawEpoch) oracle oracleData
    transaction

/-- A session after a proposal of its message: opened when it was vacant, the oracle is allowed
and the epoch is ours. -/
def afterProposal (s : State E) (block : Nat) (oracle : Address) (rawEpoch : Nat)
    (oracleData : Bytes) (transaction : SafeTransaction) :
    Option (SigningState E) → Option (SigningState E)
  | some session => some session
  | none =>
    if oracle ∉ T.config.oracles then none
    else s.epochs[EpochId.fromRaw rawEpoch]?.map fun entry => .waitingForRequest
      (T.proposedSession block (EpochId.fromRaw rawEpoch) entry oracle oracleData transaction)

/-- The confirmation round a log completes, with the epoch it proposes. -/
def completedRound (s : State E) (gid : B256) (participant : Address) :
    Option (CollectingConfirmations E × ℕ+) :=
  match s.rollover with
  | .collectingConfirmations c =>
    match c.nextEpoch with
    | .number n =>
      if c.group.id = gid ∧ asU16 (insert participant c.confirmations).card = c.group.count then
        some (c, n)
      else none
    | .genesis => none
  | _ => none

/-- The packet and the message of the rollover a completed round proposes. -/
def completedPacket (s : State E) (c : CollectingConfirmations E) (n : ℕ+) : Packet × B256 :=
  T.rolloverPacket s.activeEpoch n c.group.id (c.participation.groupCommitments.groupKey E)

/-- The session a rollover proposal opens. -/
def rolloverSession (block : Nat) (entry : Epoch E) (packet : Packet) (participant : Address) :
    WaitingForRequest E :=
  { keyShare := entry.keyShare, groupId := entry.group.id, responsible := some participant
    packet, signers := entry.group.participants
    deadline := satAdd block T.config.signingTimeout }

/-- A session after a confirmation log: the one completing a round opens its rollover's. -/
def afterConfirmed (s : State E) (m : B256) (block : Nat) (gid : B256) (participant : Address) :
    Option (SigningState E) → Option (SigningState E) :=
  fun session =>
    match completedRound s gid participant, s.epochs[s.activeEpoch]? with
    | some (c, n), some entry =>
      if (T.completedPacket s c n).2 = m then
        some (.waitingForRequest
          (T.rolloverSession block entry (T.completedPacket s c n).1 participant))
      else session
    | _, _ => session

/-- Whether a staged-epoch log attests the rollover signed under `m`. -/
def stages (s : State E) (groupId m : B256) : Bool :=
  match s.rollover with
  | .signingRollover c => c.group.id = groupId ∧ c.message = m
  | _ => false

/-- **The session of `m` after one message.** -/
def sessionAfter (s : State E) (m : B256) : Msg E → Option (SigningState E)
  | .newBlock block => s.signing[m]?.bind fun session => (T.timeoutSession block m session).session
  | .resume _ => s.signing[m]?
  | .event log =>
    match log.data with
    | .sign gid message sid sequence =>
      if message = m then
        T.afterRequest log.block gid m sid (observeNonce s gid sequence).2 s.signing[m]?
      else s.signing[m]?
    | .oracleResult requestId approved =>
      if requestId = m then T.afterOracleResult log.block log.address approved s.signing[m]?
      else s.signing[m]?
    | .signRevealedNonces sid participant nonces =>
      if s.signatureIdToMessage[sid]? = some m then
        T.afterReveal log.block participant nonces s.signing[m]?
      else s.signing[m]?
    | .signShared sid selectionRoot participant =>
      if s.signatureIdToMessage[sid]? = some m then
        afterShare selectionRoot participant s.signing[m]?
      else s.signing[m]?
    | .signCompleted sid =>
      if s.signatureIdToMessage[sid]? = some m then T.afterCompleted log.block s.signing[m]?
      else s.signing[m]?
    | .transactionProposed oracle epoch oracleData transaction =>
      if T.proposalMessage epoch oracle oracleData transaction = m then
        T.afterProposal s log.block oracle epoch oracleData transaction s.signing[m]?
      else s.signing[m]?
    | .transactionAttested safeTxHash oracle epoch oracleDataHash _ =>
      if T.consensus.transactionProposalHash E.keccak256 (EpochId.fromRaw epoch) oracle
          oracleDataHash safeTxHash = m then none
      else s.signing[m]?
    | .keyGenConfirmed gid participant =>
      T.afterConfirmed s m log.block gid participant s.signing[m]?
    | .epochStaged _ groupId _ => if stages s groupId m then none else s.signing[m]?
    | _ => s.signing[m]?

/-! ## 3. The handlers, session by session -/

theorem observeNonce_frame (s : State E) (gid : B256) (sequence : Nat) :
    (observeNonce s gid sequence).1.signing = s.signing ∧
      (observeNonce s gid sequence).1.signatureIdToMessage = s.signatureIdToMessage ∧
      (observeNonce s gid sequence).1.rollover = s.rollover ∧
      (observeNonce s gid sequence).1.activeEpoch = s.activeEpoch := by
  unfold observeNonce
  split
  · exact ⟨rfl, rfl, rfl, rfl⟩
  · exact ⟨rfl, rfl, rfl, rfl⟩

/-- The `Sign` handler in one form: nothing but the session and its index entry moves, on top
of the observed nonce. -/
theorem handleSign_eq (s : State E) (block : Nat) (gid message sid : B256) (sequence : Nat) :
    T.handleSign s block gid message sid sequence =
      let t := (observeNonce s gid sequence).1
      match (observeNonce s gid sequence).2, s.signing[message]? with
      | some nonce, some (.waitingForRequest w) =>
        if w.groupId = gid then
          ({ t with
              signing := s.signing.insert message (T.openRequest block message sid nonce w).1
              signatureIdToMessage := s.signatureIdToMessage.insert sid message },
            (T.openRequest block message sid nonce w).2)
        else (t, [])
      | none, some (.waitingForRequest _) => ({ t with signing := s.signing.erase message }, [])
      | _, _ => (t, []) := by
  obtain ⟨h1, h2, -, -⟩ := observeNonce_frame s gid sequence
  rcases hn : (observeNonce s gid sequence).2 with _ | nonce <;>
    rcases hs : s.signing[message]? with _ | (w | w | w | w | w) <;>
    simp only [handleSign, h1, h2, hn, hs]

theorem handleSign_signing (s : State E) (block : Nat) (gid message sid : B256) (sequence : Nat)
    (m : B256) :
    (T.handleSign s block gid message sid sequence).1.signing[m]? =
      if message = m then
        T.afterRequest block gid m sid (observeNonce s gid sequence).2 s.signing[m]?
      else s.signing[m]? := by
  rw [handleSign_eq]
  obtain ⟨h1, -⟩ := observeNonce_frame s gid sequence
  by_cases hm : message = m
  · subst hm
    rw [if_pos rfl]
    rcases (observeNonce s gid sequence).2 with _ | nonce <;>
      rcases hs : s.signing[message]? with _ | (w | w | w | w | w) <;>
      simp only [afterRequest, h1, hs, BTreeMap.get_erase, if_true]
    split
    · simp only [BTreeMap.get_insert, if_true]
    · simp only [h1, hs]
  · rw [if_neg hm]
    have hm' : m ≠ message := fun h => hm h.symm
    dsimp only
    split
    · split
      · exact BTreeMap.get_insert_ne _ _ hm'
      · rw [h1]
    · exact BTreeMap.get_erase_ne _ hm'
    · rw [h1]

theorem handleOracleResult_signing (s : State E) (block : Nat) (oracle : Address)
    (requestId : B256) (approved : Bool) (m : B256) :
    (T.handleOracleResult s block oracle requestId approved).1.signing[m]? =
      if requestId = m then T.afterOracleResult block oracle approved s.signing[m]?
      else s.signing[m]? := by
  by_cases hm : requestId = m
  · subst hm
    rw [if_pos rfl]
    rcases hs : s.signing[requestId]? with _ | (w | w | w | w | w) <;>
      simp only [handleOracleResult, afterOracleResult, hs]
    split
    · cases approved
      · simp only [Bool.false_eq_true, if_false, BTreeMap.get_erase, if_true]
      · simp only [if_true, BTreeMap.get_insert]
        rfl
    · exact hs
  · rw [if_neg hm]
    have hm' : m ≠ requestId := fun h => hm h.symm
    unfold handleOracleResult
    split
    · split
      · split
        · exact BTreeMap.get_insert_ne _ _ hm'
        · exact BTreeMap.get_erase_ne _ hm'
      · rfl
    · rfl

/-- A handler routed by the index that replaces one session. -/
theorem routed_signing {s s' : State E} {sid : B256}
    {f : Option (SigningState E) → Option (SigningState E)} (m : B256)
    (hnone : s.signatureIdToMessage[sid]? = none → s'.signing = s.signing)
    (hsome : ∀ message, s.signatureIdToMessage[sid]? = some message →
      s'.signing[message]? = f s.signing[message]? ∧
        ∀ a, a ≠ message → s'.signing[a]? = s.signing[a]?) :
    s'.signing[m]? =
      if s.signatureIdToMessage[sid]? = some m then f s.signing[m]? else s.signing[m]? := by
  rcases hi : s.signatureIdToMessage[sid]? with _ | message
  · rw [if_neg (by simp), hnone hi]
  · obtain ⟨h1, h2⟩ := hsome message hi
    by_cases hm : message = m
    · subst hm
      rw [if_pos rfl, h1]
    · rw [if_neg (by simpa using hm), h2 m fun h => hm h.symm]

theorem handleSignRevealedNonces_signing (s : State E) (block : Nat) (sid : B256)
    (participant : Address) (nonces : SignNonces) (m : B256) :
    (T.handleSignRevealedNonces s block sid participant nonces).1.signing[m]? =
      if s.signatureIdToMessage[sid]? = some m then
        T.afterReveal block participant nonces s.signing[m]?
      else s.signing[m]? := by
  refine routed_signing m ?_ ?_
  · intro hi
    simp only [handleSignRevealedNonces, hi]
  · intro message hi
    simp only [handleSignRevealedNonces, hi]
    rcases hs : s.signing[message]? with _ | (w | w | w | w | w) <;>
      simp only [afterReveal, hs, true_and, implies_true]
    split
    · simp only [BTreeMap.get_insert, if_true, true_and]
      exact fun a ha => if_neg ha
    · simp only [BTreeMap.get_insert, if_true]
      exact ⟨rfl, fun a ha => if_neg ha⟩

theorem handleSignShared_signing (s : State E) (sid selectionRoot : B256) (participant : Address)
    (m : B256) :
    (handleSignShared s sid selectionRoot participant).1.signing[m]? =
      if s.signatureIdToMessage[sid]? = some m then
        afterShare selectionRoot participant s.signing[m]?
      else s.signing[m]? := by
  refine routed_signing m ?_ ?_
  · intro hi
    simp only [handleSignShared, hi]
  · intro message hi
    simp only [handleSignShared, hi]
    rcases hs : s.signing[message]? with _ | (w | w | w | w | w) <;>
      simp only [afterShare, hs, true_and, implies_true]
    simp only [BTreeMap.get_insert, if_true]
    exact ⟨rfl, fun a ha => if_neg ha⟩

theorem handleSignCompleted_signing (s : State E) (block : Nat) (sid : B256) (m : B256) :
    (T.handleSignCompleted s block sid).1.signing[m]? =
      if s.signatureIdToMessage[sid]? = some m then T.afterCompleted block s.signing[m]?
      else s.signing[m]? := by
  refine routed_signing m ?_ ?_
  · intro hi
    simp only [handleSignCompleted, hi]
  · intro message hi
    simp only [handleSignCompleted, hi]
    rcases hs : s.signing[message]? with _ | (w | w | w | w | w) <;>
      simp only [afterCompleted, hs, true_and, implies_true]
    simp only [BTreeMap.get_insert, if_true, true_and]
    exact fun a ha => if_neg ha

theorem handleTransactionProposed_signing (s : State E) (block : Nat) (oracle : Address)
    (epoch : Nat) (oracleData : Bytes) (tx : SafeTransaction) (m : B256) :
    (T.handleTransactionProposed s block oracle epoch oracleData tx).1.signing[m]? =
      if T.proposalMessage epoch oracle oracleData tx = m then
        T.afterProposal s block oracle epoch oracleData tx s.signing[m]?
      else s.signing[m]? := by
  unfold handleTransactionProposed
  dsimp only
  rcases he : s.epochs[EpochId.fromRaw epoch]? with _ | entry
  · rcases s.signing[m]? with _ | x <;> simp [afterProposal, he]
  · by_cases ho : oracle ∉ T.config.oracles
    · rcases hs : s.signing[m]? with _ | x <;> simp [afterProposal, ho, hs]
    · dsimp only
      rw [if_neg ho]
      change (match s.signing[T.proposalMessage epoch oracle oracleData tx]? with
        | some _ => (s, []) | none => _ : State E × Commands E).1.signing[m]? = _
      by_cases hm : T.proposalMessage epoch oracle oracleData tx = m
      · rw [if_pos hm, hm]
        rcases hs : s.signing[m]? with _ | x
        · simp only [afterProposal, if_neg ho, he, Option.map_some]
          exact (BTreeMap.get_insert _ _ _ _).trans (if_pos hm.symm)
        · exact hs
      · rw [if_neg hm]
        split
        · rfl
        · exact BTreeMap.get_insert_ne _ _ fun h => hm h.symm

theorem handleSignAttested_signing (s : State E) (message m : B256) :
    (handleSignAttested s message).1.signing[m]? =
      if message = m then none else s.signing[m]? := by
  simp only [handleSignAttested, BTreeMap.get_erase, eq_comm]

theorem finalizeKeyGen_frame (s : State E) (e : EpochId) (g : Group) (k : Option (KeyShare E)) :
    (finalizeKeyGen s e g k).1.signing = s.signing ∧
      (finalizeKeyGen s e g k).1.signatureIdToMessage = s.signatureIdToMessage ∧
      (finalizeKeyGen s e g k).1.rollover = s.rollover ∧
      (finalizeKeyGen s e g k).1.activeEpoch = s.activeEpoch := by
  unfold finalizeKeyGen
  split
  · exact ⟨rfl, rfl, rfl, rfl⟩
  · exact ⟨rfl, rfl, rfl, rfl⟩

theorem completeGenesis_frame (s : State E) (block : Nat) (c : CollectingConfirmations E) :
    (T.completeGenesis s block c).1.signing = s.signing ∧
      (T.completeGenesis s block c).1.signatureIdToMessage = s.signatureIdToMessage := by
  unfold completeGenesis
  dsimp only
  have hf := finalizeKeyGen_frame
    { s with rollover := .epochSkipped (nextNumber block T.config.blocksPerEpoch) } .genesis
    c.group c.status.keyShare
  split
  · exact ⟨hf.1, hf.2.1⟩
  · have h := fun t => T.startKeyGen_onlyRollover t
      (.number (nextNumber block T.config.blocksPerEpoch)) ‹_›
      (some (satAdd block T.config.keyGenTimeout))
    exact ⟨(h _).signing.trans hf.1, (h _).index.trans hf.2.1⟩

theorem handleKeyGenConfirmed_index (s : State E) (block : Nat) (gid : B256)
    (participant : Address) :
    (T.handleKeyGenConfirmed s block gid participant).1.signatureIdToMessage =
      s.signatureIdToMessage := by
  unfold handleKeyGenConfirmed
  split
  · split
    · dsimp only
      split
      · rfl
      · split
        · exact (T.completeGenesis_frame _ _ _).2
        · rfl
    · rfl
  · rfl

theorem handleKeyGenConfirmed_signing (s : State E) (block : Nat) (gid : B256)
    (participant : Address) (m : B256) :
    (T.handleKeyGenConfirmed s block gid participant).1.signing[m]? =
      T.afterConfirmed s m block gid participant s.signing[m]? := by
  rcases hr : s.rollover with _ | _ | _ | _ | c | c | c | c <;>
    simp only [handleKeyGenConfirmed, afterConfirmed, completedRound, hr]
  by_cases hg : c.group.id = gid
  · by_cases hc : asU16 (insert participant c.confirmations).card = c.group.count
    · cases hn : c.nextEpoch with
      | genesis => simp [hg, hc, (T.completeGenesis_frame _ _ _).1]
      | number n =>
        rcases he : s.epochs[s.activeEpoch]? with _ | entry <;>
          simp [hg, hc, he, proposeRollover, BTreeMap.get_insert, completedPacket, rolloverSession,
            eq_comm]
    · cases hn : c.nextEpoch <;> simp [hg, hc]
  · cases hn : c.nextEpoch <;> simp [hg]

theorem handleEpochStaged_signing (s : State E) (p : Nat) (groupId m : B256) :
    (handleEpochStaged s p groupId).1.signing[m]? =
      if stages s groupId m then none else s.signing[m]? := by
  rcases hr : s.rollover with _ | _ | _ | _ | c | c | c | c <;>
    simp only [handleEpochStaged, stages, hr, Bool.false_eq_true, if_false]
  by_cases hg : c.group.id = groupId
  · simp only [hg, if_true, true_and, decide_eq_true_eq]
    rw [handleSignAttested_signing, (finalizeKeyGen_frame _ _ _ _).1]
  · simp only [hg, if_false, false_and, decide_false, Bool.false_eq_true]

theorem handleSigningTimeouts_signing (s : State E) (block : Nat) (m : B256) :
    (T.handleSigningTimeouts s block).1.signing[m]? =
      s.signing[m]?.bind fun session => (T.timeoutSession block m session).session := by
  simp only [handleSigningTimeouts, BTreeMap.get_filterMap]

/-! ## 4. The whole transition -/

theorem handleNonceTopup_frame (s : State E) :
    (handleNonceTopup s).1.signing = s.signing ∧
      (handleNonceTopup s).1.signatureIdToMessage = s.signatureIdToMessage ∧
      (handleNonceTopup s).1.rollover = s.rollover ∧
      (handleNonceTopup s).1.activeEpoch = s.activeEpoch := by
  unfold handleNonceTopup
  split
  · exact ⟨rfl, rfl, rfl, rfl⟩
  · split
    · exact ⟨rfl, rfl, rfl, rfl⟩
    · split
      · exact ⟨rfl, rfl, rfl, rfl⟩
      · exact ⟨rfl, rfl, rfl, rfl⟩

theorem handleNonceTree_frame (s : State E) (gid commitment : B256) :
    (handleNonceTree s gid commitment).1.signing = s.signing ∧
      (handleNonceTree s gid commitment).1.signatureIdToMessage = s.signatureIdToMessage ∧
      (handleNonceTree s gid commitment).1.rollover = s.rollover := by
  unfold handleNonceTree
  split
  · exact ⟨rfl, rfl, rfl⟩
  · exact ⟨rfl, rfl, rfl⟩

theorem handlePreprocess_frame (s : State E) (gid : B256) (p : Address) (chunk : Nat)
    (commitment : B256) :
    (T.handlePreprocess s gid p chunk commitment).1.signing = s.signing ∧
      (T.handlePreprocess s gid p chunk commitment).1.signatureIdToMessage =
        s.signatureIdToMessage ∧
      (T.handlePreprocess s gid p chunk commitment).1.rollover = s.rollover := by
  unfold handlePreprocess
  split
  · exact ⟨rfl, rfl, rfl⟩
  · split
    · exact ⟨rfl, rfl, rfl⟩
    · exact ⟨rfl, rfl, rfl⟩

/-- The reveal and share handlers of a resume leave the state as it is. -/
theorem handleNonceCommitments_state (s : State E) (sid m : B256) (n : SignNonces)
    (proof : List B256) : (handleNonceCommitments s sid m n proof).1 = s := by
  unfold handleNonceCommitments
  split
  · split
    · rfl
    · rfl
  · rfl

theorem handleNonces_state (s : State E) (m : B256) (n : Nonces E) :
    (T.handleNonces s m n).1 = s := by
  unfold handleNonces
  split
  · split
    · rfl
    · rfl
  · rfl

/-- A resume never touches the sessions or their index. -/
theorem applyResume_frame (s : State E) (r : Resume E) :
    (T.applyResume s r).1.signing = s.signing ∧
      (T.applyResume s r).1.signatureIdToMessage = s.signatureIdToMessage := by
  cases r with
  | noop => exact ⟨rfl, rfl⟩
  | setup gid secrets =>
    have h := T.handleKeyGenSetup_onlyRollover s gid secrets
    exact ⟨h.signing, h.index⟩
  | nonceTree gid commitment =>
    obtain ⟨h1, h2, -⟩ := handleNonceTree_frame s gid commitment
    exact ⟨h1, h2⟩
  | nonceCommitments sid m n proof =>
    simp only [applyResume, handleNonceCommitments_state, and_self]
  | nonce m n => simp only [applyResume, handleNonces_state, and_self]

/-- The sessions a block leaves are those its signing timeouts leave. -/
theorem applyBlock_signing (s : State E) (block : Nat) (m : B256) :
    (T.applyBlock s block).1.signing[m]? =
      s.signing[m]?.bind fun session => (T.timeoutSession block m session).session := by
  obtain ⟨h1, -, -⟩ := T.handleRolloverNewBlock_signing s block
  have h2 := (T.handleKeyGenTimeouts_onlyRollover (T.handleRolloverNewBlock s block).1 block).signing
  have h4 := fun t : State E => (handleNonceTopup_frame t).1
  simp only [applyBlock, handleGroupReconciliation, h4, handleSigningTimeouts_signing, h2, h1]

/-- **What one message does to one session.** -/
theorem signing_applyTransition (s : State E) (msg : Msg E) (m : B256) :
    (T.applyTransition s msg).1.signing[m]? = T.sessionAfter s m msg := by
  cases msg with
  | newBlock block => exact T.applyBlock_signing s block m
  | resume r => simp only [applyTransition, (T.applyResume_frame s r).1, sessionAfter]
  | event log =>
    obtain ⟨block, index, address, data⟩ := log
    cases data with
    | keyGen gid =>
      simp only [applyTransition, applyEvent, sessionAfter,
        (T.handleGenesisKeyGen_onlyRollover _ _).signing]
    | keyGenCommitted gid p k =>
      simp only [applyTransition, applyEvent, sessionAfter,
        (T.handleKeyGenCommitted_onlyRollover _ _ _ _ _).signing]
    | keyGenSecretShared gid p k =>
      simp only [applyTransition, applyEvent, sessionAfter,
        (T.handleKeyGenSecretShared_onlyRollover _ _ _ _ _).signing]
    | keyGenConfirmed gid p => exact T.handleKeyGenConfirmed_signing s block gid p m
    | keyGenComplained gid p a x =>
      simp only [applyTransition, applyEvent, sessionAfter,
        (T.handleKeyGenComplained_onlyRollover _ _ _ _ _).signing]
    | keyGenComplaintResponded gid p a x =>
      simp only [applyTransition, applyEvent, sessionAfter,
        (T.handleKeyGenComplaintResponded_onlyRollover _ _ _ _ _ _).signing]
    | preprocess gid p chunk commitment =>
      simp only [applyTransition, applyEvent, sessionAfter, (T.handlePreprocess_frame _ _ _ _ _).1]
    | sign gid message sid sequence => exact T.handleSign_signing s block gid message sid sequence m
    | signRevealedNonces sid p n => exact T.handleSignRevealedNonces_signing s block sid p n m
    | signShared sid root p => exact handleSignShared_signing s sid root p m
    | signCompleted sid => exact T.handleSignCompleted_signing s block sid m
    | epochStaged p groupId sid => exact handleEpochStaged_signing s p groupId m
    | transactionProposed oracle epoch oracleData tx =>
      exact T.handleTransactionProposed_signing s block oracle epoch oracleData tx m
    | transactionAttested h oracle epoch oh sid => exact handleSignAttested_signing s _ m
    | oracleResult requestId approved =>
      exact T.handleOracleResult_signing s block address requestId approved m
    | unhandled => rfl

/-! ## 5. Where sessions come from -/

/-- The message a packet is signed under. -/
def packetHash : Packet → B256
  | .epochRollover activeEpoch proposedEpoch rolloverBlock _ groupKey =>
    T.consensus.epochRolloverHash E.keccak256 activeEpoch proposedEpoch rolloverBlock groupKey
  | .transaction epoch oracle oracleData transaction =>
    T.consensus.transactionPacketHash E.keccak256 epoch oracle oracleData transaction

/-- The sessions one message can open, at `m`. -/
inductive Opened (s : State E) (m : B256) : Msg E → SigningState E → Prop where
  | proposal {log : EventLog Event} {oracle : Address} {epoch : Nat} {oracleData : Bytes}
      {tx : SafeTransaction} {entry : Epoch E} :
      log.data = .transactionProposed oracle epoch oracleData tx →
      T.proposalMessage epoch oracle oracleData tx = m → oracle ∈ T.config.oracles →
      s.signing[m]? = none → s.epochs[EpochId.fromRaw epoch]? = some entry →
      Opened s m (.event log) (.waitingForRequest
        (T.proposedSession log.block (EpochId.fromRaw epoch) entry oracle oracleData tx))
  | rollover {log : EventLog Event} {gid : B256} {p : Address} {c : CollectingConfirmations E}
      {n : ℕ+} {entry : Epoch E} :
      log.data = .keyGenConfirmed gid p → completedRound s gid p = some (c, n) →
      s.epochs[s.activeEpoch]? = some entry → (T.completedPacket s c n).2 = m →
      Opened s m (.event log) (.waitingForRequest
        (T.rolloverSession log.block entry (T.completedPacket s c n).1 p))

/-- The ways a session after a message comes about. -/
inductive SessionStep (s : State E) (m : B256) : Msg E → SigningState E → Prop where
  | same {msg : Msg E} {x : SigningState E} : s.signing[m]? = some x → SessionStep s m msg x
  | opened {msg : Msg E} {x : SigningState E} : T.Opened s m msg x → SessionStep s m msg x
  /-- The request it waited for arrived, with a nonce linked. -/
  | request {log : EventLog Event} {gid sid : B256} {q : Nat} {w : WaitingForRequest E}
      {n : NonceIndex} : log.data = .sign gid m sid q →
      s.signing[m]? = some (.waitingForRequest w) → w.groupId = gid →
      (observeNonce s gid q).2 = some n →
      SessionStep s m (.event log) (T.openRequest log.block m sid n w).1
  /-- Its oracle approved it. -/
  | approval {log : EventLog Event} {w : WaitingForOracle E} : log.data = .oracleResult m true →
      s.signing[m]? = some (.waitingForOracle w) → w.oracle = log.address →
      SessionStep s m (.event log) (.collectNonceCommitments (T.approve log.block w))
  | reveal {log : EventLog Event} {sid : B256} {p : Address} {n : SignNonces}
      {c : CollectNonceCommitments E} : log.data = .signRevealedNonces sid p n →
      s.signatureIdToMessage[sid]? = some m → s.signing[m]? = some (.collectNonceCommitments c) →
      (registerReveal c p n).revealed.size < (registerReveal c p n).signers.card →
      SessionStep s m (.event log) (.collectNonceCommitments (registerReveal c p n))
  /-- The last signer revealed. -/
  | allRevealed {log : EventLog Event} {sid : B256} {p : Address} {n : SignNonces}
      {c : CollectNonceCommitments E} : log.data = .signRevealedNonces sid p n →
      s.signatureIdToMessage[sid]? = some m → s.signing[m]? = some (.collectNonceCommitments c) →
      ¬ (registerReveal c p n).revealed.size < (registerReveal c p n).signers.card →
      SessionStep s m (.event log)
        (.collectSigningShares (T.openShares log.block (registerReveal c p n)))
  | share {log : EventLog Event} {sid root : B256} {p : Address} {c : CollectSigningShares E} :
      log.data = .signShared sid root p → s.signatureIdToMessage[sid]? = some m →
      s.signing[m]? = some (.collectSigningShares c) →
      SessionStep s m (.event log) (.collectSigningShares (registerSelection c root p))
  | completed {log : EventLog Event} {sid : B256} {c : CollectSigningShares E} :
      log.data = .signCompleted sid → s.signatureIdToMessage[sid]? = some m →
      s.signing[m]? = some (.collectSigningShares c) →
      SessionStep s m (.event log) (.waitingForAttestation
        { signatureId := c.signatureId, packet := c.packet
          deadline := satAdd log.block T.config.signingTimeout })
  /-- It ran past its deadline and is tried again. -/
  | retry {block : Nat} {x : SigningState E} {w : WaitingForRequest E} :
      s.signing[m]? = some x → x.deadline ≤ block →
      (T.timeoutSession block m x).session = some (.waitingForRequest w) →
      SessionStep s m (.newBlock block) (.waitingForRequest w)

theorem restartSigningCeremony_session {d : Nat} {m : B256} {k : KeyShare E} {g sid : B256}
    {ss : Finset Address} {p : Packet} {l : Option Address} {x : SigningState E}
    (h : (T.restartSigningCeremony d m k g sid ss p l).session = some x) :
    x = .waitingForRequest
      { keyShare := k, groupId := g, responsible := l, packet := p, signers := ss, deadline := d } := by
  unfold restartSigningCeremony at h
  split at h
  · exact absurd h (by simp)
  · rw [Option.some.injEq] at h
    exact h.symm

/-- What the timeout pass leaves of a session: the same before its deadline, and after it one
that waits for a request over the same packet. -/
theorem timeoutSession_session {block : Nat} {m : B256} {x x' : SigningState E}
    (h : (T.timeoutSession block m x).session = some x') :
    x' = x ∨ x.deadline ≤ block ∧ ∃ w, x' = .waitingForRequest w ∧ w.packet = x.packet := by
  unfold timeoutSession at h
  dsimp only at h
  split at h
  · rw [Option.some.injEq] at h
    exact .inl h.symm
  · rename_i hlate
    rw [not_lt] at hlate
    split at h
    · split at h
      · exact absurd h (by simp)
      · split at h
        · exact absurd h (by simp)
        · rw [Option.some.injEq] at h
          exact .inr ⟨hlate, _, h.symm, rfl⟩
    · exact absurd h (by simp)
    · exact .inr ⟨hlate, _, T.restartSigningCeremony_session h, rfl⟩
    · exact .inr ⟨hlate, _, T.restartSigningCeremony_session h, rfl⟩
    · exact absurd h (by simp)

/-- **Every session after a message comes about in one of these ways.** -/
theorem session_step {s : State E} {msg : Msg E} {m : B256} {x' : SigningState E}
    (h : (T.applyTransition s msg).1.signing[m]? = some x') : T.SessionStep s m msg x' := by
  rw [signing_applyTransition] at h
  cases msg with
  | newBlock block =>
    obtain ⟨x, hx, hx'⟩ := Option.bind_eq_some_iff.mp h
    rcases T.timeoutSession_session hx' with rfl | ⟨hlate, w, rfl, -⟩
    · exact .same hx
    · exact .retry hx hlate hx'
  | resume r => exact .same h
  | event log =>
    cases hd : log.data <;> simp only [sessionAfter, hd] at h
    case sign gid message sid q =>
      split at h
      · rename_i hm
        subst hm
        rcases hs : s.signing[message]? with _ | (w | w | w | w | w) <;>
          simp only [hs, afterRequest] at h
        case some.waitingForRequest =>
          split at h
          · rename_i n hn
            split at h
            · rename_i hg
              rw [Option.some.injEq] at h
              rw [← h]
              exact .request hd hs hg hn
            · exact .same (hs.trans h)
          · exact absurd h (by simp)
        all_goals exact .same (hs.trans h)
      · exact .same h
    case oracleResult req b =>
      split at h
      · rename_i hm
        subst hm
        rcases hs : s.signing[req]? with _ | (w | w | w | w | w) <;>
          simp only [hs, afterOracleResult] at h
        case some.waitingForOracle =>
          split at h
          · rename_i ho
            split at h
            · rename_i hb
              rw [Option.some.injEq] at h
              rw [← h]
              exact .approval (hb ▸ hd) hs ho
            · exact absurd h (by simp)
          · exact .same (hs.trans h)
        all_goals exact .same (hs.trans h)
      · exact .same h
    case signRevealedNonces sid p n =>
      split at h
      · rename_i hi
        rcases hs : s.signing[m]? with _ | (w | w | w | w | w) <;>
          simp only [hs, afterReveal] at h
        case some.collectNonceCommitments =>
          split at h
          · rename_i hlt
            rw [Option.some.injEq] at h
            rw [← h]
            exact .reveal hd hi hs hlt
          · rename_i hlt
            rw [Option.some.injEq] at h
            rw [← h]
            exact .allRevealed hd hi hs hlt
        all_goals exact .same (hs.trans h)
      · exact .same h
    case signShared sid root p =>
      split at h
      · rename_i hi
        rcases hs : s.signing[m]? with _ | (w | w | w | w | w) <;>
          simp only [hs, afterShare] at h
        case some.collectSigningShares =>
          rw [Option.some.injEq] at h
          rw [← h]
          exact .share hd hi hs
        all_goals exact .same (hs.trans h)
      · exact .same h
    case signCompleted sid =>
      split at h
      · rename_i hi
        rcases hs : s.signing[m]? with _ | (w | w | w | w | w) <;>
          simp only [hs, afterCompleted] at h
        case some.collectSigningShares =>
          rw [Option.some.injEq] at h
          rw [← h]
          exact .completed hd hi hs
        all_goals exact .same (hs.trans h)
      · exact .same h
    case transactionProposed o e d tx =>
      split at h
      · rename_i hm
        cases hs : s.signing[m]? with
        | some x =>
          rw [hs, afterProposal] at h
          exact .same (hs.trans h)
        | none =>
          rw [hs, afterProposal] at h
          split at h
          · exact absurd h (by simp)
          · rename_i ho
            obtain ⟨entry, he, rfl⟩ := Option.map_eq_some_iff.mp h
            exact .opened (.proposal hd hm (not_not.mp ho) hs he)
      · exact .same h
    case transactionAttested sh o e oh sid =>
      split at h
      · exact absurd h (by simp)
      · exact .same h
    case epochStaged p g sid =>
      split at h
      · exact absurd h (by simp)
      · exact .same h
    case keyGenConfirmed gid p =>
      unfold afterConfirmed at h
      split at h
      · rename_i c n entry hc he
        split at h
        · rename_i hm
          rw [Option.some.injEq] at h
          rw [← h]
          exact .opened (.rollover hd hc he hm)
        · exact .same h
      · exact .same h
    all_goals exact .same h

theorem openRequest_packet (block : Nat) (m sid : B256) (n : NonceIndex) (w : WaitingForRequest E) :
    (T.openRequest block m sid n w).1.packet = w.packet := by
  unfold openRequest
  split <;> rfl

/-- Registering a reveal leaves the round's identity alone. -/
theorem registerReveal_frame (c : CollectNonceCommitments E) (p : Address) (n : SignNonces) :
    (registerReveal c p n).packet = c.packet ∧
      (registerReveal c p n).signatureId = c.signatureId ∧
      (registerReveal c p n).nonce = c.nonce := by
  unfold registerReveal
  split
  · split <;> exact ⟨rfl, rfl, rfl⟩
  · exact ⟨rfl, rfl, rfl⟩

/-- **A session after a message is one from before with its packet, or one it opened.** -/
theorem session_origin {s : State E} {msg : Msg E} {m : B256} {x' : SigningState E}
    (h : (T.applyTransition s msg).1.signing[m]? = some x') :
    (∃ x, s.signing[m]? = some x ∧ x'.packet = x.packet) ∨ T.Opened s m msg x' := by
  cases T.session_step h with
  | same hs => exact .inl ⟨_, hs, rfl⟩
  | opened ho => exact .inr ho
  | request _ hs _ _ => exact .inl ⟨_, hs, T.openRequest_packet _ _ _ _ _⟩
  | approval _ hs _ => exact .inl ⟨_, hs, rfl⟩
  | reveal _ _ hs _ => exact .inl ⟨_, hs, (registerReveal_frame _ _ _).1⟩
  | allRevealed _ _ hs _ => exact .inl ⟨_, hs, (registerReveal_frame _ _ _).1⟩
  | share _ _ hs => exact .inl ⟨_, hs, rfl⟩
  | completed _ _ hs => exact .inl ⟨_, hs, rfl⟩
  | retry hs _ hw =>
    refine .inl ⟨_, hs, ?_⟩
    rcases T.timeoutSession_session hw with hw | ⟨-, w, hw, hp⟩
    · rw [hw]
    · rw [hw]
      exact hp

/-! ## 6. Runs -/

/-- The state after a sequence of messages, from the initial state. -/
def stateAfter (ms : List (Msg E)) : State E :=
  Reactive.runState T.applyTransition (State.default E) ms

theorem stateAfter_concat (ms : List (Msg E)) (msg : Msg E) :
    T.stateAfter (ms ++ [msg]) = (T.applyTransition (T.stateAfter ms) msg).1 := by
  rw [stateAfter, Reactive.runState_append]
  rfl

/-- The events among the messages. -/
def events (ms : List (Msg E)) : List Event :=
  ms.filterMap fun
    | .event log => some log.data
    | _ => none

theorem events_append (a b : List (Msg E)) : events (a ++ b) = events a ++ events b :=
  List.filterMap_append

end Transition

end Safenet
