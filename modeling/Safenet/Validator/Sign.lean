/-
# The signing sessions

`state/sign.rs` and `state/transactions.rs`: the handlers that open, advance, retry and close
the sessions of `State.signing`, and the index from signature ids to messages that routes the
later logs of a round to its session.

Every handler touches at most ONE session, and says so in its shape: it looks the session up
and then returns, replaces it, or removes it.  The timeout pass is the exception -- it visits
all of them -- and is written as one function of a single session (`timeoutSession`) mapped
over the sessions in key order.
-/
import Safenet.Validator.Preprocess

namespace Safenet

open Frost

/-! ## 1. Packets -/

namespace Packet

variable (keccak256 : Bytes → B256)

/-- The callback invoked once the packet's group signature completes; the contract fills in the
signature id. -/
def attestationCallback (consensus : Address) : Packet → Callback
  | .epochRollover _ proposedEpoch rolloverBlock groupId _ =>
    { target := consensus, context := .stageEpoch proposedEpoch rolloverBlock groupId 0 }
  | .transaction epoch oracle oracleData tx =>
    { target := consensus
      context := .attestTransaction epoch.rawValue oracle (keccak256 oracleData)
        tx.chainId tx.safe (safeTxStructHash keccak256 tx) 0 }

/-- The fallback action that submits a completed attestation directly. -/
def attestationAction (signatureId : B256) (expiresAt : Nat) : Packet → Action
  | .epochRollover _ proposedEpoch rolloverBlock groupId _ =>
    .stageEpoch proposedEpoch rolloverBlock groupId signatureId expiresAt
  | .transaction epoch oracle oracleData tx =>
    .attestTransaction epoch oracle (keccak256 oracleData) tx.chainId tx.safe
      (safeTxStructHash keccak256 tx) signatureId expiresAt

end Packet

namespace Transition

variable {E : Crates} (T : Transition E)

/-! ## 2. The request -/

/-- The nonce observed for a sequence of a group, and the state with it observed: the epoch of
the group, when it is tracked, advances even if no nonce is linked. -/
def observeNonce (state : State E) (gid : B256) (sequence : Nat) : State E × Option NonceIndex :=
  match state.findGroup gid with
  | none => (state, none)
  | some (key, epoch) =>
    let (nonces, nonce) := epoch.nonces.observe sequence
    (state.setNonces key epoch nonces, nonce)

/-- The session a `Sign` request opens over a session that waited for it, and the effects. -/
def openRequest (block : Nat) (message sid : B256) (nonce : NonceIndex) (s : WaitingForRequest E) :
    SigningState E × Commands E :=
  match s.packet with
  | .transaction _ oracle _ _ =>
    (.waitingForOracle
      { keyShare := s.keyShare, oracle, groupId := s.groupId, signatureId := sid, nonce
        packet := s.packet, signers := s.signers
        deadline := satAdd block T.config.oracleTimeout }, [])
  | .epochRollover .. =>
    (.collectNonceCommitments
      { keyShare := s.keyShare, groupId := s.groupId, signatureId := sid, nonce, revealed := ∅
        lastSigner := none, packet := s.packet, signers := s.signers
        deadline := satAdd block T.config.signingTimeout },
      [.effect (.revealNonceCommitments sid message nonce.root nonce.offset)])

/-- Handles a request to sign a packet. -/
def handleSign (state : State E) (block : Nat) (gid message sid : B256) (sequence : Nat) :
    State E × Commands E :=
  let (state, nonce) := observeNonce state gid sequence
  match nonce, state.signing[message]? with
  | some nonce, some (.waitingForRequest s) =>
    if s.groupId = gid then
      let (session, commands) := T.openRequest block message sid nonce s
      ({ state with
          signing := state.signing.insert message session
          signatureIdToMessage := state.signatureIdToMessage.insert sid message }, commands)
    else (state, [])
  -- no canonically linked nonce: the session is taken out and not put back
  | none, some (.waitingForRequest _) => ({ state with signing := state.signing.erase message }, [])
  | _, _ => (state, [])

/-- Publishes this validator's revealed nonce commitment. -/
def handleNonceCommitments (state : State E) (signatureId message : B256) (nonces : SignNonces)
    (proof : List B256) : State E × Commands E :=
  match state.signing[message]? with
  | some (.collectNonceCommitments s) =>
    if s.signatureId = signatureId then
      (state, [.action (.revealNonceCommitments signatureId nonces proof s.deadline)])
    else (state, [])
  | _ => (state, [])

/-! ## 3. The oracle -/

/-- Resolves an oracle-backed round once its result lands. -/
def handleOracleResult (state : State E) (block : Nat) (oracle : Address) (requestId : B256)
    (approved : Bool) : State E × Commands E :=
  match state.signing[requestId]? with
  | some (.waitingForOracle s) =>
    if s.oracle = oracle then
      if approved then
        ({ state with signing := state.signing.insert requestId (.collectNonceCommitments
            { keyShare := s.keyShare, groupId := s.groupId, signatureId := s.signatureId
              nonce := s.nonce, revealed := ∅, lastSigner := none, packet := s.packet
              signers := s.signers, deadline := satAdd block T.config.signingTimeout }) },
          [.effect (.revealNonceCommitments s.signatureId requestId s.nonce.root s.nonce.offset)])
      else
        ({ state with
            signing := state.signing.erase requestId
            signatureIdToMessage := state.signatureIdToMessage.erase s.signatureId }, [])
    else (state, [])
  | _ => (state, [])

/-! ## 4. The two rounds -/

/-- The round with a participant's revealed nonces registered, if they are a signer's and valid. -/
def registerReveal (s : CollectNonceCommitments E) (participant : Address) (nonces : SignNonces) :
    CollectNonceCommitments E :=
  if participant ∈ s.signers then
    match verifyRevealedNonces E participant nonces with
    | .ok nonces =>
      { s with revealed := s.revealed.insert participant nonces, lastSigner := some participant }
    | .error _ => s
  else s

/-- Tracks a revealed nonce commitment; once every signer has revealed, burns this validator's
own nonce. -/
def handleSignRevealedNonces (state : State E) (block : Nat) (sid : B256) (participant : Address)
    (nonces : SignNonces) : State E × Commands E :=
  match state.signatureIdToMessage[sid]? with
  | none => (state, [])
  | some message =>
    match state.signing[message]? with
    | some (.collectNonceCommitments s) =>
      let s := registerReveal s participant nonces
      if s.revealed.size < s.signers.card then
        ({ state with
            signing := state.signing.insert message (.collectNonceCommitments s) }, [])
      else
        ({ state with signing := state.signing.insert message (.collectSigningShares
            { keyShare := s.keyShare, groupId := s.groupId, signatureId := s.signatureId
              revealed := s.revealed, selections := ∅, packet := s.packet, signers := s.signers
              deadline := satAdd block T.config.signingTimeout }) },
          [.effect (.useNonce message s.nonce.root s.nonce.offset)])
    | _ => (state, [])

/-- Publishes this validator's signature share once its nonce is burned. -/
def handleNonces (state : State E) (message : B256) (nonces : Nonces E) : State E × Commands E :=
  match state.signing[message]? with
  | some (.collectSigningShares s) =>
    match signatureShare E s.keyShare nonces s.revealed message with
    | .ok result =>
      (state, [.action (.signShare s.signatureId result.selection result.share result.proof
        (s.packet.attestationCallback E.keccak256 T.config.consensus) s.deadline)])
    | .error _ => (state, [])
  | _ => (state, [])

/-- Tracks a published signature share against the selection it was submitted to. -/
def handleSignShared (state : State E) (sid selectionRoot : B256) (participant : Address) :
    State E × Commands E :=
  match state.signatureIdToMessage[sid]? with
  | none => (state, [])
  | some message =>
    match state.signing[message]? with
    | some (.collectSigningShares s) =>
      let selection := s.selections[selectionRoot]?.getD default
      let selection : SigningSelection :=
        { sharesFrom := insert participant selection.sharesFrom, lastSigner := some participant }
      ({ state with signing := state.signing.insert message (.collectSigningShares
          { s with selections := s.selections.insert selectionRoot selection }) }, [])
    | _ => (state, [])

/-- Completes a round; the attestation is now awaited. -/
def handleSignCompleted (state : State E) (block : Nat) (sid : B256) : State E × Commands E :=
  match state.signatureIdToMessage[sid]? with
  | none => (state, [])
  | some message =>
    match state.signing[message]? with
    | some (.collectSigningShares s) =>
      ({ state with signing := state.signing.insert message (.waitingForAttestation
          { signatureId := s.signatureId, packet := s.packet
            deadline := satAdd block T.config.signingTimeout }) }, [])
    | _ => (state, [])

/-- Clears the session of an attested message, whatever state it is in. -/
def handleSignAttested (state : State E) (message : B256) : State E × Commands E :=
  let signing := state.signing[message]?
  ({ state with
      signing := state.signing.erase message
      signatureIdToMessage := match signing.bind SigningState.signatureId with
        | some signatureId => state.signatureIdToMessage.erase signatureId
        | none => state.signatureIdToMessage }, [])

/-! ## 5. The timeouts -/

/-- What the timeout pass does to one session: what is left of it, the signature id it unlinks,
and the actions it queues. -/
structure Timeout (E : Crates) where
  session : Option (SigningState E)
  unlink : Option B256
  actions : List Action

/-- Restart a ceremony among `signers`, by convention at the hands of the last of them to act.
Too few signers, or this validator not among them, drops the session. -/
def restartSigningCeremony (nextDeadline : Nat) (message : B256) (keyShare : KeyShare E)
    (groupId signatureId : B256) (signers : Finset Address) (packet : Packet)
    (lastSigner : Option Address) : Timeout E :=
  if signers.card < keyShare.groupThreshold ∨ T.account ∉ signers then
    { session := none, unlink := some signatureId, actions := [] }
  else
    { session := some (.waitingForRequest
        { keyShare, groupId, responsible := lastSigner, packet, signers, deadline := nextDeadline })
      unlink := some signatureId
      actions := if lastSigner = some T.account then [.sign groupId message nextDeadline] else [] }

/-- `max_by_key` keeps the later of two equally large selections. -/
def largerSelection (best : Option SigningSelection) (s : SigningSelection) :
    Option SigningSelection :=
  match best with
  | some b => if s.sharesFrom.card < b.sharesFrom.card then some b else some s
  | none => some s

/-- The largest selection of at least `threshold` shares, or an empty one. -/
def canonicalSelection (threshold : Nat) (selections : BTreeMap B256 SigningSelection) :
    SigningSelection :=
  ((selections.values.filter fun s => threshold ≤ s.sharesFrom.card).foldl largerSelection
    none).getD default

/-- The signers left when a request did not arrive: without the one that was responsible. -/
def withoutResponsible (s : WaitingForRequest E) (previouslyResponsible : Address) :
    Finset Address :=
  s.signers.erase previouslyResponsible

/-- The timeout pass on one session. -/
def timeoutSession (block : Nat) (message : B256) (signing : SigningState E) : Timeout E :=
  let nextDeadline := satAdd block T.config.signingTimeout
  if block < signing.deadline then { session := some signing, unlink := none, actions := [] }
  else match signing with
    | .waitingForRequest s =>
      match s.responsible with
      | none => { session := none, unlink := none, actions := [] }
      | some previouslyResponsible =>
        let signers := withoutResponsible s previouslyResponsible
        if signers.card < s.keyShare.groupThreshold ∨ T.account ∉ signers then
          { session := none, unlink := none, actions := [] }
        else
          { session := some (.waitingForRequest
              { s with responsible := none, signers, deadline := nextDeadline })
            unlink := none
            actions := [.sign s.groupId message nextDeadline] }
    | .waitingForOracle s => { session := none, unlink := some s.signatureId, actions := [] }
    | .collectNonceCommitments s =>
      T.restartSigningCeremony nextDeadline message s.keyShare s.groupId s.signatureId
        (s.signers.filter fun signer => (s.revealed[signer]?).isSome) s.packet s.lastSigner
    | .collectSigningShares s =>
      let canonical := canonicalSelection s.keyShare.groupThreshold s.selections
      T.restartSigningCeremony nextDeadline message s.keyShare s.groupId s.signatureId
        canonical.sharesFrom s.packet canonical.lastSigner
    | .waitingForAttestation s =>
      { session := none
        unlink := some s.signatureId
        actions := [s.packet.attestationAction E.keccak256 s.signatureId nextDeadline] }

/-- Retries or drops every signing ceremony past its deadline, in key order. -/
def handleSigningTimeouts (state : State E) (block : Nat) : State E × Commands E :=
  let timeouts := state.signing.toList.map fun e => T.timeoutSession block e.1 e.2
  ({ state with
      signing := state.signing.filterMap fun message s => (T.timeoutSession block message s).session
      signatureIdToMessage :=
        BTreeMap.eraseAll state.signatureIdToMessage (timeouts.filterMap (·.unlink)) },
    timeouts.flatMap fun t => t.actions.map .action)

/-! ## 6. Transactions -/

/-- Opens a session for a proposed transaction, unless one is already tracked, the epoch is not
ours, or the oracle is not allowed. -/
def handleTransactionProposed (state : State E) (block : Nat) (oracle : Address) (rawEpoch : Nat)
    (oracleData : Bytes) (transaction : SafeTransaction) : State E × Commands E :=
  let epoch := EpochId.fromRaw rawEpoch
  match state.epochs[epoch]? with
  | none => (state, [])
  | some participatingEpoch =>
    if oracle ∉ T.config.oracles then (state, [])
    else
      let message := T.consensus.transactionPacketHash E.keccak256 epoch oracle oracleData transaction
      match state.signing[message]? with
      | some _ => (state, [])
      | none =>
        ({ state with signing := state.signing.insert message (.waitingForRequest
            { keyShare := participatingEpoch.keyShare
              groupId := participatingEpoch.group.id
              responsible := none
              packet := .transaction epoch oracle oracleData transaction
              signers := participatingEpoch.group.participants
              deadline := satAdd block T.config.signingTimeout }) }, [])

/-- Clears the session of an attested transaction. -/
def handleTransactionAttested (state : State E) (safeTxHash : B256) (oracle : Address)
    (rawEpoch : Nat) (oracleDataHash : B256) : State E × Commands E :=
  let epoch := EpochId.fromRaw rawEpoch
  handleSignAttested state
    (T.consensus.transactionProposalHash E.keccak256 epoch oracle oracleDataHash safeTxHash)

end Transition

end Safenet
