/-
# The validator state

`state/mod.rs`, `service/{action,effect}.rs`, `config.rs`: the snapshotted state of one
validator, the events it consumes, and the actions, effects and resumes it exchanges with its
environment.  Each variant of the two state machines carries ONE payload structure with the
fields of the source variant, so that a handler's update of a field is a record update.

* `RolloverState` -- the epoch-rollover and key-generation machine, eight variants;
* `SigningState` -- one signing session, five variants, keyed by the message it signs;
* `NonceState` -- which nonce tree of ours the chain assigned to which chunk of sequences.

`Transition` is what the pure transition is parameterised over.  Its genesis set is not free:
a service is only built when the configuration forms one, so the structure carries that fact.
-/
import Safenet.Frost
import Safenet.Core.StateMachine

namespace Safenet

open Frost

variable (E : Crates)

/-! ## 1. Key generation and rollover -/

/-- `state::KeyGenCommitment`: this validator's secrets while commitments are collected. -/
inductive KeyGenSecrets where
  /-- A participant; `none` while the setup effect that samples the secrets is outstanding. -/
  | participating (poap : List B256) (secrets : Option (Secrets E))
  | observing

/-- The keygen participation status once everyone committed. -/
inductive KeyGenParticipation where
  | participating (sharingState : SharingState E)
  | observing (groupCommitments : GroupCommitments E)

/-- The group commitments, regardless of participation. -/
def KeyGenParticipation.groupCommitments {E : Crates} : KeyGenParticipation E → GroupCommitments E
  | .participating sharingState => sharingState.groupCommitments
  | .observing groupCommitments => groupCommitments

/-- The confirmation status of the current validator. -/
inductive KeyGenConfirmation where
  | observing
  /-- Some shares could not be verified yet. -/
  | collecting (shares : BTreeMap Address (VerifiedShare E))
  | confirmed (keyShare : KeyShare E)

/-- The finalized key share, if there is one. -/
def KeyGenConfirmation.keyShare {E : Crates} : KeyGenConfirmation E → Option (KeyShare E)
  | .confirmed keyShare => some keyShare
  | _ => none

/-- The complaints raised against a single accused participant. -/
structure Complaint where
  total : Nat
  unresponded : Nat
  deriving DecidableEq

instance : Inhabited Complaint := ⟨0, 0⟩

/-- The deadlines for collecting confirmations. -/
structure ConfirmationDeadlines where
  complain : Nat
  response : Nat
  confirm : Nat
  deriving DecidableEq

/-- The commitments of a group are being collected. -/
structure CollectingCommitments where
  nextEpoch : EpochId
  group : Group
  secrets : KeyGenSecrets E
  commitments : BTreeMap Address (VerifiedCommitment E)
  deadline : Option Nat

/-- Everyone committed, and the secret shares are being collected. -/
structure CollectingShares where
  nextEpoch : EpochId
  group : Group
  participation : KeyGenParticipation E
  publicKeys : BTreeMap Address (PublicKeyShare E)
  shares : BTreeMap Address (VerifiedShare E)
  complaints : BTreeMap Address Complaint
  deadline : Option Nat

/-- Everyone shared, and the confirmations are being collected. -/
structure CollectingConfirmations where
  nextEpoch : EpochId
  group : Group
  participation : KeyGenParticipation E
  status : KeyGenConfirmation E
  confirmations : Finset Address
  complaints : BTreeMap Address Complaint
  deadlines : Option ConfirmationDeadlines

/-- The rollover proposal of a generated group is being signed. -/
structure SigningRollover where
  nextEpoch : ℕ+
  group : Group
  keyShare : Option (KeyShare E)
  message : B256

/-- The epoch-rollover / DKG state machine. -/
inductive RolloverState where
  | waitingForGenesis
  | halted
  | epochStaged (nextEpoch : ℕ+)
  | epochSkipped (nextEpoch : ℕ+)
  | collectingCommitments (c : CollectingCommitments E)
  | collectingShares (c : CollectingShares E)
  | collectingConfirmations (c : CollectingConfirmations E)
  | signingRollover (c : SigningRollover E)

/-- The epoch this rollover state is working toward. -/
def RolloverState.nextEpoch {E : Crates} : RolloverState E → Option EpochId
  | .waitingForGenesis => some .genesis
  | .halted => none
  | .epochStaged nextEpoch => some (.number nextEpoch)
  | .epochSkipped nextEpoch => some (.number nextEpoch)
  | .collectingCommitments c => some c.nextEpoch
  | .collectingShares c => some c.nextEpoch
  | .collectingConfirmations c => some c.nextEpoch
  | .signingRollover c => some (.number c.nextEpoch)

/-- The rollover state after an unrecoverable key-generation error. -/
def rolloverFailure {E : Crates} : EpochId → RolloverState E
  | .number nextEpoch => .epochSkipped nextEpoch
  | .genesis => .halted

/-! ## 2. Signing -/

/-- The durable-store coordinates of a nonce. -/
structure NonceIndex where
  root : B256
  offset : Nat
  deriving DecidableEq

/-- Canonical nonce state for one participating epoch; `none` reserves a chunk. -/
structure NonceState where
  nextSequence : Nat
  chunks : BTreeMap Nat (Option B256)

/-- A resolved epoch that the validator is participating in. -/
structure Epoch where
  group : Group
  keyShare : KeyShare E
  nonces : NonceState

/-- A packet a validator group signs an attestation over. -/
inductive Packet where
  | epochRollover (activeEpoch : EpochId) (proposedEpoch : ℕ+) (rolloverBlock : Nat)
      (groupId : B256) (groupKey : Point)
  | transaction (epoch : EpochId) (oracle : Address) (oracleData : Bytes)
      (transaction : SafeTransaction)
  deriving DecidableEq

/-- The epoch whose group this packet is signed by. -/
def Packet.epoch : Packet → EpochId
  | .epochRollover activeEpoch .. => activeEpoch
  | .transaction epoch .. => epoch

/-- Waiting for the `Sign` request; `responsible` is `none` when it is everyone. -/
structure WaitingForRequest where
  keyShare : KeyShare E
  groupId : B256
  responsible : Option Address
  packet : Packet
  signers : Finset Address
  deadline : Nat

/-- On hold until the oracle's result lands. -/
structure WaitingForOracle where
  keyShare : KeyShare E
  oracle : Address
  groupId : B256
  signatureId : B256
  nonce : NonceIndex
  packet : Packet
  signers : Finset Address
  deadline : Nat

/-- Collecting the signers' revealed nonce commitments. -/
structure CollectNonceCommitments where
  keyShare : KeyShare E
  groupId : B256
  signatureId : B256
  nonce : NonceIndex
  revealed : BTreeMap Address (RevealedNonces E)
  lastSigner : Option Address
  packet : Packet
  signers : Finset Address
  deadline : Nat

/-- A signing selection: who submitted a share to it, and who did last. -/
structure SigningSelection where
  sharesFrom : Finset Address
  lastSigner : Option Address
  deriving DecidableEq

instance : Inhabited SigningSelection := ⟨∅, none⟩

/-- Every nonce commitment is revealed; collecting the signature shares. -/
structure CollectSigningShares where
  keyShare : KeyShare E
  groupId : B256
  signatureId : B256
  revealed : BTreeMap Address (RevealedNonces E)
  selections : BTreeMap B256 SigningSelection
  packet : Packet
  signers : Finset Address
  deadline : Nat

/-- A group signature was produced; waiting for its attestation. -/
structure WaitingForAttestation where
  signatureId : B256
  packet : Packet
  deadline : Nat

/-- A signing session, keyed by the message it signs. -/
inductive SigningState where
  | waitingForRequest (s : WaitingForRequest E)
  | waitingForOracle (s : WaitingForOracle E)
  | collectNonceCommitments (s : CollectNonceCommitments E)
  | collectSigningShares (s : CollectSigningShares E)
  | waitingForAttestation (s : WaitingForAttestation)

namespace SigningState

variable {E}

/-- The block deadline of the current state. -/
def deadline : SigningState E → Nat
  | .waitingForRequest s => s.deadline
  | .waitingForOracle s => s.deadline
  | .collectNonceCommitments s => s.deadline
  | .collectSigningShares s => s.deadline
  | .waitingForAttestation s => s.deadline

/-- The signature id of the session, if one is assigned. -/
def signatureId : SigningState E → Option B256
  | .waitingForRequest _ => none
  | .waitingForOracle s => some s.signatureId
  | .collectNonceCommitments s => some s.signatureId
  | .collectSigningShares s => some s.signatureId
  | .waitingForAttestation s => some s.signatureId

/-- The packet being signed. -/
def packet : SigningState E → Packet
  | .waitingForRequest s => s.packet
  | .waitingForOracle s => s.packet
  | .collectNonceCommitments s => s.packet
  | .collectSigningShares s => s.packet
  | .waitingForAttestation s => s.packet

/-- The group the session signs with, which is forgotten once its signature is produced. -/
def groupId : SigningState E → Option B256
  | .waitingForRequest s => some s.groupId
  | .waitingForOracle s => some s.groupId
  | .collectNonceCommitments s => some s.groupId
  | .collectSigningShares s => some s.groupId
  | .waitingForAttestation _ => none

end SigningState

/-- The complete snapshotted validator state. -/
structure State where
  rollover : RolloverState E
  activeEpoch : EpochId
  epochs : BTreeMap EpochId (Epoch E)
  signing : BTreeMap B256 (SigningState E)
  signatureIdToMessage : BTreeMap B256 B256

/-- `State::default`. -/
def State.default : State E where
  rollover := .waitingForGenesis
  activeEpoch := .genesis
  epochs := ∅
  signing := ∅
  signatureIdToMessage := ∅

/-! ## 3. Events, actions, effects and resumes -/

/-- The events the validator dispatches on; the others are `unhandled`. -/
inductive Event where
  | keyGen (gid : B256)
  | keyGenCommitted (gid : B256) (participant : Address) (commitment : KeyGenCommitment)
  | keyGenSecretShared (gid : B256) (participant : Address) (share : KeyGenSecretShare)
  | keyGenConfirmed (gid : B256) (participant : Address)
  | keyGenComplained (gid : B256) (plaintiff accused : Address) (compromised : Bool)
  | keyGenComplaintResponded (gid : B256) (plaintiff accused : Address) (secretShare : U256)
  | preprocess (gid : B256) (participant : Address) (chunk : Nat) (commitment : B256)
  | sign (gid message sid : B256) (sequence : Nat)
  | signRevealedNonces (sid : B256) (participant : Address) (nonces : SignNonces)
  | signShared (sid selectionRoot : B256) (participant : Address)
  | signCompleted (sid : B256)
  | epochStaged (proposedEpoch : Nat) (groupId signatureId : B256)
  | transactionProposed (oracle : Address) (epoch : Nat) (oracleData : Bytes)
      (transaction : SafeTransaction)
  | transactionAttested (safeTxHash : B256) (oracle : Address) (epoch : Nat)
      (oracleDataHash signatureId : B256)
  | oracleResult (requestId : B256) (approved : Bool)
  | unhandled
  deriving DecidableEq

/-- An onchain action the validator emits. -/
inductive Action where
  | keyGenAndCommit (participants : B256) (count threshold : Nat) (context : B256)
      (poap : List B256) (commitment : KeyGenCommitment) (expiresAt : Option Nat)
  | keyGenSecretShare (groupId : B256) (share : KeyGenSecretShare) (expiresAt : Option Nat)
  | keyGenComplain (groupId : B256) (accused : Address) (expiresAt : Option Nat)
  | keyGenConfirm (groupId : B256) (callback : Option Callback) (expiresAt : Option Nat)
  | keyGenComplaintResponse (groupId : B256) (plaintiff : Address) (secretShare : U256)
      (expiresAt : Option Nat)
  | preprocess (groupId noncesCommitment : B256)
  | revealNonceCommitments (signatureId : B256) (nonces : SignNonces) (proof : List B256)
      (expiresAt : Nat)
  | signShare (signatureId : B256) (selection : SignSelection) (share : SignatureShare)
      (proof : List B256) (callback : Callback) (expiresAt : Nat)
  | sign (groupId message : B256) (expiresAt : Nat)
  | attestTransaction (epoch : EpochId) (oracle : Address) (oracleDataHash : B256)
      (chainId : U256) (safe : Address) (safeTxStructHash signatureId : B256) (expiresAt : Nat)
  | stageEpoch (proposedEpoch : ℕ+) (rolloverBlock : Nat) (groupId signatureId : B256)
      (expiresAt : Nat)
  deriving DecidableEq

/-- An impure operation the transition asks the handler to perform. -/
inductive Effect where
  | keyGenSetup (groupId : B256) (count threshold : Nat)
  | startNonceGeneration (groupId : B256) (keyShare : KeyShare E)
  | nonceTree (groupId : B256)
  | revealNonceCommitments (signatureId message root : B256) (offset : Nat)
  | useNonce (message root : B256) (offset : Nat)
  | reconcileGroupSecrets (groups : BTreeMap B256 (Option (KeyShare E)))

/-- The result of performing an effect. -/
inductive Resume where
  | noop
  | setup (groupId : B256) (secrets : Secrets E)
  | nonceTree (groupId commitment : B256)
  | nonceCommitments (signatureId message : B256) (nonces : SignNonces) (proof : List B256)
  | nonce (message : B256) (nonces : Nonces E)

/-! ## 4. The transition's parameters -/

/-- The configuration the state machine reads. -/
structure ValidatorConfig where
  consensus : Address
  participants : List Participant
  oracles : Finset Address
  genesisSalt : B256
  blocksPerEpoch : ℕ+
  keyGenTimeout : ℕ+
  signingTimeout : ℕ+
  oracleTimeout : ℕ+

/-- The pure validator state transition: its account and its machine configuration. -/
structure Transition where
  account : Address
  genesis : ParticipantSet
  consensus : ConsensusDomain
  config : ValidatorConfig
  /-- The service is refused when the configured validators form no genesis group. -/
  genesis_eq : participantsSet E.keccak256 config.participants (.genesis config.genesisSalt) =
    some genesis

/-- The commands a transition emits. -/
abbrev Commands : Type := List (Command Action (Effect E))

/-- The messages a transition consumes. -/
abbrev Msg : Type := Message Event (Resume E)

end Safenet
