/-
# Nonce preprocessing and group reconciliation

`state/preprocess.rs`: the canonical nonce state of a participating epoch, the handlers that
link and top up its chunks, and the per-block reconciliation of the secret material with the
groups the state still needs.
-/
import Safenet.Validator.State

namespace Safenet

open Frost

/-! ## 1. The nonce state -/

namespace NonceState

/-- `NonceState::default`. -/
def default : NonceState := ⟨0, ∅⟩

/-- The store coordinates of the nonce linked to `sequence`, if any.  The observed sequence
advances, and roots that can no longer be used are forgotten. -/
def observe (n : NonceState) (sequence : Nat) : NonceState × Option NonceIndex :=
  let (chunk, offset) := decodeSequence sequence
  let nonce := n.chunks[chunk]?.join.map fun root => { root, offset }
  let nextSequence := satAdd sequence 1
  let (nextChunk, _) := decodeSequence nextSequence
  ({ nextSequence, chunks := BTreeMap.splitOff n.chunks nextChunk }, nonce)

/-- The chunk the contract is expected to assign to the next commitment. -/
def expectedChunk (n : NonceState) : Option Nat :=
  let (chunk, _) := decodeSequence n.nextSequence
  match n.chunks.toList.getLast? with
  | some (last, _) => if last < u64Max then some (max (last + 1) chunk) else none
  | none => some chunk

/-- Reserve the next chunk, marking it as pending. -/
def reserveChunk (n : NonceState) : NonceState × Option Nat :=
  match n.expectedChunk with
  | some chunk => ({ n with chunks := n.chunks.insert chunk none }, some chunk)
  | none => (n, none)

/-- Record an onchain assignment. -/
def link (n : NonceState) (chunk : Nat) (root : B256) : NonceState :=
  { n with chunks := n.chunks.insert chunk (some root) }

/-- Ensure that there is a pending chunk reservation. -/
def ensureChunkReservation (n : NonceState) : NonceState :=
  match n.chunks.toList.getLast? with
  | some (_, none) => n
  | _ => n.reserveChunk.1

/-- The canonical and pending nonce capacity from the next sequence on. -/
def available (n : NonceState) : Nat :=
  let (chunk, offset) := decodeSequence n.nextSequence
  ((BTreeMap.splitOff n.chunks chunk).keys.map fun key =>
    if key = chunk then sequenceChunkSize - offset else sequenceChunkSize).sum

end NonceState

/-- The remaining nonce capacity below which another chunk is requested. -/
def nonceTopupThreshold : Nat := 100

/-! ## 2. The handlers -/

namespace State

variable {E : Crates}

/-- The tracked epoch whose group has id `gid`. -/
def findGroup (state : State E) (gid : B256) : Option (EpochId × Epoch E) :=
  BTreeMap.findValue? state.epochs fun epoch => epoch.group.id = gid

/-- Replace the nonce state of a tracked epoch. -/
def setNonces (state : State E) (key : EpochId) (epoch : Epoch E) (nonces : NonceState) :
    State E :=
  { state with epochs := state.epochs.insert key { epoch with nonces } }

end State

namespace Transition

variable {E : Crates} (T : Transition E)

/-- Publishes a freshly sampled nonce tree's commitment. -/
def handleNonceTree (state : State E) (groupId noncesCommitment : B256) :
    State E × Commands E :=
  match state.findGroup groupId with
  | none => (state, [])
  | some (key, epoch) =>
    (state.setNonces key epoch epoch.nonces.ensureChunkReservation,
      [.action (.preprocess groupId noncesCommitment)])

/-- Records this validator's nonce tree at its canonical chunk. -/
def handlePreprocess (state : State E) (gid : B256) (participant : Address) (chunk : Nat)
    (commitment : B256) : State E × Commands E :=
  if participant ≠ T.account then (state, [])
  else match state.findGroup gid with
    | none => (state, [])
    | some (key, epoch) => (state.setNonces key epoch (epoch.nonces.link chunk commitment), [])

/-- Requests another nonce tree for the active epoch when its supply runs low. -/
def handleNonceTopup (state : State E) : State E × Commands E :=
  match state.epochs[state.activeEpoch]? with
  | none => (state, [])
  | some epoch =>
    if nonceTopupThreshold ≤ epoch.nonces.available then (state, [])
    else match epoch.nonces.reserveChunk with
      | (_, none) => (state, [])
      | (nonces, some _) =>
        (state.setNonces state.activeEpoch epoch nonces, [.effect (.nonceTree epoch.group.id)])

/-- The group of the key generation underway that this validator still holds secrets for: with
its key share once it has one, without while it is building it. -/
def retainedKeyGen : RolloverState E → Option (B256 × Option (KeyShare E))
  | .collectingConfirmations c =>
    match c.status, c.participation with
    | .confirmed keyShare, _ => some (c.group.id, some keyShare)
    | _, .participating _ => some (c.group.id, none)
    | _, .observing _ => none
  | .signingRollover c => c.keyShare.map fun keyShare => (c.group.id, some keyShare)
  | .collectingCommitments c =>
    match c.secrets with
    | .participating _ _ => some (c.group.id, none)
    | .observing => none
  | .collectingShares c =>
    match c.participation with
    | .participating _ => some (c.group.id, none)
    | .observing _ => none
  | _ => none

/-- The oldest epoch a signing session or the active epoch still needs. -/
def oldestEpoch (state : State E) : EpochId :=
  (state.signing.values.map fun signing => signing.packet.epoch).foldl EpochId.min
    state.activeEpoch

/-- The groups whose secret material is kept: every tracked epoch's, and the key generation's. -/
def retainedGroups (epochs : BTreeMap EpochId (Epoch E)) (rollover : RolloverState E) :
    BTreeMap B256 (Option (KeyShare E)) :=
  let groups : BTreeMap B256 (Option (KeyShare E)) :=
    epochs.values.foldl (fun t epoch => t.insert epoch.group.id (some epoch.keyShare)) ∅
  match retainedKeyGen rollover with
  | some (groupId, keyShare) => groups.insert groupId keyShare
  | none => groups

/-- Reaps epochs no longer needed and reconciles the secret material with the rest. -/
def handleGroupReconciliation (state : State E) : State E × Commands E :=
  let epochs := BTreeMap.splitOff state.epochs (oldestEpoch state)
  ({ state with epochs }, [.effect (.reconcileGroupSecrets (retainedGroups epochs state.rollover))])

end Transition

end Safenet
