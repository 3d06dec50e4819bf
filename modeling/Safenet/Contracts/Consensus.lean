/-
# The consensus contract

`Consensus.sol`: which epoch is active, which one is staged, and which messages the groups have
attested to.  A staged epoch becomes active at its rollover block, but the contract writes that
down only when the next call asks (`processRollover`); the getters compute it
(`epochsWithRollover`).

The coordinator is called on the way: it tells the group keys, opens the signatures for what is
proposed, and is the one judge of an attestation (`Coordinator.signatureVerify`).  The two
contracts run as one `System`.  A callback is the coordinator's call to the consensus contract
that follows its own; an oracle is called last, so whatever it calls is the rest of the run.

* `Consensus.Sound` -- the order of the epochs, and that no group was recorded for an epoch ahead
  of them, which is why a proposed epoch never overwrites one;
* `Recorded` -- where the attestations come from, and that no later one replaces them.

A rollover is attested without looking whether its message is attested already.  It cannot be,
because the pair of epochs it names is staged once -- provided that no OTHER attested packet has
the same hash, which is the one thing assumed of Keccak.
-/
import Safenet.Contracts.KeyGeneration

namespace Safenet

/-! ## 1. What the coordinator is asked -/

namespace Coordinator

/-- `groupKey`: the key of a finalized group. -/
def groupKey (C : Coordinator) (gid : B256) : Option Point :=
  if (C.groups gid).state.status = .finalized then some (C.groups gid).key else none

/-- `signatureVerify`: the completed signature, if it is one of the group over the message. -/
def signatureVerify (C : Coordinator) (sid gid message : B256) : Option FrostSignature :=
  let s := C.signatures sid
  if s.signed = 0 then none
  else if gid = SignatureId.group sid ∧ message = s.message then
    some (s.shares.groupSignature s.signed)
  else none

end Coordinator

/-! ## 2. The messages -/

namespace ConsensusMessages

variable (keccak256 : Bytes → B256) (domain : B256)

/-- `epochRollover`. -/
def epochRollover (activeEpoch proposedEpoch rolloverBlock : Nat) (groupKey : Point) : B256 :=
  signingHash keccak256 domain (keccak256 (B256.toBytes (keccak256 (asBytes
      "EpochRollover(uint64 activeEpoch,uint64 proposedEpoch,uint64 rolloverBlock,uint256 groupKeyX,uint256 groupKeyY)"))
    ++ beBytes 32 activeEpoch ++ beBytes 32 proposedEpoch ++ beBytes 32 rolloverBlock
    ++ beBytes 32 groupKey.x.val ++ beBytes 32 groupKey.y.val))

/-- `transactionProposal`. -/
def transactionProposal (epoch : Nat) (oracle : Address) (oracleDataHash safeTxHash : B256) :
    B256 :=
  signingHash keccak256 domain (keccak256 (B256.toBytes (keccak256 (asBytes
      "TransactionProposal(uint64 epoch,address oracle,bytes oracleData,bytes32 safeTxHash)"))
    ++ beBytes 32 epoch ++ beBytes 32 oracle.val ++ B256.toBytes oracleDataHash
    ++ B256.toBytes safeTxHash))

/-- The validators hash the same rollover. -/
theorem epochRolloverHash_eq (d : ConsensusDomain) (activeEpoch : EpochId) (proposedEpoch : ℕ+)
    (rolloverBlock : Nat) (groupKey : Point) :
    d.epochRolloverHash keccak256 activeEpoch proposedEpoch rolloverBlock groupKey =
      epochRollover keccak256 (domainSeparator keccak256 d.chain d.consensus)
        activeEpoch.rawValue proposedEpoch rolloverBlock groupKey := rfl

/-- The validators hash the same transaction. -/
theorem transactionProposalHash_eq (d : ConsensusDomain) (epoch : EpochId) (oracle : Address)
    (oracleDataHash safeTxHash : B256) :
    d.transactionProposalHash keccak256 epoch oracle oracleDataHash safeTxHash =
      transactionProposal keccak256 (domainSeparator keccak256 d.chain d.consensus)
        epoch.rawValue oracle oracleDataHash safeTxHash := rfl

end ConsensusMessages

/-! ## 3. Storage, logs and calls -/

/-- `Epochs`; no epoch is staged when `staged` is zero. -/
structure Epochs where
  previous : Nat
  active : Nat
  staged : Nat
  rolloverBlock : Nat
  deriving DecidableEq

/-- The storage of the contract. -/
structure Consensus where
  epochs : Epochs
  groups : Nat → B256
  attestations : B256 → B256
  validatorStakers : Address → Address

/-- What the two contracts log. -/
inductive SystemLog where
  | coordinator (event : Event)
  | validatorStakerSet (validator staker : Address)
  | epochProposed (activeEpoch proposedEpoch rolloverBlock : Nat) (groupId : B256)
      (groupKey : Point)
  | epochStaged (activeEpoch proposedEpoch rolloverBlock : Nat) (groupId : B256)
      (groupKey : Point) (signatureId : B256) (attestation : FrostSignature)
  | epochRolledOver (newActiveEpoch : Nat)
  | transactionProposed (safeTxHash safeId : B256) (oracle : Address) (epoch : Nat)
      (oracleData : Bytes) (transaction : SafeTransaction)
  | transactionAttested (safeTxHash safeId : B256) (oracle : Address) (epoch : Nat)
      (oracleDataHash signatureId : B256) (attestation : FrostSignature)

/-- A call to the contract.  The coordinator calls back with the context its caller gave. -/
inductive ConsensusCall where
  | setValidatorStaker (staker : Address)
  | proposeEpoch (proposedEpoch rolloverBlock : Nat) (groupId : B256)
  | stageEpoch (proposedEpoch rolloverBlock : Nat) (groupId signatureId : B256)
  | proposeTransaction (oracle : Address) (oracleData : Bytes) (transaction : SafeTransaction)
  | attestTransaction (epoch : Nat) (oracle : Address) (oracleDataHash : B256) (chainId : U256)
      (safe : Address) (safeTxStructHash signatureId : B256)
  | onKeyGenCompleted (groupId : B256) (context : CallbackContext)
  | onSignCompleted (signatureId : B256) (context : CallbackContext)

/-- `SafeId.create`. -/
def safeId (chainId : U256) (safe : Address) : Option B256 :=
  if chainId.val < 2 ^ 96 then some (Fin.ofNat _ (chainId.val * 2 ^ 160 + safe.val)) else none

/-- The two contracts. -/
structure System where
  coordinator : Coordinator
  consensus : Consensus

/-- What is fixed at deployment: the libraries, the domain and the coordinator's address. -/
structure Deployment where
  L : ContractLibraries
  domain : ConsensusDomain
  coordinator : Address

namespace Deployment

/-- `domainSeparator`. -/
def separator (D : Deployment) : B256 :=
  domainSeparator D.L.keccak256 D.domain.chain D.domain.consensus

end Deployment

namespace Consensus

/-- The contract as constructed over a genesis group. -/
def deployed (groupId : B256) : Consensus where
  epochs := ⟨0, 0, 0, 0⟩
  groups := Function.update (fun _ => 0) 0 groupId
  attestations := fun _ => 0
  validatorStakers := fun _ => 0

variable (D : Deployment) (K : Consensus) (block : Nat)

/-- `_epochsWithRollover`: the epochs as of a block, and whether a rollover is due. -/
def epochsWithRollover : Epochs × Bool :=
  if K.epochs.staged ≠ 0 ∧ K.epochs.rolloverBlock ≤ block then
    (⟨K.epochs.active, K.epochs.staged, 0, 0⟩, true)
  else (K.epochs, false)

/-- `getEpochsState`. -/
def getEpochsState : Epochs := (K.epochsWithRollover block).1

/-- `getActiveEpoch`. -/
def getActiveEpoch : Nat × B256 :=
  let epochs := (K.epochsWithRollover block).1
  (epochs.active, K.groups epochs.active)

/-- `_processRollover`. -/
def processRollover : Consensus × List SystemLog :=
  let (epochs, rolledOver) := K.epochsWithRollover block
  if rolledOver then ({ K with epochs }, [.epochRolledOver epochs.active]) else (K, [])

/-- `_requireValidRollover`. -/
def ValidRollover (epochs : Epochs) (block proposedEpoch rolloverBlock : Nat) : Prop :=
  epochs.active < proposedEpoch ∧ block < rolloverBlock ∧ epochs.staged = 0

instance (epochs : Epochs) (block proposedEpoch rolloverBlock : Nat) :
    Decidable (ValidRollover epochs block proposedEpoch rolloverBlock) :=
  inferInstanceAs (Decidable (_ ∧ _ ∧ _))

/-- `proposeEpoch`. -/
def proposeEpoch (C : Coordinator) (proposedEpoch rolloverBlock : Nat) (groupId : B256) :
    Option (Coordinator × Consensus × List SystemLog) := do
  let (K, rolled) := K.processRollover block
  if ValidRollover K.epochs block proposedEpoch rolloverBlock then
    let groupKey ← C.groupKey groupId
    let message := ConsensusMessages.epochRollover D.L.keccak256 D.separator K.epochs.active
      proposedEpoch rolloverBlock groupKey
    let (C, signed) ← C.sign (K.groups K.epochs.active) message
    return (C, K, rolled ++
      .epochProposed K.epochs.active proposedEpoch rolloverBlock groupId groupKey ::
        signed.map .coordinator)
  else none

/-- `stageEpoch`. -/
def stageEpoch (C : Coordinator) (proposedEpoch rolloverBlock : Nat)
    (groupId signatureId : B256) : Option (Consensus × List SystemLog) := do
  let (K, rolled) := K.processRollover block
  if ValidRollover K.epochs block proposedEpoch rolloverBlock then
    let groupKey ← C.groupKey groupId
    let message := ConsensusMessages.epochRollover D.L.keccak256 D.separator K.epochs.active
      proposedEpoch rolloverBlock groupKey
    let attestation ← C.signatureVerify signatureId (K.groups K.epochs.active) message
    return ({ K with
        epochs := { K.epochs with staged := proposedEpoch, rolloverBlock }
        groups := Function.update K.groups proposedEpoch groupId
        -- not checked to be zero before
        attestations := Function.update K.attestations message signatureId },
      rolled ++ [.epochStaged K.epochs.active proposedEpoch rolloverBlock groupId groupKey
        signatureId attestation])
  else none

/-- `proposeTransaction`, up to its call of the oracle. -/
def proposeTransaction (C : Coordinator) (oracle : Address) (oracleData : Bytes)
    (transaction : SafeTransaction) : Option (Coordinator × Consensus × List SystemLog) := do
  let (K, rolled) := K.processRollover block
  let hash := safeTxHash D.L.keccak256 transaction
  let message := ConsensusMessages.transactionProposal D.L.keccak256 D.separator K.epochs.active
    oracle (D.L.keccak256 oracleData) hash
  if K.attestations message = 0 then
    let safe ← safeId transaction.chainId transaction.safe
    let (C, signed) ← C.sign (K.groups K.epochs.active) message
    return (C, K, rolled ++
      .transactionProposed hash safe oracle K.epochs.active oracleData transaction ::
        signed.map .coordinator)
  else none

/-- `attestTransaction`, which does not look at the active epoch. -/
def attestTransaction (C : Coordinator) (epoch : Nat) (oracle : Address) (oracleDataHash : B256)
    (chainId : U256) (safe : Address) (safeTxStructHash signatureId : B256) :
    Option (Consensus × List SystemLog) := do
  let hash := signingHash D.L.keccak256 (domainSeparator D.L.keccak256 chainId.val safe)
    safeTxStructHash
  let message := ConsensusMessages.transactionProposal D.L.keccak256 D.separator epoch oracle
    oracleDataHash hash
  if K.attestations message = 0 then
    let attestation ← C.signatureVerify signatureId (K.groups epoch) message
    let safeId ← safeId chainId safe
    return ({ K with attestations := Function.update K.attestations message signatureId },
      [.transactionAttested hash safeId oracle epoch oracleDataHash signatureId attestation])
  else none

end Consensus

/-- The call a callback makes on its own contract; only the coordinator may call back. -/
def ConsensusCall.resolve (D : Deployment) (sender : Address) :
    ConsensusCall → Option ConsensusCall
  | .onKeyGenCompleted groupId context =>
    if sender = D.coordinator then
      match context with
      | .proposeEpoch proposedEpoch rolloverBlock =>
        some (.proposeEpoch proposedEpoch rolloverBlock groupId)
      | _ => none
    else none
  | .onSignCompleted signatureId context =>
    if sender = D.coordinator then
      match context with
      | .stageEpoch proposedEpoch rolloverBlock groupId _ =>
        some (.stageEpoch proposedEpoch rolloverBlock groupId signatureId)
      | .attestTransaction epoch oracle oracleDataHash chainId safe safeTxStructHash _ =>
        some (.attestTransaction epoch oracle oracleDataHash chainId safe safeTxStructHash
          signatureId)
      | .proposeEpoch .. => none
    else none
  | call => some call

/-- A call to one of the two contracts, at a block. -/
inductive SystemCall where
  | coordinator (sender : Address) (call : Coordinator.Call)
  | consensus (block : Nat) (sender : Address) (call : ConsensusCall)

namespace System

variable (D : Deployment)

/-- Execute a call of the consensus contract. -/
def execConsensus (s : System) (block : Nat) (sender : Address) (call : ConsensusCall) :
    Option (System × List SystemLog) := do
  match ← call.resolve D sender with
  | .setValidatorStaker staker =>
    let validatorStakers := Function.update s.consensus.validatorStakers sender staker
    return ({ s with consensus := { s.consensus with validatorStakers } },
      [.validatorStakerSet sender staker])
  | .proposeEpoch proposedEpoch rolloverBlock groupId =>
    let (coordinator, consensus, logs) ←
      s.consensus.proposeEpoch D block s.coordinator proposedEpoch rolloverBlock groupId
    return (⟨coordinator, consensus⟩, logs)
  | .stageEpoch proposedEpoch rolloverBlock groupId signatureId =>
    let (consensus, logs) ← s.consensus.stageEpoch D block s.coordinator proposedEpoch
      rolloverBlock groupId signatureId
    return ({ s with consensus }, logs)
  | .proposeTransaction oracle oracleData transaction =>
    let (coordinator, consensus, logs) ←
      s.consensus.proposeTransaction D block s.coordinator oracle oracleData transaction
    return (⟨coordinator, consensus⟩, logs)
  | .attestTransaction epoch oracle oracleDataHash chainId safe safeTxStructHash signatureId =>
    let (consensus, logs) ← s.consensus.attestTransaction D s.coordinator epoch oracle
      oracleDataHash chainId safe safeTxStructHash signatureId
    return ({ s with consensus }, logs)
  | .onKeyGenCompleted .. => none
  | .onSignCompleted .. => none

/-- Execute a call. -/
def exec (s : System) : SystemCall → Option (System × List SystemLog)
  | .coordinator sender call =>
    (s.coordinator.exec D.L sender call).map fun r =>
      ({ s with coordinator := r.1 }, r.2.map .coordinator)
  | .consensus block sender call => execConsensus D s block sender call

/-- Execute calls in order.  One that reverts changes nothing and logs nothing. -/
def execAll (s : System) : List SystemCall → System × List SystemLog
  | [] => (s, [])
  | call :: calls =>
    match exec D s call with
    | some (s, logs) =>
      let (s, rest) := execAll s calls
      (s, logs ++ rest)
    | none => execAll s calls

/-- Fresh contracts over a genesis group. -/
def deployed (groupId : B256) : System := ⟨Coordinator.initial, Consensus.deployed groupId⟩

end System

/-! ## 4. What a call does to the contract -/

/-- A packet a group attests to. -/
inductive Attestation where
  | rollover (activeEpoch proposedEpoch rolloverBlock : Nat) (groupKey : Point)
  | transaction (epoch : Nat) (oracle : Address) (oracleDataHash safeTxHash : B256)

namespace Attestation

/-- The epoch whose group attests. -/
def epoch : Attestation → Nat
  | .rollover activeEpoch .. => activeEpoch
  | .transaction epoch .. => epoch

/-- The message that is signed. -/
def message (D : Deployment) : Attestation → B256
  | .rollover activeEpoch proposedEpoch rolloverBlock groupKey =>
    ConsensusMessages.epochRollover D.L.keccak256 D.separator activeEpoch proposedEpoch
      rolloverBlock groupKey
  | .transaction epoch oracle oracleDataHash safeTxHash =>
    ConsensusMessages.transactionProposal D.L.keccak256 D.separator epoch oracle oracleDataHash
      safeTxHash

/-- The attestations some logs announce, with their signature ids. -/
def announced (logs : List SystemLog) : List (Attestation × B256) :=
  logs.filterMap fun
    | .epochStaged activeEpoch proposedEpoch rolloverBlock _ groupKey signatureId _ =>
      some (.rollover activeEpoch proposedEpoch rolloverBlock groupKey, signatureId)
    | .transactionAttested safeTxHash _ oracle epoch oracleDataHash signatureId _ =>
      some (.transaction epoch oracle oracleDataHash safeTxHash, signatureId)
    | _ => none

theorem announced_append (a b : List SystemLog) : announced (a ++ b) = announced a ++ announced b :=
  List.filterMap_append

theorem announced_coordinator (events : List Event) :
    announced (events.map .coordinator) = [] := by
  rw [announced, List.filterMap_map, List.filterMap_eq_nil_iff]
  intro e _
  rfl

end Attestation

namespace Consensus

open Attestation

variable {D : Deployment} {K : Consensus} {block : Nat}

/-- The contract with a due rollover processed. -/
def rolled (K : Consensus) (block : Nat) : Consensus :=
  { K with epochs := (K.epochsWithRollover block).1 }

theorem processRollover_fst (K : Consensus) (block : Nat) :
    (K.processRollover block).1 = K.rolled block := by
  simp only [processRollover, rolled, epochsWithRollover]
  split <;> rfl

theorem announced_processRollover (K : Consensus) (block : Nat) :
    announced (K.processRollover block).2 = [] := by
  simp only [processRollover]
  split <;> rfl

/-- The coordinator verified a signature of the group of the attestation's epoch. -/
def Verified (D : Deployment) (C : Coordinator) (K : Consensus) (a : Attestation) (sid : B256) :
    Prop :=
  ∃ signature, C.signatureVerify sid (K.groups a.epoch) (a.message D) = some signature

/-- What an accepted call leaves of the contract, and what it attests. -/
inductive Step (D : Deployment) (C : Coordinator) (block : Nat) (K : Consensus) :
    List (Attestation × B256) → Consensus → Prop where
  | staker (validatorStakers : Address → Address) : Step D C block K [] { K with validatorStakers }
  | proposed : Step D C block K [] (K.rolled block)
  | staged {p r : Nat} {groupId sid : B256} {groupKey : Point} :
      ValidRollover (K.rolled block).epochs block p r →
      Verified D C (K.rolled block)
        (.rollover (K.rolled block).epochs.active p r groupKey) sid →
      Step D C block K [(.rollover (K.rolled block).epochs.active p r groupKey, sid)]
        { K with
          epochs := { (K.rolled block).epochs with staged := p, rolloverBlock := r }
          groups := Function.update K.groups p groupId
          attestations := Function.update K.attestations
            ((Attestation.rollover (K.rolled block).epochs.active p r groupKey).message D) sid }
  | attested {epoch : Nat} {oracle : Address} {dataHash hash sid : B256} :
      K.attestations ((Attestation.transaction epoch oracle dataHash hash).message D) = 0 →
      Verified D C K (.transaction epoch oracle dataHash hash) sid →
      Step D C block K [(.transaction epoch oracle dataHash hash, sid)]
        { K with
          attestations := Function.update K.attestations
            ((Attestation.transaction epoch oracle dataHash hash).message D) sid }

end Consensus

namespace System

open Attestation Consensus

variable {D : Deployment} {s s' : System} {logs : List SystemLog}

/-- **What an accepted call of the contract did.** -/
theorem execConsensus_step {block : Nat} {sender : Address} {call : ConsensusCall}
    (h : execConsensus D s block sender call = some (s', logs)) :
    Consensus.Step D s.coordinator block s.consensus (announced logs) s'.consensus := by
  simp only [execConsensus, bind, Option.bind_eq_some_iff] at h
  obtain ⟨base, -, h⟩ := h
  cases base with
  | setValidatorStaker staker =>
    simp only [pure, Option.some.injEq, Prod.mk.injEq] at h
    obtain ⟨rfl, rfl⟩ := h
    exact .staker _
  | proposeEpoch p r gid =>
    simp only [pure, Option.bind_eq_some_iff, Option.some.injEq, Prod.mk.injEq] at h
    obtain ⟨⟨C, K, logs'⟩, hp, rfl, rfl⟩ := h
    unfold Consensus.proposeEpoch at hp
    dsimp only at hp
    split at hp
    · simp only [bind, Option.bind_eq_some_iff, pure, Option.some.injEq, Prod.mk.injEq] at hp
      obtain ⟨key, -, ⟨C', signed⟩, -, rfl, rfl, rfl⟩ := hp
      rw [announced_append, announced_processRollover, processRollover_fst]
      have hnil : announced (.epochProposed (s.consensus.rolled block).epochs.active p r gid key ::
          signed.map .coordinator) = [] := announced_coordinator signed
      rw [hnil]
      exact .proposed
    · exact absurd hp (by simp)
  | stageEpoch p r gid sid =>
    simp only [pure, Option.bind_eq_some_iff, Option.some.injEq, Prod.mk.injEq] at h
    obtain ⟨⟨K, logs'⟩, hp, rfl, rfl⟩ := h
    unfold Consensus.stageEpoch at hp
    dsimp only at hp
    split at hp
    · rename_i hvalid
      simp only [bind, Option.bind_eq_some_iff, pure, Option.some.injEq, Prod.mk.injEq] at hp
      obtain ⟨key, -, signature, hv, rfl, rfl⟩ := hp
      rw [announced_append, announced_processRollover]
      simp only [processRollover_fst] at hvalid hv ⊢
      exact .staged hvalid ⟨signature, hv⟩
    · exact absurd hp (by simp)
  | proposeTransaction oracle data tx =>
    simp only [pure, Option.bind_eq_some_iff, Option.some.injEq, Prod.mk.injEq] at h
    obtain ⟨⟨C, K, logs'⟩, hp, rfl, rfl⟩ := h
    unfold Consensus.proposeTransaction at hp
    dsimp only at hp
    split at hp
    · simp only [bind, Option.bind_eq_some_iff, pure, Option.some.injEq, Prod.mk.injEq] at hp
      obtain ⟨safe, -, ⟨C', signed⟩, -, rfl, rfl, rfl⟩ := hp
      rw [announced_append, announced_processRollover, processRollover_fst]
      have hnil : ∀ hash, announced (.transactionProposed hash safe oracle
          (s.consensus.rolled block).epochs.active data tx :: signed.map .coordinator) = [] :=
        fun _ => announced_coordinator signed
      rw [hnil]
      exact .proposed
    · exact absurd hp (by simp)
  | attestTransaction epoch oracle dataHash chainId safe structHash sid =>
    simp only [pure, Option.bind_eq_some_iff, Option.some.injEq, Prod.mk.injEq] at h
    obtain ⟨⟨K, logs'⟩, hp, rfl, rfl⟩ := h
    unfold Consensus.attestTransaction at hp
    dsimp only at hp
    split at hp
    · rename_i hzero
      simp only [bind, Option.bind_eq_some_iff, pure, Option.some.injEq, Prod.mk.injEq] at hp
      obtain ⟨signature, hv, safe', -, rfl, rfl⟩ := hp
      exact .attested hzero ⟨signature, hv⟩
    · exact absurd hp (by simp)
  | onKeyGenCompleted gid context => exact absurd h (by simp)
  | onSignCompleted sid context => exact absurd h (by simp)

end System

/-! ## 5. The invariants -/

namespace Consensus

open Attestation

variable {D : Deployment} {C : Coordinator} {block : Nat} {K K' : Consensus}

/-- The last epoch a group was recorded for. -/
def horizon (K : Consensus) : Nat := max K.epochs.active K.epochs.staged

/-- The epochs are in order, and no group was recorded for one ahead of them. -/
structure Sound (K : Consensus) : Prop where
  previous_le : K.epochs.previous ≤ K.epochs.active
  active_lt : K.epochs.staged ≠ 0 → K.epochs.active < K.epochs.staged
  group_le : ∀ e, K.groups e ≠ 0 → e ≤ K.horizon

theorem sound_deployed (groupId : B256) : (deployed groupId).Sound := by
  constructor
  · exact le_rfl
  · intro h
    exact absurd rfl h
  · intro e he
    by_contra hlt
    have hne : e ≠ 0 := by
      rintro rfl
      exact hlt (Nat.zero_le _)
    simp only [deployed, Function.update_of_ne hne, ne_eq, not_true_eq_false] at he

/-- A rollover moves the staged epoch, and nothing else. -/
theorem Sound.rolled (h : K.Sound) (block : Nat) :
    (K.rolled block).Sound ∧ (K.rolled block).horizon = K.horizon := by
  have hlt := h.active_lt
  by_cases hdue : K.epochs.staged ≠ 0 ∧ K.epochs.rolloverBlock ≤ block
  · have he : (K.rolled block).epochs = ⟨K.epochs.active, K.epochs.staged, 0, 0⟩ := by
      simp only [Consensus.rolled, epochsWithRollover, if_pos hdue]
    have hh : (K.rolled block).horizon = K.horizon := by
      have := hlt hdue.1
      simp only [horizon, he]
      omega
    refine ⟨⟨?_, ?_, fun e hne => hh ▸ h.group_le e hne⟩, hh⟩
    · rw [he]
      exact (hlt hdue.1).le
    · rw [he]
      intro hz
      exact absurd rfl hz
  · have he : K.rolled block = K := by
      simp only [Consensus.rolled, epochsWithRollover, if_neg hdue]
    rw [he]
    exact ⟨h, rfl⟩

/-- A staged epoch is ahead of every epoch a group was recorded for. -/
theorem Sound.horizon_lt (h : K.Sound) {p r : Nat}
    (hv : ValidRollover (K.rolled block).epochs block p r) : K.horizon < p := by
  obtain ⟨hactive, -, hstaged⟩ := hv
  rw [← (h.rolled block).2, horizon, hstaged]
  omega

/-- **An accepted call keeps the order of the epochs**, and what is recorded for one stays. -/
theorem Step.sound {attested : List (Attestation × B256)} (h : Step D C block K attested K')
    (hK : K.Sound) :
    K'.Sound ∧ K.horizon ≤ K'.horizon ∧ ∀ e, K.groups e ≠ 0 → K'.groups e = K.groups e := by
  cases h with
  | staker => exact ⟨⟨hK.previous_le, hK.active_lt, hK.group_le⟩, le_rfl, fun _ _ => rfl⟩
  | proposed =>
    obtain ⟨hsound, hh⟩ := hK.rolled block
    exact ⟨hsound, hh.ge, fun _ _ => rfl⟩
  | @staged p r groupId sid groupKey hv _ =>
    have hlt := hK.horizon_lt hv
    have hrolled := (hK.rolled block).1
    refine ⟨⟨hrolled.previous_le, fun _ => hv.1, fun e he => ?_⟩, ?_, fun e he => ?_⟩
    · replace he : Function.update K.groups p groupId e ≠ 0 := he
      by_cases hp : e = p
      · exact hp ▸ le_max_right _ _
      · rw [Function.update_of_ne hp] at he
        exact ((hK.group_le e he).trans hlt.le).trans (le_max_right _ _)
    · exact hlt.le.trans (le_max_right _ _)
    · have hp : e ≠ p := by
        rintro rfl
        exact absurd (hK.group_le e he) (by omega)
      exact Function.update_of_ne hp _ _
  | attested => exact ⟨⟨hK.previous_le, hK.active_lt, hK.group_le⟩, le_rfl, fun _ _ => rfl⟩

/-- Where the attestations come from: each was announced under its message, and the rollovers
announced are no news any more. -/
structure Recorded (D : Deployment) (attested : List (Attestation × B256)) (K : Consensus) :
    Prop where
  rollover_le : ∀ a p r key sid, (.rollover a p r key, sid) ∈ attested → p ≤ K.horizon
  stored : ∀ m, K.attestations m ≠ 0 →
    ∃ a, (a, K.attestations m) ∈ attested ∧ a.message D = m

theorem recorded_deployed (groupId : B256) : Recorded D [] (deployed groupId) :=
  ⟨fun _ _ _ _ _ h => absurd h (by simp), fun _ h => absurd rfl h⟩

/-- What a call announces was verified by the coordinator, and is stored. -/
theorem Step.verified {attested : List (Attestation × B256)} (h : Step D C block K attested K')
    {a : Attestation} {sid : B256} (ha : (a, sid) ∈ attested) :
    Verified D C K a sid ∧ K'.attestations (a.message D) = sid := by
  cases h with
  | staker => exact absurd ha (by simp)
  | proposed => exact absurd ha (by simp)
  | staged _ hv =>
    rw [List.mem_singleton, Prod.mk.injEq] at ha
    obtain ⟨rfl, rfl⟩ := ha
    exact ⟨hv, Function.update_self _ _ _⟩
  | attested _ hv =>
    rw [List.mem_singleton, Prod.mk.injEq] at ha
    obtain ⟨rfl, rfl⟩ := ha
    exact ⟨hv, Function.update_self _ _ _⟩

/-- **An accepted call accounts for its attestation.** -/
theorem Step.recorded {past attested : List (Attestation × B256)}
    (h : Step D C block K attested K') (hK : K.Sound) (hr : Recorded D past K) :
    Recorded D (past ++ attested) K' := by
  have hle := (h.sound hK).2.1
  have hstored : ∀ new sid, (new, sid) ∈ attested → ∀ m,
      Function.update K.attestations (new.message D) sid m ≠ 0 →
        ∃ a, (a, Function.update K.attestations (new.message D) sid m) ∈ past ++ attested ∧
          a.message D = m := by
    intro new sid hnew m hm
    by_cases hmsg : m = new.message D
    · rw [hmsg, Function.update_self]
      exact ⟨new, List.mem_append_right _ hnew, rfl⟩
    · rw [Function.update_of_ne hmsg] at hm ⊢
      obtain ⟨a, ha, hm'⟩ := hr.stored m hm
      exact ⟨a, List.mem_append_left _ ha, hm'⟩
  cases h with
  | staker =>
    rw [List.append_nil]
    exact ⟨hr.rollover_le, hr.stored⟩
  | proposed =>
    rw [List.append_nil]
    exact ⟨fun a p r key sid hm => (hr.rollover_le a p r key sid hm).trans hle, hr.stored⟩
  | @staged p r groupId sid groupKey hv _ =>
    refine ⟨fun a p' r' key sid' hm => ?_, hstored _ sid (List.mem_singleton_self _)⟩
    rcases List.mem_append.mp hm with hm | hm
    · exact (hr.rollover_le _ _ _ _ _ hm).trans hle
    · rw [List.mem_singleton, Prod.mk.injEq, Attestation.rollover.injEq] at hm
      rw [hm.1.2.1]
      exact le_max_right _ _
  | @attested epoch oracle dataHash hash sid hfresh _ =>
    refine ⟨fun a p r key sid' hm => ?_, hstored _ sid (List.mem_singleton_self _)⟩
    rcases List.mem_append.mp hm with hm | hm
    · exact hr.rollover_le _ _ _ _ _ hm
    · exact absurd hm (by simp)

/-- **No attestation is replaced**: a transaction is looked up before, and a rollover to a new
epoch is not announced yet. -/
theorem Step.attestation {past attested : List (Attestation × B256)}
    (h : Step D C block K attested K') (hK : K.Sound) (hr : Recorded D past K)
    (hinj : Set.InjOn (message D) {a | ∃ sid, (a, sid) ∈ past ++ attested}) {m : B256}
    (hm : K.attestations m ≠ 0) : K'.attestations m = K.attestations m := by
  cases h with
  | staker => rfl
  | proposed => rfl
  | @staged p r groupId sid groupKey hv _ =>
    obtain ⟨a, ha, hmessage⟩ := hr.stored m hm
    refine Function.update_of_ne (fun heq => ?_) _ _
    have hnew : a = .rollover (K.rolled block).epochs.active p r groupKey :=
      hinj ⟨_, List.mem_append_left _ ha⟩ ⟨sid, by simp⟩ (hmessage.trans heq)
    rw [hnew] at ha
    have hle := hr.rollover_le _ _ _ _ _ ha
    have hlt := hK.horizon_lt hv
    omega
  | attested hfresh _ =>
    refine Function.update_of_ne (fun heq => ?_) _ _
    rw [heq] at hm
    exact hm hfresh

end Consensus

/-! ## 6. Every run -/

/-- What an accepted call leaves of the epochs, from those stored before and those the getters
compute at its block. -/
def ConsensusCall.stores (stored seen : Epochs) : ConsensusCall → Epochs
  | .proposeEpoch .. | .proposeTransaction .. => seen
  | .stageEpoch proposedEpoch rolloverBlock .. =>
    { seen with staged := proposedEpoch, rolloverBlock }
  | _ => stored

namespace System

open Attestation Consensus

variable {D : Deployment} {s s' : System} {logs : List SystemLog} {genesis : B256}

/-- **The getters tell what is stored next**: the calls that process the rollover store the epochs
the getters compute at that block, and the others leave both as they are. -/
theorem stores_execConsensus {block : Nat} {sender : Address} {call : ConsensusCall}
    (h : execConsensus D s block sender call = some (s', logs)) :
    ∃ base, call.resolve D sender = some base ∧
      s'.consensus.epochs = base.stores s.consensus.epochs (s.consensus.getEpochsState block) := by
  simp only [execConsensus, bind, Option.bind_eq_some_iff] at h
  obtain ⟨base, hbase, h⟩ := h
  refine ⟨base, hbase, ?_⟩
  cases base with
  | setValidatorStaker staker =>
    simp only [pure, Option.some.injEq, Prod.mk.injEq] at h
    rw [← h.1]
    rfl
  | proposeEpoch p r gid =>
    simp only [pure, Option.bind_eq_some_iff, Option.some.injEq, Prod.mk.injEq] at h
    obtain ⟨⟨C, K, logs'⟩, hp, rfl, -⟩ := h
    unfold Consensus.proposeEpoch at hp
    dsimp only at hp
    split at hp
    · simp only [bind, Option.bind_eq_some_iff, pure, Option.some.injEq, Prod.mk.injEq] at hp
      obtain ⟨key, -, ⟨C', signed⟩, -, -, rfl, -⟩ := hp
      rw [processRollover_fst]
      rfl
    · exact absurd hp (by simp)
  | stageEpoch p r gid sid =>
    simp only [pure, Option.bind_eq_some_iff, Option.some.injEq, Prod.mk.injEq] at h
    obtain ⟨⟨K, logs'⟩, hp, rfl, -⟩ := h
    unfold Consensus.stageEpoch at hp
    dsimp only at hp
    split at hp
    · simp only [bind, Option.bind_eq_some_iff, pure, Option.some.injEq, Prod.mk.injEq] at hp
      obtain ⟨key, -, signature, -, rfl, -⟩ := hp
      simp only [processRollover_fst]
      rfl
    · exact absurd hp (by simp)
  | proposeTransaction oracle data tx =>
    simp only [pure, Option.bind_eq_some_iff, Option.some.injEq, Prod.mk.injEq] at h
    obtain ⟨⟨C, K, logs'⟩, hp, rfl, -⟩ := h
    unfold Consensus.proposeTransaction at hp
    dsimp only at hp
    split at hp
    · simp only [bind, Option.bind_eq_some_iff, pure, Option.some.injEq, Prod.mk.injEq] at hp
      obtain ⟨safe, -, ⟨C', signed⟩, -, -, rfl, -⟩ := hp
      rw [processRollover_fst]
      rfl
    · exact absurd hp (by simp)
  | attestTransaction epoch oracle dataHash chainId safe structHash sid =>
    simp only [pure, Option.bind_eq_some_iff, Option.some.injEq, Prod.mk.injEq] at h
    obtain ⟨⟨K, logs'⟩, hp, rfl, -⟩ := h
    unfold Consensus.attestTransaction at hp
    dsimp only at hp
    split at hp
    · simp only [bind, Option.bind_eq_some_iff, pure, Option.some.injEq, Prod.mk.injEq] at hp
      obtain ⟨signature, -, safe', -, rfl, -⟩ := hp
      rfl
    · exact absurd hp (by simp)
  | onKeyGenCompleted gid context => exact absurd h (by simp)
  | onSignCompleted sid context => exact absurd h (by simp)

variable (D) in
/-- The call attests `a`: the coordinator verifies the signature, and its id is stored. -/
def Attests (s : System) (call : SystemCall) (a : Attestation) (sid : B256) : Prop :=
  ∃ s' logs, exec D s call = some (s', logs) ∧ (a, sid) ∈ announced logs ∧
    Verified D s.coordinator s.consensus a sid ∧ s'.consensus.attestations (a.message D) = sid

/-- One accepted call, of either contract. -/
theorem exec_sound {past : List (Attestation × B256)} {call : SystemCall}
    (hs : s.consensus.Sound) (hr : Recorded D past s.consensus)
    (h : exec D s call = some (s', logs)) :
    s'.consensus.Sound ∧ Recorded D (past ++ announced logs) s'.consensus ∧
      (∀ e, s.consensus.groups e ≠ 0 → s'.consensus.groups e = s.consensus.groups e) ∧
      (Set.InjOn (message D) {a | ∃ sid, (a, sid) ∈ past ++ announced logs} →
        ∀ m, s.consensus.attestations m ≠ 0 →
          s'.consensus.attestations m = s.consensus.attestations m) := by
  cases call with
  | coordinator sender call =>
    simp only [exec, Option.map_eq_some_iff, Prod.mk.injEq] at h
    obtain ⟨r, -, rfl, rfl⟩ := h
    rw [announced_coordinator, List.append_nil]
    exact ⟨hs, hr, fun _ _ => rfl, fun _ _ _ => rfl⟩
  | consensus block sender call =>
    have hst := execConsensus_step h
    obtain ⟨hsound, -, hgroups⟩ := hst.sound hs
    exact ⟨hsound, hst.recorded hs hr, hgroups, fun hinj _ => hst.attestation hs hr hinj⟩

/-- What a call announces, it attests. -/
theorem attests_of_announced {call : SystemCall} (h : exec D s call = some (s', logs))
    {a : Attestation} {sid : B256} (ha : (a, sid) ∈ announced logs) : Attests D s call a sid := by
  cases call with
  | coordinator sender call =>
    simp only [exec, Option.map_eq_some_iff, Prod.mk.injEq] at h
    obtain ⟨r, -, -, rfl⟩ := h
    rw [announced_coordinator] at ha
    exact absurd ha (by simp)
  | consensus block sender call =>
    obtain ⟨hv, hstored⟩ := (execConsensus_step h).verified ha
    exact ⟨s', logs, h, ha, hv, hstored⟩

theorem execAll_append (s : System) (calls more : List SystemCall) :
    execAll D s (calls ++ more) = ((execAll D (execAll D s calls).1 more).1,
      (execAll D s calls).2 ++ (execAll D (execAll D s calls).1 more).2) := by
  induction calls generalizing s with
  | nil => rfl
  | cons call calls ih =>
    cases hx : exec D s call with
    | none => simp only [List.cons_append, execAll, hx, ih]
    | some r => simp only [List.cons_append, execAll, hx, ih, List.append_assoc]

/-- What a run announces, one call of it attests. -/
theorem attests_of_run {s : System} {calls : List SystemCall} {a : Attestation} {sid : B256}
    (ha : (a, sid) ∈ announced (execAll D s calls).2) :
    ∃ past call rest, calls = past ++ call :: rest ∧ Attests D (execAll D s past).1 call a sid := by
  induction calls using List.reverseRecOn with
  | nil => exact absurd ha (by simp [execAll, announced])
  | append_singleton calls call ih =>
    rw [execAll_append, announced_append, List.mem_append] at ha
    rcases ha with ha | ha
    · obtain ⟨past, call', rest, rfl, h⟩ := ih ha
      exact ⟨past, call', rest ++ [call], by simp, h⟩
    · cases hx : exec D (execAll D s calls).1 call with
      | none => exact absurd ha (by simp [execAll, hx, announced])
      | some r =>
        simp only [execAll, hx, List.append_nil] at ha
        exact ⟨calls, call, [], rfl, attests_of_announced hx ha⟩

/-- The invariants after every run. -/
theorem sound_execAll (genesis : B256) (calls : List SystemCall) :
    (execAll D (deployed genesis) calls).1.consensus.Sound ∧
      Recorded D (announced (execAll D (deployed genesis) calls).2)
        (execAll D (deployed genesis) calls).1.consensus := by
  induction calls using List.reverseRecOn with
  | nil => exact ⟨sound_deployed genesis, recorded_deployed genesis⟩
  | append_singleton calls call ih =>
    obtain ⟨hs, hr⟩ := ih
    rw [execAll_append]
    cases hx : exec D (execAll D (deployed genesis) calls).1 call with
    | none =>
      simp only [execAll, hx, List.append_nil]
      exact ⟨hs, hr⟩
    | some r =>
      simp only [execAll, hx, List.append_nil, announced_append]
      obtain ⟨hsound, hrecorded, -⟩ := exec_sound hs hr hx
      exact ⟨hsound, hrecorded⟩

/-- The group of an epoch is recorded once. -/
theorem group_execAll {calls more : List SystemCall} {e : Nat}
    (he : (execAll D (deployed genesis) calls).1.consensus.groups e ≠ 0) :
    (execAll D (deployed genesis) (calls ++ more)).1.consensus.groups e =
      (execAll D (deployed genesis) calls).1.consensus.groups e := by
  induction more using List.reverseRecOn with
  | nil => rw [List.append_nil]
  | append_singleton more call ih =>
    rw [← List.append_assoc, execAll_append _ (calls ++ more)]
    cases hx : exec D (execAll D (deployed genesis) (calls ++ more)).1 call with
    | none =>
      simp only [execAll, hx]
      exact ih
    | some r =>
      obtain ⟨hs, hr⟩ := sound_execAll genesis (calls ++ more)
      simp only [execAll, hx]
      exact ((exec_sound hs hr hx).2.2.1 e (ih ▸ he)).trans ih

variable (D) in
/-- No two of the packets attested in some logs have the same hash. -/
def CollisionFree (logs : List SystemLog) : Prop :=
  Set.InjOn (message D) {a | ∃ sid, (a, sid) ∈ announced logs}

theorem CollisionFree.init {more : List SystemLog} (h : CollisionFree D (logs ++ more)) :
    CollisionFree D logs := by
  refine h.mono fun a ha => ?_
  obtain ⟨sid, ha⟩ := ha
  exact ⟨sid, announced_append logs more ▸ List.mem_append_left _ ha⟩

/-- The attestation of a message is stored once. -/
theorem attestation_execAll {calls more : List SystemCall} {m : B256}
    (hinj : CollisionFree D (execAll D (deployed genesis) (calls ++ more)).2)
    (hm : (execAll D (deployed genesis) calls).1.consensus.attestations m ≠ 0) :
    (execAll D (deployed genesis) (calls ++ more)).1.consensus.attestations m =
      (execAll D (deployed genesis) calls).1.consensus.attestations m := by
  induction more using List.reverseRecOn with
  | nil => rw [List.append_nil]
  | append_singleton more call ih =>
    rw [← List.append_assoc, execAll_append _ (calls ++ more)] at hinj ⊢
    have ih := ih hinj.init
    cases hx : exec D (execAll D (deployed genesis) (calls ++ more)).1 call with
    | none =>
      simp only [execAll, hx]
      exact ih
    | some r =>
      obtain ⟨hs, hr⟩ := sound_execAll genesis (calls ++ more)
      simp only [execAll, hx, List.append_nil, CollisionFree, announced_append] at hinj ⊢
      exact ((exec_sound hs hr hx).2.2.2 hinj m (ih ▸ hm)).trans ih

/-- **The epochs of the consensus contract.**  Whatever is called at whatever block, the epochs are
in order; no group is replaced; the getters tell what the next call stores; each attestation was
stored by a call that had the coordinator verify it, and stays. -/
theorem epochs_sound (D : Deployment) (genesis : B256) (calls more : List SystemCall) :
    let before := (execAll D (deployed genesis) calls).1
    let after := (execAll D (deployed genesis) (calls ++ more)).1
    before.consensus.epochs.previous ≤ before.consensus.epochs.active ∧
      (before.consensus.epochs.staged ≠ 0 →
        before.consensus.epochs.active < before.consensus.epochs.staged) ∧
      (∀ e, before.consensus.groups e ≠ 0 →
        after.consensus.groups e = before.consensus.groups e) ∧
      (∀ block sender call s' logs,
        execConsensus D before block sender call = some (s', logs) →
          ∃ base, call.resolve D sender = some base ∧ s'.consensus.epochs =
            base.stores before.consensus.epochs (before.consensus.getEpochsState block)) ∧
      (∀ m, before.consensus.attestations m ≠ 0 →
        ∃ a past call rest, a.message D = m ∧ calls = past ++ call :: rest ∧
          Attests D (execAll D (deployed genesis) past).1 call a
            (before.consensus.attestations m)) ∧
      (CollisionFree D (execAll D (deployed genesis) (calls ++ more)).2 →
        ∀ m, before.consensus.attestations m ≠ 0 →
          after.consensus.attestations m = before.consensus.attestations m) := by
  intro before after
  obtain ⟨hs, hr⟩ := sound_execAll genesis calls
  refine ⟨hs.previous_le, hs.active_lt, fun _ => group_execAll,
    fun _ _ _ _ _ => stores_execConsensus, fun m hm => ?_,
    fun hinj _ => attestation_execAll hinj⟩
  obtain ⟨a, ha, hmessage⟩ := hr.stored m hm
  obtain ⟨past, call, rest, hcalls, hattests⟩ := attests_of_run ha
  exact ⟨a, past, call, rest, hmessage, hcalls, hattests⟩

end System

end Safenet
