/-
# The active epoch on both sides

The consensus contract stores a rollover block and applies it to the next call that asks.  A
validator stores no block: it rolls over when the clock reaches its target epoch times the blocks
per epoch.  Both are to name the same active epoch at every block.

* `Epochs.asOf` is the contract's clock, and `execAll_asOf` says what the calls of one block do to
  it: they stage at most one epoch, and none while one is staged;
* `stagedEpoch` is what a validator has staged, written as the contract writes it (zero for none).
  Only a block and an `EpochStaged` log change it (`stagedEpoch_quiet`, `stagedEpoch_staged`);
* `InStep` relates the two, and is carried from block to block.

The chain runs ahead of the validator: all calls of a block are executed before it handles the
first log of the block, so within a block `InStep` is allowed to lag by the one staged log.
-/
import Safenet.Contracts.Consensus
import Safenet.Validator.Epochs
import Safenet.Validator.Toy

namespace Safenet

open Frost

/-! ## 1. The contract's clock -/

namespace Epochs

/-- The epochs as of a block: a due rollover has happened. -/
def asOf (e : Epochs) (block : Nat) : Epochs :=
  if e.staged ≠ 0 ∧ e.rolloverBlock ≤ block then ⟨e.active, e.staged, 0, 0⟩ else e

theorem asOf_of_due {e : Epochs} {block : Nat} (h : e.staged ≠ 0 ∧ e.rolloverBlock ≤ block) :
    e.asOf block = ⟨e.active, e.staged, 0, 0⟩ := if_pos h

theorem asOf_of_not_due {e : Epochs} {block : Nat}
    (h : ¬(e.staged ≠ 0 ∧ e.rolloverBlock ≤ block)) : e.asOf block = e := if_neg h

/-- The clock does not depend on when it was looked at before. -/
theorem asOf_asOf (e : Epochs) {n m : Nat} (h : n ≤ m) : (e.asOf n).asOf m = e.asOf m := by
  by_cases hn : e.staged ≠ 0 ∧ e.rolloverBlock ≤ n
  · rw [asOf_of_due hn, asOf_of_due ⟨hn.1, hn.2.trans h⟩]
    rfl
  · rw [asOf_of_not_due hn]

end Epochs

theorem Consensus.epochsWithRollover_fst (K : Consensus) (block : Nat) :
    (K.epochsWithRollover block).1 = K.epochs.asOf block := by
  simp only [Consensus.epochsWithRollover, Epochs.asOf]
  split <;> rfl

/-- What an `EpochStaged` log tells a validator. -/
structure StagedLog where
  proposedEpoch : Nat
  rolloverBlock : Nat
  groupId : B256
  signatureId : B256
  deriving DecidableEq

/-- The `EpochStaged` logs among some logs. -/
def stagedLogs (logs : List SystemLog) : List StagedLog :=
  logs.filterMap fun
    | .epochStaged _ proposedEpoch rolloverBlock groupId _ signatureId _ =>
      some ⟨proposedEpoch, rolloverBlock, groupId, signatureId⟩
    | _ => none

theorem stagedLogs_append (a b : List SystemLog) : stagedLogs (a ++ b) = stagedLogs a ++ stagedLogs b :=
  List.filterMap_append

/-- The rollovers among some attestations. -/
def stagedRollovers (attested : List (Attestation × B256)) : List (Nat × Nat) :=
  attested.filterMap fun
    | (.rollover _ proposedEpoch rolloverBlock _, _) => some (proposedEpoch, rolloverBlock)
    | _ => none

/-- The logs and the attestations tell the same rollovers. -/
theorem stagedLogs_announced (logs : List SystemLog) :
    (stagedLogs logs).map (fun x => (x.proposedEpoch, x.rolloverBlock)) =
      stagedRollovers (Attestation.announced logs) := by
  rw [stagedLogs, stagedRollovers, Attestation.announced, List.map_filterMap, List.filterMap_filterMap]
  congr 1
  funext log
  cases log <;> rfl

namespace System

variable {D : Deployment} {s s' : System} {logs : List SystemLog} {n : Nat}

/-- A block of calls either leaves the epochs as they are, or stages one where none is staged. -/
def Staged (n : Nat) (logs : List StagedLog) (before after : Epochs) : Prop :=
  (logs = [] ∧ after = before) ∨ ∃ x : StagedLog, logs = [x] ∧ before.staged = 0 ∧
    x.proposedEpoch ≠ 0 ∧ n < x.rolloverBlock ∧
    after = { before with staged := x.proposedEpoch, rolloverBlock := x.rolloverBlock }

/-- One accepted call of the consensus contract. -/
theorem execConsensus_asOf {sender : Address} {call : ConsensusCall}
    (h : execConsensus D s n sender call = some (s', logs)) :
    Staged n (stagedLogs logs) (s.consensus.epochs.asOf n) (s'.consensus.epochs.asOf n) := by
  have hlogs := stagedLogs_announced logs
  have hst := execConsensus_step h
  have hnil : stagedRollovers (Attestation.announced logs) = [] → stagedLogs logs = [] := by
    intro hr
    rw [hr] at hlogs
    exact List.map_eq_nil_iff.mp hlogs
  generalize Attestation.announced logs = attested at hst hlogs hnil
  generalize s'.consensus = K' at hst ⊢
  cases hst with
  | staker => exact .inl ⟨hnil rfl, rfl⟩
  | proposed =>
    refine .inl ⟨hnil rfl, ?_⟩
    simp only [Consensus.rolled, Consensus.epochsWithRollover_fst]
    exact Epochs.asOf_asOf _ le_rfl
  | @staged p r groupId sid groupKey hv _ =>
    simp only [Consensus.rolled, Consensus.epochsWithRollover_fst] at hv ⊢
    obtain ⟨hactive, hblock, hstaged⟩ := hv
    obtain ⟨x, hx, hpr⟩ : ∃ x, stagedLogs logs = [x] ∧ (x.proposedEpoch, x.rolloverBlock) = (p, r) := by
      simpa only [stagedRollovers, List.filterMap_cons, List.filterMap_nil,
        List.map_eq_singleton_iff] using hlogs
    rw [Prod.mk.injEq] at hpr
    obtain ⟨rfl, rfl⟩ := hpr
    refine .inr ⟨x, hx, hstaged, by omega, hblock, Epochs.asOf_of_not_due ?_⟩
    rintro ⟨-, hle⟩
    exact absurd hle (not_le.mpr hblock)
  | attested => exact .inl ⟨hnil rfl, rfl⟩

end System

/-- The call is made in the block. -/
def SystemCall.AtBlock (n : Nat) : SystemCall → Prop
  | .coordinator .. => True
  | .consensus block .. => block = n

namespace System

variable {D : Deployment} {s s' : System} {logs : List SystemLog} {n : Nat}

/-- One accepted call, of either contract. -/
theorem exec_asOf {call : SystemCall} (hcall : call.AtBlock n)
    (h : exec D s call = some (s', logs)) :
    Staged n (stagedLogs logs) (s.consensus.epochs.asOf n) (s'.consensus.epochs.asOf n) := by
  cases call with
  | coordinator sender call =>
    simp only [exec, Option.map_eq_some_iff, Prod.mk.injEq] at h
    obtain ⟨r, -, rfl, rfl⟩ := h
    have hlogs := stagedLogs_announced (r.2.map .coordinator)
    rw [Attestation.announced_coordinator] at hlogs
    exact .inl ⟨List.map_eq_nil_iff.mp hlogs, rfl⟩
  | consensus block sender call =>
    obtain rfl : block = n := hcall
    exact execConsensus_asOf h

/-- **The calls of a block stage at most one epoch**: what the first stages is staged for the rest
of the block. -/
theorem execAll_asOf {calls : List SystemCall} (hcalls : ∀ call ∈ calls, call.AtBlock n) :
    Staged n (stagedLogs (execAll D s calls).2) (s.consensus.epochs.asOf n)
      ((execAll D s calls).1.consensus.epochs.asOf n) := by
  induction calls generalizing s with
  | nil => exact .inl ⟨rfl, rfl⟩
  | cons call calls ih =>
    have hrest : ∀ call ∈ calls, call.AtBlock n := fun c hc => hcalls c (List.mem_cons_of_mem _ hc)
    cases hx : exec D s call with
    | none =>
      simp only [execAll, hx]
      exact ih hrest
    | some r =>
      simp only [execAll, hx, stagedLogs_append]
      rcases exec_asOf (hcalls call List.mem_cons_self) hx with ⟨hnil, heq⟩ | ⟨x, hlog, h0, hp, hr, heq⟩
      · rw [hnil, List.nil_append, ← heq]
        exact ih hrest
      · rcases ih (s := r.1) hrest with ⟨hnil, heq'⟩ | ⟨-, -, h0', -⟩
        · refine .inr ⟨x, by rw [hlog, hnil]; rfl, h0, hp, hr, heq'.trans heq⟩
        · rw [heq] at h0'
          exact absurd h0' hp

end System

/-! ## 2. The validator's clock -/

variable {E : Crates}

/-- The epoch a validator has staged; zero for none. -/
def RolloverState.stagedEpoch : RolloverState E → Nat
  | .epochStaged n => n
  | _ => 0

/-- The `EpochStaged` log a message is. -/
def stagedEvent : Msg E → Option (Nat × B256 × B256)
  | .event ⟨_, _, _, .epochStaged proposedEpoch groupId signatureId⟩ =>
    some (proposedEpoch, groupId, signatureId)
  | _ => none

namespace Transition

variable {T : Transition E}

/-- Once a rollover is proposed, the key generation is over: only a block and an `EpochStaged` log
move it on. -/
theorem rollover_settled {s : State E}
    (hs : (∃ c, s.rollover = .signingRollover c) ∨ ∃ n, s.rollover = .epochStaged n) (msg : Msg E)
    (hmsg : ∀ block, msg ≠ .newBlock block) (hstaged : stagedEvent msg = none) :
    (T.applyTransition s msg).1.rollover = s.rollover := by
  cases msg with
  | newBlock block => exact absurd rfl (hmsg block)
  | resume r =>
    cases r with
    | noop => rfl
    | setup gid secrets =>
      rcases hs with ⟨c, hr⟩ | ⟨n, hr⟩ <;>
        simp only [applyTransition, applyResume, handleKeyGenSetup, hr]
    | nonceTree gid k => exact (handleNonceTree_frame s gid k).2.2
    | nonceCommitments sid m n proof =>
      simp only [applyTransition, applyResume, handleNonceCommitments_state]
    | nonce m n => simp only [applyTransition, applyResume, handleNonces_state]
  | event log =>
    obtain ⟨block, index, address, data⟩ := log
    cases data with
    | keyGen gid =>
      rcases hs with ⟨c, hr⟩ | ⟨n, hr⟩ <;>
        simp only [applyTransition, applyEvent, handleGenesisKeyGen, hr]
    | keyGenCommitted gid p k =>
      rcases hs with ⟨c, hr⟩ | ⟨n, hr⟩ <;>
        simp only [applyTransition, applyEvent, handleKeyGenCommitted, hr]
    | keyGenSecretShared gid p k =>
      rcases hs with ⟨c, hr⟩ | ⟨n, hr⟩ <;>
        simp only [applyTransition, applyEvent, handleKeyGenSecretShared, hr]
    | keyGenConfirmed gid p =>
      rcases hs with ⟨c, hr⟩ | ⟨n, hr⟩ <;>
        simp only [applyTransition, applyEvent, handleKeyGenConfirmed, hr]
    | keyGenComplained gid p a x =>
      rcases hs with ⟨c, hr⟩ | ⟨n, hr⟩ <;>
        simp only [applyTransition, applyEvent, handleKeyGenComplained, complaintPhase, hr]
    | keyGenComplaintResponded gid p a x =>
      rcases hs with ⟨c, hr⟩ | ⟨n, hr⟩ <;>
        simp only [applyTransition, applyEvent, handleKeyGenComplaintResponded, responsePhase, hr]
    | epochStaged p gid sid => exact absurd hstaged (by simp [stagedEvent])
    | preprocess gid p chunk k => exact (T.handlePreprocess_frame s gid p chunk k).2.2
    | sign gid message sid q => exact handleSign_rollover s block gid message sid q
    | signRevealedNonces sid p n =>
      exact (handleSignRevealedNonces_onlySessions s block sid p n).rollover
    | signShared sid root p => exact (handleSignShared_onlySessions s sid root p).rollover
    | signCompleted sid => exact (handleSignCompleted_onlySessions s block sid).rollover
    | transactionProposed o e d tx =>
      exact (handleTransactionProposed_onlySessions s block o e d tx).rollover
    | transactionAttested h o e oh sid => rfl
    | oracleResult m b => exact (handleOracleResult_onlySessions s block address m b).rollover
    | unhandled => rfl

theorem stagedEpoch_of_round {r : RolloverState E} {x : EpochId × Group} (h : r.round = some x) :
    r.stagedEpoch = 0 := by
  cases r <;> simp only [RolloverState.round, reduceCtorEq] at h <;> rfl

/-- Only a proposed rollover is staged. -/
theorem stagedEpoch_step {r r' : RolloverState E} (h : T.RolloverStep r r')
    (hr : ∀ c, r ≠ .signingRollover c) : r'.stagedEpoch = 0 := by
  cases h with
  | progress _ h' => exact stagedEpoch_of_round h'
  | genesis => rfl
  | restart => rfl
  | start => rfl
  | skip => rfl
  | @fail e g =>
    cases e with
    | genesis => rfl
    | number n => rfl
  | propose => rfl
  | staged h => exact absurd h (hr _)
  | recover => rfl
  | halt => rfl

/-- What is staged stays, as long as what is proposed or staged does. -/
theorem stagedEpoch_move {r r' : RolloverState E} (h : T.RolloverMove r r')
    (hsettled : (∃ c, r = .signingRollover c) ∨ (∃ n, r = .epochStaged n) → r' = r) :
    r'.stagedEpoch = r.stagedEpoch := by
  by_cases hs : (∃ c, r = .signingRollover c) ∨ ∃ n, r = .epochStaged n
  · rw [hsettled hs]
  · cases h with
    | refl => rfl
    | single h =>
      rw [stagedEpoch_step h fun c hc => hs (.inl ⟨c, hc⟩)]
      cases r with
      | epochStaged n => exact absurd (.inr ⟨n, rfl⟩) hs
      | _ => rfl

/-- Every other message leaves alone what is staged. -/
theorem stagedEpoch_quiet (s : State E) (msg : Msg E) (hmsg : ∀ block, msg ≠ .newBlock block)
    (hstaged : stagedEvent msg = none) :
    (T.applyTransition s msg).1.rollover.stagedEpoch = s.rollover.stagedEpoch :=
  stagedEpoch_move (rollover_move s msg hmsg) fun hs => rollover_settled hs msg hmsg hstaged

/-- The log matches the rollover the validator is signing: the same group, epoch and block. -/
def Expects (T : Transition E) (s : State E) (x : StagedLog) : Prop :=
  ∃ c, s.rollover = .signingRollover c ∧ c.group.id = x.groupId ∧
    (c.nextEpoch : Nat) = x.proposedEpoch ∧
    x.rolloverBlock = satMul c.nextEpoch T.config.blocksPerEpoch

/-- The rollover the validator is signing. -/
def signing : RolloverState E → Option (SigningRollover E)
  | .signingRollover c => some c
  | _ => none

theorem signing_eq_some {r : RolloverState E} {c : SigningRollover E} :
    signing r = some c ↔ r = .signingRollover c := by
  cases r <;> simp [signing]

instance (T : Transition E) (s : State E) (x : StagedLog) : Decidable (Expects T s x) :=
  decidable_of_iff (∃ c ∈ signing s.rollover, c.group.id = x.groupId ∧
      (c.nextEpoch : Nat) = x.proposedEpoch ∧
      x.rolloverBlock = satMul c.nextEpoch T.config.blocksPerEpoch) (by
    simp only [Option.mem_def, signing_eq_some, Expects])

/-- An expected log is staged. -/
theorem stagedEpoch_staged {s : State E} {x : StagedLog} (h : Expects T s x) {msg : Msg E}
    (hmsg : stagedEvent msg = some (x.proposedEpoch, x.groupId, x.signatureId)) :
    (T.applyTransition s msg).1.rollover.stagedEpoch = x.proposedEpoch := by
  obtain ⟨c, hr, hgid, hepoch, -⟩ := h
  cases msg with
  | newBlock block => exact absurd hmsg (by simp [stagedEvent])
  | resume r => exact absurd hmsg (by simp [stagedEvent])
  | event log =>
    obtain ⟨block, index, address, data⟩ := log
    cases data with
    | epochStaged p gid sid =>
      simp only [stagedEvent, Option.some.injEq, Prod.mk.injEq] at hmsg
      obtain ⟨rfl, rfl, rfl⟩ := hmsg
      simp only [applyTransition, applyEvent, handleEpochStaged, hr, if_pos hgid, handleSignAttested,
        (finalizeKeyGen_frame _ _ _ _).2.2.1]
      exact hepoch
    | _ => exact absurd hmsg (by simp [stagedEvent])

/-- The timeouts of a key generation do not touch what is staged. -/
theorem stagedEpoch_timeouts (s : State E) (block : Nat) :
    (T.handleKeyGenTimeouts s block).1.rollover.stagedEpoch = s.rollover.stagedEpoch := by
  refine stagedEpoch_move (handleKeyGenTimeouts_move s block) fun hs => ?_
  rcases hs with ⟨c, hr⟩ | ⟨n, hr⟩ <;>
    simp only [handleKeyGenTimeouts, stuckKeyGen, stalledKeyGen, hr]

/-- The block an epoch is due at, in both spellings. -/
theorem lt_nextNumber_iff {p n : Nat} {bpe : ℕ+} (hn : n < u64Max) :
    p < (nextNumber n bpe : Nat) ↔ satMul p bpe ≤ n := by
  have hdiv : n / (bpe : Nat) ≤ n := Nat.div_le_self n bpe
  have hnext : (nextNumber n bpe : Nat) = n / (bpe : Nat) + 1 := by
    simp only [nextNumber, satAdd, PNat.mk_coe]
    omega
  have hmul : p * (bpe : Nat) ≤ n ↔ p ≤ n / (bpe : Nat) := (Nat.le_div_iff_mul_le bpe.pos).symm
  simp only [satMul, hnext]
  omega

/-- The clock passed the epoch worked toward: whatever was staged is no more. -/
theorem handleRolloverNewBlock_due {s : State E} {n : Nat} {t : ℕ+}
    (ht : s.rollover.nextEpoch.bind EpochId.number? = some t)
    (hlt : t < nextNumber n T.config.blocksPerEpoch) :
    (T.handleRolloverNewBlock s n).1.rollover.stagedEpoch = 0 ∧
      (T.handleRolloverNewBlock s n).1.activeEpoch =
        match s.rollover with
        | .epochStaged _ => .number t
        | _ => s.activeEpoch := by
  simp only [handleRolloverNewBlock, ht, if_neg (not_le.mpr hlt)]
  split
  · rw [(T.startKeyGen_onlyRollover _ _ _ _).activeEpoch]
    obtain ⟨c, hc, -⟩ := startKeyGen_rollover (T := T) _ _ _ _
    rw [hc]
    exact ⟨rfl, rfl⟩
  · exact ⟨rfl, rfl⟩

theorem handleRolloverNewBlock_not_due {s : State E} {n : Nat}
    (h : ∀ t, s.rollover.nextEpoch.bind EpochId.number? = some t →
      ¬t < nextNumber n T.config.blocksPerEpoch) :
    (T.handleRolloverNewBlock s n).1 = s := by
  unfold handleRolloverNewBlock
  split
  · rfl
  · rename_i t ht
    dsimp only
    rw [if_pos (not_lt.mp (h t ht))]

/-- **The clock rolls a staged epoch over exactly when it is due.** -/
theorem handleRolloverNewBlock_staged (s : State E) {n : Nat}
    (hn : s.rollover.stagedEpoch ≠ 0 → n < u64Max) :
    let s' := (T.handleRolloverNewBlock s n).1
    if s.rollover.stagedEpoch ≠ 0 ∧
        satMul s.rollover.stagedEpoch T.config.blocksPerEpoch ≤ n then
      s'.activeEpoch.rawValue = s.rollover.stagedEpoch ∧ s'.rollover.stagedEpoch = 0
    else s'.activeEpoch = s.activeEpoch ∧ s'.rollover.stagedEpoch = s.rollover.stagedEpoch := by
  intro s'
  by_cases hs : ∃ m, s.rollover = .epochStaged m
  · obtain ⟨m, hr⟩ := hs
    have hstaged : s.rollover.stagedEpoch = m := by rw [hr]; rfl
    have hnext : s.rollover.nextEpoch.bind EpochId.number? = some m := by rw [hr]; rfl
    have hn := hn (hstaged ▸ m.ne_zero)
    rw [hstaged]
    by_cases hlt : m < nextNumber n T.config.blocksPerEpoch
    · obtain ⟨h0, hact⟩ := handleRolloverNewBlock_due hnext hlt
      rw [hr] at hact
      rw [if_pos ⟨m.ne_zero, (lt_nextNumber_iff hn).mp hlt⟩]
      exact ⟨congrArg EpochId.rawValue hact, h0⟩
    · have heq : s' = s := by
        refine handleRolloverNewBlock_not_due fun t ht => ?_
        rw [hnext, Option.some.injEq] at ht
        exact ht ▸ hlt
      rw [if_neg fun h => hlt ((lt_nextNumber_iff hn).mpr h.2), heq]
      exact ⟨rfl, hstaged⟩
  · have hzero : s.rollover.stagedEpoch = 0 := by
      generalize s.rollover = r at hs
      cases r with
      | epochStaged m => exact absurd ⟨m, rfl⟩ hs
      | _ => rfl
    rw [if_neg fun h => h.1 hzero, hzero]
    by_cases hdue : ∃ t, s.rollover.nextEpoch.bind EpochId.number? = some t ∧
        t < nextNumber n T.config.blocksPerEpoch
    · obtain ⟨t, ht, hlt⟩ := hdue
      obtain ⟨h0, hact⟩ := handleRolloverNewBlock_due ht hlt
      refine ⟨?_, h0⟩
      rw [hact]
      split
      · rename_i m hr
        exact absurd ⟨m, hr⟩ hs
      · rfl
    · have heq : s' = s :=
        handleRolloverNewBlock_not_due fun t ht hlt => hdue ⟨t, ht, hlt⟩
      rw [heq]
      exact ⟨rfl, hzero⟩

/-! ## 3. Both clocks -/

/-- A validator's state agrees with the epochs the contract sees. -/
structure InStep (T : Transition E) (s : State E) (e : Epochs) : Prop where
  active : s.activeEpoch.rawValue = e.active
  staged : s.rollover.stagedEpoch = e.staged
  rolloverBlock : e.staged ≠ 0 → e.rolloverBlock = satMul e.staged T.config.blocksPerEpoch

theorem tracks_default : InStep T (State.default E) ⟨0, 0, 0, 0⟩ :=
  ⟨rfl, rfl, fun h => absurd rfl h⟩

/-- **A block moves both clocks alike.** -/
theorem InStep.newBlock {s : State E} {e : Epochs} (h : InStep T s e) {n : Nat}
    (hn : e.staged ≠ 0 → n < u64Max) :
    InStep T (T.applyTransition s (.newBlock n)).1 (e.asOf n) := by
  have hactive : (T.applyTransition s (.newBlock n)).1.activeEpoch =
      (T.handleRolloverNewBlock s n).1.activeEpoch := by
    have hact := (T.handleKeyGenTimeouts_onlyRollover (T.handleRolloverNewBlock s n).1 n).activeEpoch
    change (T.beforeReconciliation s n).activeEpoch = _
    simp only [beforeReconciliation, (handleNonceTopup_frame _).2.2.2, handleSigningTimeouts, hact]
  have hrollover : (T.applyTransition s (.newBlock n)).1.rollover.stagedEpoch =
      (T.handleRolloverNewBlock s n).1.rollover.stagedEpoch := by
    change (T.applyBlock s n).1.rollover.stagedEpoch = _
    rw [applyBlock_rollover, stagedEpoch_timeouts]
  have hclock := handleRolloverNewBlock_staged (T := T) s (h.staged ▸ hn)
  dsimp only at hclock
  rw [h.staged] at hclock
  by_cases hdue : e.staged ≠ 0 ∧ e.rolloverBlock ≤ n
  · rw [if_pos ⟨hdue.1, h.rolloverBlock hdue.1 ▸ hdue.2⟩] at hclock
    rw [Epochs.asOf_of_due hdue]
    exact ⟨(congrArg EpochId.rawValue hactive).trans hclock.1, hrollover.trans hclock.2,
      fun h0 => absurd rfl h0⟩
  · rw [if_neg fun hd => hdue ⟨hd.1, (h.rolloverBlock hd.1).trans_le hd.2⟩] at hclock
    rw [Epochs.asOf_of_not_due hdue]
    refine ⟨?_, hrollover.trans hclock.2, h.rolloverBlock⟩
    rw [hactive, hclock.1]
    exact h.active

/-- Other messages leave both clocks alone. -/
theorem InStep.quiet {s : State E} {e : Epochs} (h : InStep T s e) {msg : Msg E}
    (hmsg : ∀ block, msg ≠ .newBlock block) (hstaged : stagedEvent msg = none) :
    InStep T (T.applyTransition s msg).1 e := by
  refine ⟨?_, ?_, h.rolloverBlock⟩
  · rw [(extends_applyTransition s msg hmsg).2]
    exact h.active
  · rw [stagedEpoch_quiet s msg hmsg hstaged]
    exact h.staged

theorem InStep.quiets {s : State E} {e : Epochs} (h : InStep T s e) {msgs : List (Msg E)}
    (hmsgs : ∀ m ∈ msgs, ∀ block, m ≠ .newBlock block) (hstaged : msgs.filterMap stagedEvent = []) :
    InStep T (Reactive.runState T.applyTransition s msgs) e := by
  induction msgs generalizing s with
  | nil => exact h
  | cons m msgs ih =>
    rw [List.filterMap_eq_nil_iff] at hstaged
    refine ih (h.quiet (hmsgs m List.mem_cons_self) (hstaged m List.mem_cons_self))
      (fun m' hm' => hmsgs m' (List.mem_cons_of_mem _ hm')) ?_
    exact List.filterMap_eq_nil_iff.mpr fun m' hm' => hstaged m' (List.mem_cons_of_mem _ hm')

/-- An expected log is staged on both sides. -/
theorem InStep.stage {s : State E} {e : Epochs} (h : InStep T s e) {x : StagedLog}
    (hx : Expects T s x) {msg : Msg E}
    (hmsg : stagedEvent msg = some (x.proposedEpoch, x.groupId, x.signatureId)) :
    InStep T (T.applyTransition s msg).1
      { e with staged := x.proposedEpoch, rolloverBlock := x.rolloverBlock } := by
  have hnot : ∀ block, msg ≠ .newBlock block := by
    rintro block rfl
    exact absurd hmsg (by simp [stagedEvent])
  refine ⟨?_, stagedEpoch_staged hx hmsg, fun _ => ?_⟩
  · rw [(extends_applyTransition s msg hnot).2]
    exact h.active
  · obtain ⟨c, -, -, hepoch, hblock⟩ := hx
    rw [hblock, hepoch]

end Transition

/-! ## 4. The run -/

/-- A block: the calls made in it, and the messages a validator handles after its `NewBlock` and
before the next. -/
structure BlockRecord (E : Crates) where
  calls : List SystemCall
  messages : List (Msg E)

/-- The contracts, and a validator. -/
structure Joint (E : Crates) where
  system : System
  validator : State E

namespace Joint

variable (T : Transition E) (D : Deployment)

/-- Fresh contracts over a genesis group, and a validator that starts. -/
def start (genesis : B256) : Joint E := ⟨System.deployed genesis, State.default E⟩

/-- One block. -/
def block (j : Joint E) (n : Nat) (b : BlockRecord E) : Joint E where
  system := (System.execAll D j.system b.calls).1
  validator := Reactive.runState T.applyTransition j.validator (.newBlock n :: b.messages)

/-- The blocks from `n` on. -/
def run (j : Joint E) (n : Nat) : List (BlockRecord E) → Joint E
  | [] => j
  | b :: bs => run (j.block T D n b) (n + 1) bs

/-- The validator follows the block: it is told of the `EpochStaged` logs of the block, in order,
and each is what it expects at that point.  (A block is left with a snapshot, whose number is a
signed 64-bit integer.) -/
structure Followed (j : Joint E) (n : Nat) (b : BlockRecord E) : Prop where
  atBlock : ∀ call ∈ b.calls, call.AtBlock n
  noBlock : ∀ m ∈ b.messages, ∀ block, m ≠ .newBlock block
  delivered : b.messages.filterMap stagedEvent =
    (stagedLogs (System.execAll D j.system b.calls).2).map
      fun x => (x.proposedEpoch, x.groupId, x.signatureId)
  expected : ∀ past m rest, b.messages = past ++ m :: rest →
    ∀ x ∈ stagedLogs (System.execAll D j.system b.calls).2,
      stagedEvent m = some (x.proposedEpoch, x.groupId, x.signatureId) →
        T.Expects (Reactive.runState T.applyTransition j.validator (.newBlock n :: past)) x
  committed : n < 2 ^ 63

/-- The validator follows every block. -/
def FollowedRun (j : Joint E) (n : Nat) : List (BlockRecord E) → Prop
  | [] => True
  | b :: bs => Followed T D j n b ∧ FollowedRun (j.block T D n b) (n + 1) bs

variable {T D} {genesis : B256}

/-- Between two blocks: the validator tracks epochs that the next block finds as the contract. -/
def Tracking (T : Transition E) (j : Joint E) (n : Nat) : Prop :=
  ∃ e, T.InStep j.validator e ∧ j.system.consensus.epochs.asOf n = e.asOf n ∧
    (e.staged ≠ 0 → n ≤ 2 ^ 63)

theorem tracking_start (T : Transition E) (genesis : B256) (n : Nat) :
    Tracking T (start genesis) n :=
  ⟨⟨0, 0, 0, 0⟩, Transition.tracks_default, rfl, fun h => absurd rfl h⟩

/-- The block's message leaves the validator with the contract's epochs. -/
theorem Tracking.newBlock {j : Joint E} {n : Nat} (h : Tracking T j n) :
    T.InStep (T.applyTransition j.validator (.newBlock n)).1
      (j.system.consensus.epochs.asOf n) := by
  obtain ⟨e, htracks, heq, hle⟩ := h
  rw [heq]
  exact htracks.newBlock fun h0 => (hle h0).trans_lt (by decide)

/-- **One block keeps the validator on track**, whether an epoch is staged in it or not. -/
theorem Tracking.block {j : Joint E} {n : Nat} {b : BlockRecord E} (h : Tracking T j n)
    (hb : Followed T D j n b) : Tracking T (j.block T D n b) (n + 1) := by
  have htracks := h.newBlock
  have hstaged := System.execAll_asOf (D := D) (s := j.system) hb.atBlock
  have hdelivered := hb.delivered
  have hexpected := hb.expected
  generalize stagedLogs (System.execAll D j.system b.calls).2 = logs at hstaged hdelivered hexpected
  suffices hafter : T.InStep (j.block T D n b).validator
      ((j.block T D n b).system.consensus.epochs.asOf n) from
    ⟨_, hafter, (Epochs.asOf_asOf _ (Nat.le_succ n)).symm, fun _ => hb.committed⟩
  change T.InStep (Reactive.runState T.applyTransition _ b.messages)
    ((System.execAll D j.system b.calls).1.consensus.epochs.asOf n)
  rcases hstaged with ⟨rfl, heq⟩ | ⟨x, rfl, -, -, -, heq⟩
  · rw [heq]
    exact htracks.quiets hb.noBlock hdelivered
  · rw [heq]
    rw [List.map_singleton, List.filterMap_eq_cons_iff] at hdelivered
    obtain ⟨past, m, rest, hmessages, hpast, hm, hrest⟩ := hdelivered
    have hno := hb.noBlock
    have hx := hexpected past m rest hmessages x (List.mem_singleton_self x) hm
    rw [hmessages] at hno ⊢
    have hbefore := htracks.quiets (fun m' hm' => hno m' (List.mem_append_left _ hm'))
      (List.filterMap_eq_nil_iff.mpr hpast)
    rw [Reactive.runState_append, Reactive.runState_cons]
    exact (hbefore.stage hx hm).quiets
      (fun m' hm' => hno m' (List.mem_append_right _ (List.mem_cons_of_mem _ hm'))) hrest

theorem tracking_run {j : Joint E} {n : Nat} {bs : List (BlockRecord E)} (h : Tracking T j n)
    (hbs : FollowedRun T D j n bs) : Tracking T (j.run T D n bs) (n + bs.length) := by
  induction bs generalizing j n with
  | nil => exact h
  | cons b bs ih =>
    have hrest := ih (h.block hbs.1) hbs.2
    rw [Nat.add_right_comm, Nat.add_assoc] at hrest
    exact hrest

/-- **The validator and the contract name the same active epoch.**  A validator follows the chain
from the deployment of the contracts on.  After the `NewBlock` of a block, its active epoch is the
one the contract computes at that block, whatever calls of the block were executed already. -/
theorem activeEpoch_tracks (T : Transition E) (D : Deployment) (genesis : B256) (first : Nat)
    (blocks : List (BlockRecord E)) (hblocks : FollowedRun T D (start genesis) first blocks)
    (calls : List SystemCall) (hcalls : ∀ call ∈ calls, call.AtBlock (first + blocks.length)) :
    let j := (start genesis).run T D first blocks
    let n := first + blocks.length
    (T.applyTransition j.validator (.newBlock n)).1.activeEpoch.rawValue =
      ((System.execAll D j.system calls).1.consensus.getActiveEpoch n).1 := by
  intro j n
  have htracks := (tracking_run (tracking_start T genesis first) hblocks).newBlock
  have hseen : ((System.execAll D j.system calls).1.consensus.getActiveEpoch n).1 =
      ((System.execAll D j.system calls).1.consensus.epochs.asOf n).active :=
    congrArg Epochs.active (Consensus.epochsWithRollover_fst _ n)
  rw [hseen, htracks.active]
  rcases System.execAll_asOf (D := D) (s := j.system) hcalls with ⟨-, heq⟩ | ⟨x, -, -, -, -, heq⟩
  · rw [heq]
  · rw [heq]

/-- A block in which nothing is staged. -/
theorem Followed.quiet {j : Joint E} {n : Nat} {calls : List SystemCall} {messages : List (Msg E)}
    (hcalls : ∀ call ∈ calls, call.AtBlock n) (hmessages : ∀ m ∈ messages, ∀ block, m ≠ .newBlock block)
    (hdelivered : messages.filterMap stagedEvent = [])
    (hlogs : stagedLogs (System.execAll D j.system calls).2 = []) (hn : n < 2 ^ 63) :
    Followed T D j n ⟨calls, messages⟩ := by
  constructor
  · exact hcalls
  · exact hmessages
  · rw [hlogs]
    exact hdelivered
  · intro past m rest _ x hx
    rw [hlogs] at hx
    exact absurd hx (by simp)
  · exact hn

/-- A block of which the validator handles only the log of the epoch staged in it. -/
theorem Followed.staged {j : Joint E} {n : Nat} {calls : List SystemCall} {log : EventLog Event}
    {x : StagedLog} (hcalls : ∀ call ∈ calls, call.AtBlock n)
    (hlog : stagedEvent (.event log : Msg E) = some (x.proposedEpoch, x.groupId, x.signatureId))
    (hlogs : stagedLogs (System.execAll D j.system calls).2 = [x])
    (hx : T.Expects (T.applyTransition j.validator (.newBlock n)).1 x) (hn : n < 2 ^ 63) :
    Followed T D j n ⟨calls, [.event log]⟩ := by
  constructor
  · exact hcalls
  · intro m hm block
    rw [List.mem_singleton.mp hm]
    simp
  · rw [hlogs, List.filterMap_cons, hlog]
    rfl
  · intro past m rest hsplit y hy _
    rw [hlogs, List.mem_singleton] at hy
    have hlen := congrArg List.length hsplit
    simp only [List.length_cons, List.length_nil, List.length_append] at hlen
    have hnil : past = [] := List.length_eq_zero_iff.mp (by omega)
    rw [hnil, hy]
    exact hx
  · exact hn

end Joint

namespace Toy

/-- The consensus contract of a chain on which the first rollover's message can be signed. -/
def deployment : Deployment := ⟨libraries, ⟨3, 77⟩, 0⟩

/-- The calls of both key generations. -/
def bothGroups : List (Address × Coordinator.Call) :=
  genesisCalls ++ epochCalls ++
    [1, 2, 3, 4].map (fun a => (a, .keyGenSecretShare (epochGroup ∅).id share)) ++
    [1, 2, 3, 4].map (fun a => (a, .keyGenConfirm (epochGroup ∅).id))

/-- The first regular epoch is proposed, and the genesis group signs. -/
def proposingCalls : List SystemCall :=
  bothGroups.map (fun c => .coordinator c.1 c.2) ++
    [.consensus 997 3 (.proposeEpoch 1 1000 (epochGroup ∅).id)] ++
    [shareCall 1 2 3 4, shareCall 2 1 3 4, thirdShare].map (fun c => .coordinator c.1 c.2)

/-- It is staged. -/
def stagingCall : SystemCall :=
  .consensus 998 3 (.stageEpoch 1 1000 (epochGroup ∅).id (Coordinator.signatureId group.id 0))

/-- The first validator sees both key generations. -/
def proposingMessages : List (Msg crates) :=
  epochRun 1 ++ (everyone 19 (fun a => .keyGenSecretShared (epochGroup ∅).id a share)).map .event ++
    (everyone 23 (fun a => .keyGenConfirmed (epochGroup ∅).id a)).map .event

/-- The message is a block. -/
def isBlock {E : Crates} : Msg E → Bool
  | .newBlock _ => true
  | _ => false

/-- What it is told of the staging. -/
def stagedLog : StagedLog := ⟨1, 1000, (epochGroup ∅).id, Coordinator.signatureId group.id 0⟩

/-- The log it sees of it. -/
def stagedEventLog : EventLog Event :=
  eventLog 998 (.epochStaged 1 (epochGroup ∅).id (Coordinator.signatureId group.id 0))

/-- The blocks before the first rollover. -/
def rolloverBlocks : List (BlockRecord crates) :=
  [⟨proposingCalls, proposingMessages⟩,
    ⟨[stagingCall], [.event stagedEventLog]⟩, ⟨[], []⟩]

end Toy

namespace Joint

open Toy

/-- The first regular epoch is proposed in one block, staged in the next, and active on both sides
at its rollover block. -/
theorem activeEpoch_tracks_first :
    let j := (start group.id).run (Toy.validator 1) deployment 997 rolloverBlocks
    ((Toy.validator 1).applyTransition j.validator (.newBlock 1000)).1.activeEpoch.rawValue =
        (j.system.consensus.getActiveEpoch 1000).1 ∧
      (j.system.consensus.getActiveEpoch 1000).1 = 1 := by
  dsimp only
  have hproposed : Followed (Toy.validator 1) deployment (start group.id) 997
      ⟨proposingCalls, proposingMessages⟩ := by
    refine .quiet ?_ ?_ (by decide +kernel) (by decide +kernel) (by decide)
    · intro call hcall
      simp only [proposingCalls, List.mem_append, List.mem_map, List.mem_singleton] at hcall
      rcases hcall with (⟨c, -, rfl⟩ | rfl) | ⟨c, -, rfl⟩ <;> trivial
    · rintro m hm block rfl
      have hno : proposingMessages.all (fun m => !isBlock m) = true := by decide +kernel
      exact absurd (List.all_eq_true.mp hno _ hm) (by simp [isBlock])
  have hstaged : Followed (Toy.validator 1) deployment
      ((start group.id).block (Toy.validator 1) deployment 997 ⟨proposingCalls, proposingMessages⟩)
      998 ⟨[stagingCall], [.event stagedEventLog]⟩ := by
    refine .staged (x := stagedLog) ?_ rfl (by decide +kernel) ?_ (by decide)
    · intro call hcall
      rw [List.mem_singleton.mp hcall]
      rfl
    · simp only [block, start]
      decide +kernel
  have hempty : ∀ j, Followed (Toy.validator 1) deployment j 999 ⟨[], []⟩ := by
    intro j
    exact .quiet (by simp) (by simp) rfl rfl (by decide)
  have hrun : FollowedRun (Toy.validator 1) deployment (start group.id) 997 rolloverBlocks :=
    ⟨hproposed, hstaged, hempty _, trivial⟩
  have hlength : 997 + rolloverBlocks.length = 1000 := rfl
  have htracks := activeEpoch_tracks (Toy.validator 1) deployment group.id 997 rolloverBlocks hrun []
    (by simp)
  simp only [System.execAll, hlength] at htracks
  refine ⟨htracks, ?_⟩
  decide +kernel

end Joint

end Safenet
