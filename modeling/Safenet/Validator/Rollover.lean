/-
# How the rollover moves

The rollover is written by a dozen handlers.  This module says once how it can move: one
message moves it along `RolloverStep`s, of which there are eight (`rollover_applyTransition`).
A block may take two of them, the clock's and the timeouts', which is why the statement is
about the reflexive transitive closure.

Two consequences are read off the eight cases.  The group of a round is always one its epoch
CAN have (`GroupOf`, `wellGrouped_applyTransition`), whichever participants were excluded on
the way; and the epoch a rollover may have proposed only grows (`bound_applyTransition`), so no
epoch is proposed twice.
-/
import Safenet.Validator.Sessions

namespace Safenet

open Frost

variable {E : Crates}

/-! ## 1. Rounds -/

/-- The epoch and the group of the key-generation round underway. -/
def RolloverState.round : RolloverState E → Option (EpochId × Group)
  | .collectingCommitments c => some (c.nextEpoch, c.group)
  | .collectingShares c => some (c.nextEpoch, c.group)
  | .collectingConfirmations c => some (c.nextEpoch, c.group)
  | _ => none

/-- Epoch `n` is due: genesis just completed, or the clock passed the epoch worked toward. -/
def RolloverState.Due (r : RolloverState E) (n : ℕ+) : Prop :=
  (∃ g, r.round = some (.genesis, g)) ∨ ∃ t, r.nextEpoch = some (.number t) ∧ t < n

namespace Transition

variable (T : Transition E)

/-- The groups a key generation for an epoch can run over. -/
def GroupOf : EpochId → Group → Prop
  | .genesis, g => g = T.genesis.group E.keccak256
  | .number n, g => ∃ excluded set, T.epochParticipants n excluded = some set ∧
      g = set.group E.keccak256

/-- One move of the rollover. -/
inductive RolloverStep (r : RolloverState E) : RolloverState E → Prop where
  /-- The round goes on, possibly to its next phase. -/
  | progress {r' : RolloverState E} {e : EpochId} {g : Group} :
      r.round = some (e, g) → r'.round = some (e, g) → RolloverStep r r'
  /-- The genesis group was created onchain. -/
  | genesis {c : CollectingCommitments E} : r = .waitingForGenesis → c.nextEpoch = .genesis →
      T.GroupOf .genesis c.group → RolloverStep r (.collectingCommitments c)
  /-- The round starts over, with other participants. -/
  | restart {c : CollectingCommitments E} {n : ℕ+} {g : Group} : r.round = some (.number n, g) →
      c.nextEpoch = .number n → T.GroupOf (.number n) c.group →
      RolloverStep r (.collectingCommitments c)
  /-- An epoch that is due starts its key generation. -/
  | start {c : CollectingCommitments E} {n : ℕ+} : r.Due n → c.nextEpoch = .number n →
      T.GroupOf (.number n) c.group → RolloverStep r (.collectingCommitments c)
  /-- An epoch that is due has too few participants. -/
  | skip {n : ℕ+} : r.Due n → RolloverStep r (.epochSkipped n)
  /-- The round fails. -/
  | fail {e : EpochId} {g : Group} : r.round = some (e, g) → RolloverStep r (rolloverFailure e)
  /-- The round completes, and its rollover is proposed. -/
  | propose {c : CollectingConfirmations E} {s : SigningRollover E} {n : ℕ+} :
      r = .collectingConfirmations c → c.nextEpoch = .number n → s.nextEpoch = n →
      s.group = c.group → RolloverStep r (.signingRollover s)
  /-- The proposed rollover is staged. -/
  | staged {s : SigningRollover E} : r = .signingRollover s → RolloverStep r (.epochStaged s.nextEpoch)
  /-- An epoch was staged before genesis was seen. -/
  | recover {n : ℕ+} : r = .waitingForGenesis → RolloverStep r (.epochSkipped n)
  | halt : r = .waitingForGenesis → RolloverStep r .halted

/-- At most one move. -/
abbrev RolloverMove (r r' : RolloverState E) : Prop := Relation.ReflGen T.RolloverStep r r'

/-- Zero or more moves. -/
abbrev RolloverSteps (r r' : RolloverState E) : Prop := Relation.ReflTransGen T.RolloverStep r r'

variable {T}

/-! ## 2. The handlers -/

/-- The group a key generation starts with is the participant set's, whoever we are. -/
theorem startKeyGen_rollover (s : State E) (e : EpochId) (set : ParticipantSet) (d : Option Nat) :
    ∃ c : CollectingCommitments E, (T.startKeyGen s e set d).1.rollover = .collectingCommitments c ∧
      c.nextEpoch = e ∧ c.group = set.group E.keccak256 ∧ c.commitments = ∅ ∧ c.deadline = d := by
  unfold startKeyGen
  split
  · rename_i g poap hp
    exact ⟨_, rfl, rfl, ParticipantSet.participateAs_group _ hp, rfl, rfl⟩
  · exact ⟨_, rfl, rfl, rfl, rfl, rfl⟩

theorem startKeyGen_step {s : State E} {n : ℕ+} {x : Finset Address} {set : ParticipantSet}
    {d : Option Nat} (hset : T.epochParticipants n x = some set) {r : RolloverState E}
    (h : r.Due n ∨ ∃ g, r.round = some (.number n, g)) :
    T.RolloverStep r (T.startKeyGen s (.number n) set d).1.rollover := by
  obtain ⟨c, hc, he, hg, -, -⟩ := startKeyGen_rollover (T := T) s (.number n) set d
  rw [hc]
  rcases h with h | ⟨g, h⟩
  · exact .start h he ⟨x, set, hset, hg⟩
  · exact .restart h he ⟨x, set, hset, hg⟩

theorem restartKeyGenExcluding_step {s : State E} {e : EpochId} {g : Group} {x : Finset Address}
    {d : Option Nat} {r : RolloverState E} (h : r.round = some (e, g)) :
    T.RolloverStep r (T.restartKeyGenExcluding s e x d).1.rollover := by
  unfold restartKeyGenExcluding
  dsimp only
  split
  · rename_i set hset
    cases e with
    | genesis => exact absurd hset (by simp)
    | number n => exact startKeyGen_step hset (.inr ⟨g, h⟩)
  · exact .fail h

theorem handleGenesisKeyGen_move (s : State E) (gid : B256) :
    T.RolloverMove s.rollover (T.handleGenesisKeyGen s gid).1.rollover := by
  unfold handleGenesisKeyGen
  split
  · rename_i hr
    split
    · obtain ⟨c, hc, he, hg, -, -⟩ := startKeyGen_rollover (T := T) s .genesis T.genesis none
      rw [hc]
      exact .single (.genesis hr he hg)
    · exact .refl
  · exact .refl

theorem finalizeKeyGenCommitments_step {e : EpochId} {g : Group} {x : Option (Secrets E)}
    {k : BTreeMap Address (VerifiedCommitment E)} {d : Option Nat} {r : RolloverState E}
    (h : r.round = some (e, g)) :
    T.RolloverStep r (finalizeKeyGenCommitments e g x k d).1 := by
  unfold finalizeKeyGenCommitments
  dsimp only
  split
  · exact .progress h rfl
  · exact .fail h

theorem handleKeyGenSetup_move (s : State E) (gid : B256) (secrets : Secrets E) :
    T.RolloverMove s.rollover (T.handleKeyGenSetup s gid secrets).1.rollover := by
  unfold handleKeyGenSetup
  split
  · rename_i c hr
    have hround : s.rollover.round = some (c.nextEpoch, c.group) := by rw [hr]; rfl
    split
    · split
      · dsimp only
        split
        · exact .single (.progress hround rfl)
        · exact .single (finalizeKeyGenCommitments_step hround)
      · exact .refl
    · exact .refl
  · exact .refl

theorem handleKeyGenCommitted_move (s : State E) (block : Nat) (gid : B256) (p : Address)
    (k : KeyGenCommitment) :
    T.RolloverMove s.rollover (T.handleKeyGenCommitted s block gid p k).1.rollover := by
  unfold handleKeyGenCommitted
  split
  · rename_i c hr
    have hround : s.rollover.round = some (c.nextEpoch, c.group) := by rw [hr]; rfl
    split
    · dsimp only
      split
      · exact .single (.progress hround rfl)
      · split
        · exact .single (.progress hround rfl)
        · exact .single (finalizeKeyGenCommitments_step hround)
        · exact .single (finalizeKeyGenCommitments_step hround)
    · exact .refl
  · exact .refl

theorem registerShare_fields (c : CollectingShares E) (block : Nat) (p : Address)
    (k : KeyGenSecretShare) :
    (T.registerShare c block p k).1.nextEpoch = c.nextEpoch ∧
      (T.registerShare c block p k).1.group = c.group ∧
      (T.registerShare c block p k).1.participation = c.participation ∧
      (T.registerShare c block p k).1.complaints = c.complaints ∧
      (T.registerShare c block p k).1.deadline = c.deadline := by
  unfold registerShare
  split
  · exact ⟨rfl, rfl, rfl, rfl, rfl⟩
  · dsimp only
    split
    · exact ⟨rfl, rfl, rfl, rfl, rfl⟩
    · split
      · exact ⟨rfl, rfl, rfl, rfl, rfl⟩
      · exact ⟨rfl, rfl, rfl, rfl, rfl⟩

theorem handleKeyGenSecretShared_move (s : State E) (block : Nat) (gid : B256) (p : Address)
    (k : KeyGenSecretShare) :
    T.RolloverMove s.rollover (T.handleKeyGenSecretShared s block gid p k).1.rollover := by
  unfold handleKeyGenSecretShared
  split
  · rename_i c hr
    have hround : s.rollover.round = some (c.nextEpoch, c.group) := by rw [hr]; rfl
    split
    · obtain ⟨hn, hg, -, -, -⟩ := registerShare_fields (T := T) c block p k
      have hstep : ∀ {c' : CollectingConfirmations E}, c'.nextEpoch = (T.registerShare c block p k).1.nextEpoch →
          c'.group = (T.registerShare c block p k).1.group →
          T.RolloverMove s.rollover (.collectingConfirmations c') := by
        intro c' h1 h2
        exact .single (.progress hround (by simp only [RolloverState.round, h1, h2, hn, hg]))
      dsimp only
      split
      · exact .single (.progress hround (by simp only [RolloverState.round, hn, hg]))
      · split
        · split
          · split
            · exact hstep rfl rfl
            · rw [failRollover, hn]
              exact .single (.fail hround)
          · exact hstep rfl rfl
        · exact hstep rfl rfl
    · exact .refl
  · exact .refl

theorem completeGenesis_step {s : State E} {block : Nat} {c : CollectingConfirmations E}
    {r : RolloverState E} {g : Group} (h : r.round = some (.genesis, g)) :
    T.RolloverStep r (T.completeGenesis s block c).1.rollover := by
  unfold completeGenesis
  dsimp only
  split
  · rw [(finalizeKeyGen_frame _ _ _ _).2.2.1]
    exact .skip (.inl ⟨g, h⟩)
  · rename_i set hset
    exact startKeyGen_step hset (.inl (.inl ⟨g, h⟩))

theorem handleKeyGenConfirmed_move (s : State E) (block : Nat) (gid : B256) (p : Address) :
    T.RolloverMove s.rollover (T.handleKeyGenConfirmed s block gid p).1.rollover := by
  unfold handleKeyGenConfirmed
  split
  · rename_i c hr
    have hround : s.rollover.round = some (c.nextEpoch, c.group) := by rw [hr]; rfl
    split
    · dsimp only
      split
      · exact .single (.progress hround rfl)
      · split
        · rename_i he
          exact .single (completeGenesis_step (by rw [hround, he]))
        · rename_i n he
          exact .single (.propose hr he rfl rfl)
    · exact .refl
  · exact .refl

theorem handleEpochStaged_move (s : State E) (p : Nat) (gid : B256) :
    T.RolloverMove s.rollover (handleEpochStaged s p gid).1.rollover := by
  unfold handleEpochStaged
  split
  · rename_i c hr
    split
    · simp only [handleSignAttested, (finalizeKeyGen_frame _ _ _ _).2.2.1]
      exact .single (.staged hr)
    · exact .refl
  · rename_i hr
    dsimp only
    split
    · exact .single (.recover hr)
    · exact .single (.halt hr)
  · exact .refl

/-- A phase that counts complaints is a round. -/
theorem complaintPhase_round {block : Nat} {gid : B256} {r : RolloverState E}
    {p : ComplaintPhase E} (h : T.complaintPhase block gid r = some p) :
    r.round = some (p.nextEpoch, p.group) ∧ p.group.id = gid := by
  unfold complaintPhase at h
  split at h
  · dsimp only at h
    split at h
    · rename_i hg
      rw [Option.some.injEq] at h
      subst h
      exact ⟨rfl, hg⟩
    · exact absurd h (by simp)
  · split at h
    · rename_i hg
      rw [Option.some.injEq] at h
      subst h
      exact ⟨rfl, hg.1⟩
    · exact absurd h (by simp)
  · exact absurd h (by simp)

/-- A phase that accepts responses is a round. -/
theorem responsePhase_round {block : Nat} {gid : B256} {r : RolloverState E}
    {p : ResponsePhase E} (h : responsePhase block gid r = some p) :
    r.round = some (p.nextEpoch, p.group) ∧ p.group.id = gid := by
  unfold responsePhase at h
  split at h
  · split at h
    · rename_i hg
      rw [Option.some.injEq] at h
      subst h
      exact ⟨rfl, hg⟩
    · exact absurd h (by simp)
  · split at h
    · rename_i hg
      rw [Option.some.injEq] at h
      subst h
      exact ⟨rfl, hg.1⟩
    · exact absurd h (by simp)
  · exact absurd h (by simp)

theorem withComplaints_round (k : BTreeMap Address Complaint) (r : RolloverState E) :
    (withComplaints k r).round = r.round := by
  cases r <;> rfl

theorem registerResponse_round (p a : Address) (x : VerifiedShare E)
    (k : BTreeMap Address Complaint) (r : RolloverState E) :
    (T.registerResponse p a x k r).round = r.round := by
  cases r <;> rfl

theorem handleKeyGenComplained_move (s : State E) (block : Nat) (gid : B256) (p a : Address) :
    T.RolloverMove s.rollover (T.handleKeyGenComplained s block gid p a).1.rollover := by
  unfold handleKeyGenComplained
  split
  · exact .refl
  · rename_i ph hp
    have hround := (complaintPhase_round hp).1
    dsimp only
    split
    · exact .single (restartKeyGenExcluding_step hround)
    · exact .single (.progress hround (by rw [withComplaints_round, hround]))

theorem confirmAfterResponse_steps {s : State E} {r : RolloverState E} {e : EpochId} {g : Group}
    (h : r.round = some (e, g)) (h' : s.rollover.round = some (e, g)) :
    T.RolloverStep r (T.confirmAfterResponse s).1.rollover := by
  unfold confirmAfterResponse
  split
  · rename_i c hr
    have hc : (c.nextEpoch, c.group) = (e, g) := by
      rw [hr] at h'
      exact Option.some.inj h'
    split
    · split
      · split
        · exact .progress h (by rw [← hc]; rfl)
        · have he : c.nextEpoch = e := congrArg Prod.fst hc
          rw [failRollover, he]
          exact .fail h
      · exact .progress h h'
    · exact .progress h h'
  · exact .progress h h'

theorem handleKeyGenComplaintResponded_move (s : State E) (block : Nat) (gid : B256)
    (p a : Address) (x : U256) :
    T.RolloverMove s.rollover (T.handleKeyGenComplaintResponded s block gid p a x).1.rollover := by
  unfold handleKeyGenComplaintResponded
  split
  · exact .refl
  · rename_i ph hp
    have hround := (responsePhase_round hp).1
    split
    · exact .refl
    · split
      · exact .refl
      · split
        · exact .single (confirmAfterResponse_steps hround (by rw [registerResponse_round, hround]))
        · exact .single (restartKeyGenExcluding_step hround)

/-- A rollover the block clock looks at works toward a regular epoch. -/
theorem nextEpoch_of_bind {r : RolloverState E} {t : ℕ+}
    (h : r.nextEpoch.bind EpochId.number? = some t) : r.nextEpoch = some (.number t) := by
  obtain ⟨e, he, hn⟩ := Option.bind_eq_some_iff.mp h
  cases e with
  | genesis => exact absurd hn (by simp [EpochId.number?])
  | number n =>
    rw [EpochId.number?, Option.some.injEq] at hn
    rw [he, hn]

theorem handleRolloverNewBlock_move (s : State E) (block : Nat) :
    T.RolloverMove s.rollover (T.handleRolloverNewBlock s block).1.rollover := by
  unfold handleRolloverNewBlock
  split
  · exact .refl
  · rename_i t ht
    have hnext : s.rollover.nextEpoch = some (.number t) := nextEpoch_of_bind ht
    dsimp only
    split
    · exact .refl
    · rename_i hlt
      have hdue : s.rollover.Due (nextNumber block T.config.blocksPerEpoch) :=
        .inr ⟨t, hnext, not_le.mp hlt⟩
      split
      · rename_i set hset
        exact .single (startKeyGen_step hset (.inl hdue))
      · exact .single (.skip hdue)

/-- A round past its deadline is a round. -/
theorem stalledKeyGen_round {block : Nat} {r : RolloverState E} {e : EpochId} {x : Finset Address}
    (h : stalledKeyGen block r = some (e, x)) : ∃ g, r.round = some (e, g) := by
  rcases r with _ | _ | _ | _ | c | c | c | c <;> simp only [stalledKeyGen, reduceCtorEq] at h
  · split at h
    · simp only [Option.some.injEq, Prod.mk.injEq] at h
      exact ⟨c.group, by rw [← h.1]; rfl⟩
    · exact absurd h (by simp)
  · split at h
    · simp only [Option.some.injEq, Prod.mk.injEq] at h
      exact ⟨c.group, by rw [← h.1]; rfl⟩
    · exact absurd h (by simp)
  · split at h
    · exact absurd h (by simp)
    · split at h
      · simp only [Option.some.injEq, Prod.mk.injEq] at h
        exact ⟨c.group, by rw [← h.1]; rfl⟩
      · split at h
        · simp only [Option.some.injEq, Prod.mk.injEq] at h
          exact ⟨c.group, by rw [← h.1]; rfl⟩
        · exact absurd h (by simp)

theorem handleKeyGenTimeouts_move (s : State E) (block : Nat) :
    T.RolloverMove s.rollover (T.handleKeyGenTimeouts s block).1.rollover := by
  unfold handleKeyGenTimeouts
  split
  · rename_i e he
    have hround : ∃ g, s.rollover.round = some (e, g) := by
      unfold stuckKeyGen at he
      split at he
      · rename_i c hr
        split at he
        · split at he
          · rw [Option.some.injEq] at he
            exact ⟨c.group, by rw [hr, ← he]; rfl⟩
          · exact absurd he (by simp)
        · exact absurd he (by simp)
      · exact absurd he (by simp)
    obtain ⟨g, hg⟩ := hround
    exact .single (.fail hg)
  · split
    · exact .refl
    · rename_i e x hx
      obtain ⟨g, hg⟩ := stalledKeyGen_round hx
      exact .single (restartKeyGenExcluding_step hg)

/-! ## 3. The whole transition -/

theorem applyBlock_rollover (s : State E) (block : Nat) :
    (T.applyBlock s block).1.rollover =
      (T.handleKeyGenTimeouts (T.handleRolloverNewBlock s block).1 block).1.rollover := by
  have h4 := fun t : State E => (handleNonceTopup_frame t).2.2.1
  simp only [applyBlock, handleGroupReconciliation, h4, handleSigningTimeouts]

/-! The handlers of a signing session move nothing but the sessions and their index; only the
`Sign` log also observes a nonce. -/

theorem handleSign_onlySessions (s : State E) (block : Nat) (gid message sid : B256) (q : Nat) :
    OnlySessions (observeNonce s gid q).1 (T.handleSign s block gid message sid q).1 := by
  rw [handleSign_eq]
  dsimp only
  split
  · split
    · exact ⟨_, _, rfl⟩
    · exact .refl _
  · exact ⟨_, _, rfl⟩
  · exact .refl _

theorem handleSign_rollover (s : State E) (block : Nat) (gid message sid : B256) (q : Nat) :
    (T.handleSign s block gid message sid q).1.rollover = s.rollover :=
  (handleSign_onlySessions s block gid message sid q).rollover.trans (observeNonce_frame s gid q).2.2.1

theorem handleOracleResult_onlySessions (s : State E) (block : Nat) (o : Address) (m : B256)
    (b : Bool) : OnlySessions s (T.handleOracleResult s block o m b).1 := by
  unfold handleOracleResult
  split
  · split
    · split
      · exact ⟨_, _, rfl⟩
      · exact ⟨_, _, rfl⟩
    · exact .refl s
  · exact .refl s

theorem handleSignRevealedNonces_onlySessions (s : State E) (block : Nat) (sid : B256)
    (p : Address) (n : SignNonces) :
    OnlySessions s (T.handleSignRevealedNonces s block sid p n).1 := by
  unfold handleSignRevealedNonces
  split
  · exact .refl s
  · split
    · dsimp only
      split
      · exact ⟨_, _, rfl⟩
      · exact ⟨_, _, rfl⟩
    · exact .refl s

theorem handleSignShared_onlySessions (s : State E) (sid root : B256) (p : Address) :
    OnlySessions s (handleSignShared s sid root p).1 := by
  unfold handleSignShared
  split
  · exact .refl s
  · split
    · exact ⟨_, _, rfl⟩
    · exact .refl s

theorem handleSignCompleted_onlySessions (s : State E) (block : Nat) (sid : B256) :
    OnlySessions s (T.handleSignCompleted s block sid).1 := by
  unfold handleSignCompleted
  split
  · exact .refl s
  · split
    · exact ⟨_, _, rfl⟩
    · exact .refl s

theorem handleTransactionProposed_onlySessions (s : State E) (block : Nat) (o : Address) (e : Nat)
    (d : Bytes) (tx : SafeTransaction) :
    OnlySessions s (T.handleTransactionProposed s block o e d tx).1 := by
  unfold handleTransactionProposed
  dsimp only
  split
  · exact .refl s
  · split
    · exact .refl s
    · split
      · exact .refl s
      · exact ⟨_, _, rfl⟩

/-- How a log or a resume moves the rollover. -/
theorem rollover_move (s : State E) (msg : Msg E) (hmsg : ∀ block, msg ≠ .newBlock block) :
    T.RolloverMove s.rollover (T.applyTransition s msg).1.rollover := by
  cases msg with
  | newBlock block => exact absurd rfl (hmsg block)
  | resume r =>
    cases r with
    | noop => exact .refl
    | setup gid secrets => exact handleKeyGenSetup_move s gid secrets
    | nonceTree gid k =>
      simp only [applyTransition, applyResume, (handleNonceTree_frame s gid k).2.2]
      exact .refl
    | nonceCommitments sid m n proof =>
      simp only [applyTransition, applyResume, handleNonceCommitments_state]
      exact .refl
    | nonce m n =>
      simp only [applyTransition, applyResume, handleNonces_state]
      exact .refl
  | event log =>
    obtain ⟨block, index, address, data⟩ := log
    cases data with
    | keyGen gid => exact handleGenesisKeyGen_move s gid
    | keyGenCommitted gid p k => exact handleKeyGenCommitted_move s block gid p k
    | keyGenSecretShared gid p k => exact handleKeyGenSecretShared_move s block gid p k
    | keyGenConfirmed gid p => exact handleKeyGenConfirmed_move s block gid p
    | keyGenComplained gid p a x => exact handleKeyGenComplained_move s block gid p a
    | keyGenComplaintResponded gid p a x =>
      exact handleKeyGenComplaintResponded_move s block gid p a x
    | epochStaged p gid sid => exact handleEpochStaged_move s p gid
    | preprocess gid p chunk k =>
      simp only [applyTransition, applyEvent, (T.handlePreprocess_frame s gid p chunk k).2.2]
      exact .refl
    | sign gid message sid q =>
      simp only [applyTransition, applyEvent, handleSign_rollover]
      exact .refl
    | signRevealedNonces sid p n =>
      simp only [applyTransition, applyEvent, (handleSignRevealedNonces_onlySessions s block sid p n).rollover]
      exact .refl
    | signShared sid root p =>
      simp only [applyTransition, applyEvent, (handleSignShared_onlySessions s sid root p).rollover]
      exact .refl
    | signCompleted sid =>
      simp only [applyTransition, applyEvent, (handleSignCompleted_onlySessions s block sid).rollover]
      exact .refl
    | transactionProposed o e d tx =>
      simp only [applyTransition, applyEvent, (handleTransactionProposed_onlySessions s block o e d tx).rollover]
      exact .refl
    | transactionAttested h o e oh sid => exact .refl
    | oracleResult m b =>
      simp only [applyTransition, applyEvent, (handleOracleResult_onlySessions s block address m b).rollover]
      exact .refl
    | unhandled => exact .refl

/-- **How one message moves the rollover.** -/
theorem rollover_applyTransition (s : State E) (msg : Msg E) :
    T.RolloverSteps s.rollover (T.applyTransition s msg).1.rollover := by
  cases msg with
  | newBlock block =>
    change T.RolloverSteps _ (T.applyBlock s block).1.rollover
    rw [applyBlock_rollover]
    exact (handleRolloverNewBlock_move s block).to_reflTransGen.trans
      (handleKeyGenTimeouts_move _ block).to_reflTransGen
  | resume r => exact (rollover_move s (.resume r) (by simp)).to_reflTransGen
  | event log => exact (rollover_move s (.event log) (by simp)).to_reflTransGen

/-! ## 4. What the moves keep -/

/-- What one move keeps, any number of moves keep. -/
theorem RolloverSteps.keep {P : RolloverState E → Prop} {r r' : RolloverState E}
    (hstep : ∀ a b, T.RolloverStep a b → P a → P b) (h : T.RolloverSteps r r') (hr : P r) :
    P r' := by
  induction h with
  | refl => exact hr
  | tail _ h ih => exact hstep _ _ h ih

/-- The largest epoch number a rollover can have proposed so far. -/
def bound : RolloverState E → Nat
  | .waitingForGenesis => 0
  | .halted => 0
  | .epochStaged n => n
  | .epochSkipped n => n
  | .signingRollover c => c.nextEpoch
  | .collectingCommitments c => c.nextEpoch.rawValue - 1
  | .collectingShares c => c.nextEpoch.rawValue - 1
  | .collectingConfirmations c => c.nextEpoch.rawValue - 1

theorem bound_of_round {r : RolloverState E} {e : EpochId} {g : Group}
    (h : r.round = some (e, g)) : bound r = e.rawValue - 1 := by
  cases r <;> simp only [RolloverState.round, Option.some.injEq, Prod.mk.injEq, reduceCtorEq] at h
  all_goals simp only [bound, h.1]

theorem bound_of_due {r : RolloverState E} {n : ℕ+} (h : r.Due n) : bound r ≤ n - 1 := by
  rcases h with ⟨g, h⟩ | ⟨t, h, hlt⟩
  · rw [bound_of_round h]
    simp [EpochId.rawValue]
  · have hlt' : (t : Nat) < n := hlt
    cases r <;> simp only [RolloverState.nextEpoch, Option.some.injEq, reduceCtorEq,
      EpochId.number.injEq] at h
    all_goals simp only [bound, h, EpochId.rawValue]; omega

theorem bound_step {r r' : RolloverState E} (h : T.RolloverStep r r') : bound r ≤ bound r' := by
  cases h with
  | progress h h' => rw [bound_of_round h, bound_of_round h']
  | genesis h he hg => rw [h]; exact Nat.zero_le _
  | restart h he hg => rw [bound_of_round h, bound, he]
  | start h he hg =>
    rw [bound, he]
    exact bound_of_due h
  | skip h => exact (bound_of_due h).trans (Nat.sub_le _ _)
  | fail h =>
    rename_i e g
    rw [bound_of_round h]
    cases e with
    | genesis => exact Nat.zero_le _
    | number n => exact Nat.sub_le _ _
  | propose h he hn hg =>
    rw [h, bound, bound, he, hn]
    exact Nat.sub_le _ _
  | staged h => rw [h]; exact le_rfl
  | recover h => rw [h]; exact Nat.zero_le _
  | halt h => rw [h]; exact Nat.zero_le _

/-- **The proposed epoch only grows.** -/
theorem bound_applyTransition (s : State E) (msg : Msg E) :
    bound s.rollover ≤ bound (T.applyTransition s msg).1.rollover :=
  RolloverSteps.keep (P := fun r => bound s.rollover ≤ bound r)
    (fun _ _ hstep h => h.trans (bound_step hstep))
    (rollover_applyTransition (T := T) s msg) le_rfl

/-- The groups the rollover holds are groups of their epochs. -/
def WellGrouped (T : Transition E) : RolloverState E → Prop
  | .collectingCommitments c => T.GroupOf c.nextEpoch c.group
  | .collectingShares c => T.GroupOf c.nextEpoch c.group
  | .collectingConfirmations c => T.GroupOf c.nextEpoch c.group
  | .signingRollover c => T.GroupOf (.number c.nextEpoch) c.group
  | _ => True

theorem groupOf_of_round {r : RolloverState E} {e : EpochId} {g : Group}
    (h : r.round = some (e, g)) : WellGrouped T r ↔ T.GroupOf e g := by
  cases r <;> simp only [RolloverState.round, Option.some.injEq, Prod.mk.injEq, reduceCtorEq] at h
  all_goals simp only [WellGrouped, h.1, h.2]

theorem wellGrouped_step {r r' : RolloverState E} (h : T.RolloverStep r r')
    (hw : WellGrouped T r) : WellGrouped T r' := by
  cases h with
  | progress h h' => exact (groupOf_of_round h').mpr ((groupOf_of_round h).mp hw)
  | genesis h he hg => rw [WellGrouped, he]; exact hg
  | restart h he hg => rw [WellGrouped, he]; exact hg
  | start h he hg => rw [WellGrouped, he]; exact hg
  | skip h => trivial
  | fail h =>
    rename_i e g
    cases e <;> trivial
  | propose h he hn hg =>
    rw [h, WellGrouped, he] at hw
    rw [WellGrouped, hn, hg]
    exact hw
  | staged h => trivial
  | recover h => trivial
  | halt h => trivial

theorem wellGrouped_applyTransition {s : State E} (msg : Msg E)
    (hw : WellGrouped T s.rollover) : WellGrouped T (T.applyTransition s msg).1.rollover :=
  RolloverSteps.keep (fun _ _ hstep => wellGrouped_step hstep)
    (rollover_applyTransition (T := T) s msg) hw

end Transition

end Safenet
