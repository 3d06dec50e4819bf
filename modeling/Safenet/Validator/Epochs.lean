/-
# The epochs a validator tracks

An epoch enters `State.epochs` when its group is generated (genesis) or staged, becomes active on
the block clock, and is reaped by the reconciliation at the end of a block.  Sessions come and go
in between, each signed with the group of the epoch its packet names.  This module is about the
bookkeeping of these four things.

* `membership` -- what is tracked of an epoch besides its nonces.  Between two reconciliations it
  only grows, and it grows at the epoch the rollover works toward, which is above every epoch
  tracked before (`horizon`): an entry is never overwritten.
* `Bookkept` -- the invariant: a session's epoch is tracked, under the group the session signs
  with; the rollover works toward an epoch past the active one; a participant of a round holds
  secrets of it.

The reconciliation then keeps what is needed because the oldest epoch it keeps is a minimum over
the sessions and the active epoch (`oldestEpoch_le`).
-/
import Safenet.Validator.Rollover

namespace Safenet

open Frost

variable {E : Crates}

/-! ## 1. Membership -/

/-- What a tracked epoch keeps for as long as it is tracked: its group and our key share. -/
def State.membership (s : State E) (e : EpochId) : Option (Group × KeyShare E) :=
  s.epochs[e]?.map fun entry => (entry.group, entry.keyShare)

theorem State.membership_setNonces {s : State E} {key : EpochId} {epoch : Epoch E}
    (h : s.epochs[key]? = some epoch) (nonces : NonceState) :
    (s.setNonces key epoch nonces).membership = s.membership := by
  funext e
  simp only [membership, setNonces, BTreeMap.get_insert]
  by_cases he : e = key
  · rw [if_pos he, he, h]
    rfl
  · rw [if_neg he]

theorem State.findGroup_eq_some {s : State E} {gid : B256} {key : EpochId} {epoch : Epoch E}
    (h : s.findGroup gid = some (key, epoch)) :
    s.epochs[key]? = some epoch ∧ epoch.group.id = gid := by
  obtain ⟨h1, h2⟩ := BTreeMap.findValue?_some h
  exact ⟨h1, by simpa using h2⟩

theorem State.membership_congr {s s' : State E} (h : s'.epochs = s.epochs) :
    s'.membership = s.membership := by
  funext e
  rw [membership, h, membership]

namespace Transition

variable {T : Transition E}

theorem observeNonce_membership (s : State E) (gid : B256) (q : Nat) :
    (observeNonce s gid q).1.membership = s.membership := by
  unfold observeNonce
  split
  · rfl
  · rename_i key epoch hf
    exact State.membership_setNonces (State.findGroup_eq_some hf).1 _

theorem handleNonceTree_membership (s : State E) (gid commitment : B256) :
    (handleNonceTree s gid commitment).1.membership = s.membership := by
  unfold handleNonceTree
  split
  · rfl
  · rename_i key epoch hf
    exact State.membership_setNonces (State.findGroup_eq_some hf).1 _

theorem handlePreprocess_membership (s : State E) (gid : B256) (p : Address) (chunk : Nat)
    (commitment : B256) :
    (T.handlePreprocess s gid p chunk commitment).1.membership = s.membership := by
  unfold handlePreprocess
  split
  · rfl
  · split
    · rfl
    · rename_i key epoch hf
      exact State.membership_setNonces (State.findGroup_eq_some hf).1 _

theorem handleNonceTopup_membership (s : State E) :
    (handleNonceTopup s).1.membership = s.membership := by
  unfold handleNonceTopup
  split
  · rfl
  · rename_i epoch he
    split
    · rfl
    · split
      · rfl
      · exact State.membership_setNonces he _

/-- The first epoch number past everything a rollover can have put among the tracked epochs. -/
def horizon : RolloverState E → Nat
  | .waitingForGenesis => 0
  | .halted => 0
  | .epochStaged n => n + 1
  | .epochSkipped n => n
  | .collectingCommitments c => c.nextEpoch.rawValue
  | .collectingShares c => c.nextEpoch.rawValue
  | .collectingConfirmations c => c.nextEpoch.rawValue
  | .signingRollover c => c.nextEpoch

theorem horizon_of_round {r : RolloverState E} {e : EpochId} {g : Group}
    (h : r.round = some (e, g)) : horizon r = e.rawValue := by
  cases r <;> simp only [RolloverState.round, Option.some.injEq, Prod.mk.injEq, reduceCtorEq] at h
  all_goals simp only [horizon, h.1]

theorem horizon_of_due {r : RolloverState E} {n : ℕ+} (h : r.Due n) : horizon r ≤ n := by
  rcases h with ⟨g, h⟩ | ⟨t, h, hlt⟩
  · rw [horizon_of_round h]
    exact Nat.zero_le _
  · have hlt' : (t : Nat) < n := hlt
    cases r <;> simp only [RolloverState.nextEpoch, Option.some.injEq, reduceCtorEq,
      EpochId.number.injEq] at h
    all_goals simp only [horizon, h, EpochId.rawValue]; omega

theorem horizon_step {r r' : RolloverState E} (h : T.RolloverStep r r') :
    horizon r ≤ horizon r' := by
  cases h with
  | progress h h' => rw [horizon_of_round h, horizon_of_round h']
  | genesis h he hg => rw [h]; exact Nat.zero_le _
  | restart h he hg => rw [horizon_of_round h, horizon, he]
  | start h he hg => rw [horizon, he]; exact horizon_of_due h
  | skip h => exact horizon_of_due h
  | fail h =>
    rename_i e g
    rw [horizon_of_round h]
    cases e <;> exact le_rfl
  | propose h he hn hg => rw [h, horizon, horizon, he, hn]; exact le_rfl
  | staged h => rw [h]; exact Nat.le_succ _
  | recover h => rw [h]; exact Nat.zero_le _
  | halt h => rw [h]; exact Nat.zero_le _

theorem horizon_applyTransition (s : State E) (msg : Msg E) :
    horizon s.rollover ≤ horizon (T.applyTransition s msg).1.rollover :=
  RolloverSteps.keep (P := fun r => horizon s.rollover ≤ horizon r)
    (fun _ _ hstep h => h.trans (horizon_step hstep))
    (rollover_applyTransition (T := T) s msg) le_rfl

/-- How the tracked epochs move when no block is handled: not at all, or by one epoch that is
past every tracked one and below the horizon after. -/
def Extends (s s' : State E) : Prop :=
  s'.membership = s.membership ∨ ∃ e : EpochId, horizon s.rollover ≤ e.rawValue ∧
    e.rawValue < horizon s'.rollover ∧ ∀ e', e' ≠ e → s'.membership e' = s.membership e'

theorem Extends.of_epochs {s s' : State E} (h : s'.epochs = s.epochs) : Extends s s' :=
  .inl (State.membership_congr h)

theorem finalizeKeyGen_membership (s : State E) (e : EpochId) (g : Group)
    (k : Option (KeyShare E)) {e' : EpochId} (he : e' ≠ e) :
    (finalizeKeyGen s e g k).1.membership e' = s.membership e' := by
  unfold finalizeKeyGen
  split
  · simp only [State.membership, BTreeMap.get_insert_ne _ _ he]
  · rfl

/-- Completing genesis starts, or skips, the epoch that is due next. -/
theorem completeGenesis_horizon (s : State E) (block : Nat) (c : CollectingConfirmations E) :
    0 < horizon (T.completeGenesis s block c).1.rollover := by
  have hpos := (nextNumber block T.config.blocksPerEpoch).pos
  unfold completeGenesis
  dsimp only
  split
  · rw [(finalizeKeyGen_frame _ _ _ _).2.2.1]
    exact hpos
  · rename_i set hset
    obtain ⟨d, hd, hn, -⟩ := startKeyGen_rollover (T := T)
      (finalizeKeyGen { s with rollover := .epochSkipped (nextNumber block
        T.config.blocksPerEpoch) } .genesis c.group c.status.keyShare).1
      (.number (nextNumber block T.config.blocksPerEpoch)) set
      (some (satAdd block T.config.keyGenTimeout))
    rw [hd, horizon, hn]
    exact hpos

theorem completeGenesis_membership (s : State E) (block : Nat) (c : CollectingConfirmations E)
    {e : EpochId} (he : e ≠ .genesis) :
    (T.completeGenesis s block c).1.membership e = s.membership e := by
  unfold completeGenesis
  dsimp only
  split
  · exact finalizeKeyGen_membership _ _ _ _ he
  · rw [State.membership_congr (T.startKeyGen_onlyRollover _ _ _ _).epochs]
    exact finalizeKeyGen_membership _ _ _ _ he

theorem completeGenesis_activeEpoch (s : State E) (block : Nat) (c : CollectingConfirmations E) :
    (T.completeGenesis s block c).1.activeEpoch = s.activeEpoch := by
  unfold completeGenesis
  dsimp only
  split
  · exact (finalizeKeyGen_frame _ _ _ _).2.2.2
  · rw [(T.startKeyGen_onlyRollover _ _ _ _).activeEpoch]
    exact (finalizeKeyGen_frame _ _ _ _).2.2.2

theorem handleKeyGenConfirmed_extends (s : State E) (block : Nat) (gid : B256) (p : Address) :
    Extends s (T.handleKeyGenConfirmed s block gid p).1 := by
  unfold handleKeyGenConfirmed
  split
  · rename_i c hr
    split
    · dsimp only
      split
      · exact .of_epochs rfl
      · split
        · rename_i he
          refine .inr ⟨.genesis, ?_, completeGenesis_horizon _ _ _, fun e' he' =>
            completeGenesis_membership _ _ _ he'⟩
          rw [hr, horizon, he]
        · exact .of_epochs rfl
    · exact .of_epochs rfl
  · exact .of_epochs rfl

theorem handleEpochStaged_extends (s : State E) (p : Nat) (gid : B256) :
    Extends s (handleEpochStaged s p gid).1 := by
  unfold handleEpochStaged
  split
  · rename_i c hr
    split
    · refine .inr ⟨.number c.nextEpoch, ?_, ?_, fun e' he' => ?_⟩
      · rw [hr]
        exact le_rfl
      · simp only [handleSignAttested, (finalizeKeyGen_frame _ _ _ _).2.2.1]
        exact Nat.lt_succ_self _
      · exact finalizeKeyGen_membership _ _ _ _ he'
    · exact .of_epochs rfl
  · exact .of_epochs rfl
  · exact .of_epochs rfl

theorem handleNonceTree_activeEpoch (s : State E) (gid commitment : B256) :
    (handleNonceTree s gid commitment).1.activeEpoch = s.activeEpoch := by
  unfold handleNonceTree
  split <;> rfl

theorem handlePreprocess_activeEpoch (s : State E) (gid : B256) (p : Address) (chunk : Nat)
    (commitment : B256) :
    (T.handlePreprocess s gid p chunk commitment).1.activeEpoch = s.activeEpoch := by
  unfold handlePreprocess
  split
  · rfl
  · split <;> rfl

theorem handleKeyGenConfirmed_activeEpoch (s : State E) (block : Nat) (gid : B256) (p : Address) :
    (T.handleKeyGenConfirmed s block gid p).1.activeEpoch = s.activeEpoch := by
  unfold handleKeyGenConfirmed
  split
  · split
    · dsimp only
      split
      · rfl
      · split
        · exact completeGenesis_activeEpoch _ _ _
        · rfl
    · rfl
  · rfl

theorem handleEpochStaged_activeEpoch (s : State E) (p : Nat) (gid : B256) :
    (handleEpochStaged s p gid).1.activeEpoch = s.activeEpoch := by
  unfold handleEpochStaged
  split
  · split
    · exact (finalizeKeyGen_frame _ _ _ _).2.2.2
    · rfl
  · rfl
  · rfl

/-- **Logs and resumes extend the tracked epochs, and leave the active one alone.** -/
theorem extends_applyTransition (s : State E) (msg : Msg E) (hmsg : ∀ block, msg ≠ .newBlock block) :
    Extends s (T.applyTransition s msg).1 ∧
      (T.applyTransition s msg).1.activeEpoch = s.activeEpoch := by
  have honly : ∀ {s' : State E}, OnlyRollover s s' →
      Extends s s' ∧ s'.activeEpoch = s.activeEpoch :=
    fun h => ⟨.of_epochs h.epochs, h.activeEpoch⟩
  have hsess : ∀ {s' : State E}, OnlySessions s s' →
      Extends s s' ∧ s'.activeEpoch = s.activeEpoch :=
    fun h => ⟨.of_epochs h.epochs, h.activeEpoch⟩
  cases msg with
  | newBlock block => exact absurd rfl (hmsg block)
  | resume r =>
    cases r with
    | noop => exact honly (.refl s)
    | setup gid x => exact honly (T.handleKeyGenSetup_onlyRollover s gid x)
    | nonceTree gid k => exact ⟨.inl (handleNonceTree_membership s gid k), handleNonceTree_activeEpoch s gid k⟩
    | nonceCommitments sid m n proof =>
      simp only [applyTransition, applyResume, handleNonceCommitments_state]
      exact ⟨.of_epochs rfl, trivial⟩
    | nonce m n =>
      simp only [applyTransition, applyResume, handleNonces_state]
      exact ⟨.of_epochs rfl, trivial⟩
  | event log =>
    obtain ⟨block, index, address, data⟩ := log
    cases data with
    | keyGen gid => exact honly (T.handleGenesisKeyGen_onlyRollover s gid)
    | keyGenCommitted gid p k => exact honly (T.handleKeyGenCommitted_onlyRollover s block gid p k)
    | keyGenSecretShared gid p k =>
      exact honly (T.handleKeyGenSecretShared_onlyRollover s block gid p k)
    | keyGenConfirmed gid p =>
      exact ⟨handleKeyGenConfirmed_extends s block gid p,
        handleKeyGenConfirmed_activeEpoch s block gid p⟩
    | keyGenComplained gid p a x =>
      exact honly (T.handleKeyGenComplained_onlyRollover s block gid p a)
    | keyGenComplaintResponded gid p a x =>
      exact honly (T.handleKeyGenComplaintResponded_onlyRollover s block gid p a x)
    | preprocess gid p chunk k =>
      exact ⟨.inl (handlePreprocess_membership s gid p chunk k),
        handlePreprocess_activeEpoch s gid p chunk k⟩
    | sign gid m sid q =>
      have h := handleSign_onlySessions (T := T) s block gid m sid q
      exact ⟨.inl ((State.membership_congr h.epochs).trans (observeNonce_membership s gid q)),
        h.activeEpoch.trans (observeNonce_frame s gid q).2.2.2⟩
    | signRevealedNonces sid p n =>
      exact hsess (handleSignRevealedNonces_onlySessions s block sid p n)
    | signShared sid root p => exact hsess (handleSignShared_onlySessions s sid root p)
    | signCompleted sid => exact hsess (handleSignCompleted_onlySessions s block sid)
    | epochStaged p gid sid =>
      exact ⟨handleEpochStaged_extends s p gid, handleEpochStaged_activeEpoch s p gid⟩
    | transactionProposed o e d tx =>
      exact hsess (handleTransactionProposed_onlySessions s block o e d tx)
    | transactionAttested h o e oh sid => exact hsess ⟨_, _, rfl⟩
    | oracleResult m b => exact hsess (handleOracleResult_onlySessions s block address m b)
    | unhandled => exact hsess (.refl s)

/-! ## 2. The active epoch -/

/-- The rollover works toward an epoch past the active one; while it works toward no regular
epoch, genesis is active. -/
structure Ahead (active : EpochId) (r : RolloverState E) : Prop where
  next : ∀ n, r.nextEpoch = some (.number n) → active.rawValue < n
  genesis : (∀ n, r.nextEpoch ≠ some (.number n)) → active = .genesis

theorem Ahead.of_number {active : EpochId} {r : RolloverState E} {n : ℕ+}
    (hn : r.nextEpoch = some (.number n)) (h : active.rawValue < n) : Ahead active r where
  next n' hn' := by
    rw [hn, Option.some.injEq, EpochId.number.injEq] at hn'
    rw [← hn']
    exact h
  genesis hno := absurd hn (hno n)

theorem Ahead.of_genesis {active : EpochId} {r : RolloverState E}
    (hno : ∀ n, r.nextEpoch ≠ some (.number n)) (h : active = .genesis) : Ahead active r where
  next n hn := absurd hn (hno n)
  genesis _ := h

theorem Ahead.congr {active : EpochId} {r r' : RolloverState E} (h : Ahead active r)
    (hn : r'.nextEpoch = r.nextEpoch) : Ahead active r' where
  next n hn' := h.next n (hn ▸ hn')
  genesis hno := h.genesis (hn ▸ hno)

theorem nextEpoch_of_round {r : RolloverState E} {e : EpochId} {g : Group}
    (h : r.round = some (e, g)) : r.nextEpoch = some e := by
  cases r <;> simp only [RolloverState.round, Option.some.injEq, Prod.mk.injEq, reduceCtorEq] at h
  all_goals simp only [RolloverState.nextEpoch, h.1]

theorem Ahead.due {active : EpochId} {r : RolloverState E} {n : ℕ+} (h : Ahead active r)
    (hdue : r.Due n) : active.rawValue < n := by
  rcases hdue with ⟨g, hg⟩ | ⟨t, ht, hlt⟩
  · have hgen : active = .genesis := h.genesis fun m hm => by
      rw [nextEpoch_of_round hg] at hm
      exact absurd hm (by simp)
    rw [hgen]
    exact n.pos
  · exact (h.next t ht).trans hlt

theorem ahead_step {active : EpochId} {r r' : RolloverState E} (hstep : T.RolloverStep r r')
    (h : Ahead active r) : Ahead active r' := by
  have hidle : r = .waitingForGenesis → active = .genesis := by
    intro hr
    exact h.genesis fun n hn => by simp [hr, RolloverState.nextEpoch] at hn
  cases hstep with
  | progress hr hr' => exact h.congr ((nextEpoch_of_round hr').trans (nextEpoch_of_round hr).symm)
  | genesis hr he hg =>
    exact .of_genesis (by simp [RolloverState.nextEpoch, he]) (hidle hr)
  | restart hr he hg =>
    refine h.congr ?_
    rw [nextEpoch_of_round hr, RolloverState.nextEpoch, he]
  | start hdue he hg => exact .of_number (by rw [RolloverState.nextEpoch, he]) (h.due hdue)
  | skip hdue => exact .of_number rfl (h.due hdue)
  | fail hr =>
    rename_i e g
    cases e with
    | genesis =>
      exact .of_genesis (by simp [rolloverFailure, RolloverState.nextEpoch])
        (h.genesis (by simp [nextEpoch_of_round hr]))
    | number n => exact h.congr (nextEpoch_of_round hr).symm
  | propose hr he hn hg =>
    refine h.congr ?_
    rw [hr, RolloverState.nextEpoch, RolloverState.nextEpoch, he, hn]
  | staged hr => exact h.congr (by rw [hr]; rfl)
  | recover hr => exact .of_number rfl (by rw [hidle hr]; exact PNat.pos _)
  | halt hr => exact .of_genesis (by simp [RolloverState.nextEpoch]) (hidle hr)

theorem startKeyGen_ahead {s : State E} {n : ℕ+} (set : ParticipantSet) (d : Option Nat)
    (h : s.activeEpoch.rawValue < n) :
    Ahead (T.startKeyGen s (.number n) set d).1.activeEpoch
      (T.startKeyGen s (.number n) set d).1.rollover := by
  obtain ⟨c, hc, hn, -⟩ := startKeyGen_rollover (T := T) s (.number n) set d
  rw [hc, (T.startKeyGen_onlyRollover _ _ _ _).activeEpoch]
  exact .of_number (by rw [RolloverState.nextEpoch, hn]) h

/-- The clock activates a staged epoch, or leaves the active epoch alone; either way the rollover
is ahead of it, and it does not go back. -/
theorem handleRolloverNewBlock_ahead {s : State E} (block : Nat)
    (h : Ahead s.activeEpoch s.rollover) :
    Ahead (T.handleRolloverNewBlock s block).1.activeEpoch
        (T.handleRolloverNewBlock s block).1.rollover ∧
      s.activeEpoch.rawValue ≤ (T.handleRolloverNewBlock s block).1.activeEpoch.rawValue := by
  unfold handleRolloverNewBlock
  split
  · exact ⟨h, le_rfl⟩
  · rename_i t ht
    have hnext : s.rollover.nextEpoch = some (.number t) := nextEpoch_of_bind ht
    dsimp only
    split
    · exact ⟨h, le_rfl⟩
    · rename_i hlt
      have hdue : t < nextNumber block T.config.blocksPerEpoch := not_le.mp hlt
      have hlt' := h.next t hnext
      have hact : s.activeEpoch.rawValue < nextNumber block T.config.blocksPerEpoch :=
        hlt'.trans hdue
      split
      · refine ⟨startKeyGen_ahead _ _ ?_, ?_⟩
        · dsimp only
          split
          · exact hdue
          · exact hact
        · rw [(T.startKeyGen_onlyRollover _ _ _ _).activeEpoch]
          dsimp only
          split
          · exact hlt'.le
          · exact le_rfl
      · refine ⟨.of_number rfl ?_, ?_⟩
        · dsimp only
          split
          · exact hdue
          · exact hact
        · dsimp only
          split
          · exact hlt'.le
          · exact le_rfl

/-! ## 3. Taking part -/

/-- A participant of a round holds secrets of it. -/
def Enrolled (T : Transition E) : RolloverState E → Prop
  | .collectingCommitments c => T.account ∈ c.group.participants → c.secrets ≠ .observing
  | .collectingShares c =>
    T.account ∈ c.group.participants → ∃ sharingState, c.participation = .participating sharingState
  | .collectingConfirmations c =>
    T.account ∈ c.group.participants → ∃ sharingState, c.participation = .participating sharingState
  | _ => True

theorem enrolled_rolloverFailure (e : EpochId) :
    Enrolled T (rolloverFailure e : RolloverState E) := by
  cases e <;> trivial

theorem startKeyGen_enrolled (s : State E) (e : EpochId) (set : ParticipantSet) (d : Option Nat) :
    Enrolled T (T.startKeyGen s e set d).1.rollover := by
  unfold startKeyGen
  split
  · exact fun _ => by simp
  · rename_i hp
    intro hmem
    have hset : T.account ∈ set.addresses := hmem
    rw [ParticipantSet.participateAs, if_pos hset] at hp
    exact absurd hp (by simp)

theorem restartKeyGenExcluding_enrolled (s : State E) (e : EpochId) (x : Finset Address)
    (d : Option Nat) : Enrolled T (T.restartKeyGenExcluding s e x d).1.rollover := by
  unfold restartKeyGenExcluding
  dsimp only
  split
  · exact startKeyGen_enrolled _ _ _ _
  · exact enrolled_rolloverFailure e

theorem finalizeKeyGenCommitments_enrolled {e : EpochId} {g : Group} {x : Option (Secrets E)}
    {k : BTreeMap Address (VerifiedCommitment E)} {d : Option Nat}
    (h : T.account ∈ g.participants → x ≠ none) :
    Enrolled T (finalizeKeyGenCommitments e g x k d).1 := by
  unfold finalizeKeyGenCommitments
  cases x with
  | none =>
    dsimp only
    split
    · exact fun hmem => absurd rfl (h hmem)
    · exact enrolled_rolloverFailure e
  | some x =>
    cases hx : generateSecretShares E x k with
    | ok r =>
      simp only [hx, Except.map]
      exact fun _ => ⟨r.1, rfl⟩
    | error _ =>
      simp only [hx, Except.map]
      exact enrolled_rolloverFailure e

theorem handleKeyGenSetup_enrolled {s : State E} (gid : B256) (x : Secrets E)
    (h : Enrolled T s.rollover) : Enrolled T (T.handleKeyGenSetup s gid x).1.rollover := by
  unfold handleKeyGenSetup
  split
  · split
    · split
      · dsimp only
        split
        · exact fun _ => by simp
        · exact finalizeKeyGenCommitments_enrolled fun _ => by simp
      · exact h
    · exact h
  · exact h

theorem handleKeyGenCommitted_enrolled {s : State E} (block : Nat) (gid : B256) (p : Address)
    (k : KeyGenCommitment) (h : Enrolled T s.rollover) :
    Enrolled T (T.handleKeyGenCommitted s block gid p k).1.rollover := by
  unfold handleKeyGenCommitted
  split
  · rename_i c hr
    rw [hr] at h
    split
    · dsimp only
      split
      · exact h
      · split
        · exact h
        · exact finalizeKeyGenCommitments_enrolled fun _ => by simp
        · rename_i hobs
          exact finalizeKeyGenCommitments_enrolled fun hmem => absurd hobs (h hmem)
    · rw [hr]
      exact h
  · exact h

theorem handleKeyGenSecretShared_enrolled {s : State E} (block : Nat) (gid : B256) (p : Address)
    (k : KeyGenSecretShare) (h : Enrolled T s.rollover) :
    Enrolled T (T.handleKeyGenSecretShared s block gid p k).1.rollover := by
  unfold handleKeyGenSecretShared
  split
  · rename_i c hr
    rw [hr] at h
    obtain ⟨-, hg, hp, -, -⟩ := registerShare_fields (T := T) c block p k
    rw [Enrolled, ← hg, ← hp] at h
    split
    · dsimp only
      split
      · exact h
      · split
        · split
          · split
            · exact h
            · exact enrolled_rolloverFailure _
          · exact h
        · exact h
    · rw [hr, Enrolled, ← hg, ← hp]
      exact h
  · exact h

theorem handleKeyGenConfirmed_enrolled {s : State E} (block : Nat) (gid : B256) (p : Address)
    (h : Enrolled T s.rollover) :
    Enrolled T (T.handleKeyGenConfirmed s block gid p).1.rollover := by
  unfold handleKeyGenConfirmed
  split
  · rename_i c hr
    rw [hr] at h
    split
    · dsimp only
      split
      · exact h
      · split
        · unfold completeGenesis
          dsimp only
          split
          · rw [(finalizeKeyGen_frame _ _ _ _).2.2.1]
            trivial
          · exact startKeyGen_enrolled _ _ _ _
        · trivial
    · rw [hr]
      exact h
  · exact h

theorem handleEpochStaged_enrolled {s : State E} (p : Nat) (gid : B256)
    (h : Enrolled T s.rollover) : Enrolled T (handleEpochStaged s p gid).1.rollover := by
  unfold handleEpochStaged
  split
  · split
    · simp only [handleSignAttested, (finalizeKeyGen_frame _ _ _ _).2.2.1]
      trivial
    · exact h
  · dsimp only
    split
    · trivial
    · trivial
  · exact h

theorem enrolled_withComplaints (k : BTreeMap Address Complaint) (r : RolloverState E) :
    Enrolled T (withComplaints k r) ↔ Enrolled T r := by
  cases r <;> exact Iff.rfl

theorem enrolled_registerResponse (p a : Address) (x : VerifiedShare E)
    (k : BTreeMap Address Complaint) (r : RolloverState E) :
    Enrolled T (T.registerResponse p a x k r) ↔ Enrolled T r := by
  cases r <;> exact Iff.rfl

theorem handleKeyGenComplained_enrolled {s : State E} (block : Nat) (gid : B256) (p a : Address)
    (h : Enrolled T s.rollover) :
    Enrolled T (T.handleKeyGenComplained s block gid p a).1.rollover := by
  unfold handleKeyGenComplained
  split
  · exact h
  · dsimp only
    split
    · exact restartKeyGenExcluding_enrolled _ _ _ _
    · exact (enrolled_withComplaints _ _).mpr h

theorem confirmAfterResponse_enrolled {s : State E} (h : Enrolled T s.rollover) :
    Enrolled T (T.confirmAfterResponse s).1.rollover := by
  unfold confirmAfterResponse
  split
  · rename_i c hr
    split
    · split
      · split
        · rw [hr] at h
          exact h
        · exact enrolled_rolloverFailure _
      · exact h
    · exact h
  · exact h

theorem handleKeyGenComplaintResponded_enrolled {s : State E} (block : Nat) (gid : B256)
    (p a : Address) (x : U256) (h : Enrolled T s.rollover) :
    Enrolled T (T.handleKeyGenComplaintResponded s block gid p a x).1.rollover := by
  unfold handleKeyGenComplaintResponded
  split
  · exact h
  · split
    · exact h
    · split
      · exact h
      · split
        · exact confirmAfterResponse_enrolled ((enrolled_registerResponse _ _ _ _ _).mpr h)
        · exact restartKeyGenExcluding_enrolled _ _ _ _

theorem handleRolloverNewBlock_enrolled {s : State E} (block : Nat) (h : Enrolled T s.rollover) :
    Enrolled T (T.handleRolloverNewBlock s block).1.rollover := by
  unfold handleRolloverNewBlock
  split
  · exact h
  · dsimp only
    split
    · exact h
    · split
      · exact startKeyGen_enrolled _ _ _ _
      · trivial

theorem handleKeyGenTimeouts_enrolled {s : State E} (block : Nat) (h : Enrolled T s.rollover) :
    Enrolled T (T.handleKeyGenTimeouts s block).1.rollover := by
  unfold handleKeyGenTimeouts
  split
  · exact enrolled_rolloverFailure _
  · split
    · exact h
    · exact restartKeyGenExcluding_enrolled _ _ _ _

theorem enrolled_applyTransition {s : State E} (msg : Msg E) (h : Enrolled T s.rollover) :
    Enrolled T (T.applyTransition s msg).1.rollover := by
  cases msg with
  | newBlock block =>
    change Enrolled T (T.applyBlock s block).1.rollover
    rw [applyBlock_rollover]
    exact handleKeyGenTimeouts_enrolled block (handleRolloverNewBlock_enrolled block h)
  | resume r =>
    cases r with
    | noop => exact h
    | setup gid x => exact handleKeyGenSetup_enrolled gid x h
    | nonceTree gid k => rwa [applyTransition, applyResume, (handleNonceTree_frame s gid k).2.2]
    | nonceCommitments sid m n proof =>
      rwa [applyTransition, applyResume, handleNonceCommitments_state]
    | nonce m n => rwa [applyTransition, applyResume, handleNonces_state]
  | event log =>
    obtain ⟨block, index, address, data⟩ := log
    cases data with
    | keyGen gid =>
      change Enrolled T (T.handleGenesisKeyGen s gid).1.rollover
      unfold handleGenesisKeyGen
      split
      · split
        · exact startKeyGen_enrolled _ _ _ _
        · exact h
      · exact h
    | keyGenCommitted gid p k => exact handleKeyGenCommitted_enrolled block gid p k h
    | keyGenSecretShared gid p k => exact handleKeyGenSecretShared_enrolled block gid p k h
    | keyGenConfirmed gid p => exact handleKeyGenConfirmed_enrolled block gid p h
    | keyGenComplained gid p a x => exact handleKeyGenComplained_enrolled block gid p a h
    | keyGenComplaintResponded gid p a x =>
      exact handleKeyGenComplaintResponded_enrolled block gid p a x h
    | epochStaged p gid sid => exact handleEpochStaged_enrolled p gid h
    | preprocess gid p chunk k =>
      rwa [applyTransition, applyEvent, (T.handlePreprocess_frame s gid p chunk k).2.2]
    | sign gid m sid q => rwa [applyTransition, applyEvent, handleSign_rollover]
    | signRevealedNonces sid p n =>
      rwa [applyTransition, applyEvent,
        (handleSignRevealedNonces_onlySessions s block sid p n).rollover]
    | signShared sid root p =>
      rwa [applyTransition, applyEvent, (handleSignShared_onlySessions s sid root p).rollover]
    | signCompleted sid =>
      rwa [applyTransition, applyEvent, (handleSignCompleted_onlySessions s block sid).rollover]
    | transactionProposed o e d tx =>
      rwa [applyTransition, applyEvent,
        (handleTransactionProposed_onlySessions s block o e d tx).rollover]
    | transactionAttested _ o e oh sid => exact h
    | oracleResult m b =>
      rwa [applyTransition, applyEvent,
        (handleOracleResult_onlySessions s block address m b).rollover]
    | unhandled => exact h

/-! ## 4. Reconciliation -/

theorem foldl_min_le (l : List EpochId) (a : EpochId) :
    (l.foldl EpochId.min a).rawValue ≤ a.rawValue ∧
      ∀ e ∈ l, (l.foldl EpochId.min a).rawValue ≤ e.rawValue := by
  induction l generalizing a with
  | nil => exact ⟨le_rfl, by simp⟩
  | cons b l ih =>
    obtain ⟨h1, h2⟩ := ih (a.min b)
    have ha : (a.min b).rawValue ≤ a.rawValue := by
      unfold EpochId.min
      split
      · omega
      · exact le_rfl
    have hb : (a.min b).rawValue ≤ b.rawValue := by
      unfold EpochId.min
      split
      · exact le_rfl
      · omega
    refine ⟨h1.trans ha, fun e he => ?_⟩
    rcases List.mem_cons.mp he with rfl | he
    · exact h1.trans hb
    · exact h2 e he

/-- The oldest epoch kept is at or below the active one and every session's. -/
theorem oldestEpoch_le (s : State E) :
    (oldestEpoch s).rawValue ≤ s.activeEpoch.rawValue ∧
      ∀ (m : B256) (x : SigningState E), s.signing[m]? = some x →
        (oldestEpoch s).rawValue ≤ x.packet.epoch.rawValue := by
  obtain ⟨h1, h2⟩ := foldl_min_le (s.signing.values.map fun x => x.packet.epoch) s.activeEpoch
  refine ⟨h1, fun m x hx => h2 _ ?_⟩
  exact List.mem_map.mpr ⟨x, (BTreeMap.mem_values _ _).mpr ⟨m, hx⟩, rfl⟩

theorem handleGroupReconciliation_epochs {s : State E} {e : EpochId}
    (he : (oldestEpoch s).rawValue ≤ e.rawValue) :
    (handleGroupReconciliation s).1.epochs[e]? = s.epochs[e]? := by
  rw [handleGroupReconciliation, BTreeMap.get_splitOff, if_pos]
  exact Nat.isLE_compare.mpr he

/-- Every tracked group is on the keep list. -/
theorem retainedGroups_tracked {epochs : BTreeMap EpochId (Epoch E)} (r : RolloverState E)
    {e : EpochId} {entry : Epoch E} (h : epochs[e]? = some entry) :
    ((retainedGroups epochs r)[entry.group.id]?).isSome := by
  have hfold : ∀ (l : List (Epoch E)) (t : BTreeMap B256 (Option (KeyShare E))),
      (entry ∈ l ∨ (t[entry.group.id]?).isSome) →
        ((l.foldl (fun t epoch => t.insert epoch.group.id (some epoch.keyShare)) t)[
          entry.group.id]?).isSome := by
    intro l
    induction l with
    | nil =>
      rintro t (hl | ht)
      · exact absurd hl (by simp)
      · exact ht
    | cons x l ih =>
      intro t hl
      refine ih _ ?_
      by_cases hx : entry.group.id = x.group.id
      · exact .inr (by simp [hx])
      · rw [BTreeMap.get_insert_ne _ _ hx]
        refine hl.imp_left fun hl => ?_
        rcases List.mem_cons.mp hl with rfl | hl
        · exact absurd rfl hx
        · exact hl
  have hmem : entry ∈ epochs.values := (BTreeMap.mem_values _ _).mpr ⟨e, h⟩
  unfold retainedGroups
  dsimp only
  split
  · rename_i gid k hk
    rw [BTreeMap.get_insert]
    split
    · rfl
    · exact hfold _ _ (.inl hmem)
  · exact hfold _ _ (.inl hmem)

/-- The group of the rollover underway that this validator participates in: one it is a
participant of, or, once the group is generated, one it has its key share of. -/
def ownGroup (T : Transition E) : RolloverState E → Option Group
  | .collectingCommitments c => if T.account ∈ c.group.participants then some c.group else none
  | .collectingShares c => if T.account ∈ c.group.participants then some c.group else none
  | .collectingConfirmations c => if T.account ∈ c.group.participants then some c.group else none
  | .signingRollover c => if c.keyShare.isSome then some c.group else none
  | _ => none

/-- The group of our key generation is on the keep list. -/
theorem retainedGroups_own (epochs : BTreeMap EpochId (Epoch E)) {r : RolloverState E} {g : Group}
    (hr : Enrolled T r) (h : ownGroup T r = some g) :
    ((retainedGroups epochs r)[g.id]?).isSome := by
  have hkeep : ∃ k, retainedKeyGen r = some (g.id, k) := by
    cases r with
    | collectingCommitments c =>
      simp only [ownGroup, Option.ite_none_right_eq_some, Option.some.injEq] at h
      obtain ⟨hmem, rfl⟩ := h
      cases hs : c.secrets with
      | participating poap x => exact ⟨none, by simp only [retainedKeyGen, hs]⟩
      | observing => exact absurd hs (hr hmem)
    | collectingShares c =>
      simp only [ownGroup, Option.ite_none_right_eq_some, Option.some.injEq] at h
      obtain ⟨hmem, rfl⟩ := h
      obtain ⟨x, hx⟩ := hr hmem
      exact ⟨none, by simp only [retainedKeyGen, hx]⟩
    | collectingConfirmations c =>
      simp only [ownGroup, Option.ite_none_right_eq_some, Option.some.injEq] at h
      obtain ⟨hmem, rfl⟩ := h
      obtain ⟨x, hx⟩ := hr hmem
      cases hs : c.status with
      | confirmed k => exact ⟨some k, by simp only [retainedKeyGen, hs]⟩
      | collecting y => exact ⟨none, by simp only [retainedKeyGen, hs, hx]⟩
      | observing => exact ⟨none, by simp only [retainedKeyGen, hs, hx]⟩
    | signingRollover c =>
      simp only [ownGroup, Option.ite_none_right_eq_some, Option.some.injEq] at h
      obtain ⟨hk, rfl⟩ := h
      obtain ⟨k, hk⟩ := Option.isSome_iff_exists.mp hk
      exact ⟨some k, by simp only [retainedKeyGen, hk, Option.map_some]⟩
    | _ => exact absurd h (by simp [ownGroup])
  obtain ⟨k, hk⟩ := hkeep
  simp only [retainedGroups, hk, BTreeMap.get_insert, if_true, Option.isSome_some]

/-! ## 5. The invariant -/

theorem registerReveal_groupId (c : CollectNonceCommitments E) (p : Address) (n : SignNonces) :
    (registerReveal c p n).groupId = c.groupId := by
  unfold registerReveal
  split
  · split <;> rfl
  · rfl

theorem timeoutSession_groupId {block : Nat} {m : B256} {x x' : SigningState E} {gid : B256}
    (h : (T.timeoutSession block m x).session = some x') (hg : x'.groupId = some gid) :
    x.groupId = some gid := by
  unfold timeoutSession at h
  dsimp only at h
  split at h
  · rw [Option.some.injEq] at h
    rw [h, hg]
  · split at h
    · split at h
      · exact absurd h (by simp)
      · split at h
        · exact absurd h (by simp)
        · rw [Option.some.injEq] at h
          rw [← h] at hg
          exact hg
    · exact absurd h (by simp)
    · rw [T.restartSigningCeremony_session h] at hg
      exact hg
    · rw [T.restartSigningCeremony_session h] at hg
      exact hg
    · exact absurd h (by simp)

/-- A session after a message signs over the packet, and with the group, it signed before. -/
theorem session_group {s : State E} {msg : Msg E} {m : B256} {x' : SigningState E}
    (h : T.SessionStep s m msg x') :
    (∃ x, s.signing[m]? = some x ∧ x'.packet = x.packet ∧
      ∀ gid, x'.groupId = some gid → x.groupId = some gid) ∨ T.Opened s m msg x' := by
  cases h with
  | same hs => exact .inl ⟨_, hs, rfl, fun _ h => h⟩
  | opened ho => exact .inr ho
  | request _ hs _ _ =>
    refine .inl ⟨_, hs, T.openRequest_packet _ _ _ _ _, fun gid hg => ?_⟩
    unfold openRequest at hg
    split at hg
    · exact hg
    · exact hg
  | approval _ hs _ => exact .inl ⟨_, hs, rfl, fun _ h => h⟩
  | reveal _ _ hs _ =>
    refine .inl ⟨_, hs, (registerReveal_frame _ _ _).1, fun gid hg => ?_⟩
    rwa [SigningState.groupId, registerReveal_groupId] at hg
  | allRevealed _ _ hs _ =>
    refine .inl ⟨_, hs, (registerReveal_frame _ _ _).1, fun gid hg => ?_⟩
    rwa [SigningState.groupId, openShares, registerReveal_groupId] at hg
  | share _ _ hs => exact .inl ⟨_, hs, rfl, fun _ h => h⟩
  | completed _ _ hs => exact .inl ⟨_, hs, rfl, fun _ h => absurd h (by simp [SigningState.groupId])⟩
  | retry hs hlate hw =>
    refine .inl ⟨_, hs, ?_, fun gid hg => ?_⟩
    · rcases T.timeoutSession_session hw with hw | ⟨-, w, hw, hp⟩
      · rw [hw]
      · rw [hw]
        exact hp
    · exact timeoutSession_groupId hw hg

/-- The epochs, the rollover and the sessions fit together. -/
structure Bookkept (T : Transition E) (s : State E) : Prop where
  session : ∀ (m : B256) (x : SigningState E), s.signing[m]? = some x →
    ∃ g k, s.membership x.packet.epoch = some (g, k) ∧ ∀ gid, x.groupId = some gid → g.id = gid
  below : ∀ e, (s.membership e).isSome → e.rawValue < horizon s.rollover
  ahead : Ahead s.activeEpoch s.rollover
  enrolled : Enrolled T s.rollover

theorem bookkept_default : Bookkept T (State.default E) where
  session m x h := absurd h (by simp [State.default])
  below e h := absurd h (by simp [State.membership, State.default])
  ahead := .of_genesis (by simp [State.default, RolloverState.nextEpoch]) rfl
  enrolled := trivial

/-- An entry that is tracked stays tracked until it is reaped. -/
theorem Extends.keep {s s' : State E} (h : Extends s s')
    (hb : ∀ e, (s.membership e).isSome → e.rawValue < horizon s.rollover) {e : EpochId}
    {x : Group × KeyShare E} (he : s.membership e = some x) : s'.membership e = some x := by
  rcases h with h | ⟨e', hlow, -, h⟩
  · rw [h, he]
  · rw [h e, he]
    rintro rfl
    have := hb e (by rw [he]; rfl)
    omega

theorem Extends.below {s s' : State E} (h : Extends s s')
    (hb : ∀ e, (s.membership e).isSome → e.rawValue < horizon s.rollover)
    (hle : horizon s.rollover ≤ horizon s'.rollover) {e : EpochId}
    (he : (s'.membership e).isSome) : e.rawValue < horizon s'.rollover := by
  rcases h with h | ⟨e', -, hlt, h⟩
  · rw [h] at he
    exact (hb e he).trans_le hle
  · by_cases hee : e = e'
    · rw [hee]
      exact hlt
    · rw [h e hee] at he
      exact (hb e he).trans_le hle

/-- A session signs with the tracked group of its epoch, before a message and after. -/
theorem session_bookkept {s : State E} {msg : Msg E} {m : B256} {x' : SigningState E}
    (h : Bookkept T s) (hx : (T.applyTransition s msg).1.signing[m]? = some x') :
    ∃ g k, s.membership x'.packet.epoch = some (g, k) ∧
      ∀ gid, x'.groupId = some gid → g.id = gid := by
  rcases session_group (T.session_step hx) with ⟨x, hs, hp, hg⟩ | ho
  · obtain ⟨g, k, hm, hgid⟩ := h.session m x hs
    exact ⟨g, k, by rw [hp, hm], fun gid hx' => hgid gid (hg gid hx')⟩
  · cases ho with
    | @proposal log oracle epoch oracleData tx entry hd hm ho hs he =>
      refine ⟨entry.group, entry.keyShare, ?_, ?_⟩
      · simp only [proposedSession, SigningState.packet, Packet.epoch, State.membership, he,
          Option.map_some]
      · rintro gid ⟨⟩
        rfl
    | @rollover log gid p c n entry hd hc he hm =>
      refine ⟨entry.group, entry.keyShare, ?_, ?_⟩
      · simp only [rolloverSession, completedPacket, rolloverPacket, SigningState.packet,
          Packet.epoch, State.membership, he, Option.map_some]
      · rintro gid ⟨⟩
        rfl

theorem applyTransition_bookkept_of_extends {s : State E} {msg : Msg E} (h : Bookkept T s)
    (hmsg : ∀ block, msg ≠ .newBlock block) : Bookkept T (T.applyTransition s msg).1 := by
  obtain ⟨hext, hact⟩ := extends_applyTransition (T := T) s msg hmsg
  refine ⟨fun m x' hx => ?_, fun e he => ?_, ?_, enrolled_applyTransition msg h.enrolled⟩
  · obtain ⟨g, k, hm, hgid⟩ := session_bookkept h hx
    exact ⟨g, k, hext.keep h.below hm, hgid⟩
  · exact hext.below h.below (horizon_applyTransition s msg) he
  · rw [hact]
    exact RolloverSteps.keep (fun _ _ hstep => ahead_step hstep)
      (rollover_applyTransition (T := T) s msg) h.ahead

/-- The state a block's reconciliation is applied to. -/
def beforeReconciliation (T : Transition E) (s : State E) (block : Nat) : State E :=
  let state := (T.handleRolloverNewBlock s block).1
  let state := (T.handleKeyGenTimeouts state block).1
  let state := (T.handleSigningTimeouts state block).1
  (handleNonceTopup state).1

theorem applyBlock_eq (s : State E) (block : Nat) : (T.applyBlock s block).1 =
    (handleGroupReconciliation (T.beforeReconciliation s block)).1 := rfl

theorem beforeReconciliation_membership (s : State E) (block : Nat) :
    (T.beforeReconciliation s block).membership = s.membership := by
  unfold beforeReconciliation
  dsimp only
  rw [handleNonceTopup_membership]
  refine State.membership_congr ?_
  have h1 := (T.handleRolloverNewBlock_signing s block).2.2
  have h2 := (T.handleKeyGenTimeouts_onlyRollover (T.handleRolloverNewBlock s block).1 block).epochs
  exact h2.trans h1

theorem beforeReconciliation_ahead {s : State E} (block : Nat) (h : Ahead s.activeEpoch s.rollover) :
    Ahead (T.beforeReconciliation s block).activeEpoch (T.beforeReconciliation s block).rollover ∧
      s.activeEpoch.rawValue ≤ (T.beforeReconciliation s block).activeEpoch.rawValue := by
  obtain ⟨h1, h2⟩ := handleRolloverNewBlock_ahead (T := T) block h
  have hact := (T.handleKeyGenTimeouts_onlyRollover (T.handleRolloverNewBlock s block).1
    block).activeEpoch
  simp only [beforeReconciliation, (handleNonceTopup_frame _).2.2.1, (handleNonceTopup_frame _).2.2.2,
    handleSigningTimeouts, hact]
  exact ⟨RolloverSteps.keep (fun _ _ hstep => ahead_step hstep)
    (handleKeyGenTimeouts_move (T := T) _ block).to_reflTransGen h1, h2⟩

theorem applyBlock_bookkept {s : State E} (block : Nat) (h : Bookkept T s) :
    Bookkept T (T.applyBlock s block).1 := by
  have hmem := beforeReconciliation_membership (T := T) s block
  refine ⟨fun m x hx => ?_, fun e he => ?_, ?_, enrolled_applyTransition (.newBlock block) h.enrolled⟩
  · have hx' : (T.applyTransition s (.newBlock block)).1.signing[m]? = some x := hx
    obtain ⟨g, k, hm, hgid⟩ := session_bookkept h hx'
    refine ⟨g, k, ?_, hgid⟩
    rw [applyBlock_eq, State.membership, handleGroupReconciliation_epochs, ← State.membership, hmem, hm]
    exact (oldestEpoch_le _).2 m x hx
  · refine (h.below e ?_).trans_le (horizon_applyTransition (T := T) s (.newBlock block))
    rw [← hmem]
    simp only [applyBlock_eq, handleGroupReconciliation, State.membership, BTreeMap.get_splitOff,
      Option.isSome_map] at he ⊢
    split at he
    · exact he
    · exact absurd he (by simp)
  · exact (beforeReconciliation_ahead block h.ahead).1

theorem bookkept_applyTransition {s : State E} (msg : Msg E) (h : Bookkept T s) :
    Bookkept T (T.applyTransition s msg).1 := by
  cases msg with
  | newBlock block => exact applyBlock_bookkept block h
  | resume r => exact applyTransition_bookkept_of_extends h (by simp)
  | event log => exact applyTransition_bookkept_of_extends h (by simp)

/-! ## 6. Runs -/

/-- The epochs a state still needs: the active one, a staged one, and those of its sessions. -/
def Needed (s : State E) (e : EpochId) : Prop :=
  e = s.activeEpoch ∨ (∃ n, s.rollover = .epochStaged n ∧ e = .number n) ∨
    ∃ (m : B256) (x : SigningState E), s.signing[m]? = some x ∧ x.packet.epoch = e

/-- Reconciling a state keeps what it needs: the epochs, the secrets of their groups, and those of
the group this validator is generating. -/
structure Reconciles (T : Transition E) (s : State E) : Prop where
  epoch : ∀ (e : EpochId) (entry : Epoch E), s.epochs[e]? = some entry → Needed s e →
    (handleGroupReconciliation s).1.epochs[e]? = some entry
  secrets : ∀ (e : EpochId) (entry : Epoch E) (groups : BTreeMap B256 (Option (KeyShare E))),
    s.epochs[e]? = some entry → Needed s e →
    .effect (.reconcileGroupSecrets groups) ∈ (handleGroupReconciliation s).2 →
    (groups[entry.group.id]?).isSome
  own : ∀ (g : Group) (groups : BTreeMap B256 (Option (KeyShare E))),
    T.ownGroup s.rollover = some g →
    .effect (.reconcileGroupSecrets groups) ∈ (handleGroupReconciliation s).2 →
    (groups[g.id]?).isSome

theorem oldestEpoch_le_of_needed {s : State E} (h : Ahead s.activeEpoch s.rollover) {e : EpochId}
    (he : Needed s e) : (oldestEpoch s).rawValue ≤ e.rawValue := by
  obtain ⟨hact, hsess⟩ := oldestEpoch_le s
  rcases he with rfl | ⟨n, hr, rfl⟩ | ⟨m, x, hx, rfl⟩
  · exact hact
  · exact hact.trans (h.next n (by rw [hr]; rfl)).le
  · exact hsess m x hx

theorem reconciles {s : State E} (h : Ahead s.activeEpoch s.rollover)
    (hr : Enrolled T s.rollover) : Reconciles T s := by
  have hepoch : ∀ (e : EpochId) (entry : Epoch E), s.epochs[e]? = some entry → Needed s e →
      (handleGroupReconciliation s).1.epochs[e]? = some entry := by
    intro e entry hentry he
    rw [handleGroupReconciliation_epochs (oldestEpoch_le_of_needed h he), hentry]
  refine ⟨hepoch, ?_, ?_⟩
  · intro e entry groups hentry he hg
    simp only [handleGroupReconciliation, List.mem_singleton, Command.effect.injEq,
      Effect.reconcileGroupSecrets.injEq] at hg
    rw [hg]
    exact retainedGroups_tracked _ (hepoch e entry hentry he)
  · intro g groups hown hg
    simp only [handleGroupReconciliation, List.mem_singleton, Command.effect.injEq,
      Effect.reconcileGroupSecrets.injEq] at hg
    rw [hg]
    exact retainedGroups_own _ hr hown

theorem beforeReconciliation_rollover (s : State E) (block : Nat) :
    (T.beforeReconciliation s block).rollover = (T.applyBlock s block).1.rollover := rfl

theorem activeEpoch_applyTransition {s : State E} (msg : Msg E) (h : Bookkept T s) :
    s.activeEpoch.rawValue ≤ (T.applyTransition s msg).1.activeEpoch.rawValue := by
  cases msg with
  | newBlock block => exact (beforeReconciliation_ahead block h.ahead).2
  | resume r => rw [(extends_applyTransition (T := T) s (.resume r) (by simp)).2]
  | event log => rw [(extends_applyTransition (T := T) s (.event log) (by simp)).2]

theorem bookkept_stateAfter (ms : List (Msg E)) : Bookkept T (T.stateAfter ms) :=
  Reactive.runState_induction T.applyTransition (fun _ => Bookkept T) bookkept_default
    (fun _ _ msg h => bookkept_applyTransition msg h) ms

/-- **The bookkeeping of epochs and groups.**  In every state of a validator, live or snapshotted,
after any updates, resumes, rollbacks and restarts: a session signs with the tracked group of its
epoch; the reconciliation of any block keeps everything needed; and the rollover works toward an
epoch past the active one, unless it is genesis.  Without rollback the active epoch never goes
back. -/
theorem bookkeeping (T : Transition E) (inputs : List (Input Event (Resume E))) :
    (machineAfter T.applyTransition (State.default E) inputs).AllStates (fun s =>
      (∀ (m : B256) (x : SigningState E), s.signing[m]? = some x →
        ∃ entry, s.epochs[x.packet.epoch]? = some entry ∧
          ∀ gid, x.groupId = some gid → entry.group.id = gid) ∧
      (∀ block, Reconciles T (T.beforeReconciliation s block)) ∧
      ∀ n, s.rollover.nextEpoch = some (.number n) → s.activeEpoch.rawValue < n) ∧
    ∀ ms ms' : List (Msg E), (T.stateAfter ms).activeEpoch.rawValue ≤
      (T.stateAfter (ms ++ ms')).activeEpoch.rawValue := by
  refine ⟨?_, ?_⟩
  · refine (machineAfter_allStates _ (bookkept_default (T := T))
      (fun s m h => bookkept_applyTransition m h) inputs).imp fun s h => ⟨?_, ?_, h.ahead.next⟩
    · intro m x hx
      obtain ⟨g, k, hm, hgid⟩ := h.session m x hx
      obtain ⟨entry, he, hgk⟩ := Option.map_eq_some_iff.mp hm
      refine ⟨entry, he, fun gid hx' => ?_⟩
      rw [← hgid gid hx', ← (Prod.mk.inj hgk).1]
    · intro block
      refine reconciles (beforeReconciliation_ahead block h.ahead).1 ?_
      rw [beforeReconciliation_rollover]
      exact enrolled_applyTransition (.newBlock block) h.enrolled
  · intro ms ms'
    induction ms' using List.reverseRecOn with
    | nil => rw [List.append_nil]
    | append_singleton ms' m ih =>
      rw [← List.append_assoc, stateAfter_concat]
      exact ih.trans (activeEpoch_applyTransition m (bookkept_stateAfter _))

end Transition

end Safenet
