/-
# A validator's seat in a key generation

What one participant has in the round underway: its secrets while commitments are collected, the
public keys and the shares it registered while shares are, the share map or the key share after.
`Seat` is that part of the rollover state, and two kinds of logs alone bring anything new to it --
a secret share, and the response to a complaint.  Every other message keeps the seat, gives it up,
takes a new one or opens the exchange of shares (`seat_step`), and none of them confirms a key
generation (`applyTransition_quiet`).
-/
import Safenet.Validator.Restarts

namespace Safenet

open Frost

variable {E : Crates}

/-! ## 1. Seats -/

/-- What a participant has in the round underway. -/
inductive Seat (E : Crates) where
  | setup (group : Group) (secrets : Option (Secrets E))
      (commitments : BTreeMap Address (VerifiedCommitment E))
  | sharing (group : Group) (state : SharingState E)
      (publicKeys : BTreeMap Address (PublicKeyShare E)) (shares : BTreeMap Address (VerifiedShare E))
  | confirming (group : Group) (state : SharingState E) (status : KeyGenConfirmation E)

/-- The seat of this validator, when it takes part. -/
def RolloverState.seat : RolloverState E → Option (Seat E)
  | .collectingCommitments c =>
    match c.secrets with
    | .participating _ secrets => some (.setup c.group secrets c.commitments)
    | .observing => none
  | .collectingShares c =>
    match c.participation with
    | .participating x => some (.sharing c.group x c.publicKeys c.shares)
    | .observing _ => none
  | .collectingConfirmations c =>
    match c.participation with
    | .participating x => some (.confirming c.group x c.status)
    | .observing _ => none
  | _ => none

/-- A secret share, or the response to a complaint. -/
def bringsShare : Msg E → Bool
  | .event log =>
    match log.data with
    | .keyGenSecretShared .. => true
    | .keyGenComplaintResponded .. => true
    | _ => false
  | _ => false

/-- How a message that brings no share leads to a seat. -/
inductive SeatStep (T : Transition E) (r : Option (Seat E)) (msg : Msg E) : Seat E → Prop where
  | kept {v : Seat E} : r = some v → SeatStep T r msg v
  /-- A round starts. -/
  | started {g : Group} : T.account ∈ g.participants → SeatStep T r msg (.setup g none ∅)
  | registered {g : Group} {secrets : Option (Secrets E)}
      {k : BTreeMap Address (VerifiedCommitment E)} {log : EventLog Event} {p : Address}
      {c : KeyGenCommitment} : r = some (.setup g secrets k) → msg = .event log →
      log.data = .keyGenCommitted g.id p c →
      SeatStep T r msg (.setup g secrets (Transition.registerCommitment k p c))
  | sampled {g : Group} {k : BTreeMap Address (VerifiedCommitment E)} {secrets : Secrets E} :
      r = some (.setup g none k) → msg = .resume (.setup g.id secrets) →
      SeatStep T r msg (.setup g (some secrets) k)
  /-- The last commitment opens the exchange of shares, or the secrets do that come after it. -/
  | opened {g : Group} {secrets : Secrets E} {k : BTreeMap Address (VerifiedCommitment E)}
      {x : SharingState E} {share : KeyGenSecretShare} :
      SeatStep T r msg (.setup g (some secrets) k) → asU16 k.size = g.count →
      generateSecretShares E secrets k = .ok (x, share) → SeatStep T r msg (.sharing g x ∅ ∅)

namespace Transition

variable {T : Transition E}

theorem seat_failure (e : EpochId) : (rolloverFailure e : RolloverState E).seat = none := by
  cases e <;> rfl

theorem startKeyGen_seat {s : State E} {e : EpochId} {set : ParticipantSet} {d : Option Nat}
    {r : Option (Seat E)} {msg : Msg E} {v : Seat E}
    (h : (T.startKeyGen s e set d).1.rollover.seat = some v) : SeatStep T r msg v := by
  unfold startKeyGen at h
  split at h
  · rename_i g poap hp
    simp only [RolloverState.seat, Option.some.injEq] at h
    subst h
    refine .started ?_
    rw [ParticipantSet.participateAs] at hp
    split at hp
    · rename_i hmem
      rw [Option.some.injEq, Prod.mk.injEq] at hp
      rw [← hp.1]
      exact hmem
    · cases hp
  · cases h

theorem restartKeyGenExcluding_seat {s : State E} {e : EpochId} {x : Finset Address}
    {d : Option Nat} {r : Option (Seat E)} {msg : Msg E} {v : Seat E}
    (h : (T.restartKeyGenExcluding s e x d).1.rollover.seat = some v) : SeatStep T r msg v := by
  unfold restartKeyGenExcluding at h
  dsimp only at h
  split at h
  · exact startKeyGen_seat h
  · rw [seat_failure] at h
    exact nomatch h

theorem finalizeKeyGenCommitments_seat {e : EpochId} {g : Group} {secrets : Option (Secrets E)}
    {k : BTreeMap Address (VerifiedCommitment E)} {d : Option Nat} {v : Seat E}
    (h : (finalizeKeyGenCommitments e g secrets k d).1.seat = some v) :
    ∃ y x share, secrets = some y ∧ generateSecretShares E y k = .ok (x, share) ∧
      v = .sharing g x ∅ ∅ := by
  unfold finalizeKeyGenCommitments at h
  dsimp only at h
  split at h
  · rename_i participation commands hresult
    cases secrets with
    | none =>
      obtain ⟨_, -, hr⟩ := Except.map_eq_ok.mp hresult
      rw [Prod.mk.injEq] at hr
      rw [← hr.1] at h
      exact nomatch h
    | some y =>
      obtain ⟨⟨x, share⟩, hdeal, hr⟩ := Except.map_eq_ok.mp hresult
      rw [Prod.mk.injEq] at hr
      rw [← hr.1] at h
      simp only [RolloverState.seat, Option.some.injEq] at h
      exact ⟨y, x, share, rfl, hdeal, h.symm⟩
  · rw [seat_failure] at h
    exact nomatch h

theorem handleKeyGenSetup_seat {s : State E} {gid : B256} {secrets : Secrets E} {v : Seat E}
    (h : (T.handleKeyGenSetup s gid secrets).1.rollover.seat = some v) :
    SeatStep T s.rollover.seat (.resume (.setup gid secrets)) v := by
  unfold handleKeyGenSetup at h
  split at h
  · rename_i c hr
    split at h
    · rename_i poap hs
      split at h
      · rename_i hgid
        have hseat : s.rollover.seat = some (.setup c.group none c.commitments) := by
          rw [hr]
          simp only [RolloverState.seat, hs]
        have hsampled : SeatStep T s.rollover.seat (.resume (.setup gid secrets))
            (.setup c.group (some secrets) c.commitments) := .sampled hseat (by rw [hgid])
        dsimp only at h
        split at h
        · simp only [RolloverState.seat, Option.some.injEq] at h
          exact h ▸ hsampled
        · rename_i hcount
          obtain ⟨y, x, share, hy, hdeal, rfl⟩ := finalizeKeyGenCommitments_seat h
          rw [Option.some.injEq] at hy
          subst hy
          exact .opened hsampled (not_not.mp hcount) hdeal
      · exact .kept h
    · exact .kept h
  · exact .kept h

theorem handleKeyGenCommitted_seat {s : State E} {log : EventLog Event} {gid : B256} {p : Address}
    {k : KeyGenCommitment} {v : Seat E} (hd : log.data = .keyGenCommitted gid p k)
    (h : (T.handleKeyGenCommitted s log.block gid p k).1.rollover.seat = some v) :
    SeatStep T s.rollover.seat (.event log) v := by
  unfold handleKeyGenCommitted at h
  split at h
  · rename_i c hr
    split at h
    · rename_i hgid
      subst hgid
      have hregistered : ∀ {poap : List B256} {secrets : Option (Secrets E)},
          c.secrets = .participating poap secrets → SeatStep T s.rollover.seat (.event log)
            (.setup c.group secrets (registerCommitment c.commitments p k)) := by
        intro poap secrets hs
        have hseat : s.rollover.seat = some (.setup c.group secrets c.commitments) := by
          rw [hr]
          simp only [RolloverState.seat, hs]
        exact .registered hseat rfl hd
      dsimp only at h
      split at h
      · cases hs : c.secrets with
        | observing =>
          simp only [RolloverState.seat, hs] at h
          exact nomatch h
        | participating poap secrets =>
          simp only [RolloverState.seat, hs, Option.some.injEq] at h
          exact h ▸ hregistered hs
      · rename_i hcount
        split at h
        · rename_i poap hs
          simp only [RolloverState.seat, hs, Option.some.injEq] at h
          exact h ▸ hregistered hs
        · rename_i poap secrets hs
          obtain ⟨y, x, share, hy, hdeal, rfl⟩ := finalizeKeyGenCommitments_seat h
          rw [Option.some.injEq] at hy
          subst hy
          exact .opened (hregistered hs) (not_not.mp hcount) hdeal
        · obtain ⟨y, x, share, hy, -⟩ := finalizeKeyGenCommitments_seat h
          exact nomatch hy
    · exact .kept h
  · exact .kept h

theorem handleKeyGenConfirmed_seat {s : State E} {block : Nat} {gid : B256} {p : Address}
    {msg : Msg E} {v : Seat E} (h : (T.handleKeyGenConfirmed s block gid p).1.rollover.seat = some v) :
    SeatStep T s.rollover.seat msg v := by
  unfold handleKeyGenConfirmed at h
  split at h
  · rename_i c hr
    split at h
    · dsimp only at h
      split at h
      · refine .kept ?_
        rw [hr]
        exact h
      · split at h
        · unfold completeGenesis at h
          dsimp only at h
          split at h
          · rw [(finalizeKeyGen_frame _ _ _ _).2.2.1] at h
            exact nomatch h
          · exact startKeyGen_seat h
        · exact nomatch h
    · exact .kept h
  · exact .kept h

theorem handleEpochStaged_seat {s : State E} {n : Nat} {gid : B256} {msg : Msg E} {v : Seat E}
    (h : (handleEpochStaged s n gid).1.rollover.seat = some v) :
    SeatStep T s.rollover.seat msg v := by
  unfold handleEpochStaged at h
  split at h
  · split at h
    · dsimp only at h
      change (finalizeKeyGen _ _ _ _).1.rollover.seat = some v at h
      rw [(finalizeKeyGen_frame _ _ _ _).2.2.1] at h
      exact nomatch h
    · exact .kept h
  · dsimp only at h
    split at h
    · exact nomatch h
    · exact nomatch h
  · exact .kept h

theorem withComplaints_seat (k : BTreeMap Address Complaint) (r : RolloverState E) :
    (withComplaints k r).seat = r.seat := by
  cases r <;> rfl

theorem handleKeyGenComplained_seat {s : State E} {block : Nat} {gid : B256} {p a : Address}
    {msg : Msg E} {v : Seat E}
    (h : (T.handleKeyGenComplained s block gid p a).1.rollover.seat = some v) :
    SeatStep T s.rollover.seat msg v := by
  unfold handleKeyGenComplained at h
  split at h
  · exact .kept h
  · dsimp only at h
    split at h
    · exact restartKeyGenExcluding_seat h
    · dsimp only at h
      rw [withComplaints_seat] at h
      exact .kept h

theorem handleRolloverNewBlock_seat {s : State E} {block : Nat} {msg : Msg E} {v : Seat E}
    (h : (T.handleRolloverNewBlock s block).1.rollover.seat = some v) :
    SeatStep T s.rollover.seat msg v := by
  unfold handleRolloverNewBlock at h
  split at h
  · exact .kept h
  · dsimp only at h
    split at h
    · exact .kept h
    · split at h
      · exact startKeyGen_seat h
      · exact nomatch h

theorem handleKeyGenTimeouts_seat {s : State E} {block : Nat} {msg : Msg E} {v : Seat E}
    {r : Option (Seat E)} (hs : ∀ v, s.rollover.seat = some v → SeatStep T r msg v)
    (h : (T.handleKeyGenTimeouts s block).1.rollover.seat = some v) : SeatStep T r msg v := by
  unfold handleKeyGenTimeouts at h
  split at h
  · rw [failRollover, seat_failure] at h
    cases h
  · split at h
    · exact hs v h
    · exact restartKeyGenExcluding_seat h

/-- **How a message that brings no share leads to a seat.** -/
theorem seat_step {s : State E} {msg : Msg E} {v : Seat E} (hmsg : bringsShare msg = false)
    (h : (T.applyTransition s msg).1.rollover.seat = some v) :
    SeatStep T s.rollover.seat msg v := by
  cases msg with
  | newBlock block =>
    change (T.applyBlock s block).1.rollover.seat = some v at h
    rw [applyBlock_rollover] at h
    exact handleKeyGenTimeouts_seat (fun _ h => handleRolloverNewBlock_seat h) h
  | resume r =>
    cases r with
    | noop => exact .kept h
    | setup gid secrets => exact handleKeyGenSetup_seat h
    | nonceTree gid k =>
      rw [applyTransition, applyResume, (handleNonceTree_frame s gid k).2.2] at h
      exact .kept h
    | nonceCommitments sid m n proof =>
      rw [applyTransition, applyResume, handleNonceCommitments_state] at h
      exact .kept h
    | nonce m n =>
      rw [applyTransition, applyResume, handleNonces_state] at h
      exact .kept h
  | event log =>
    obtain ⟨block, index, address, data⟩ := log
    cases data with
    | keyGen gid =>
      change (T.handleGenesisKeyGen s gid).1.rollover.seat = some v at h
      unfold handleGenesisKeyGen at h
      split at h
      · split at h
        · exact startKeyGen_seat h
        · exact .kept h
      · exact .kept h
    | keyGenCommitted gid p k => exact handleKeyGenCommitted_seat rfl h
    | keyGenSecretShared gid p k => cases hmsg
    | keyGenConfirmed gid p => exact handleKeyGenConfirmed_seat h
    | keyGenComplained gid p a x => exact handleKeyGenComplained_seat h
    | keyGenComplaintResponded gid p a x => cases hmsg
    | epochStaged p gid sid => exact handleEpochStaged_seat h
    | preprocess gid p chunk k =>
      rw [applyTransition, applyEvent, (T.handlePreprocess_frame s gid p chunk k).2.2] at h
      exact .kept h
    | sign gid m sid q =>
      rw [applyTransition, applyEvent, handleSign_rollover] at h
      exact .kept h
    | signRevealedNonces sid p n =>
      rw [applyTransition, applyEvent,
        (handleSignRevealedNonces_onlySessions s block sid p n).rollover] at h
      exact .kept h
    | signShared sid root p =>
      rw [applyTransition, applyEvent, (handleSignShared_onlySessions s sid root p).rollover] at h
      exact .kept h
    | signCompleted sid =>
      rw [applyTransition, applyEvent,
        (handleSignCompleted_onlySessions s block sid).rollover] at h
      exact .kept h
    | transactionProposed o e d tx =>
      rw [applyTransition, applyEvent,
        (handleTransactionProposed_onlySessions s block o e d tx).rollover] at h
      exact .kept h
    | transactionAttested _ o e oh sid => exact .kept h
    | oracleResult m b =>
      rw [applyTransition, applyEvent,
        (handleOracleResult_onlySessions s block address m b).rollover] at h
      exact .kept h
    | unhandled => exact .kept h

end Transition

/-! ## 2. Who confirms -/

/-- The group whose key generation a command confirms. -/
def confirmsTo : Command Action (Effect E) → Option B256
  | .action (.keyGenConfirm gid _ _) => some gid
  | _ => none

/-- Nothing is confirmed. -/
def Quiet (commands : Commands E) : Prop := commands.filterMap confirmsTo = []

@[simp] theorem quiet_nil : Quiet ([] : Commands E) := rfl

@[simp] theorem quiet_cons {c : Command Action (Effect E)} {cs : Commands E} :
    Quiet (c :: cs) ↔ confirmsTo c = none ∧ Quiet cs := by
  simp only [Quiet, List.filterMap_eq_nil_iff, List.forall_mem_cons]

@[simp] theorem quiet_append {a b : Commands E} : Quiet (a ++ b) ↔ Quiet a ∧ Quiet b := by
  simp only [Quiet, List.filterMap_append, List.append_eq_nil_iff]

namespace Transition

variable (T : Transition E)

theorem startKeyGen_quiet (s : State E) (e : EpochId) (p : ParticipantSet) (d : Option Nat) :
    Quiet (T.startKeyGen s e p d).2 := by
  unfold startKeyGen
  split <;> simp [confirmsTo]

theorem restartKeyGenExcluding_quiet (s : State E) (e : EpochId) (x : Finset Address)
    (d : Option Nat) : Quiet (T.restartKeyGenExcluding s e x d).2 := by
  unfold restartKeyGenExcluding
  dsimp only
  split
  · exact T.startKeyGen_quiet _ _ _ _
  · exact quiet_nil

theorem finalizeKeyGenCommitments_quiet (e : EpochId) (g : Group) (x : Option (Secrets E))
    (k : BTreeMap Address (VerifiedCommitment E)) (d : Option Nat) :
    Quiet (finalizeKeyGenCommitments e g x k d).2 := by
  unfold finalizeKeyGenCommitments
  dsimp only
  split
  · rename_i participation commands h
    split at h
    · obtain ⟨r, -, hr⟩ := Except.map_eq_ok.mp h
      rw [Prod.mk.injEq] at hr
      rw [← hr.2]
      simp [confirmsTo]
    · obtain ⟨r, -, hr⟩ := Except.map_eq_ok.mp h
      rw [Prod.mk.injEq] at hr
      rw [← hr.2]
      exact quiet_nil
  · exact quiet_nil

theorem handleKeyGenSetup_quiet (s : State E) (gid : B256) (x : Secrets E) :
    Quiet (T.handleKeyGenSetup s gid x).2 := by
  unfold handleKeyGenSetup
  split
  · rename_i c hr
    split
    · split
      · have hcommit : Quiet (if (c.commitments[T.account]?).isSome then ([] : Commands E)
            else [.action (.keyGenAndCommit c.group.root c.group.count c.group.threshold
              c.group.context ‹_› (x.commitment E) c.deadline)]) := by
          split <;> simp [confirmsTo]
        dsimp only
        split
        · exact hcommit
        · exact quiet_append.mpr ⟨hcommit, finalizeKeyGenCommitments_quiet _ _ _ _ _⟩
      · exact quiet_nil
    · exact quiet_nil
  · exact quiet_nil

theorem handleKeyGenCommitted_quiet (s : State E) (block : Nat) (gid : B256) (p : Address)
    (k : KeyGenCommitment) : Quiet (T.handleKeyGenCommitted s block gid p k).2 := by
  unfold handleKeyGenCommitted
  split
  · split
    · dsimp only
      split
      · exact quiet_nil
      · split
        · exact quiet_nil
        · exact finalizeKeyGenCommitments_quiet _ _ _ _ _
        · exact finalizeKeyGenCommitments_quiet _ _ _ _ _
    · exact quiet_nil
  · exact quiet_nil

theorem finalizeKeyGen_quiet (s : State E) (e : EpochId) (g : Group) (k : Option (KeyShare E)) :
    Quiet (finalizeKeyGen s e g k).2 := by
  unfold finalizeKeyGen
  split <;> simp [confirmsTo]

theorem handleKeyGenConfirmed_quiet (s : State E) (block : Nat) (gid : B256) (p : Address) :
    Quiet (T.handleKeyGenConfirmed s block gid p).2 := by
  unfold handleKeyGenConfirmed
  split
  · split
    · dsimp only
      split
      · exact quiet_nil
      · split
        · unfold completeGenesis
          dsimp only
          split
          · exact finalizeKeyGen_quiet _ _ _ _
          · exact quiet_append.mpr ⟨finalizeKeyGen_quiet _ _ _ _, T.startKeyGen_quiet _ _ _ _⟩
        · exact quiet_nil
    · exact quiet_nil
  · exact quiet_nil

theorem handleEpochStaged_quiet (s : State E) (p : Nat) (gid : B256) :
    Quiet (handleEpochStaged s p gid).2 := by
  unfold handleEpochStaged
  split
  · split
    · exact quiet_append.mpr ⟨finalizeKeyGen_quiet _ _ _ _, quiet_nil⟩
    · exact quiet_nil
  · exact quiet_nil
  · exact quiet_nil

theorem handleKeyGenComplained_quiet (s : State E) (block : Nat) (gid : B256) (p a : Address) :
    Quiet (T.handleKeyGenComplained s block gid p a).2 := by
  unfold handleKeyGenComplained
  split
  · exact quiet_nil
  · dsimp only
    split
    · exact T.restartKeyGenExcluding_quiet _ _ _ _
    · unfold complaintResponse
      split
      · split
        · split <;> simp [confirmsTo]
        · exact quiet_nil
      · exact quiet_nil

theorem handleSign_quiet (s : State E) (block : Nat) (gid m sid : B256) (q : Nat) :
    Quiet (T.handleSign s block gid m sid q).2 := by
  rw [handleSign_eq]
  dsimp only
  split
  · split
    · unfold openRequest
      split <;> rfl
    · rfl
  · rfl
  · rfl

theorem handleOracleResult_quiet (s : State E) (block : Nat) (o : Address) (m : B256) (b : Bool) :
    Quiet (T.handleOracleResult s block o m b).2 := by
  unfold handleOracleResult
  split
  · split
    · split <;> rfl
    · rfl
  · rfl

theorem handleSignRevealedNonces_quiet (s : State E) (block : Nat) (sid : B256) (p : Address)
    (n : SignNonces) : Quiet (T.handleSignRevealedNonces s block sid p n).2 := by
  unfold handleSignRevealedNonces
  split
  · rfl
  · split
    · dsimp only
      split <;> rfl
    · rfl

theorem timeoutSession_quiet (block : Nat) (m : B256) (x : SigningState E) :
    Quiet ((T.timeoutSession block m x).actions.map Command.action : Commands E) := by
  have hrestart : ∀ (d : Nat) (k : KeyShare E) (g sid : B256) (ss : Finset Address) (p : Packet)
      (l : Option Address), Quiet
        ((T.restartSigningCeremony d m k g sid ss p l).actions.map Command.action : Commands E) := by
    intro d k g sid ss p l
    unfold restartSigningCeremony
    split
    · exact quiet_nil
    · dsimp only
      split <;> simp [confirmsTo]
  unfold timeoutSession
  dsimp only
  split
  · exact quiet_nil
  · split
    · split
      · exact quiet_nil
      · split <;> simp [confirmsTo]
    · exact quiet_nil
    · exact hrestart _ _ _ _ _ _ _
    · exact hrestart _ _ _ _ _ _ _
    · rename_i w _
      cases w.packet <;> simp [confirmsTo, Packet.attestationAction]

theorem handleSigningTimeouts_quiet (s : State E) (block : Nat) :
    Quiet (T.handleSigningTimeouts s block).2 := by
  rw [Quiet, List.filterMap_eq_nil_iff]
  intro c hc
  simp only [handleSigningTimeouts, List.mem_flatMap, List.mem_map] at hc
  obtain ⟨t, ⟨e, -, rfl⟩, a, ha, rfl⟩ := hc
  exact List.filterMap_eq_nil_iff.mp (T.timeoutSession_quiet block e.1 e.2) _
    (List.mem_map_of_mem ha)

theorem handleRolloverNewBlock_quiet (s : State E) (block : Nat) :
    Quiet (T.handleRolloverNewBlock s block).2 := by
  unfold handleRolloverNewBlock
  split
  · exact quiet_nil
  · dsimp only
    split
    · exact quiet_nil
    · split
      · exact T.startKeyGen_quiet _ _ _ _
      · exact quiet_nil

theorem handleKeyGenTimeouts_quiet (s : State E) (block : Nat) :
    Quiet (T.handleKeyGenTimeouts s block).2 := by
  unfold handleKeyGenTimeouts
  split
  · exact quiet_nil
  · split
    · exact quiet_nil
    · exact T.restartKeyGenExcluding_quiet _ _ _ _

theorem handleNonceTopup_quiet (s : State E) : Quiet (handleNonceTopup s).2 := by
  unfold handleNonceTopup
  split
  · exact quiet_nil
  · split
    · exact quiet_nil
    · split <;> simp [confirmsTo]

/-- **Only a message that brings a share confirms.** -/
theorem applyTransition_quiet (s : State E) {msg : Msg E} (h : bringsShare msg = false) :
    Quiet (T.applyTransition s msg).2 := by
  cases msg with
  | newBlock block =>
    simp only [applyTransition, applyBlock, handleGroupReconciliation, quiet_append]
    exact ⟨⟨⟨⟨T.handleRolloverNewBlock_quiet _ _, T.handleKeyGenTimeouts_quiet _ _⟩,
      T.handleSigningTimeouts_quiet _ _⟩, handleNonceTopup_quiet _⟩, rfl⟩
  | resume r =>
    cases r with
    | noop => rfl
    | setup gid x => exact T.handleKeyGenSetup_quiet s gid x
    | nonceTree gid r =>
      simp only [applyTransition, applyResume, handleNonceTree]
      split <;> rfl
    | nonceCommitments sid m n proof =>
      simp only [applyTransition, applyResume, handleNonceCommitments]
      split
      · split <;> rfl
      · rfl
    | nonce m n =>
      simp only [applyTransition, applyResume, handleNonces]
      split
      · split <;> rfl
      · rfl
  | event log =>
    obtain ⟨block, index, address, data⟩ := log
    cases data with
    | keyGen gid =>
      change Quiet (T.handleGenesisKeyGen s gid).2
      unfold handleGenesisKeyGen
      split
      · split
        · exact T.startKeyGen_quiet _ _ _ _
        · exact quiet_nil
      · exact quiet_nil
    | keyGenCommitted gid p k => exact T.handleKeyGenCommitted_quiet _ _ _ _ _
    | keyGenSecretShared gid p k => cases h
    | keyGenConfirmed gid p => exact T.handleKeyGenConfirmed_quiet _ _ _ _
    | keyGenComplained gid p a x => exact T.handleKeyGenComplained_quiet _ _ _ _ _
    | keyGenComplaintResponded gid p a x => cases h
    | preprocess gid p chunk r =>
      rw [applyTransition, applyEvent, handlePreprocess_commands]
      rfl
    | sign gid message sid q => exact T.handleSign_quiet _ _ _ _ _ _
    | signRevealedNonces sid p n => exact T.handleSignRevealedNonces_quiet _ _ _ _ _
    | signShared sid root p =>
      rw [applyTransition, applyEvent, handleSignShared_commands]
      rfl
    | signCompleted sid =>
      rw [applyTransition, applyEvent, handleSignCompleted_commands]
      rfl
    | epochStaged p gid sid => exact handleEpochStaged_quiet _ _ _
    | transactionProposed o e d tx =>
      rw [applyTransition, applyEvent, handleTransactionProposed_commands]
      rfl
    | transactionAttested h o e oh sid => rfl
    | oracleResult m b => exact T.handleOracleResult_quiet _ _ _ _ _
    | unhandled => rfl

end Transition

end Safenet
