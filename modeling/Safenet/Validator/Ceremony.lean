/-
# The key generation ceremony, as everybody sees it

What a key generation is FOR, without the secrets: an abstract machine whose state holds only what
is published -- who committed, shared and confirmed, the open complaints, the deadlines -- and
whose steps read nothing but the logs and the block clock.  One bit is this validator's own: a
commitment round is `pending` while the secrets of a participant are not sampled yet, because the
last commitment cannot close the round before they are.

`Ceremony.step` is deterministic, and the rollover of a validator follows it
(`ceremony_applyTransition`) unless a FROST computation of its own fails, in which case the round
fails (`frostFails`).  Everything the validators have to agree on can therefore be argued about on
the ceremony.
-/
import Safenet.Validator.Epochs

namespace Safenet

open Frost

variable (E : Crates)

/-! ## 1. The ceremony -/

/-- The commitments are collected. -/
structure CommitmentRound where
  nextEpoch : EpochId
  group : Group
  commitments : BTreeMap Address (VerifiedCommitment E)
  deadline : Option Nat
  pending : Bool

/-- The secret shares are collected. -/
structure ShareRound where
  nextEpoch : EpochId
  group : Group
  groupCommitments : GroupCommitments E
  publicKeys : BTreeMap Address (PublicKeyShare E)
  complaints : BTreeMap Address Complaint
  deadline : Option Nat

/-- The confirmations are collected. -/
structure ConfirmationRound where
  nextEpoch : EpochId
  group : Group
  groupCommitments : GroupCommitments E
  confirmations : Finset Address
  complaints : BTreeMap Address Complaint
  deadlines : Option ConfirmationDeadlines

/-- The rollover to a generated group is proposed under a message. -/
structure RolloverProposal where
  nextEpoch : ℕ+
  group : Group
  message : B256

/-- The published part of the rollover. -/
inductive Ceremony where
  | waitingForGenesis
  | halted
  | epochStaged (nextEpoch : ℕ+)
  | epochSkipped (nextEpoch : ℕ+)
  | commitments (c : CommitmentRound E)
  | shares (c : ShareRound E)
  | confirmations (c : ConfirmationRound E)
  | signing (c : RolloverProposal)

variable {E}

/-- Whether a participant's secrets are still to be sampled. -/
def KeyGenSecrets.pending : KeyGenSecrets E → Bool
  | .participating _ none => true
  | _ => false

/-- The published part of a commitment round. -/
def CollectingCommitments.published (c : CollectingCommitments E) : CommitmentRound E :=
  { nextEpoch := c.nextEpoch, group := c.group, commitments := c.commitments
    deadline := c.deadline, pending := c.secrets.pending }

/-- The published part of a share round. -/
def CollectingShares.published (c : CollectingShares E) : ShareRound E :=
  { nextEpoch := c.nextEpoch, group := c.group
    groupCommitments := c.participation.groupCommitments, publicKeys := c.publicKeys
    complaints := c.complaints, deadline := c.deadline }

/-- The published part of a confirmation round. -/
def CollectingConfirmations.published (c : CollectingConfirmations E) : ConfirmationRound E :=
  { nextEpoch := c.nextEpoch, group := c.group
    groupCommitments := c.participation.groupCommitments, confirmations := c.confirmations
    complaints := c.complaints, deadlines := c.deadlines }

/-- The ceremony a validator takes part in or observes. -/
def RolloverState.ceremony : RolloverState E → Ceremony E
  | .waitingForGenesis => .waitingForGenesis
  | .halted => .halted
  | .epochStaged n => .epochStaged n
  | .epochSkipped n => .epochSkipped n
  | .collectingCommitments c => .commitments c.published
  | .collectingShares c => .shares c.published
  | .collectingConfirmations c => .confirmations c.published
  | .signingRollover c => .signing ⟨c.nextEpoch, c.group, c.message⟩

namespace Ceremony

/-- The epoch the ceremony works toward. -/
def nextEpoch : Ceremony E → Option EpochId
  | .waitingForGenesis => some .genesis
  | .halted => none
  | .epochStaged n => some (.number n)
  | .epochSkipped n => some (.number n)
  | .commitments c => some c.nextEpoch
  | .shares c => some c.nextEpoch
  | .confirmations c => some c.nextEpoch
  | .signing c => some (.number c.nextEpoch)

/-- The epoch and the group of the round underway. -/
def round : Ceremony E → Option (EpochId × Group)
  | .commitments c => some (c.nextEpoch, c.group)
  | .shares c => some (c.nextEpoch, c.group)
  | .confirmations c => some (c.nextEpoch, c.group)
  | _ => none

/-- A ceremony that failed skips its epoch; genesis cannot be skipped. -/
def failed : EpochId → Ceremony E
  | .number n => .epochSkipped n
  | .genesis => .halted

variable (T : Transition E)

/-- A fresh round among a participant set. -/
def started (e : EpochId) (set : ParticipantSet) (deadline : Option Nat) : Ceremony E :=
  .commitments
    { nextEpoch := e, group := set.group E.keccak256, commitments := ∅, deadline
      pending := T.account ∈ set.addresses }

/-- A fresh round for an epoch that leaves out `excluded`, if enough participants remain. -/
def restarted (e : EpochId) (excluded : Finset Address) (deadline : Option Nat) : Ceremony E :=
  match e with
  | .genesis => failed .genesis
  | .number n =>
    match T.epochParticipants n excluded with
    | some set => started T (.number n) set deadline
    | none => failed (.number n)

/-- A commitment round everyone committed to. -/
def closed (c : CommitmentRound E) (deadline : Option Nat) : Ceremony E :=
  match groupCommitments E c.commitments with
  | .ok groupCommitments => .shares
      { nextEpoch := c.nextEpoch, group := c.group, groupCommitments, publicKeys := ∅
        complaints := ∅, deadline }
  | .error _ => failed c.nextEpoch

/-- The genesis group is created. -/
def afterKeyGen (gid : B256) : Ceremony E → Ceremony E
  | .waitingForGenesis =>
    if gid = (T.genesis.group E.keccak256).id then started T .genesis T.genesis none
    else .waitingForGenesis
  | r => r

/-- This validator's secrets are sampled. -/
def afterSetup (gid : B256) : Ceremony E → Ceremony E
  | .commitments c =>
    if c.pending ∧ gid = c.group.id then
      if asU16 c.commitments.size ≠ c.group.count then .commitments { c with pending := false }
      else closed c (c.deadline.map fun d => satAdd d T.config.keyGenTimeout)
    else .commitments c
  | r => r

/-- A participant committed. -/
def afterCommitted (block : Nat) (gid : B256) (participant : Address)
    (commitment : KeyGenCommitment) : Ceremony E → Ceremony E
  | .commitments c =>
    if c.group.id = gid then
      let c := { c with
        commitments := Transition.registerCommitment c.commitments participant commitment }
      if asU16 c.commitments.size ≠ c.group.count ∨ c.pending then .commitments c
      else closed c (T.freshDeadline block c.deadline)
    else .commitments c
  | r => r

/-- The public key shares with a participant's, if it matches the commitments. -/
def registerKey (c : ShareRound E) (participant : Address) (share : KeyGenSecretShare) :
    BTreeMap Address (PublicKeyShare E) :=
  match verifySecretShare E c.groupCommitments participant share with
  | .ok (publicKey, _) => c.publicKeys.insert participant publicKey
  | .error _ => c.publicKeys

/-- A participant shared. -/
def afterShared (block : Nat) (gid : B256) (participant : Address) (share : KeyGenSecretShare) :
    Ceremony E → Ceremony E
  | .shares c =>
    if c.group.id = gid then
      let publicKeys := registerKey c participant share
      if asU16 publicKeys.size ≠ c.group.count then .shares { c with publicKeys }
      else .confirmations
        { nextEpoch := c.nextEpoch, group := c.group, groupCommitments := c.groupCommitments
          confirmations := ∅, complaints := c.complaints
          deadlines := T.confirmationDeadlines block c.deadline }
    else .shares c
  | r => r

/-- Genesis is complete; the key generation of the epoch that is due begins. -/
def afterGenesis (block : Nat) : Ceremony E :=
  let nextEpoch := nextNumber block T.config.blocksPerEpoch
  match T.epochParticipants nextEpoch ∅ with
  | none => .epochSkipped nextEpoch
  | some set => started T (.number nextEpoch) set (some (satAdd block T.config.keyGenTimeout))

/-- A participant confirmed. -/
def afterConfirmed (activeEpoch : EpochId) (block : Nat) (gid : B256) (participant : Address) :
    Ceremony E → Ceremony E
  | .confirmations c =>
    if c.group.id = gid then
      let confirmations := insert participant c.confirmations
      if asU16 confirmations.card ≠ c.group.count then .confirmations { c with confirmations }
      else match c.nextEpoch with
        | .genesis => afterGenesis T block
        | .number n => .signing
            { nextEpoch := n, group := c.group
              message := (T.rolloverPacket activeEpoch n c.group.id
                (c.groupCommitments.groupKey E)).2 }
    else .confirmations c
  | r => r

/-- An epoch was staged. -/
def afterStaged (proposedEpoch : Nat) (gid : B256) : Ceremony E → Ceremony E
  | .signing c => if c.group.id = gid then .epochStaged c.nextEpoch else .signing c
  | .waitingForGenesis =>
    if h : 0 < proposedEpoch then .epochSkipped ⟨proposedEpoch, h⟩ else .halted
  | r => r

/-- The complaints of a round that counts complaints at `block`, and the deadline of the round a
complaint may start. -/
def counting (block : Nat) (gid : B256) : Ceremony E →
    Option (EpochId × Group × BTreeMap Address Complaint × Option Nat)
  | .shares c =>
    if c.group.id = gid then
      some (c.nextEpoch, c.group, c.complaints, T.freshDeadline block c.deadline)
    else none
  | .confirmations c =>
    if c.group.id = gid ∧ (c.deadlines.all fun d => block ≤ d.complain) then
      some (c.nextEpoch, c.group, c.complaints,
        T.freshDeadline block (c.deadlines.map (·.complain)))
    else none
  | _ => none

/-- The ceremony with its complaints replaced. -/
def withComplaints (complaints : BTreeMap Address Complaint) : Ceremony E → Ceremony E
  | .shares c => .shares { c with complaints }
  | .confirmations c => .confirmations { c with complaints }
  | r => r

/-- A complaint was filed. -/
def afterComplained (block : Nat) (gid : B256) (accused : Address) (r : Ceremony E) : Ceremony E :=
  match counting T block gid r with
  | none => r
  | some (e, group, complaints, deadline) =>
    let complaint := Transition.raiseComplaint (complaints[accused]?.getD default)
    if group.threshold ≤ complaint.total then
      restarted T e (group.alsoExclude {accused}) deadline
    else withComplaints (complaints.insert accused complaint) r

/-- The commitments and complaints of a round that takes a response at `block`, and the deadline
an invalid one restarts from. -/
def answering (block : Nat) (gid : B256) : Ceremony E →
    Option (EpochId × Group × GroupCommitments E × BTreeMap Address Complaint × Option Nat)
  | .shares c =>
    if c.group.id = gid then
      some (c.nextEpoch, c.group, c.groupCommitments, c.complaints, c.deadline)
    else none
  | .confirmations c =>
    if c.group.id = gid ∧ (c.deadlines.all fun d => block ≤ d.response) then
      some (c.nextEpoch, c.group, c.groupCommitments, c.complaints, c.deadlines.map (·.response))
    else none
  | _ => none

/-- A complaint was answered. -/
def afterResponded (block : Nat) (gid : B256) (plaintiff accused : Address) (secretShare : U256)
    (r : Ceremony E) : Ceremony E :=
  match answering block gid r with
  | none => r
  | some (e, group, groupCommitments, complaints, deadline) =>
    match complaints[accused]? with
    | none => r
    | some complaint =>
      if complaint.unresponded = 0 then r
      else match verifyRevealedSecretShare E groupCommitments plaintiff accused secretShare with
        | .ok _ => withComplaints
            (complaints.insert accused { complaint with unresponded := complaint.unresponded - 1 }) r
        | .error _ => restarted T e (group.alsoExclude {accused}) (T.freshDeadline block deadline)

/-- The epoch the clock makes active, and the ceremony it leaves. -/
def clock (block : Nat) (activeEpoch : EpochId) (r : Ceremony E) : EpochId × Ceremony E :=
  match r.nextEpoch.bind EpochId.number? with
  | none => (activeEpoch, r)
  | some targetEpoch =>
    let nextEpoch := nextNumber block T.config.blocksPerEpoch
    if nextEpoch ≤ targetEpoch then (activeEpoch, r)
    else
      (match r with
        | .epochStaged _ => .number targetEpoch
        | _ => activeEpoch,
      match T.epochParticipants nextEpoch ∅ with
        | some set => started T (.number nextEpoch) set (some (satAdd block T.config.keyGenTimeout))
        | none => .epochSkipped nextEpoch)

/-- A pending round everyone committed to, past its deadline. -/
def stuck (block : Nat) : Ceremony E → Option EpochId
  | .commitments c =>
    if c.pending ∧ c.deadline.any (· ≤ block) ∧ asU16 c.commitments.size = c.group.count then
      some c.nextEpoch
    else none
  | _ => none

/-- Whom a round past its deadline is restarted without. -/
def stalled (block : Nat) : Ceremony E → Option (EpochId × Finset Address)
  | .commitments c =>
    if c.deadline.any (· ≤ block) then
      some (c.nextEpoch, c.group.excludeAllOthers (BTreeMap.keySet c.commitments))
    else none
  | .shares c =>
    if c.deadline.any (· ≤ block) then
      some (c.nextEpoch, c.group.excludeAllOthers (BTreeMap.keySet c.publicKeys))
    else none
  | .confirmations c =>
    match c.deadlines with
    | none => none
    | some deadlines =>
      if deadlines.response ≤ block ∧ Transition.unresponded c.complaints ≠ ∅ then
        some (c.nextEpoch, c.group.alsoExclude (Transition.unresponded c.complaints))
      else if deadlines.confirm ≤ block then
        some (c.nextEpoch, c.group.excludeAllOthers c.confirmations)
      else none
  | _ => none

/-- A round past its deadline fails or starts over. -/
def afterTimeouts (block : Nat) (r : Ceremony E) : Ceremony E :=
  match stuck block r with
  | some e => failed e
  | none =>
    match stalled block r with
    | none => r
    | some (e, excluded) => restarted T e excluded (some (satAdd block T.config.keyGenTimeout))

/-- **One message, seen by the ceremony.** -/
def step (activeEpoch : EpochId) (r : Ceremony E) : Msg E → Ceremony E
  | .newBlock block => afterTimeouts T block (clock T block activeEpoch r).2
  | .resume (.setup gid _) => afterSetup T gid r
  | .resume _ => r
  | .event log =>
    match log.data with
    | .keyGen gid => afterKeyGen T gid r
    | .keyGenCommitted gid participant commitment =>
      afterCommitted T log.block gid participant commitment r
    | .keyGenSecretShared gid participant share => afterShared T log.block gid participant share r
    | .keyGenConfirmed gid participant => afterConfirmed T activeEpoch log.block gid participant r
    | .keyGenComplained gid _ accused _ => afterComplained T log.block gid accused r
    | .keyGenComplaintResponded gid plaintiff accused secretShare =>
      afterResponded T log.block gid plaintiff accused secretShare r
    | .epochStaged proposedEpoch gid _ => afterStaged proposedEpoch gid r
    | _ => r

/-- The epoch that is active after a message. -/
def activeAfter (activeEpoch : EpochId) (r : Ceremony E) : Msg E → EpochId
  | .newBlock block => (clock T block activeEpoch r).1
  | _ => activeEpoch

end Ceremony

/-! ## 2. The validator follows the ceremony -/

namespace Transition

variable {T : Transition E}

/-- Whether a FROST computation over verified inputs that this validator alone makes fails: the
shares of a commitment round everyone committed to, or the key share once every share is there. -/
def frostFails (T : Transition E) (s : State E) : Msg E → Bool
  | .resume (.setup gid x) =>
    match s.rollover with
    | .collectingCommitments c => gid = c.group.id ∧ c.secrets.pending ∧
        asU16 c.commitments.size = c.group.count ∧ ¬ (generateSecretShares E x c.commitments).isOk
    | _ => false
  | .event log =>
    match log.data, s.rollover with
    | .keyGenCommitted gid p k, .collectingCommitments c =>
      match c.secrets with
      | .participating _ (some x) =>
        let commitments := registerCommitment c.commitments p k
        c.group.id = gid ∧ asU16 commitments.size = c.group.count ∧
          ¬ (generateSecretShares E x commitments).isOk
      | _ => false
    | .keyGenSecretShared gid p k, .collectingShares c =>
      match c.participation with
      | .participating x =>
        let shares := (T.registerShare c log.block p k).1.shares
        c.group.id = gid ∧ asU16 shares.size = c.group.count ∧ ¬ (finalize E x shares).isOk
      | .observing _ => false
    | .keyGenComplaintResponded gid p a y, .collectingConfirmations c =>
      match c.participation, c.status, verifyRevealedSecretShare E
          c.participation.groupCommitments p a y with
      | .participating x, .collecting shares, .ok share =>
        let shares := T.registerRevealed p a share shares
        c.group.id = gid ∧ asU16 shares.size = c.group.count ∧ ¬ (finalize E x shares).isOk
      | _, _, _ => false
    | _, _ => false
  | _ => false

/-- The round fails at this validator alone. -/
def FailsAlone (T : Transition E) (s : State E) (msg : Msg E) (s' : State E) : Prop :=
  T.frostFails s msg ∧ ∃ e g, s.rollover.round = some (e, g) ∧
    s'.rollover.ceremony = Ceremony.failed e

@[simp] theorem ceremony_round (r : RolloverState E) : r.ceremony.round = r.round := by
  cases r <;> rfl

@[simp] theorem ceremony_nextEpoch (r : RolloverState E) : r.ceremony.nextEpoch = r.nextEpoch := by
  cases r <;> rfl

@[simp] theorem ceremony_rolloverFailure (e : EpochId) :
    (rolloverFailure e : RolloverState E).ceremony = Ceremony.failed e := by
  cases e <;> rfl

theorem startKeyGen_ceremony (s : State E) (e : EpochId) (set : ParticipantSet)
    (d : Option Nat) :
    (T.startKeyGen s e set d).1.rollover.ceremony = Ceremony.started T e set d := by
  unfold startKeyGen ParticipantSet.participateAs Ceremony.started
  by_cases h : T.account ∈ set.addresses
  · rw [if_pos h, decide_eq_true h]
    rfl
  · rw [if_neg h, decide_eq_false h]
    rfl

theorem restartKeyGenExcluding_ceremony (s : State E) (e : EpochId) (x : Finset Address)
    (d : Option Nat) :
    (T.restartKeyGenExcluding s e x d).1.rollover.ceremony = Ceremony.restarted T e x d := by
  unfold restartKeyGenExcluding Ceremony.restarted
  cases e with
  | genesis => rfl
  | number n =>
    dsimp only
    cases T.epochParticipants n x with
    | none => rfl
    | some set => exact startKeyGen_ceremony _ _ _ _

theorem handleGenesisKeyGen_ceremony (s : State E) (gid : B256) :
    (T.handleGenesisKeyGen s gid).1.rollover.ceremony =
      Ceremony.afterKeyGen T gid s.rollover.ceremony := by
  unfold handleGenesisKeyGen
  split
  · rename_i hr
    rw [hr, RolloverState.ceremony, Ceremony.afterKeyGen]
    split
    · exact startKeyGen_ceremony _ _ _ _
    · rw [hr]
      rfl
  · rename_i hr
    rcases hs : s.rollover with _ | _ | _ | _ | c | c | c | c
    case waitingForGenesis => exact absurd hs hr
    all_goals rfl

/-- Closing a commitment round, with secrets that yield shares or as an observer. -/
theorem finalizeKeyGenCommitments_ceremony (c : CommitmentRound E) (x : Option (Secrets E))
    (d : Option Nat) :
    (finalizeKeyGenCommitments c.nextEpoch c.group x c.commitments d).1.ceremony =
        Ceremony.closed c d ∨
      (finalizeKeyGenCommitments c.nextEpoch c.group x c.commitments d).1.ceremony =
          Ceremony.failed c.nextEpoch ∧
        ∃ y err, x = some y ∧ generateSecretShares E y c.commitments = .error err := by
  unfold finalizeKeyGenCommitments Ceremony.closed
  cases x with
  | none =>
    refine .inl ?_
    cases hg : groupCommitments E c.commitments with
    | ok g => simp only [Except.map]; rfl
    | error err => simp only [Except.map, ceremony_rolloverFailure]
  | some y =>
    cases hy : generateSecretShares E y c.commitments with
    | ok r =>
      refine .inl ?_
      rw [groupCommitments_of_shares (E := E) hy]
      simp only [hy, Except.map]
      rfl
    | error err =>
      refine .inr ⟨?_, y, err, rfl, hy⟩
      simp only [hy, Except.map, ceremony_rolloverFailure]

/-- A rollover in no commitment round has nothing to set up or to commit to. -/
theorem ceremony_ne_commitments {r : RolloverState E}
    (h : ∀ c, r ≠ .collectingCommitments c) (c : CommitmentRound E) :
    r.ceremony ≠ .commitments c := by
  cases r with
  | collectingCommitments c => exact absurd rfl (h c)
  | _ => simp [RolloverState.ceremony]

theorem pending_iff (c : CollectingCommitments E) :
    c.published.pending = true ↔ ∃ poap, c.secrets = .participating poap none := by
  rw [CollectingCommitments.published]
  rcases hc : c.secrets with ⟨poap, _ | y⟩ | _ <;> simp [KeyGenSecrets.pending]

theorem handleKeyGenSetup_ceremony (s : State E) (gid : B256) (x : Secrets E) :
    (T.handleKeyGenSetup s gid x).1.rollover.ceremony =
        Ceremony.afterSetup T gid s.rollover.ceremony ∨
      FailsAlone T s (.resume (.setup gid x)) (T.handleKeyGenSetup s gid x).1 := by
  unfold handleKeyGenSetup
  split
  · rename_i c hr
    have hcer : s.rollover.ceremony = .commitments c.published := by rw [hr]; rfl
    split
    · rename_i poap hs
      have hp : c.published.pending = true := (pending_iff c).mpr ⟨poap, hs⟩
      split
      · rename_i hg
        have hmine : c.published.pending = true ∧ gid = c.published.group.id := ⟨hp, hg⟩
        dsimp only
        split
        · rename_i hc
          rw [hcer]
          exact .inl ((if_pos hmine).trans (if_pos hc)).symm
        · rename_i hc
          rcases finalizeKeyGenCommitments_ceremony c.published (some x)
            (c.deadline.map fun d => satAdd d T.config.keyGenTimeout) with h | ⟨h, y, err, hy, herr⟩
          · rw [hcer]
            exact .inl (h.trans ((if_pos hmine).trans (if_neg hc)).symm)
          · obtain rfl := Option.some.inj hy
            refine .inr ⟨?_, c.nextEpoch, c.group, by rw [hr]; rfl, h⟩
            have herr' : generateSecretShares E x c.commitments = .error err := herr
            simp [frostFails, hr, hg, hs, not_not.mp hc, herr', KeyGenSecrets.pending,
              Except.isOk, Except.toBool]
      · rename_i hg
        have hother : ¬ (c.published.pending = true ∧ gid = c.published.group.id) := fun h => hg h.2
        rw [hcer]
        exact .inl (if_neg hother).symm
    · rename_i hs
      have hp : ¬ c.published.pending = true := fun h =>
        ((pending_iff c).mp h).elim fun poap hpoap => hs poap hpoap
      have hother : ¬ (c.published.pending = true ∧ gid = c.published.group.id) := fun h => hp h.1
      rw [hcer]
      exact .inl (if_neg hother).symm
  · rename_i hr
    refine .inl ?_
    cases hs : s.rollover.ceremony with
    | commitments c => exact absurd hs (ceremony_ne_commitments hr c)
    | _ => rfl

theorem handleKeyGenCommitted_ceremony (s : State E) (log : EventLog Event) {gid : B256}
    {p : Address} {k : KeyGenCommitment} (hlog : log.data = .keyGenCommitted gid p k) :
    (T.handleKeyGenCommitted s log.block gid p k).1.rollover.ceremony =
        Ceremony.afterCommitted T log.block gid p k s.rollover.ceremony ∨
      FailsAlone T s (.event log) (T.handleKeyGenCommitted s log.block gid p k).1 := by
  unfold handleKeyGenCommitted
  split
  · rename_i c hr
    have hcer : s.rollover.ceremony = .commitments c.published := by rw [hr]; rfl
    split
    · rename_i hg
      let next : CommitmentRound E :=
        { c.published with commitments := registerCommitment c.commitments p k }
      have hstay : (asU16 next.commitments.size ≠ next.group.count ∨ next.pending = true) →
          Ceremony.afterCommitted T log.block gid p k (.commitments c.published) =
            .commitments next := fun h => (if_pos hg).trans (if_pos h)
      have hclose : ¬ (asU16 next.commitments.size ≠ next.group.count ∨ next.pending = true) →
          Ceremony.afterCommitted T log.block gid p k (.commitments c.published) =
            .closed next (T.freshDeadline log.block c.deadline) :=
        fun h => (if_pos hg).trans (if_neg h)
      rw [hcer]
      dsimp only
      split
      · rename_i hc
        exact .inl (hstay (.inl hc)).symm
      · rename_i hc
        split
        · rename_i poap hs
          exact .inl (hstay (.inr ((pending_iff c).mpr ⟨poap, hs⟩))).symm
        · rename_i poap x hs
          have hp : ¬ c.published.pending = true := fun h =>
            ((pending_iff c).mp h).elim fun poap' h' => by simp [hs] at h'
          rcases finalizeKeyGenCommitments_ceremony next (some x)
            (T.freshDeadline log.block c.deadline) with h | ⟨h, y, err, hy, herr⟩
          · exact .inl (h.trans (hclose (not_or_intro hc hp)).symm)
          · obtain rfl := Option.some.inj hy
            refine .inr ⟨?_, c.nextEpoch, c.group, by rw [hr]; rfl, h⟩
            have herr' : generateSecretShares E x (registerCommitment c.commitments p k) =
              .error err := herr
            simp [frostFails, hlog, hr, hg, hs, not_not.mp hc, herr', Except.isOk, Except.toBool]
        · rename_i hs
          have hp : ¬ c.published.pending = true := fun h =>
            ((pending_iff c).mp h).elim fun poap' h' => by simp [hs] at h'
          rcases finalizeKeyGenCommitments_ceremony next none
            (T.freshDeadline log.block c.deadline) with h | ⟨-, y, err, hy, -⟩
          · exact .inl (h.trans (hclose (not_or_intro hc hp)).symm)
          · exact absurd hy (by simp)
    · rename_i hg
      have hother : ¬ c.published.group.id = gid := hg
      rw [hcer]
      exact .inl (if_neg hother).symm
  · rename_i hr
    refine .inl ?_
    cases hs : s.rollover.ceremony with
    | commitments c => exact absurd hs (ceremony_ne_commitments hr c)
    | _ => rfl

theorem registerShare_publicKeys (c : CollectingShares E) (block : Nat) (p : Address)
    (k : KeyGenSecretShare) :
    (T.registerShare c block p k).1.publicKeys = Ceremony.registerKey c.published p k := by
  unfold registerShare Ceremony.registerKey CollectingShares.published
  dsimp only
  cases verifySecretShare E c.participation.groupCommitments p k with
  | error err => rfl
  | ok r =>
    dsimp only
    split
    · rfl
    · split
      · rfl
      · rfl

theorem ceremony_ne_shares {r : RolloverState E} (h : ∀ c, r ≠ .collectingShares c)
    (c : ShareRound E) : r.ceremony ≠ .shares c := by
  cases r with
  | collectingShares c => exact absurd rfl (h c)
  | _ => simp [RolloverState.ceremony]

theorem ceremony_ne_confirmations {r : RolloverState E}
    (h : ∀ c, r ≠ .collectingConfirmations c) (c : ConfirmationRound E) :
    r.ceremony ≠ .confirmations c := by
  cases r with
  | collectingConfirmations c => exact absurd rfl (h c)
  | _ => simp [RolloverState.ceremony]

theorem confirmKeyGen_eq_error {e : EpochId} {g : Group} {x : SharingState E}
    {shares : BTreeMap Address (VerifiedShare E)} {d : Option ConfirmationDeadlines} {err : Error}
    (h : T.confirmKeyGen e g x shares d = .error err) : finalize E x shares = .error err := by
  unfold confirmKeyGen at h
  cases hf : finalize E x shares with
  | ok k => simp [hf, Except.map] at h
  | error err' => simpa [hf, Except.map] using h

theorem handleKeyGenSecretShared_ceremony (s : State E) (log : EventLog Event) {gid : B256}
    {p : Address} {k : KeyGenSecretShare} (hlog : log.data = .keyGenSecretShared gid p k) :
    (T.handleKeyGenSecretShared s log.block gid p k).1.rollover.ceremony =
        Ceremony.afterShared T log.block gid p k s.rollover.ceremony ∨
      FailsAlone T s (.event log) (T.handleKeyGenSecretShared s log.block gid p k).1 := by
  unfold handleKeyGenSecretShared
  split
  · rename_i c hr
    have hcer : s.rollover.ceremony = .shares c.published := by rw [hr]; rfl
    split
    · rename_i hg
      obtain ⟨hn, hgroup, hpart, hcomp, hdead⟩ := registerShare_fields (T := T) c log.block p k
      have hkeys := registerShare_publicKeys (T := T) c log.block p k
      generalize hreg : T.registerShare c log.block p k = reg at hn hgroup hpart hcomp hdead hkeys
      obtain ⟨c', commands⟩ := reg
      dsimp only at hn hgroup hpart hcomp hdead hkeys ⊢
      have hstay : asU16 c'.publicKeys.size ≠ c'.group.count →
          Ceremony.afterShared T log.block gid p k (.shares c.published) =
            (RolloverState.collectingShares c').ceremony := by
        intro hc
        rw [hkeys, hgroup] at hc
        refine (if_pos hg).trans ((if_pos hc).trans ?_)
        simp only [RolloverState.ceremony, CollectingShares.published, hn, hgroup, hpart, hcomp,
          hdead, hkeys]
      have hclose : ∀ status : KeyGenConfirmation E,
          ¬ asU16 c'.publicKeys.size ≠ c'.group.count →
          Ceremony.afterShared T log.block gid p k (.shares c.published) =
            (RolloverState.collectingConfirmations
              { nextEpoch := c'.nextEpoch, group := c'.group, participation := c'.participation
                status, confirmations := ∅, complaints := c'.complaints
                deadlines := T.confirmationDeadlines log.block c'.deadline }).ceremony := by
        intro status hc
        rw [hkeys, hgroup] at hc
        refine (if_pos hg).trans ((if_neg hc).trans ?_)
        simp only [RolloverState.ceremony, CollectingConfirmations.published,
          CollectingShares.published, hn, hgroup, hpart, hcomp, hdead]
      rw [hcer]
      split
      · rename_i hc
        exact .inl (hstay hc).symm
      · rename_i hc
        split
        · rename_i x hx
          split
          · rename_i hall
            split
            · exact .inl (hclose _ hc).symm
            · rename_i err herr
              have hall' : asU16 (T.registerShare c log.block p k).1.shares.size = c.group.count := by
                rw [hreg, ← hgroup]
                exact hall
              have hfin : finalize E x (T.registerShare c log.block p k).1.shares = .error err := by
                rw [hreg]
                exact confirmKeyGen_eq_error herr
              refine .inr ⟨?_, c.nextEpoch, c.group, by rw [hr]; rfl, ?_⟩
              · rw [hpart] at hx
                simp [frostFails, hlog, hr, hg, hx, hall', hfin, Except.isOk, Except.toBool]
              · rw [failRollover, hn]
                exact ceremony_rolloverFailure _
          · exact .inl (hclose _ hc).symm
        · exact .inl (hclose _ hc).symm
    · rename_i hg
      have hother : ¬ c.published.group.id = gid := hg
      rw [hcer]
      exact .inl (if_neg hother).symm
  · rename_i hr
    refine .inl ?_
    cases hs : s.rollover.ceremony with
    | shares c => exact absurd hs (ceremony_ne_shares hr c)
    | _ => rfl

theorem completeGenesis_ceremony (s : State E) (block : Nat) (c : CollectingConfirmations E) :
    (T.completeGenesis s block c).1.rollover.ceremony = Ceremony.afterGenesis T block := by
  unfold completeGenesis Ceremony.afterGenesis
  dsimp only
  cases T.epochParticipants (nextNumber block T.config.blocksPerEpoch) ∅ with
  | none =>
    dsimp only
    rw [(finalizeKeyGen_frame _ _ _ _).2.2.1]
    rfl
  | some set => exact startKeyGen_ceremony _ _ _ _

theorem handleKeyGenConfirmed_ceremony (s : State E) (block : Nat) (gid : B256) (p : Address) :
    (T.handleKeyGenConfirmed s block gid p).1.rollover.ceremony =
      Ceremony.afterConfirmed T s.activeEpoch block gid p s.rollover.ceremony := by
  unfold handleKeyGenConfirmed
  split
  · rename_i c hr
    have hcer : s.rollover.ceremony = .confirmations c.published := by rw [hr]; rfl
    rw [hcer, Ceremony.afterConfirmed]
    by_cases hg : c.group.id = gid
    · have hg' : c.published.group.id = gid := hg
      rw [if_pos hg, if_pos hg']
      dsimp only
      by_cases hc : asU16 (insert p c.confirmations).card ≠ c.group.count
      · have hc' : asU16 (insert p c.published.confirmations).card ≠ c.published.group.count := hc
        rw [if_pos hc, if_pos hc']
        rfl
      · have hc' : ¬ asU16 (insert p c.published.confirmations).card ≠ c.published.group.count := hc
        rw [if_neg hc, if_neg hc']
        have hne : c.published.nextEpoch = c.nextEpoch := rfl
        rw [hne]
        cases c.nextEpoch with
        | genesis => exact completeGenesis_ceremony _ _ _
        | number n => rfl
    · have hg' : ¬ c.published.group.id = gid := hg
      rw [if_neg hg, if_neg hg', hcer]
  · rename_i hr
    cases hs : s.rollover.ceremony with
    | confirmations c => exact absurd hs (ceremony_ne_confirmations hr c)
    | _ => rfl

theorem handleEpochStaged_ceremony (s : State E) (p : Nat) (gid : B256) :
    (handleEpochStaged s p gid).1.rollover.ceremony =
      Ceremony.afterStaged p gid s.rollover.ceremony := by
  unfold handleEpochStaged
  split
  · rename_i c hr
    have hcer : s.rollover.ceremony = .signing ⟨c.nextEpoch, c.group, c.message⟩ := by rw [hr]; rfl
    rw [hcer, Ceremony.afterStaged]
    dsimp only
    split
    · simp only [handleSignAttested, (finalizeKeyGen_frame _ _ _ _).2.2.1]
      rfl
    · exact hcer
  · rename_i hr
    rw [hr, RolloverState.ceremony, Ceremony.afterStaged]
    dsimp only
    split
    · rfl
    · rfl
  · rename_i hr1 hr2
    rcases hs : s.rollover with _ | _ | _ | _ | c | c | c | c
    case waitingForGenesis => exact absurd hs hr2
    case signingRollover => exact absurd hs (hr1 c)
    all_goals rfl

/-- What a phase that counts complaints publishes. -/
theorem complaintPhase_ceremony (block : Nat) (gid : B256) (r : RolloverState E) :
    Ceremony.counting T block gid r.ceremony = (T.complaintPhase block gid r).map fun p =>
      (p.nextEpoch, p.group, p.complaints, p.restartDeadline) := by
  rcases r with _ | _ | _ | _ | c | c | c | c <;>
    simp only [RolloverState.ceremony, Ceremony.counting, complaintPhase, Option.map_none]
  · rw [apply_ite (Option.map _)]
    rfl
  · rw [apply_ite (Option.map _)]
    rfl

theorem withComplaints_ceremony (k : BTreeMap Address Complaint) (r : RolloverState E) :
    (withComplaints k r).ceremony = r.ceremony.withComplaints k := by
  cases r <;> rfl

theorem handleKeyGenComplained_ceremony (s : State E) (block : Nat) (gid : B256) (p a : Address) :
    (T.handleKeyGenComplained s block gid p a).1.rollover.ceremony =
      Ceremony.afterComplained T block gid a s.rollover.ceremony := by
  unfold handleKeyGenComplained Ceremony.afterComplained
  rw [complaintPhase_ceremony]
  cases T.complaintPhase block gid s.rollover with
  | none => rfl
  | some ph =>
    dsimp only [Option.map_some]
    split
    · exact restartKeyGenExcluding_ceremony _ _ _ _
    · exact withComplaints_ceremony _ _

/-- What a phase that accepts responses publishes. -/
theorem responsePhase_ceremony (block : Nat) (gid : B256) (r : RolloverState E) :
    Ceremony.answering block gid r.ceremony = (responsePhase block gid r).map fun p =>
      (p.nextEpoch, p.group, p.participation.groupCommitments, p.complaints, p.deadline) := by
  rcases r with _ | _ | _ | _ | c | c | c | c <;>
    simp only [RolloverState.ceremony, Ceremony.answering, responsePhase, Option.map_none]
  · rw [apply_ite (Option.map _)]
    rfl
  · rw [apply_ite (Option.map _)]
    rfl

theorem registerResponse_ceremony (p a : Address) (x : VerifiedShare E)
    (k : BTreeMap Address Complaint) (r : RolloverState E) :
    (T.registerResponse p a x k r).ceremony = r.ceremony.withComplaints k := by
  cases r <;> rfl

/-- Confirming after a response publishes nothing, unless it fails. -/
theorem confirmAfterResponse_ceremony (s : State E) :
    (T.confirmAfterResponse s).1.rollover.ceremony = s.rollover.ceremony ∨
      ∃ (c : CollectingConfirmations E) (x : SharingState E)
        (shares : BTreeMap Address (VerifiedShare E)) (err : Error),
        s.rollover = .collectingConfirmations c ∧ c.participation = .participating x ∧
        c.status = .collecting shares ∧ asU16 shares.size = c.group.count ∧
        finalize E x shares = .error err ∧
        (T.confirmAfterResponse s).1.rollover.ceremony = Ceremony.failed c.nextEpoch := by
  unfold confirmAfterResponse
  split
  · rename_i c hr
    split
    · rename_i x shares hx hs
      split
      · rename_i hall
        split
        · rw [hr]
          exact .inl rfl
        · rename_i err herr
          exact .inr ⟨c, x, shares, err, hr, hx, hs, hall, confirmKeyGen_eq_error herr,
            ceremony_rolloverFailure _⟩
      · exact .inl rfl
    · exact .inl rfl
  · exact .inl rfl

/-- A response that brings the last missing share, and the key share cannot be built. -/
theorem frostFails_of_response {s : State E} {log : EventLog Event} {gid : B256} {p a : Address}
    {y : U256} (hlog : log.data = .keyGenComplaintResponded gid p a y) {ph : ResponsePhase E}
    (hph : responsePhase log.block gid s.rollover = some ph) {share : VerifiedShare E}
    (hv : verifyRevealedSecretShare E ph.participation.groupCommitments p a y = .ok share)
    {k : BTreeMap Address Complaint} {c : CollectingConfirmations E} {x : SharingState E}
    {shares : BTreeMap Address (VerifiedShare E)} {err : Error}
    (hr : T.registerResponse p a share k s.rollover = .collectingConfirmations c)
    (hx : c.participation = .participating x) (hs : c.status = .collecting shares)
    (hall : asU16 shares.size = c.group.count) (herr : finalize E x shares = .error err) :
    T.frostFails s (.event log) ∧ s.rollover.round = some (c.nextEpoch, c.group) := by
  have hround := registerResponse_round (T := T) p a share k s.rollover
  rw [hr] at hround
  refine ⟨?_, hround.symm⟩
  cases hsr : s.rollover with
  | collectingConfirmations c₀ =>
    rw [hsr, registerResponse, RolloverState.collectingConfirmations.injEq] at hr
    subst hr
    obtain ⟨hgid, hpart⟩ : c₀.group.id = gid ∧ ph.participation = c₀.participation := by
      rw [hsr, responsePhase, Option.ite_none_right_eq_some, Option.some.injEq] at hph
      exact ⟨hph.1.1, hph.2 ▸ rfl⟩
    dsimp only at hx hs hall
    cases hst : c₀.status with
    | collecting sh =>
      rw [hst, KeyGenConfirmation.collecting.injEq] at hs
      rw [hpart] at hv
      subst hs
      simp [frostFails, hlog, hsr, hgid, hx, hst, hx ▸ hv, hall, herr, Except.isOk, Except.toBool]
    | observing => simp [hst] at hs
    | confirmed _ => simp [hst] at hs
  | _ => exact absurd hr (by simp [hsr, registerResponse])

theorem handleKeyGenComplaintResponded_ceremony (s : State E) (log : EventLog Event) {gid : B256}
    {p a : Address} {y : U256} (hlog : log.data = .keyGenComplaintResponded gid p a y) :
    (T.handleKeyGenComplaintResponded s log.block gid p a y).1.rollover.ceremony =
        Ceremony.afterResponded T log.block gid p a y s.rollover.ceremony ∨
      FailsAlone T s (.event log) (T.handleKeyGenComplaintResponded s log.block gid p a y).1 := by
  unfold handleKeyGenComplaintResponded Ceremony.afterResponded
  rw [responsePhase_ceremony]
  cases hph : responsePhase log.block gid s.rollover with
  | none => exact .inl rfl
  | some ph =>
    dsimp only [Option.map_some]
    cases hk : ph.complaints[a]? with
    | none => exact .inl rfl
    | some k =>
      dsimp only
      by_cases hz : k.unresponded = 0
      · rw [if_pos hz, if_pos hz]
        exact .inl rfl
      · rw [if_neg hz, if_neg hz]
        cases hv : verifyRevealedSecretShare E ph.participation.groupCommitments p a y with
        | error err => exact .inl (restartKeyGenExcluding_ceremony _ _ _ _)
        | ok share =>
          dsimp only
          rcases confirmAfterResponse_ceremony (T := T)
            { s with rollover := (T.registerResponse p a share (ph.complaints.insert a
                { k with unresponded := k.unresponded - 1 }) s.rollover) } with h | h
          · rw [registerResponse_ceremony] at h
            exact .inl h
          · obtain ⟨c, x, shares, err, hr, hx, hs, hall, herr, hfail⟩ := h
            obtain ⟨hff, hround⟩ := frostFails_of_response hlog hph hv hr hx hs hall herr
            exact .inr ⟨hff, c.nextEpoch, c.group, hround, hfail⟩

theorem handleRolloverNewBlock_ceremony (s : State E) (block : Nat) :
    ((T.handleRolloverNewBlock s block).1.activeEpoch,
        (T.handleRolloverNewBlock s block).1.rollover.ceremony) =
      Ceremony.clock T block s.activeEpoch s.rollover.ceremony := by
  unfold handleRolloverNewBlock Ceremony.clock
  rw [ceremony_nextEpoch]
  cases s.rollover.nextEpoch.bind EpochId.number? with
  | none => rfl
  | some t =>
    dsimp only
    split
    · rfl
    · cases T.epochParticipants (nextNumber block T.config.blocksPerEpoch) ∅ with
      | none =>
        refine Prod.ext ?_ rfl
        dsimp only
        cases s.rollover <;> rfl
      | some set =>
        refine Prod.ext ?_ (startKeyGen_ceremony _ _ _ _)
        dsimp only
        rw [(T.startKeyGen_onlyRollover _ _ _ _).activeEpoch]
        dsimp only
        cases s.rollover <;> rfl

theorem stuckKeyGen_ceremony (block : Nat) (r : RolloverState E) :
    Ceremony.stuck block r.ceremony = stuckKeyGen block r := by
  rcases r with _ | _ | _ | _ | c | c | c | c <;>
    simp only [RolloverState.ceremony, Ceremony.stuck, stuckKeyGen]
  rcases hs : c.secrets with ⟨poap, _ | y⟩ | _ <;> rcases hd : c.deadline with _ | d <;>
    simp [CollectingCommitments.published, KeyGenSecrets.pending, hs, hd]

theorem stalledKeyGen_ceremony (block : Nat) (r : RolloverState E) :
    Ceremony.stalled block r.ceremony = stalledKeyGen block r := by
  cases r <;> rfl

theorem handleKeyGenTimeouts_ceremony (s : State E) (block : Nat) :
    (T.handleKeyGenTimeouts s block).1.rollover.ceremony =
      Ceremony.afterTimeouts T block s.rollover.ceremony := by
  unfold handleKeyGenTimeouts Ceremony.afterTimeouts
  rw [stuckKeyGen_ceremony, stalledKeyGen_ceremony]
  cases stuckKeyGen block s.rollover with
  | some e => exact ceremony_rolloverFailure e
  | none =>
    dsimp only
    cases stalledKeyGen block s.rollover with
    | none => rfl
    | some ex => exact restartKeyGenExcluding_ceremony _ _ _ _

/-- **The rollover follows the ceremony**, unless a FROST computation of this validator's own
fails. -/
theorem ceremony_applyTransition (s : State E) (msg : Msg E) :
    (T.applyTransition s msg).1.rollover.ceremony =
        Ceremony.step T s.activeEpoch s.rollover.ceremony msg ∨
      FailsAlone T s msg (T.applyTransition s msg).1 := by
  cases msg with
  | newBlock block =>
    refine .inl ?_
    change (T.applyBlock s block).1.rollover.ceremony = _
    rw [applyBlock_rollover, handleKeyGenTimeouts_ceremony, Ceremony.step,
      ← handleRolloverNewBlock_ceremony]
  | resume r =>
    cases r with
    | setup gid x => exact handleKeyGenSetup_ceremony s gid x
    | noop => exact .inl rfl
    | nonceTree gid k => exact .inl (congrArg _ (handleNonceTree_frame s gid k).2.2)
    | nonceCommitments sid m n proof =>
      exact .inl (congrArg (fun t : State E => t.rollover.ceremony)
        (handleNonceCommitments_state s sid m n proof))
    | nonce m n =>
      exact .inl (congrArg (fun t : State E => t.rollover.ceremony) (T.handleNonces_state s m n))
  | event log =>
    cases hd : log.data <;> simp only [applyTransition, applyEvent, Ceremony.step, hd]
    case keyGen gid => exact .inl (handleGenesisKeyGen_ceremony s gid)
    case keyGenCommitted gid p k => exact handleKeyGenCommitted_ceremony s log hd
    case keyGenSecretShared gid p k => exact handleKeyGenSecretShared_ceremony s log hd
    case keyGenConfirmed gid p => exact .inl (handleKeyGenConfirmed_ceremony s log.block gid p)
    case keyGenComplained gid p a x =>
      exact .inl (handleKeyGenComplained_ceremony s log.block gid p a)
    case keyGenComplaintResponded gid p a x =>
      exact handleKeyGenComplaintResponded_ceremony s log hd
    case epochStaged p gid sid => exact .inl (handleEpochStaged_ceremony s p gid)
    case preprocess gid p chunk k =>
      exact .inl (congrArg _ (T.handlePreprocess_frame s gid p chunk k).2.2)
    case sign gid m sid q => exact .inl (congrArg _ (handleSign_rollover s log.block gid m sid q))
    case signRevealedNonces sid p n =>
      exact .inl (congrArg _ (handleSignRevealedNonces_onlySessions s log.block sid p n).rollover)
    case signShared sid root p =>
      exact .inl (congrArg _ (handleSignShared_onlySessions s sid root p).rollover)
    case signCompleted sid =>
      exact .inl (congrArg _ (handleSignCompleted_onlySessions s log.block sid).rollover)
    case transactionProposed o e d tx =>
      exact .inl (congrArg _
        (handleTransactionProposed_onlySessions s log.block o e d tx).rollover)
    case transactionAttested h o e oh sid => exact .inl rfl
    case oracleResult m b =>
      exact .inl (congrArg _
        (handleOracleResult_onlySessions s log.block log.address m b).rollover)
    case unhandled => exact .inl trivial

/-- The active epoch follows the ceremony's clock. -/
theorem activeAfter_applyTransition (s : State E) (msg : Msg E) :
    (T.applyTransition s msg).1.activeEpoch =
      Ceremony.activeAfter T s.activeEpoch s.rollover.ceremony msg := by
  cases msg with
  | newBlock block =>
    rw [Ceremony.activeAfter, ← handleRolloverNewBlock_ceremony]
    change (T.beforeReconciliation s block).activeEpoch = _
    simp only [beforeReconciliation, (handleNonceTopup_frame _).2.2.2, handleSigningTimeouts]
    exact (T.handleKeyGenTimeouts_onlyRollover _ block).activeEpoch
  | resume r => exact (extends_applyTransition (T := T) s (.resume r) (by simp)).2
  | event log => exact (extends_applyTransition (T := T) s (.event log) (by simp)).2

end Transition

/-! ## 3. Where a commitment round comes from -/

namespace Transition

/-- The participant sets a key generation for an epoch can run over. -/
def SetOf (T : Transition E) : EpochId → ParticipantSet → Prop
  | .genesis, set => set = T.genesis
  | .number n, set => ∃ excluded, T.epochParticipants n excluded = some set

theorem SetOf.of_epoch {T : Transition E} {n : ℕ+} {x : Finset Address} {set : ParticipantSet}
    (h : T.epochParticipants n x = some set) : T.SetOf (.number n) set := ⟨x, h⟩

/-- A key generation's set has at least two participants, and they fit in a `u16`. -/
theorem SetOf.card {T : Transition E} {e : EpochId} {set : ParticipantSet} (h : T.SetOf e set) :
    2 ≤ set.addresses.card ∧ set.addresses.card < 2 ^ 16 := by
  have hset : ∃ spec, participantsSet E.keccak256 T.config.participants spec = some set := by
    cases e with
    | genesis => exact ⟨_, h ▸ T.genesis_eq⟩
    | number n =>
      obtain ⟨x, hx⟩ := h
      exact ⟨_, hx⟩
  obtain ⟨spec, hspec⟩ := hset
  refine ⟨?_, card_lt_of_participantsSet _ hspec⟩
  simp only [participantsSet] at hspec
  split at hspec
  · rename_i hc
    rw [Option.some.injEq] at hspec
    rw [← hspec]
    exact (le_max_left _ _).trans hc.2
  · exact absurd hspec (by simp)

end Transition

namespace Ceremony

variable {T : Transition E}

theorem counting_round {block : Nat} {gid : B256} {r : Ceremony E} {e : EpochId} {g : Group}
    {k : BTreeMap Address Complaint} {d : Option Nat}
    (h : counting T block gid r = some (e, g, k, d)) : r.round = some (e, g) ∧ g.id = gid := by
  cases r with
  | shares c =>
    simp only [counting, Option.ite_none_right_eq_some, Option.some.injEq, Prod.mk.injEq] at h
    obtain ⟨hg, rfl, rfl, -, -⟩ := h
    exact ⟨rfl, hg⟩
  | confirmations c =>
    simp only [counting, Option.ite_none_right_eq_some, Option.some.injEq, Prod.mk.injEq] at h
    obtain ⟨⟨hg, -⟩, rfl, rfl, -, -⟩ := h
    exact ⟨rfl, hg⟩
  | _ => exact absurd h (by simp [counting])

theorem answering_round {block : Nat} {gid : B256} {r : Ceremony E} {e : EpochId} {g : Group}
    {y : GroupCommitments E} {k : BTreeMap Address Complaint} {d : Option Nat}
    (h : answering block gid r = some (e, g, y, k, d)) : r.round = some (e, g) ∧ g.id = gid := by
  cases r with
  | shares c =>
    simp only [answering, Option.ite_none_right_eq_some, Option.some.injEq, Prod.mk.injEq] at h
    obtain ⟨hg, rfl, rfl, -, -⟩ := h
    exact ⟨rfl, hg⟩
  | confirmations c =>
    simp only [answering, Option.ite_none_right_eq_some, Option.some.injEq, Prod.mk.injEq] at h
    obtain ⟨⟨hg, -⟩, rfl, rfl, -, -⟩ := h
    exact ⟨rfl, hg⟩
  | _ => exact absurd h (by simp [answering])

/-- A round that just started. -/
def Fresh (T : Transition E) (c : CommitmentRound E) : Prop :=
  ∃ set, T.SetOf c.nextEpoch set ∧ c.group = set.group E.keccak256 ∧ c.commitments = ∅ ∧
    c.pending = decide (T.account ∈ set.addresses)

theorem failed_ne_commitments (e : EpochId) (c : CommitmentRound E) : failed e ≠ .commitments c := by
  cases e <;> simp [failed]

theorem started_fresh {e : EpochId} {set : ParticipantSet} {d : Option Nat} {c : CommitmentRound E}
    (hset : T.SetOf e set) (h : started T e set d = .commitments c) : Fresh T c := by
  rw [started, Ceremony.commitments.injEq] at h
  subst h
  exact ⟨set, hset, rfl, rfl, rfl⟩

theorem restarted_fresh {e : EpochId} {x : Finset Address} {d : Option Nat} {c : CommitmentRound E}
    (h : restarted T e x d = .commitments c) : Fresh T c := by
  unfold restarted at h
  split at h
  · exact absurd h (failed_ne_commitments _ _)
  · split at h
    · rename_i set hset
      exact started_fresh (.of_epoch hset) h
    · exact absurd h (failed_ne_commitments _ _)

theorem closed_ne_commitments (c c' : CommitmentRound E) (d : Option Nat) :
    closed c d ≠ .commitments c' := by
  unfold closed
  split
  · simp
  · exact failed_ne_commitments _ _

theorem withComplaints_commitments {k : BTreeMap Address Complaint} {r : Ceremony E}
    {c : CommitmentRound E} (h : r.withComplaints k = .commitments c) : r = .commitments c := by
  cases r with
  | commitments c' => exact h
  | _ => exact absurd h (by simp [withComplaints])

theorem clock_commitments {block : Nat} {a : EpochId} {r : Ceremony E} {c : CommitmentRound E}
    (h : (clock T block a r).2 = .commitments c) : Fresh T c ∨ r = .commitments c := by
  unfold clock at h
  split at h
  · exact .inr h
  · dsimp only at h
    split at h
    · exact .inr h
    · dsimp only at h
      split at h
      · rename_i set hset
        exact .inl (started_fresh (.of_epoch hset) h)
      · exact absurd h (by simp)

theorem afterTimeouts_commitments {block : Nat} {r : Ceremony E} {c : CommitmentRound E}
    (h : afterTimeouts T block r = .commitments c) : Fresh T c ∨ r = .commitments c := by
  unfold afterTimeouts at h
  split at h
  · exact absurd h (failed_ne_commitments _ _)
  · split at h
    · exact .inr h
    · exact .inl (restarted_fresh h)

/-- How one message leads to a commitment round. -/
inductive RoundStep (T : Transition E) (r : Ceremony E) : Msg E → CommitmentRound E → Prop where
  | fresh {msg : Msg E} {c : CommitmentRound E} : Fresh T c → RoundStep T r msg c
  | same {msg : Msg E} {c : CommitmentRound E} : r = .commitments c → RoundStep T r msg c
  | setup {gid : B256} {x : Secrets E} {c : CommitmentRound E} : r = .commitments c →
      c.pending = true → c.group.id = gid → asU16 c.commitments.size ≠ c.group.count →
      RoundStep T r (.resume (.setup gid x)) { c with pending := false }
  | committed {log : EventLog Event} {gid : B256} {p : Address} {k : KeyGenCommitment}
      {c : CommitmentRound E} : log.data = .keyGenCommitted gid p k → r = .commitments c →
      c.group.id = gid →
      asU16 (Transition.registerCommitment c.commitments p k).size ≠ c.group.count ∨
        c.pending = true →
      RoundStep T r (.event log)
        { c with commitments := Transition.registerCommitment c.commitments p k }

/-- **Every commitment round starts fresh and then only collects.** -/
theorem step_commitments {a : EpochId} {r : Ceremony E} {msg : Msg E} {c' : CommitmentRound E}
    (h : step T a r msg = .commitments c') : RoundStep T r msg c' := by
  cases msg with
  | newBlock block =>
    rcases afterTimeouts_commitments h with h | h
    · exact .fresh h
    · rcases clock_commitments h with h | h
      · exact .fresh h
      · exact .same h
  | resume x =>
    cases x with
    | setup gid y =>
      rw [step] at h
      unfold afterSetup at h
      split at h
      · rename_i c
        split at h
        · rename_i hc
          split at h
          · rename_i hn
            rw [Ceremony.commitments.injEq] at h
            rw [← h]
            exact .setup rfl hc.1 hc.2.symm hn
          · exact absurd h (closed_ne_commitments _ _ _)
        · exact .same h
      · exact .same h
    | _ => exact .same h
  | event log =>
    cases hd : log.data <;> simp only [step, hd] at h
    case keyGen gid =>
      unfold afterKeyGen at h
      split at h
      · split at h
        · exact .fresh (started_fresh (e := .genesis) rfl h)
        · exact absurd h (by simp)
      · exact .same h
    case keyGenCommitted gid p k =>
      unfold afterCommitted at h
      split at h
      · rename_i c
        split at h
        · rename_i hg
          dsimp only at h
          split at h
          · rename_i hn
            rw [Ceremony.commitments.injEq] at h
            rw [← h]
            exact .committed hd rfl hg hn
          · exact absurd h (closed_ne_commitments _ _ _)
        · exact .same h
      · exact .same h
    case keyGenSecretShared gid p k =>
      unfold afterShared at h
      split at h
      · split at h
        · dsimp only at h
          split at h
          · exact absurd h (by simp)
          · exact absurd h (by simp)
        · exact absurd h (by simp)
      · exact .same h
    case keyGenConfirmed gid p =>
      unfold afterConfirmed at h
      split at h
      · split at h
        · dsimp only at h
          split at h
          · exact absurd h (by simp)
          · split at h
            · unfold afterGenesis at h
              dsimp only at h
              split at h
              · exact absurd h (by simp)
              · rename_i set hset
                exact .fresh (started_fresh (.of_epoch hset) h)
            · exact absurd h (by simp)
        · exact absurd h (by simp)
      · exact .same h
    case keyGenComplained gid p x y =>
      unfold afterComplained at h
      split at h
      · exact .same h
      · dsimp only at h
        split at h
        · exact .fresh (restarted_fresh h)
        · exact .same (withComplaints_commitments h)
    case keyGenComplaintResponded gid p x y =>
      unfold afterResponded at h
      split at h
      · exact .same h
      · split at h
        · exact .same h
        · split at h
          · exact .same h
          · split at h
            · exact .same (withComplaints_commitments h)
            · exact .fresh (restarted_fresh h)
    case epochStaged p gid sid =>
      unfold afterStaged at h
      split at h
      · split at h
        · exact absurd h (by simp)
        · exact absurd h (by simp)
      · split at h
        · exact absurd h (by simp)
        · exact absurd h (by simp)
      · exact .same h
    all_goals exact .same h

end Ceremony

end Safenet
