/-
# Validators agree on the ceremony

Two validators that differ only in their account, and are fed the same blocks and logs, hold the
same ceremony after every one of them, except for the bit each keeps about its own secrets
(`Ceremony.shared`).

The argument is that the shared ceremony is a function of the chain alone.  A step of the ceremony
reads the bit in two places, both about a commitment round that everyone committed to: its last
commitment does not close it, and its deadline fails it.  A validator whose secrets are sampled
before its own commitment lands is never in such a round with the bit set (`Committing.not_full`),
so the bit decides nothing (`step_shared`), and the resume that clears it changes nothing else.
-/
import Safenet.Validator.Ceremony
import Safenet.Validator.Toy

namespace Safenet

open Frost

variable {E : Crates}

/-! ## 1. The shared ceremony -/

/-- The same configuration under another account. -/
def Transition.as (T : Transition E) (account : Address) : Transition E := { T with account }

namespace Ceremony

/-- The ceremony without the bit that is this validator's own. -/
def shared : Ceremony E → Ceremony E
  | .commitments c => .commitments { c with pending := false }
  | r => r

variable (T : Transition E) (b : Address)

theorem started_shared (e : EpochId) (set : ParticipantSet) (d : Option Nat) :
    (started T e set d).shared = (started (T.as b) e set d).shared := rfl

theorem failed_shared (e : EpochId) : (failed e : Ceremony E).shared = failed e := by
  cases e <;> rfl

theorem restarted_shared (e : EpochId) (x : Finset Address) (d : Option Nat) :
    (restarted T e x d).shared = (restarted (T.as b) e x d).shared := by
  cases e with
  | genesis => rfl
  | number n =>
    have h : (T.as b).epochParticipants n x = T.epochParticipants n x := rfl
    simp only [restarted, h]
    cases T.epochParticipants n x with
    | none => rfl
    | some set => rfl

theorem closed_shared (c : CommitmentRound E) (d : Option Nat) :
    (closed c d).shared = closed c d := by
  unfold closed
  split
  · rfl
  · exact failed_shared _

theorem nextEpoch_shared (r : Ceremony E) : r.shared.nextEpoch = r.nextEpoch := by
  cases r <;> rfl

theorem stalled_shared (block : Nat) (r : Ceremony E) : stalled block r.shared = stalled block r := by
  cases r <;> rfl

theorem stuck_shared (block : Nat) (r : Ceremony E) : stuck block r.shared = none := by
  cases r with
  | commitments c => simp [shared, stuck]
  | _ => rfl

theorem clock_shared (block : Nat) (a : EpochId) (r : Ceremony E) :
    (clock T block a r).1 = (clock (T.as b) block a r.shared).1 ∧
      (clock T block a r).2.shared = (clock (T.as b) block a r.shared).2.shared := by
  have hset : ∀ n x, (T.as b).epochParticipants n x = T.epochParticipants n x := fun _ _ => rfl
  have hconf : (T.as b).config = T.config := rfl
  unfold clock
  rw [nextEpoch_shared, hconf]
  cases r.nextEpoch.bind EpochId.number? with
  | none => cases r <;> exact ⟨rfl, rfl⟩
  | some t =>
    dsimp only
    split
    · cases r <;> exact ⟨rfl, rfl⟩
    · rw [hset]
      refine ⟨?_, ?_⟩
      · cases r <;> rfl
      · cases T.epochParticipants (nextNumber block T.config.blocksPerEpoch) ∅ with
        | none => rfl
        | some set => rfl

theorem afterTimeouts_shared {block : Nat} {r : Ceremony E} (h : stuck block r = none) :
    (afterTimeouts T block r).shared = (afterTimeouts (T.as b) block r.shared).shared := by
  have hconf : (T.as b).config = T.config := rfl
  unfold afterTimeouts
  rw [h, stuck_shared, stalled_shared, hconf]
  dsimp only
  cases stalled block r with
  | none => cases r <;> rfl
  | some ex => exact restarted_shared T b _ _ _

/-- A pending round cannot close on this message, and is not stuck. -/
def Ready (r : Ceremony E) (msg : Msg E) : Prop :=
  ∀ c, r = .commitments c → c.pending = true → asU16 c.commitments.size ≠ c.group.count ∧
    ∀ log gid p k, msg = .event log → log.data = .keyGenCommitted gid p k → c.group.id = gid →
      asU16 (Transition.registerCommitment c.commitments p k).size ≠ c.group.count

/-- A fresh round is far from full. -/
theorem Fresh.not_full {T : Transition E} {c : CommitmentRound E} (h : Fresh T c) :
    asU16 c.commitments.size ≠ c.group.count := by
  obtain ⟨set, hset, hg, hk, -⟩ := h
  have hcount : c.group.count = set.addresses.card := by rw [hg]; rfl
  have hzero : c.commitments.size = 0 := by rw [hk]; rfl
  rw [hcount, hzero]
  have := hset.card.1
  have hz : asU16 0 = 0 := by decide
  omega

theorem not_stuck {r : Ceremony E} {block : Nat} {a : EpochId} {msg : Msg E} (h : Ready r msg) :
    stuck block (clock T block a r).2 = none := by
  cases hr : (clock T block a r).2 with
  | commitments c =>
    have hfull : c.pending = true → asU16 c.commitments.size ≠ c.group.count := by
      intro hp
      rcases clock_commitments hr with hf | hr
      · exact hf.not_full
      · exact (h c hr hp).1
    refine if_neg fun hs => ?_
    exact hfull hs.1 hs.2.2
  | _ => rfl

theorem afterCommitted_shared {r : Ceremony E} {log : EventLog Event} {gid : B256} {p : Address}
    {k : KeyGenCommitment} (hd : log.data = .keyGenCommitted gid p k) (h : Ready r (.event log)) :
    (afterCommitted T log.block gid p k r).shared =
      (afterCommitted (T.as b) log.block gid p k r.shared).shared := by
  cases r with
  | commitments c =>
    have hdead : (T.as b).freshDeadline log.block c.deadline =
      T.freshDeadline log.block c.deadline := rfl
    simp only [afterCommitted, shared]
    by_cases hg : c.group.id = gid
    · simp only [hg, if_true, Bool.false_eq_true, or_false]
      by_cases hn : asU16 (Transition.registerCommitment c.commitments p k).size ≠ c.group.count
      · rw [if_pos (.inl hn), if_pos hn]
      · have hp : ¬ c.pending = true := fun hp => hn ((h c rfl hp).2 log gid p k rfl hd hg)
        rw [if_neg (not_or_intro hn hp), if_neg hn, hdead]
        rfl
    · simp only [hg, if_false]
  | _ => rfl

theorem afterConfirmed_shared (a : EpochId) (block : Nat) (gid : B256) (p : Address)
    (r : Ceremony E) :
    (afterConfirmed T a block gid p r).shared =
      (afterConfirmed (T.as b) a block gid p r.shared).shared := by
  cases r with
  | confirmations c =>
    have hgen : (afterGenesis T block).shared = (afterGenesis (T.as b) block).shared := by
      have hset : ∀ n x, (T.as b).epochParticipants n x = T.epochParticipants n x := fun _ _ => rfl
      have hconf : (T.as b).config = T.config := rfl
      unfold afterGenesis
      dsimp only
      rw [hset, hconf]
      cases T.epochParticipants (nextNumber block T.config.blocksPerEpoch) ∅ with
      | none => rfl
      | some set => rfl
    change (afterConfirmed T a block gid p (.confirmations c)).shared =
      (afterConfirmed (T.as b) a block gid p (.confirmations c)).shared
    unfold afterConfirmed
    dsimp only
    by_cases hg : c.group.id = gid
    · rw [if_pos hg, if_pos hg]
      by_cases hc : asU16 (insert p c.confirmations).card ≠ c.group.count
      · rw [if_pos hc, if_pos hc]
      · rw [if_neg hc, if_neg hc]
        cases c.nextEpoch with
        | genesis => exact hgen
        | number n => rfl
    · rw [if_neg hg, if_neg hg]
  | _ => rfl

theorem withComplaints_shared (k : BTreeMap Address Complaint) (r : Ceremony E) :
    (r.withComplaints k).shared = (r.shared.withComplaints k).shared := by
  cases r <;> rfl

theorem afterComplained_shared (block : Nat) (gid : B256) (x : Address) (r : Ceremony E) :
    (afterComplained T block gid x r).shared =
      (afterComplained (T.as b) block gid x r.shared).shared := by
  have hcount : counting (T.as b) block gid r.shared = counting T block gid r := by
    cases r <;> rfl
  unfold afterComplained
  rw [hcount]
  cases counting T block gid r with
  | none => cases r <;> rfl
  | some v =>
    dsimp only
    split
    · exact restarted_shared T b _ _ _
    · exact withComplaints_shared _ _

theorem afterResponded_shared (block : Nat) (gid : B256) (p x : Address) (y : U256)
    (r : Ceremony E) :
    (afterResponded T block gid p x y r).shared =
      (afterResponded (T.as b) block gid p x y r.shared).shared := by
  have hself : r.shared = r.shared.shared := by cases r <;> rfl
  have hans : answering block gid r.shared = answering block gid r := by
    cases r <;> rfl
  unfold afterResponded
  rw [hans]
  cases answering block gid r with
  | none => exact hself
  | some v =>
    dsimp only
    cases v.2.2.2.1[x]? with
    | none => exact hself
    | some k =>
      dsimp only
      by_cases hz : k.unresponded = 0
      · rw [if_pos hz, if_pos hz]
        exact hself
      · rw [if_neg hz, if_neg hz]
        cases verifyRevealedSecretShare E v.2.2.1 p x y with
        | ok _ => exact withComplaints_shared _ _
        | error _ => exact restarted_shared T b _ _ _

/-- **On a chain message the own bit decides nothing**, and neither does the account. -/
theorem step_shared {a : EpochId} {r : Ceremony E} {msg : Msg E} (h : Ready r msg)
    (hmsg : ∀ x, msg ≠ .resume x) :
    (step T a r msg).shared = (step (T.as b) a r.shared msg).shared := by
  cases msg with
  | newBlock block =>
    have hshared : Ready r.shared (.newBlock block) := by
      intro c hc hp
      cases r with
      | commitments c' =>
        rw [shared, Ceremony.commitments.injEq] at hc
        rw [← hc] at hp
        exact absurd hp (by simp)
      | _ => exact absurd hc (by simp [shared])
    have hstuck : stuck block (clock (T.as b) block a r.shared).2 = none := not_stuck (T.as b) hshared
    have hright := afterTimeouts_shared (T.as b) b hstuck
    rw [step, step, afterTimeouts_shared T b (not_stuck T h), (clock_shared T b block a r).2]
    exact hright.symm
  | resume x => exact absurd rfl (hmsg x)
  | event log =>
    cases hd : log.data <;> simp only [step, hd]
    case keyGenCommitted gid p k => exact afterCommitted_shared T b hd h
    case keyGen gid =>
      cases r with
      | waitingForGenesis =>
        change (if gid = (T.genesis.group E.keccak256).id then started T .genesis T.genesis none
            else .waitingForGenesis).shared =
          (if gid = (T.genesis.group E.keccak256).id then started (T.as b) .genesis T.genesis none
            else .waitingForGenesis).shared
        by_cases hg : gid = (T.genesis.group E.keccak256).id
        · rw [if_pos hg, if_pos hg]
          rfl
        · rw [if_neg hg, if_neg hg]
      | _ => rfl
    case keyGenSecretShared gid p k =>
      cases r <;> rfl
    case keyGenConfirmed gid p => exact afterConfirmed_shared T b a log.block gid p r
    case keyGenComplained gid p x y => exact afterComplained_shared T b log.block gid x r
    case keyGenComplaintResponded gid p x y => exact afterResponded_shared T b log.block gid p x y r
    case epochStaged p gid sid =>
      have hstaged : ∀ r : Ceremony E, (afterStaged p gid r).shared =
          (afterStaged p gid r.shared).shared := by
        intro r
        cases r <;> rfl
      exact hstaged r
    all_goals cases r <;> rfl

theorem activeAfter_shared {a : EpochId} {r : Ceremony E} {msg : Msg E} :
    activeAfter T a r msg = activeAfter (T.as b) a r.shared msg := by
  cases msg with
  | newBlock block => exact (clock_shared T b block a r).1
  | _ => rfl

end Ceremony

/-! ## 2. Commitment rounds that are kept -/

namespace Transition

variable {T : Transition E}

/-- A commitment round whose commitments are its participants', ours not among them while our
secrets are to be sampled. -/
structure Committing (T : Transition E) (c : CommitmentRound E) : Prop where
  members : BTreeMap.keySet c.commitments ⊆ c.group.participants
  own : c.pending = true →
    T.account ∈ c.group.participants ∧ T.account ∉ BTreeMap.keySet c.commitments
  count : c.group.count = c.group.participants.card
  small : c.group.participants.card < 2 ^ 16

/-- A round that misses a participant is not full. -/
theorem not_full_of_missing {k : BTreeMap Address (VerifiedCommitment E)} {g : Group} {a : Address}
    (hk : BTreeMap.keySet k ⊆ g.participants) (ha : a ∈ g.participants)
    (hmiss : a ∉ BTreeMap.keySet k) (hcount : g.count = g.participants.card)
    (hsmall : g.participants.card < 2 ^ 16) : asU16 k.size ≠ g.count := by
  have hlt : (BTreeMap.keySet k).card < g.participants.card :=
    Finset.card_lt_card ⟨hk, fun h => hmiss (h ha)⟩
  rw [BTreeMap.card_keySet] at hlt
  rw [asU16_of_lt (hlt.trans hsmall), hcount]
  exact hlt.ne

theorem Committing.not_full {c : CommitmentRound E} (h : T.Committing c) (hp : c.pending = true) :
    asU16 c.commitments.size ≠ c.group.count :=
  not_full_of_missing h.members (h.own hp).1 (h.own hp).2 h.count h.small

theorem Committing.of_fresh {c : CommitmentRound E} (h : Ceremony.Fresh T c) : T.Committing c := by
  obtain ⟨set, hset, hg, hk, hp⟩ := h
  have hparts : c.group.participants = set.addresses := by rw [hg]; rfl
  refine ⟨?_, fun hpend => ?_, ?_, ?_⟩
  · rw [hk, BTreeMap.keySet_empty]
    exact Finset.empty_subset _
  · rw [hp, decide_eq_true_eq] at hpend
    rw [hparts, hk, BTreeMap.keySet_empty]
    exact ⟨hpend, Finset.notMem_empty _⟩
  · rw [hparts, hg]
    rfl
  · rw [hparts]
    exact hset.card.2

theorem registerCommitment_keySet (k : BTreeMap Address (VerifiedCommitment E)) (p : Address)
    (x : KeyGenCommitment) :
    BTreeMap.keySet (registerCommitment k p x) ⊆ insert p (BTreeMap.keySet k) := by
  unfold registerCommitment
  split
  · rw [BTreeMap.keySet_insert]
  · exact Finset.subset_insert _ _

/-- The round a message commits to, and who does. -/
def commits (s : State E) : Msg E → Option (CollectingCommitments E × Address)
  | .event log =>
    match log.data, s.rollover with
    | .keyGenCommitted gid p _, .collectingCommitments c =>
      if c.group.id = gid then some (c, p) else none
    | _, _ => none
  | _ => none

/-- What is relied on at one message: only participants commit to a round, since the coordinator
checks their proof; our own commitment lands after our secrets were sampled; and no FROST
computation fails on inputs that were verified. -/
structure Orderly (T : Transition E) (s : State E) (msg : Msg E) : Prop where
  members : ∀ c p, commits s msg = some (c, p) → p ∈ c.group.participants
  setup : ∀ c, commits s msg = some (c, T.account) → c.secrets.pending = false
  frost : T.frostFails s msg = false

/-- What the ceremony of an orderly run satisfies. -/
def CommittingState (T : Transition E) (s : State E) : Prop :=
  ∀ c, s.rollover.ceremony = .commitments c → T.Committing c

theorem ceremony_eq_commitments {r : RolloverState E} {c : CommitmentRound E}
    (h : r.ceremony = .commitments c) :
    ∃ c₀, r = .collectingCommitments c₀ ∧ c = c₀.published := by
  cases r with
  | collectingCommitments c₀ => exact ⟨c₀, rfl, (Ceremony.commitments.inj h).symm⟩
  | _ => exact absurd h (by simp [RolloverState.ceremony])

theorem Orderly.ceremony {s : State E} {msg : Msg E} (h : T.Orderly s msg) :
    (T.applyTransition s msg).1.rollover.ceremony =
      Ceremony.step T s.activeEpoch s.rollover.ceremony msg := by
  rcases ceremony_applyTransition (T := T) s msg with hstep | ⟨hfail, -⟩
  · exact hstep
  · exact absurd hfail (by simp [h.frost])

/-- A commitment of somebody else leaves a pending round pending and short of ours. -/
theorem Committing.commit {s : State E} {log : EventLog Event} {gid : B256} {p : Address}
    {k : KeyGenCommitment} {c : CommitmentRound E} (h : T.Committing c)
    (ho : T.Orderly s (.event log)) (hd : log.data = .keyGenCommitted gid p k)
    (hc : s.rollover.ceremony = .commitments c) (hg : c.group.id = gid) :
    T.Committing { c with commitments := registerCommitment c.commitments p k } := by
  obtain ⟨c₀, hr, rfl⟩ := ceremony_eq_commitments hc
  have hcommits : commits s (.event log) = some (c₀, p) := by
    simp only [commits, hd, hr]
    exact if_pos hg
  have hp : p ∈ c₀.group.participants := ho.members c₀ p hcommits
  have hkeys := registerCommitment_keySet c₀.commitments p k
  refine ⟨fun a ha => ?_, fun hpend => ⟨(h.own hpend).1, fun ha => ?_⟩, h.count, h.small⟩
  · rcases Finset.mem_insert.mp (hkeys ha) with rfl | ha
    · exact hp
    · exact h.members ha
  · rcases Finset.mem_insert.mp (hkeys ha) with rfl | ha
    · have hnot : c₀.secrets.pending = false := ho.setup c₀ hcommits
      exact absurd (hnot.symm.trans hpend) (by simp)
    · exact (h.own hpend).2 ha

theorem committingState_step {s : State E} {msg : Msg E} (h : T.CommittingState s)
    (ho : T.Orderly s msg) : T.CommittingState (T.applyTransition s msg).1 := by
  intro c' hc'
  rw [ho.ceremony] at hc'
  cases Ceremony.step_commitments hc' with
  | fresh hf => exact .of_fresh hf
  | same hc => exact h _ hc
  | setup hc hp hg hn =>
    have hok := h _ hc
    exact ⟨hok.members, fun hpend => absurd hpend (by simp), hok.count, hok.small⟩
  | committed hd hc hg hn => exact (h _ hc).commit ho hd hc hg

theorem ready_of_orderly {s : State E} {msg : Msg E} (h : T.CommittingState s)
    (ho : T.Orderly s msg) : Ceremony.Ready s.rollover.ceremony msg := by
  intro c hc hp
  refine ⟨(h c hc).not_full hp, fun log gid p k hmsg hd hg => ?_⟩
  subst hmsg
  exact ((h c hc).commit ho hd hc hg).not_full hp

/-- A resume changes nothing that is shared. -/
theorem step_resume_shared {s : State E} {x : Resume E} (h : T.CommittingState s) :
    (Ceremony.step T s.activeEpoch s.rollover.ceremony (.resume x)).shared =
      s.rollover.ceremony.shared := by
  cases x with
  | setup gid y =>
    cases hc : s.rollover.ceremony with
    | commitments c =>
      rw [Ceremony.step, Ceremony.afterSetup]
      split
      · rename_i hp
        rw [if_pos ((h c hc).not_full hp.1)]
        rfl
      · rfl
    | _ => rfl
  | _ => rfl

/-! ## 3. Runs -/

/-- A run that is orderly at every message. -/
def OrderlyRun (T : Transition E) (ms : List (Msg E)) : Prop :=
  ∀ past msg rest, ms = past ++ msg :: rest → T.Orderly (T.stateAfter past) msg

theorem OrderlyRun.init {ms : List (Msg E)} {msg : Msg E} (h : T.OrderlyRun (ms ++ [msg])) :
    T.OrderlyRun ms ∧ T.Orderly (T.stateAfter ms) msg := by
  refine ⟨fun past m rest hms => h past m (rest ++ [msg]) ?_, h ms msg [] rfl⟩
  rw [hms, List.append_assoc, List.cons_append]

theorem committingState_run {ms : List (Msg E)} (h : T.OrderlyRun ms) :
    T.CommittingState (T.stateAfter ms) := by
  induction ms using List.reverseRecOn with
  | nil =>
    intro c hc
    exact absurd hc (by simp [stateAfter, State.default, RolloverState.ceremony])
  | append_singleton ms msg ih =>
    rw [stateAfter_concat]
    exact committingState_step (ih h.init.1) h.init.2

instance (T : Transition E) (s : State E) (msg : Msg E) : Decidable (T.Orderly s msg) :=
  decidable_of_iff
    ((∀ e ∈ commits s msg, e.2 ∈ e.1.group.participants ∧
        (e.2 = T.account → e.1.secrets.pending = false)) ∧ T.frostFails s msg = false)
    ⟨fun h => ⟨fun c p hc => (h.1 (c, p) hc).1, fun c hc => (h.1 (c, T.account) hc).2 rfl, h.2⟩,
      fun h => ⟨fun e he => ⟨h.members e.1 e.2 he, fun ha => h.setup e.1 (ha ▸ he)⟩, h.frost⟩⟩

/-- A run is orderly when each of its messages is after the ones before it. -/
theorem orderlyRun_of_take {ms : List (Msg E)}
    (h : ∀ i : Fin ms.length, T.Orderly (T.stateAfter (ms.take i)) (ms.get i)) :
    T.OrderlyRun ms := by
  rintro past msg rest rfl
  have hi : past.length < (past ++ msg :: rest).length := by simp
  have hget := h ⟨past.length, hi⟩
  simpa using hget

/-- Whether a message comes from the chain. -/
def fromChain : Msg E → Bool
  | .resume _ => false
  | _ => true

/-- The blocks and logs of a run. -/
def chainOf (ms : List (Msg E)) : List (Msg E) := ms.filter fromChain

/-- The active epoch and the shared ceremony a chain leads to. -/
def followed (T : Transition E) (chain : List (Msg E)) : EpochId × Ceremony E :=
  chain.foldl (fun p msg =>
    (Ceremony.activeAfter T p.1 p.2 msg, (Ceremony.step T p.1 p.2 msg).shared))
    (.genesis, .waitingForGenesis)

/-- **The shared ceremony is a function of the chain.** -/
theorem shared_stateAfter (b : Address) {ms : List (Msg E)} (h : T.OrderlyRun ms) :
    ((T.stateAfter ms).activeEpoch, (T.stateAfter ms).rollover.ceremony.shared) =
      followed (T.as b) (chainOf ms) := by
  induction ms using List.reverseRecOn with
  | nil => rfl
  | append_singleton ms msg ih =>
    obtain ⟨hrun, ho⟩ := h.init
    have hok := committingState_run hrun
    have ih := ih hrun
    rw [stateAfter_concat, ho.ceremony, activeAfter_applyTransition]
    cases hmsg : fromChain msg with
    | false =>
      cases msg with
      | resume x =>
        rw [chainOf, List.filter_append, List.filter_singleton, hmsg, cond_false, List.append_nil,
          ← chainOf, ← ih, step_resume_shared hok]
        rfl
      | newBlock block => exact absurd hmsg (by simp [fromChain])
      | event log => exact absurd hmsg (by simp [fromChain])
    | true =>
      rw [chainOf, List.filter_append, List.filter_singleton, hmsg, cond_true, ← chainOf,
        followed, List.foldl_append, ← followed, ← ih]
      refine Prod.ext ?_ ?_
      · exact Ceremony.activeAfter_shared T b
      · refine Ceremony.step_shared T b (ready_of_orderly hok ho) fun x hx => ?_
        rw [hx] at hmsg
        exact absurd hmsg (by simp [fromChain])

/-- **Validators agree on the key generation.**  Two validators with the same configuration, fed
the same blocks and logs, each orderly, hold the same rollover state up to what is secret: its
variant, epoch and group, who committed, shared and confirmed, the complaints, and every
deadline. -/
theorem ceremony_agreement (T : Transition E) (a b : Address) (ms ms' : List (Msg E))
    (hchain : chainOf ms = chainOf ms') (ha : (T.as a).OrderlyRun ms)
    (hb : (T.as b).OrderlyRun ms') :
    ((T.as a).stateAfter ms).rollover.ceremony.shared =
        ((T.as b).stateAfter ms').rollover.ceremony.shared ∧
      ((T.as a).stateAfter ms).activeEpoch = ((T.as b).stateAfter ms').activeEpoch := by
  have h1 := shared_stateAfter a ha
  have h2 := shared_stateAfter a hb
  have has : (T.as b).as a = (T.as a).as a := rfl
  rw [has, ← hchain, ← h1] at h2
  exact ⟨(congrArg Prod.snd h2).symm, (congrArg Prod.fst h2).symm⟩

open Toy in
/-- Two validators go through the genesis key generation up to its last share. -/
theorem ceremony_agreement_genesis :
    ((validator 1).stateAfter (sharingRun 1)).rollover.ceremony.shared =
        ((validator 2).stateAfter (sharingRun 2)).rollover.ceremony.shared ∧
      ((validator 1).stateAfter (sharingRun 1)).activeEpoch =
        ((validator 2).stateAfter (sharingRun 2)).activeEpoch :=
  ceremony_agreement (validator 1) 1 2 (sharingRun 1) (sharingRun 2) rfl
    (orderlyRun_of_take (by decide +kernel)) (orderlyRun_of_take (by decide +kernel))

end Transition

end Safenet
