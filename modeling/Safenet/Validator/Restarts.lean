/-
# Restarts of a key generation make progress

A round that stalls, or that is complained about, starts over without the participants it blames.
Every trigger computes them from another map -- who did not commit, share or confirm, who left a
complaint unanswered, who is accused -- and would loop if it ever blamed nobody.  None does:

* a round past its deadline misses a registration of one of its participants, since a complete one
  moves on (`RoundOk`), so there is somebody to blame, and only participants are blamed
  (`step_round`);
* the next round's set leaves the blamed out, so the excluded set strictly grows and the
  participants strictly shrink (`Excludes.lt`); once the rollover has left an epoch it never comes
  back to it (`Beyond`).

Hence at most as many restarts as there are participants above the two-thirds floor, and one
commitment for each group.
-/
import Safenet.Validator.Agreement
import Safenet.Validator.Commands
import Safenet.Validator.Toy

namespace Safenet

open Frost

variable {E : Crates}

/-! ## 1. One step of a round -/

namespace Ceremony

variable {T : Transition E}

/-- What the registrations of a round satisfy: they are its participants', and a complete round
has moved on, unless our own secrets hold it up. -/
def RoundOk : Ceremony E → Prop
  | .commitments c => BTreeMap.keySet c.commitments ⊆ c.group.participants ∧
      (c.pending = false → asU16 c.commitments.size ≠ c.group.count)
  | .shares c => BTreeMap.keySet c.publicKeys ⊆ c.group.participants ∧
      asU16 c.publicKeys.size ≠ c.group.count ∧
      BTreeMap.keySet c.complaints ⊆ c.group.participants
  | .confirmations c => c.confirmations ⊆ c.group.participants ∧
      asU16 c.confirmations.card ≠ c.group.count ∧
      BTreeMap.keySet c.complaints ⊆ c.group.participants
  | _ => True

/-- The round goes on: its group and its deadline stay, what is registered grows, and our secrets
stay sampled. -/
def Continues : Ceremony E → Ceremony E → Prop
  | .commitments c, .commitments c' => c'.group = c.group ∧ c'.deadline = c.deadline ∧
      BTreeMap.keySet c.commitments ⊆ BTreeMap.keySet c'.commitments ∧
      (c'.pending = true → c.pending = true)
  | .commitments c, .shares c' => c'.group = c.group
  | .shares c, .shares c' => c'.group = c.group ∧ c'.deadline = c.deadline ∧
      BTreeMap.keySet c.publicKeys ⊆ BTreeMap.keySet c'.publicKeys
  | .shares c, .confirmations c' => c'.group = c.group
  | .confirmations c, .confirmations c' => c'.group = c.group ∧ c'.deadlines = c.deadlines ∧
      c.confirmations ⊆ c'.confirmations
  | _, _ => False

theorem Continues.refl {r : Ceremony E} {e : EpochId} {g : Group} (h : r.round = some (e, g)) :
    Continues r r := by
  cases r with
  | commitments c => exact ⟨rfl, rfl, Finset.Subset.refl _, id⟩
  | shares c => exact ⟨rfl, rfl, Finset.Subset.refl _⟩
  | confirmations c => exact ⟨rfl, rfl, Finset.Subset.refl _⟩
  | _ => exact absurd h (by simp [round])

theorem Continues.group_eq {r r' : Ceremony E} {e e' : EpochId} {g g' : Group}
    (h : Continues r r') (hr : r.round = some (e, g)) (hr' : r'.round = some (e', g')) :
    g' = g := by
  cases r <;> cases r' <;> simp only [Continues] at h
  all_goals
    simp only [round, Option.some.injEq, Prod.mk.injEq] at hr hr'
    rw [← hr.2, ← hr'.2]
  · exact h.1
  · exact h
  · exact h.1
  · exact h
  · exact h.1

/-- The next group of an epoch leaves out some participants of the last. -/
def Excludes (T : Transition E) (e : EpochId) (g g' : Group) : Prop :=
  ∃ n x set, e = .number n ∧ x ⊆ g.participants ∧ x.Nonempty ∧
    T.epochParticipants n (g.excluded ∪ x) = some set ∧ g' = set.group E.keccak256

/-- The participants a log of a group is about. -/
def subject : Event → Option (B256 × Address)
  | .keyGenCommitted gid p _ => some (gid, p)
  | .keyGenSecretShared gid p _ => some (gid, p)
  | .keyGenConfirmed gid p => some (gid, p)
  | .keyGenComplained gid _ accused _ => some (gid, accused)
  | .keyGenComplaintResponded gid _ accused _ => some (gid, accused)
  | _ => none

/-- A log about the group underway is about one of its participants. -/
def AboutMember (r : Ceremony E) : Msg E → Prop
  | .event log => ∀ gid p e g, subject log.data = some (gid, p) → r.round = some (e, g) →
      g.id = gid → p ∈ g.participants
  | _ => True

end Ceremony

namespace Transition

variable {T : Transition E}

/-- The groups a key generation can run over: their count is their size, which is small, and none
of the excluded is among the participants. -/
theorem GroupOf.facts {e : EpochId} {g : Group} (h : T.GroupOf e g) :
    g.count = g.participants.card ∧ 2 ≤ g.participants.card ∧ g.participants.card < 2 ^ 16 ∧
      Disjoint g.participants g.excluded := by
  have hset : ∃ spec set, participantsSet E.keccak256 T.config.participants spec = some set ∧
      T.SetOf e set ∧ g = set.group E.keccak256 := by
    cases e with
    | genesis => exact ⟨_, _, T.genesis_eq, rfl, h⟩
    | number n =>
      obtain ⟨x, set, hset, hg⟩ := h
      exact ⟨_, set, hset, ⟨x, hset⟩, hg⟩
  obtain ⟨spec, set, hspec, hset, rfl⟩ := hset
  refine ⟨rfl, hset.card.1, hset.card.2, ?_⟩
  simp only [participantsSet] at hspec
  split at hspec
  · rw [Option.some.injEq] at hspec
    subst hspec
    exact Finset.sdiff_disjoint
  · exact absurd hspec (by simp)

end Transition

namespace Ceremony

variable {T : Transition E}

/-- Somebody is missing from a set of participants that is not full. -/
theorem missing_nonempty {g : Group} {x : Finset Address} (hx : x ⊆ g.participants)
    (hcount : g.count = g.participants.card) (hsmall : g.participants.card < 2 ^ 16)
    (h : asU16 x.card ≠ g.count) : (g.participants \ x).Nonempty := by
  rw [Finset.sdiff_nonempty]
  intro hle
  have heq : x = g.participants := Finset.Subset.antisymm hx hle
  rw [heq, asU16_of_lt hsmall] at h
  exact h hcount.symm

theorem round_failed (e : EpochId) : (failed e : Ceremony E).round = none := by
  cases e <;> rfl

theorem round_restarted {e e' : EpochId} {x : Finset Address} {d : Option Nat} {g : Group}
    (h : (restarted T e x d).round = some (e', g)) :
    e = e' ∧ ∃ n set, e = .number n ∧ T.epochParticipants n x = some set ∧
      g = set.group E.keccak256 := by
  unfold restarted at h
  split at h
  · rw [round_failed] at h
    exact absurd h (by simp)
  · rename_i n
    split at h
    · rename_i set hset
      simp only [started, round, Option.some.injEq, Prod.mk.injEq] at h
      obtain ⟨rfl, rfl⟩ := h
      exact ⟨rfl, n, set, rfl, hset, rfl⟩
    · rw [round_failed] at h
      exact absurd h (by simp)

/-- Blaming some of a group's participants leaves them out. -/
theorem excludes_of_restarted {e e' : EpochId} {g g' : Group} {x : Finset Address}
    {d : Option Nat} (hx : x ⊆ g.participants) (hne : x.Nonempty)
    (h : (restarted T e (g.alsoExclude x) d).round = some (e', g')) :
    Excludes T e' g g' := by
  obtain ⟨rfl, n, set, hn, hset, hg⟩ := round_restarted h
  exact ⟨n, x, set, hn, hx, hne, hset, hg⟩

theorem stuck_eq_none {block : Nat} {c : CommitmentRound E}
    (h : stuck block (.commitments c) = none) (hd : c.deadline.any (· ≤ block) = true)
    (hp : c.pending = true) : asU16 c.commitments.size ≠ c.group.count := by
  intro hfull
  rw [stuck, if_pos ⟨hp, hd, hfull⟩] at h
  exact absurd h (by simp)

/-- A round past its deadline blames some of its participants. -/
theorem stalled_blames {block : Nat} {r : Ceremony E} {e e' : EpochId} {g : Group}
    {x : Finset Address} (hok : RoundOk r) (hr : r.round = some (e, g)) (hg : T.GroupOf e g)
    (hstuck : stuck block r = none) (h : stalled block r = some (e', x)) :
    ∃ y, x = g.alsoExclude y ∧ y ⊆ g.participants ∧ y.Nonempty := by
  obtain ⟨hcount, -, hsmall, -⟩ := hg.facts
  cases r with
  | commitments c =>
    simp only [round, Option.some.injEq, Prod.mk.injEq] at hr
    obtain ⟨rfl, rfl⟩ := hr
    simp only [stalled, Option.ite_none_right_eq_some, Option.some.injEq, Prod.mk.injEq] at h
    obtain ⟨hd, -, rfl⟩ := h
    have hne : asU16 c.commitments.size ≠ c.group.count := by
      cases hp : c.pending with
      | false => exact hok.2 hp
      | true => exact stuck_eq_none hstuck hd hp
    rw [← BTreeMap.card_keySet] at hne
    exact ⟨_, rfl, Finset.sdiff_subset, missing_nonempty hok.1 hcount hsmall hne⟩
  | shares c =>
    simp only [round, Option.some.injEq, Prod.mk.injEq] at hr
    obtain ⟨rfl, rfl⟩ := hr
    simp only [stalled, Option.ite_none_right_eq_some, Option.some.injEq, Prod.mk.injEq] at h
    obtain ⟨-, -, rfl⟩ := h
    have hne := hok.2.1
    rw [← BTreeMap.card_keySet] at hne
    exact ⟨_, rfl, Finset.sdiff_subset, missing_nonempty hok.1 hcount hsmall hne⟩
  | confirmations c =>
    simp only [round, Option.some.injEq, Prod.mk.injEq] at hr
    obtain ⟨rfl, rfl⟩ := hr
    rw [stalled] at h
    split at h
    · exact absurd h (by simp)
    · split at h
      · rename_i hlate
        simp only [Option.some.injEq, Prod.mk.injEq] at h
        obtain ⟨-, rfl⟩ := h
        refine ⟨_, rfl, ?_, Finset.nonempty_iff_ne_empty.mpr hlate.2⟩
        exact (Finset.filter_subset _ _).trans hok.2.2
      · split at h
        · simp only [Option.some.injEq, Prod.mk.injEq] at h
          obtain ⟨-, rfl⟩ := h
          exact ⟨_, rfl, Finset.sdiff_subset, missing_nonempty hok.1 hcount hsmall hok.2.1⟩
        · exact absurd h (by simp)
  | _ => exact absurd hr (by simp [round])

theorem Continues.withComplaints {r : Ceremony E} {e : EpochId} {g : Group}
    (h : r.round = some (e, g)) (k : BTreeMap Address Complaint) :
    Continues r (r.withComplaints k) := by
  cases r with
  | commitments c => exact ⟨rfl, rfl, Finset.Subset.refl _, id⟩
  | shares c => exact ⟨rfl, rfl, Finset.Subset.refl _⟩
  | confirmations c => exact ⟨rfl, rfl, Finset.Subset.refl _⟩
  | _ => exact absurd h (by simp [round])

/-- Closing a round keeps its group, or ends it. -/
theorem Continues.closed {c : CommitmentRound E} {k : BTreeMap Address (VerifiedCommitment E)}
    {d : Option Nat} {e : EpochId} {g : Group}
    (h : (Ceremony.closed { c with commitments := k } d).round = some (e, g)) :
    Continues (.commitments c) (Ceremony.closed { c with commitments := k } d) := by
  unfold Ceremony.closed at h ⊢
  split
  · exact rfl
  · rename_i herr
    simp only [herr, round_failed] at h
    exact absurd h (by simp)

theorem nextEpoch_of_round {r : Ceremony E} {e : EpochId} {g : Group}
    (h : r.round = some (e, g)) : r.nextEpoch = some e := by
  cases r <;> simp only [round, Option.some.injEq, Prod.mk.injEq, reduceCtorEq] at h
  all_goals simp only [nextEpoch, h.1]

theorem stalled_nextEpoch {block : Nat} {r : Ceremony E} {e : EpochId} {x : Finset Address}
    (h : stalled block r = some (e, x)) : r.nextEpoch = some e := by
  cases r with
  | commitments c =>
    simp only [stalled, Option.ite_none_right_eq_some, Option.some.injEq, Prod.mk.injEq] at h
    exact congrArg some h.2.1
  | shares c =>
    simp only [stalled, Option.ite_none_right_eq_some, Option.some.injEq, Prod.mk.injEq] at h
    exact congrArg some h.2.1
  | confirmations c =>
    rw [stalled] at h
    split at h
    · exact absurd h (by simp)
    · split at h
      · simp only [Option.some.injEq, Prod.mk.injEq] at h
        exact congrArg some h.1
      · split at h
        · simp only [Option.some.injEq, Prod.mk.injEq] at h
          exact congrArg some h.1
        · exact absurd h (by simp)
  | _ => exact absurd h (by simp [stalled])

theorem afterTimeouts_nextEpoch {block : Nat} {r : Ceremony E} {e : EpochId} {g : Group}
    (h : (afterTimeouts T block r).round = some (e, g)) : r.nextEpoch = some e := by
  unfold afterTimeouts at h
  split at h
  · rw [round_failed] at h
    exact absurd h (by simp)
  · split at h
    · exact nextEpoch_of_round h
    · rename_i e' x hx
      rw [stalled_nextEpoch hx, (round_restarted h).1]

/-- A block on which the round of an epoch remains is not its turn. -/
theorem clock_of_round {block : Nat} {a e : EpochId} {r : Ceremony E} {g : Group}
    (hr : r.round = some (e, g))
    (h : (clock T block a r).2.nextEpoch = some e) : (clock T block a r).2 = r := by
  have hnext : r.nextEpoch.bind EpochId.number? = e.number? := by
    rw [nextEpoch_of_round hr]
    rfl
  unfold clock at h ⊢
  rw [hnext] at h ⊢
  cases e with
  | genesis => rfl
  | number n =>
    dsimp only [EpochId.number?] at h ⊢
    split
    · rfl
    · rename_i hdue
      rw [if_neg hdue] at h
      dsimp only at h
      have hlt : n < nextNumber block T.config.blocksPerEpoch := not_le.mp hdue
      split at h
      · simp only [started, nextEpoch, Option.some.injEq, EpochId.number.injEq] at h
        exact absurd h hlt.ne'
      · simp only [nextEpoch, Option.some.injEq, EpochId.number.injEq] at h
        exact absurd h hlt.ne'

theorem registerCommitment_mono (k : BTreeMap Address (VerifiedCommitment E)) (p : Address)
    (x : KeyGenCommitment) :
    BTreeMap.keySet k ⊆ BTreeMap.keySet (Transition.registerCommitment k p x) := by
  unfold Transition.registerCommitment
  split
  · rw [BTreeMap.keySet_insert]
    exact Finset.subset_insert _ _
  · exact Finset.Subset.refl _

theorem registerKey_mono (c : ShareRound E) (p : Address) (x : KeyGenSecretShare) :
    BTreeMap.keySet c.publicKeys ⊆ BTreeMap.keySet (registerKey c p x) := by
  unfold registerKey
  split
  · rw [BTreeMap.keySet_insert]
    exact Finset.subset_insert _ _
  · exact Finset.Subset.refl _

/-- The round after genesis is another epoch's. -/
theorem afterGenesis_round {block : Nat} {e : EpochId} {g : Group} (he : .genesis = e) :
    (afterGenesis T block).round ≠ some (e, g) := by
  unfold afterGenesis
  dsimp only
  split
  · simp [round]
  · simp [started, round, ← he]

/-- **A round goes on, or starts over without some of its participants.** -/
theorem step_round {a e : EpochId} {r : Ceremony E} {msg : Msg E} {g g' : Group}
    (hok : RoundOk r) (hm : AboutMember r msg) (hr : r.round = some (e, g))
    (hg : T.GroupOf e g) (h : (step T a r msg).round = some (e, g')) :
    Continues r (step T a r msg) ∨ Excludes T e g g' := by
  have hsame : step T a r msg = r → Continues r (step T a r msg) := by
    intro heq
    rw [heq]
    exact .refl hr
  cases msg with
  | newBlock block =>
    rw [step] at h hsame ⊢
    have hclock := clock_of_round hr (afterTimeouts_nextEpoch h)
    rw [hclock] at h hsame ⊢
    unfold afterTimeouts at h hsame ⊢
    cases hs : stuck block r with
    | some e' =>
      rw [hs] at h
      dsimp only at h
      rw [round_failed] at h
      exact absurd h (by simp)
    | none =>
      rw [hs] at h hsame
      dsimp only at h hsame ⊢
      cases hx : stalled block r with
      | none =>
        rw [hx] at hsame
        exact .inl (hsame rfl)
      | some ex =>
        obtain ⟨e', x⟩ := ex
        obtain ⟨y, rfl, hy, hne⟩ := stalled_blames hok hr hg hs hx
        rw [hx] at h
        exact .inr (excludes_of_restarted hy hne h)
  | resume x =>
    cases x with
    | setup gid y =>
      cases r with
      | commitments c =>
        rw [step, afterSetup] at h hsame ⊢
        split at h
        · rename_i hp
          rw [if_pos hp]
          split at h
          · rename_i hn
            rw [if_pos hn]
            exact .inl ⟨rfl, rfl, Finset.Subset.refl _, fun h => absurd h (by simp)⟩
          · rename_i hn
            rw [if_neg hn]
            exact .inl (.closed (c := c) h)
        · rename_i hp
          rw [if_neg hp]
          exact .inl (.refl hr)
      | _ => exact .inl (hsame rfl)
    | _ => exact .inl (hsame rfl)
  | event log =>
    cases hd : log.data <;> simp only [step, hd] at h hsame ⊢
    case keyGen gid =>
      cases r with
      | waitingForGenesis => exact absurd hr (by simp [round])
      | _ => exact .inl (hsame rfl)
    case keyGenCommitted gid p k =>
      cases r with
      | commitments c =>
        rw [afterCommitted] at h ⊢
        dsimp only at h ⊢
        split at h
        · rename_i hgid
          rw [if_pos hgid]
          split at h
          · rename_i hn
            rw [if_pos hn]
            exact .inl ⟨rfl, rfl, registerCommitment_mono _ _ _, id⟩
          · rename_i hn
            rw [if_neg hn]
            exact .inl (.closed h)
        · rename_i hgid
          rw [if_neg hgid]
          exact .inl (.refl hr)
      | _ => exact .inl (hsame rfl)
    case keyGenSecretShared gid p k =>
      cases r with
      | shares c =>
        rw [afterShared] at h ⊢
        dsimp only at h ⊢
        split
        · split
          · exact .inl ⟨rfl, rfl, registerKey_mono _ _ _⟩
          · exact .inl rfl
        · exact .inl (.refl hr)
      | _ => exact .inl (hsame rfl)
    case keyGenConfirmed gid p =>
      cases r with
      | confirmations c =>
        simp only [round, Option.some.injEq, Prod.mk.injEq] at hr
        rw [afterConfirmed] at h ⊢
        dsimp only at h ⊢
        split
        · rename_i hgid
          rw [if_pos hgid] at h
          split
          · exact .inl ⟨rfl, rfl, Finset.subset_insert _ _⟩
          · rename_i hn
            rw [if_neg hn] at h
            split at h
            · rename_i he
              exact absurd h (afterGenesis_round (he ▸ hr.1))
            · exact absurd h (by simp [round])
        · exact .inl ⟨rfl, rfl, Finset.Subset.refl _⟩
      | _ => exact .inl (hsame rfl)
    case keyGenComplained gid p x y =>
      unfold afterComplained at h hsame ⊢
      cases hc : counting T log.block gid r with
      | none =>
        rw [hc] at hsame
        exact .inl (hsame rfl)
      | some v =>
        obtain ⟨e', gr, k, d⟩ := v
        rw [hc] at h
        obtain ⟨hround, hgid⟩ := counting_round hc
        dsimp only at h ⊢
        split
        · rename_i ht
          rw [if_pos ht] at h
          have heq : gr = g := by
            rw [hr, Option.some.injEq, Prod.mk.injEq] at hround
            exact hround.2.symm
          have hx : x ∈ gr.participants :=
            hm gid x e' gr (by rw [hd]; rfl) hround hgid
          rw [← heq]
          exact .inr (excludes_of_restarted (Finset.singleton_subset_iff.mpr hx)
            (Finset.singleton_nonempty x) h)
        · exact .inl (.withComplaints hr _)
    case keyGenComplaintResponded gid p x y =>
      unfold afterResponded at h hsame ⊢
      cases hc : answering log.block gid r with
      | none =>
        rw [hc] at hsame
        exact .inl (hsame rfl)
      | some v =>
        obtain ⟨e', gr, yc, k, d⟩ := v
        rw [hc] at h hsame
        obtain ⟨hround, hgid⟩ := answering_round hc
        dsimp only at h hsame ⊢
        split
        · rename_i hk
          rw [hk] at hsame
          exact .inl (hsame rfl)
        · rename_i complaint hk
          rw [hk] at h
          dsimp only at h
          split
          · exact .inl (.refl hr)
          · rename_i hz
            rw [if_neg hz] at h
            split
            · exact .inl (.withComplaints hr _)
            · rename_i herr
              rw [herr] at h
              have heq : gr = g := by
                rw [hr, Option.some.injEq, Prod.mk.injEq] at hround
                exact hround.2.symm
              have hx : x ∈ gr.participants :=
                hm gid x e' gr (by rw [hd]; rfl) hround hgid
              rw [← heq]
              exact .inr (excludes_of_restarted (Finset.singleton_subset_iff.mpr hx)
                (Finset.singleton_nonempty x) h)
    case epochStaged p gid sid =>
      cases r with
      | waitingForGenesis => exact absurd hr (by simp [round])
      | signing c => exact absurd hr (by simp [round])
      | _ => exact .inl (hsame rfl)
    all_goals exact .inl (.refl hr)

theorem asU16_zero_ne {g : Group} {e : EpochId} (hg : T.GroupOf e g) : asU16 0 ≠ g.count := by
  obtain ⟨hcount, htwo, -, -⟩ := hg.facts
  have hz : asU16 0 = 0 := by decide
  omega

theorem RoundOk.failed (e : EpochId) : RoundOk (Ceremony.failed e : Ceremony E) := by
  cases e <;> trivial

theorem RoundOk.started {e : EpochId} {set : ParticipantSet} {d : Option Nat}
    (hset : T.SetOf e set) : RoundOk (Ceremony.started T e set d) := by
  have hf : Fresh T ⟨e, set.group E.keccak256, ∅, d, T.account ∈ set.addresses⟩ :=
    ⟨set, hset, rfl, rfl, rfl⟩
  refine ⟨?_, fun _ => hf.not_full⟩
  dsimp only
  rw [BTreeMap.keySet_empty]
  exact Finset.empty_subset _

theorem RoundOk.restarted (e : EpochId) (x : Finset Address) (d : Option Nat) :
    RoundOk (Ceremony.restarted T e x d) := by
  unfold Ceremony.restarted
  split
  · exact .failed _
  · split
    · rename_i set hset
      exact .started (.of_epoch hset)
    · exact .failed _

theorem RoundOk.closed {c : CommitmentRound E} (d : Option Nat)
    (hg : T.GroupOf c.nextEpoch c.group) : RoundOk (Ceremony.closed c d) := by
  unfold Ceremony.closed
  split
  · refine ⟨?_, asU16_zero_ne hg, ?_⟩
    · dsimp only
      rw [BTreeMap.keySet_empty]
      exact Finset.empty_subset _
    · dsimp only
      rw [BTreeMap.keySet_empty]
      exact Finset.empty_subset _
  · exact .failed _

theorem RoundOk.clock {r : Ceremony E} (h : RoundOk r) (block : Nat) (a : EpochId) :
    RoundOk (clock T block a r).2 := by
  unfold Ceremony.clock
  split
  · exact h
  · dsimp only
    split
    · exact h
    · dsimp only
      split
      · rename_i set hset
        exact .started (.of_epoch hset)
      · trivial

theorem RoundOk.afterTimeouts {r : Ceremony E} (h : RoundOk r) (block : Nat) :
    RoundOk (afterTimeouts T block r) := by
  unfold Ceremony.afterTimeouts
  split
  · exact .failed _
  · split
    · exact h
    · exact .restarted _ _ _

/-- The complaints of a round that counts or answers them are its own. -/
theorem RoundOk.withComplaints {r : Ceremony E} {e : EpochId} {g : Group} (h : RoundOk r)
    (hr : r.round = some (e, g)) {k : BTreeMap Address Complaint}
    (hk : BTreeMap.keySet k ⊆ g.participants) : RoundOk (r.withComplaints k) := by
  cases r with
  | shares c =>
    simp only [round, Option.some.injEq, Prod.mk.injEq] at hr
    exact ⟨h.1, h.2.1, hr.2 ▸ hk⟩
  | confirmations c =>
    simp only [round, Option.some.injEq, Prod.mk.injEq] at hr
    exact ⟨h.1, h.2.1, hr.2 ▸ hk⟩
  | _ => exact h

theorem counting_complaints {block : Nat} {gid : B256} {r : Ceremony E} {e : EpochId} {g : Group}
    {k : BTreeMap Address Complaint} {d : Option Nat}
    (h : counting T block gid r = some (e, g, k, d)) (hok : RoundOk r) :
    BTreeMap.keySet k ⊆ g.participants := by
  cases r with
  | shares c =>
    simp only [counting, Option.ite_none_right_eq_some, Option.some.injEq, Prod.mk.injEq] at h
    obtain ⟨-, -, rfl, rfl, -⟩ := h
    exact hok.2.2
  | confirmations c =>
    simp only [counting, Option.ite_none_right_eq_some, Option.some.injEq, Prod.mk.injEq] at h
    obtain ⟨-, -, rfl, rfl, -⟩ := h
    exact hok.2.2
  | _ => exact absurd h (by simp [counting])

theorem answering_complaints {block : Nat} {gid : B256} {r : Ceremony E} {e : EpochId} {g : Group}
    {y : GroupCommitments E} {k : BTreeMap Address Complaint} {d : Option Nat}
    (h : answering block gid r = some (e, g, y, k, d)) (hok : RoundOk r) :
    BTreeMap.keySet k ⊆ g.participants := by
  cases r with
  | shares c =>
    simp only [answering, Option.ite_none_right_eq_some, Option.some.injEq, Prod.mk.injEq] at h
    obtain ⟨-, -, rfl, -, rfl, -⟩ := h
    exact hok.2.2
  | confirmations c =>
    simp only [answering, Option.ite_none_right_eq_some, Option.some.injEq, Prod.mk.injEq] at h
    obtain ⟨-, -, rfl, -, rfl, -⟩ := h
    exact hok.2.2
  | _ => exact absurd h (by simp [answering])

theorem keySet_insert_subset {υ : Type} {k : BTreeMap Address υ} {p : Address} {v : υ}
    {x : Finset Address} (hk : BTreeMap.keySet k ⊆ x) (hp : p ∈ x) :
    BTreeMap.keySet (k.insert p v) ⊆ x := by
  rw [BTreeMap.keySet_insert]
  exact Finset.insert_subset hp hk

/-- **The registrations of a round stay its participants'**, and a complete round moves on. -/
theorem RoundOk.step {a : EpochId} {r : Ceremony E} {msg : Msg E} (h : RoundOk r)
    (hm : AboutMember r msg) (hw : ∀ e g, r.round = some (e, g) → T.GroupOf e g) :
    RoundOk (Ceremony.step T a r msg) := by
  cases msg with
  | newBlock block => exact (h.clock block a).afterTimeouts block
  | resume x =>
    cases x with
    | setup gid y =>
      cases r with
      | commitments c =>
        rw [Ceremony.step, afterSetup]
        split
        · split
          · rename_i hn
            exact ⟨h.1, fun _ => hn⟩
          · exact .closed _ (hw _ _ rfl)
        · exact h
      | _ => exact h
    | _ => exact h
  | event log =>
    cases hd : log.data <;> simp only [Ceremony.step, hd]
    case keyGen gid =>
      cases r with
      | waitingForGenesis =>
        rw [afterKeyGen]
        split
        · exact .started (e := .genesis) rfl
        · trivial
      | _ => exact h
    case keyGenCommitted gid p k =>
      cases r with
      | commitments c =>
        rw [afterCommitted]
        dsimp only
        split
        · rename_i hgid
          have hp : p ∈ c.group.participants := hm gid p _ _ (by rw [hd]; rfl) rfl hgid
          split
          · rename_i hn
            refine ⟨?_, fun hpend => ?_⟩
            · exact (Transition.registerCommitment_keySet _ _ _).trans
                (Finset.insert_subset hp h.1)
            · rcases hn with hn | hn
              · exact hn
              · exact absurd (hpend.symm.trans hn) (by simp)
          · exact .closed _ (hw _ _ rfl)
        · exact h
      | _ => exact h
    case keyGenSecretShared gid p k =>
      cases r with
      | shares c =>
        rw [afterShared]
        dsimp only
        split
        · rename_i hgid
          have hp : p ∈ c.group.participants := hm gid p _ _ (by rw [hd]; rfl) rfl hgid
          split
          · rename_i hn
            refine ⟨?_, hn, h.2.2⟩
            dsimp only
            unfold registerKey
            split
            · exact keySet_insert_subset h.1 hp
            · exact h.1
          · exact ⟨Finset.empty_subset _, asU16_zero_ne (hw _ _ rfl), h.2.2⟩
        · exact h
      | _ => exact h
    case keyGenConfirmed gid p =>
      cases r with
      | confirmations c =>
        rw [afterConfirmed]
        dsimp only
        split
        · rename_i hgid
          have hp : p ∈ c.group.participants := hm gid p _ _ (by rw [hd]; rfl) rfl hgid
          split
          · rename_i hn
            exact ⟨Finset.insert_subset hp h.1, hn, h.2.2⟩
          · split
            · unfold afterGenesis
              dsimp only
              split
              · trivial
              · rename_i set hset
                exact .started (.of_epoch hset)
            · trivial
        · exact h
      | _ => exact h
    case keyGenComplained gid p x y =>
      unfold afterComplained
      split
      · exact h
      · rename_i e g k d hc
        obtain ⟨hround, hgid⟩ := counting_round hc
        dsimp only
        split
        · exact .restarted _ _ _
        · have hx : x ∈ g.participants := hm gid x e g (by rw [hd]; rfl) hround hgid
          exact h.withComplaints hround (keySet_insert_subset (counting_complaints hc h) hx)
    case keyGenComplaintResponded gid p x y =>
      unfold afterResponded
      split
      · exact h
      · rename_i e g yc k d hc
        obtain ⟨hround, hgid⟩ := answering_round hc
        split
        · exact h
        · split
          · exact h
          · split
            · have hx : x ∈ g.participants := hm gid x e g (by rw [hd]; rfl) hround hgid
              exact h.withComplaints hround (keySet_insert_subset (answering_complaints hc h) hx)
            · exact .restarted _ _ _
    case epochStaged p gid sid =>
      cases r with
      | waitingForGenesis =>
        rw [afterStaged]
        split
        · trivial
        · trivial
      | signing c =>
        rw [afterStaged]
        split
        · trivial
        · trivial
      | _ => exact h
    all_goals exact h

theorem round_closed {c : CommitmentRound E} {d : Option Nat} {e : EpochId} {g : Group}
    (h : (closed c d).round = some (e, g)) : c.nextEpoch = e := by
  unfold closed at h
  split at h
  · simp only [round, Option.some.injEq, Prod.mk.injEq] at h
    exact h.1
  · rw [round_failed] at h
    exact absurd h (by simp)

theorem round_withComplaints (k : BTreeMap Address Complaint) (r : Ceremony E) :
    (r.withComplaints k).round = r.round := by
  cases r <;> rfl

theorem stalled_round {block : Nat} {r : Ceremony E} {e : EpochId} {x : Finset Address}
    (h : stalled block r = some (e, x)) : ∃ g, r.round = some (e, g) := by
  have hnext := stalled_nextEpoch h
  cases r with
  | commitments c => exact ⟨c.group, by rw [round, Option.some.inj hnext]⟩
  | shares c => exact ⟨c.group, by rw [round, Option.some.inj hnext]⟩
  | confirmations c => exact ⟨c.group, by rw [round, Option.some.inj hnext]⟩
  | _ => exact absurd h (by simp [stalled])

/-- A round is of the epoch it was of before, or of the one a block makes due. -/
theorem step_number {a : EpochId} {r : Ceremony E} {msg : Msg E} {n : ℕ+} {g : Group}
    (h : (step T a r msg).round = some (.number n, g)) :
    (∃ g₀, r.round = some (.number n, g₀)) ∨
      ∃ block, n = nextNumber block T.config.blocksPerEpoch := by
  have hstarted : ∀ {m : ℕ+} {set : ParticipantSet} {d : Option Nat},
      (started T (.number m) set d).round = some (.number n, g) → m = n := by
    intro m set d hround
    simp only [started, round, Option.some.injEq, Prod.mk.injEq, EpochId.number.injEq] at hround
    exact hround.1
  cases msg with
  | newBlock block =>
    rw [step] at h
    have hclock : ∃ g₀, (clock T block a r).2.round = some (.number n, g₀) := by
      unfold afterTimeouts at h
      split at h
      · rw [round_failed] at h
        exact absurd h (by simp)
      · split at h
        · exact ⟨g, h⟩
        · rename_i e x hx
          rw [← (round_restarted h).1]
          exact stalled_round hx
    obtain ⟨g₀, hclock⟩ := hclock
    unfold clock at hclock
    split at hclock
    · exact .inl ⟨g₀, hclock⟩
    · dsimp only at hclock
      split at hclock
      · exact .inl ⟨g₀, hclock⟩
      · dsimp only at hclock
        split at hclock
        · simp only [started, round, Option.some.injEq, Prod.mk.injEq,
            EpochId.number.injEq] at hclock
          exact .inr ⟨block, hclock.1.symm⟩
        · exact absurd hclock (by simp [round])
  | resume x =>
    cases x with
    | setup gid y =>
      cases r with
      | commitments c =>
        rw [step, afterSetup] at h
        split at h
        · split at h
          · exact .inl ⟨g, h⟩
          · exact .inl ⟨c.group, by rw [round, round_closed h]⟩
        · exact .inl ⟨g, h⟩
      | _ => exact .inl ⟨g, h⟩
    | _ => exact .inl ⟨g, h⟩
  | event log =>
    cases hd : log.data <;> simp only [step, hd] at h
    case keyGen gid =>
      cases r with
      | waitingForGenesis =>
        rw [afterKeyGen] at h
        split at h
        · exact absurd h (by simp [started, round])
        · exact absurd h (by simp [round])
      | _ => exact .inl ⟨g, h⟩
    case keyGenCommitted gid p k =>
      cases r with
      | commitments c =>
        rw [afterCommitted] at h
        dsimp only at h
        split at h
        · split at h
          · exact .inl ⟨g, h⟩
          · exact .inl ⟨c.group, by rw [round, ← round_closed h]⟩
        · exact .inl ⟨g, h⟩
      | _ => exact .inl ⟨g, h⟩
    case keyGenSecretShared gid p k =>
      cases r with
      | shares c =>
        rw [afterShared] at h
        dsimp only at h
        split at h
        · split at h
          · exact .inl ⟨g, h⟩
          · exact .inl ⟨g, h⟩
        · exact .inl ⟨g, h⟩
      | _ => exact .inl ⟨g, h⟩
    case keyGenConfirmed gid p =>
      cases r with
      | confirmations c =>
        rw [afterConfirmed] at h
        dsimp only at h
        split at h
        · split at h
          · exact .inl ⟨g, h⟩
          · split at h
            · unfold afterGenesis at h
              dsimp only at h
              split at h
              · exact absurd h (by simp [round])
              · exact .inr ⟨log.block, (hstarted h).symm⟩
            · exact absurd h (by simp [round])
        · exact .inl ⟨g, h⟩
      | _ => exact .inl ⟨g, h⟩
    case keyGenComplained gid p x y =>
      unfold afterComplained at h
      split at h
      · exact .inl ⟨g, h⟩
      · rename_i e gr k d hc
        dsimp only at h
        split at h
        · rw [← (round_restarted h).1]
          exact .inl ⟨gr, (counting_round hc).1⟩
        · rw [round_withComplaints] at h
          exact .inl ⟨g, h⟩
    case keyGenComplaintResponded gid p x y =>
      unfold afterResponded at h
      split at h
      · exact .inl ⟨g, h⟩
      · rename_i e gr yc k d hc
        split at h
        · exact .inl ⟨g, h⟩
        · split at h
          · exact .inl ⟨g, h⟩
          · split at h
            · rw [round_withComplaints] at h
              exact .inl ⟨g, h⟩
            · rw [← (round_restarted h).1]
              exact .inl ⟨gr, (answering_round hc).1⟩
    case epochStaged p gid sid =>
      cases r with
      | waitingForGenesis =>
        rw [afterStaged] at h
        split at h
        · exact absurd h (by simp [round])
        · exact absurd h (by simp [round])
      | signing c =>
        rw [afterStaged] at h
        split at h
        · exact absurd h (by simp [round])
        · exact absurd h (by simp [round])
      | _ => exact .inl ⟨g, h⟩
    all_goals exact .inl ⟨g, h⟩

end Ceremony

/-! ## 2. The groups of an epoch -/

namespace Transition

variable {T : Transition E}

/-- The participants whose activity window covers a regular epoch. -/
def eligibleFor (T : Transition E) (n : ℕ+) : Finset Address :=
  eligible T.config.participants (.number T.config.consensus n ∅)

/-- The group of an epoch is everybody eligible but the excluded, and not below the floor. -/
theorem GroupOf.number {n : ℕ+} {g : Group} (h : T.GroupOf (.number n) g) :
    g.participants = T.eligibleFor n \ g.excluded ∧
      minParticipants (T.eligibleFor n).card ≤ g.participants.card ∧
      g.context = groupContext T.config.consensus n := by
  obtain ⟨x, set, hset, rfl⟩ := h
  simp only [epochParticipants, participantsSet] at hset
  split at hset
  · rename_i hc
    rw [Option.some.injEq] at hset
    subst hset
    exact ⟨rfl, hc.2, rfl⟩
  · exact absurd hset (by simp)

/-- The id of a group is the hash of its fields. -/
theorem GroupOf.id {e : EpochId} {g : Group} (h : T.GroupOf e g) :
    g.id = groupId E.keccak256 g.root g.count g.threshold g.context := by
  cases e with
  | genesis => rw [show g = T.genesis.group E.keccak256 from h]; rfl
  | number n =>
    obtain ⟨x, set, -, rfl⟩ := h
    rfl

theorem GroupOf.genesis_context {g : Group} (h : T.GroupOf .genesis g) :
    g.context = genesisContext E.keccak256 T.config.genesisSalt := by
  have hg : g = T.genesis.group E.keccak256 := h
  have hset := T.genesis_eq
  simp only [participantsSet] at hset
  split at hset
  · rw [Option.some.injEq] at hset
    rw [hg, ← hset]
    rfl
  · exact absurd hset (by simp)

/-- Contexts tell the epochs apart that fit in a `u64`. -/
theorem groupContext_injective {consensus : Address} {n m : Nat} (hn : n ≤ u64Max)
    (hm : m ≤ u64Max) (h : groupContext consensus n = groupContext consensus m) : n = m := by
  have hlt := consensus.isLt
  have hval := congrArg Fin.val h
  simp only [groupContext, Fin.ofNat] at hval
  simp only [u64Max] at hn hm
  rw [Nat.mod_eq_of_lt, Nat.mod_eq_of_lt] at hval
  · omega
  · omega
  · omega

/-- **A restart excludes more, and fewer take part.** -/
theorem lt_of_excludes {e : EpochId} {g g' : Group} (hg : T.GroupOf e g)
    (h : Ceremony.Excludes T e g g') :
    g.excluded ⊂ g'.excluded ∧ g'.participants ⊂ g.participants := by
  obtain ⟨n, x, set, rfl, hx, ⟨a, ha⟩, hset, hg'⟩ := h
  have hexcl : g'.excluded = g.excluded ∪ x := by
    simp only [epochParticipants, participantsSet] at hset
    split at hset
    · rw [Option.some.injEq] at hset
      rw [hg', ← hset]
      rfl
    · exact absurd hset (by simp)
  have hnew : T.GroupOf (.number n) g' := ⟨_, set, hset, hg'⟩
  have hmem : a ∈ g.participants := hx ha
  have hout : a ∉ g.excluded := Finset.disjoint_left.mp hg.facts.2.2.2 hmem
  rw [hnew.number.1, hexcl]
  refine ⟨⟨Finset.subset_union_left, fun hsub => ?_⟩, ⟨?_, fun hsub => ?_⟩⟩
  · exact hout (hsub (Finset.mem_union_right _ ha))
  · rw [hg.number.1]
    exact Finset.sdiff_subset_sdiff (Finset.Subset.refl _) Finset.subset_union_left
  · exact (Finset.mem_sdiff.mp (hsub hmem)).2 (Finset.mem_union_right _ ha)

/-! ## 3. Epochs that are over -/

/-- The rollover has left an epoch behind. -/
def Past : EpochId → RolloverState E → Prop
  | .genesis, r => r ≠ .waitingForGenesis ∧ ∀ g, r.round ≠ some (.genesis, g)
  | .number n, r => n ≤ bound r

theorem Past.round_ne {e : EpochId} {r : RolloverState E} (h : Past e r) (g : Group) :
    r.round ≠ some (e, g) := by
  cases e with
  | genesis => exact h.2 g
  | number n =>
    intro hr
    have hle : (n : Nat) ≤ bound r := h
    have hpos := n.pos
    rw [bound_of_round hr, EpochId.rawValue] at hle
    omega

theorem past_genesis_of_number {r : RolloverState E} {n : ℕ+}
    (h : r.nextEpoch = some (.number n)) : Past .genesis r := by
  refine ⟨fun hr => ?_, fun g hr => ?_⟩
  · rw [hr] at h
    exact absurd h (by simp [RolloverState.nextEpoch])
  · rw [← ceremony_round] at hr
    have hnext := Ceremony.nextEpoch_of_round hr
    rw [ceremony_nextEpoch, h] at hnext
    exact absurd hnext (by simp)

theorem past_of_number {e : EpochId} {r : RolloverState E} {n : ℕ+}
    (h : r.nextEpoch = some (.number n)) (hb : e.rawValue ≤ bound r) : Past e r := by
  cases e with
  | genesis => exact past_genesis_of_number h
  | number m => exact hb

/-- What is left behind stays behind. -/
theorem past_step {e : EpochId} {r r' : RolloverState E} (h : T.RolloverStep r r')
    (hr : Past e r) : Past e r' := by
  cases e with
  | number m => exact le_trans hr (bound_step h)
  | genesis =>
    cases h with
    | progress h h' =>
      refine ⟨fun hw => ?_, fun g hg => ?_⟩
      · rw [hw] at h'
        exact absurd h' (by simp [RolloverState.round])
      · rw [h', Option.some.injEq, Prod.mk.injEq] at hg
        exact hr.2 _ (hg.1 ▸ h)
    | genesis h he hg => exact absurd h hr.1
    | restart h he hg => exact past_genesis_of_number (by rw [RolloverState.nextEpoch, he])
    | start h he hg => exact past_genesis_of_number (by rw [RolloverState.nextEpoch, he])
    | skip h => exact past_genesis_of_number rfl
    | fail h =>
      rename_i e g
      cases e <;> simp [Past, rolloverFailure, RolloverState.round]
    | propose h he hn hg => exact past_genesis_of_number (by rw [RolloverState.nextEpoch, hn])
    | staged h => exact past_genesis_of_number rfl
    | recover h => exact past_genesis_of_number rfl
    | halt h => simp [Past, RolloverState.round]

/-- An epoch that is due comes after the one underway. -/
theorem lt_of_due {e : EpochId} {g : Group} {r : RolloverState E} {n : ℕ+} (h : r.Due n)
    (hr : r.round = some (e, g)) : e.rawValue < n := by
  rcases h with ⟨g', h⟩ | ⟨t, h, hlt⟩
  · rw [h, Option.some.injEq, Prod.mk.injEq] at hr
    rw [← hr.1]
    exact n.pos
  · rw [← ceremony_round] at hr
    have hnext := Ceremony.nextEpoch_of_round hr
    rw [ceremony_nextEpoch, h, Option.some.injEq] at hnext
    rw [← hnext]
    exact hlt

/-- An epoch underway stays underway, or is left behind. -/
theorem left_step {e : EpochId} {g : Group} {r r' : RolloverState E} (h : T.RolloverStep r r')
    (hr : r.round = some (e, g)) : (∃ g', r'.round = some (e, g')) ∨ Past e r' := by
  cases h with
  | progress h h' =>
    rw [h, Option.some.injEq, Prod.mk.injEq] at hr
    exact .inl ⟨_, by rw [h', hr.1]⟩
  | restart h he hg =>
    rw [h, Option.some.injEq, Prod.mk.injEq] at hr
    exact .inl ⟨_, by rw [RolloverState.round, he, hr.1]⟩
  | start h he hg =>
    have hlt := lt_of_due h hr
    refine .inr (past_of_number (by rw [RolloverState.nextEpoch, he]) ?_)
    rw [bound, he, EpochId.rawValue]
    exact Nat.le_sub_one_of_lt hlt
  | skip h => exact .inr (past_of_number rfl (lt_of_due h hr).le)
  | fail h =>
    rw [h, Option.some.injEq, Prod.mk.injEq] at hr
    rw [hr.1]
    cases e with
    | genesis => exact .inr (by simp [Past, rolloverFailure, RolloverState.round])
    | number m => exact .inr (past_of_number rfl le_rfl)
  | propose h he hn hg =>
    rw [h, RolloverState.round, Option.some.injEq, Prod.mk.injEq, he] at hr
    refine .inr (past_of_number (by rw [RolloverState.nextEpoch, hn]) ?_)
    rw [bound, hn, ← hr.1, EpochId.rawValue]
  | genesis h he hg => exact absurd (h ▸ hr) (by simp [RolloverState.round])
  | staged h => exact absurd (h ▸ hr) (by simp [RolloverState.round])
  | recover h => exact absurd (h ▸ hr) (by simp [RolloverState.round])
  | halt h => exact absurd (h ▸ hr) (by simp [RolloverState.round])

theorem past_applyTransition {e : EpochId} {s : State E} (msg : Msg E)
    (h : Past e s.rollover) : Past e (T.applyTransition s msg).1.rollover :=
  RolloverSteps.keep (fun _ _ hstep => past_step hstep)
    (rollover_applyTransition (T := T) s msg) h

theorem left_applyTransition {e : EpochId} {g : Group} {s : State E} (msg : Msg E)
    (hr : s.rollover.round = some (e, g)) :
    (∃ g', (T.applyTransition s msg).1.rollover.round = some (e, g')) ∨
      Past e (T.applyTransition s msg).1.rollover :=
  RolloverSteps.keep (P := fun r => (∃ g', r.round = some (e, g')) ∨ Past e r)
    (fun _ _ hstep h => h.elim (fun ⟨_, hr⟩ => left_step hstep hr) (.inr ∘ past_step hstep))
    (rollover_applyTransition (T := T) s msg) (.inl ⟨g, hr⟩)

/-! ## 4. Runs -/

/-- Only participants of the group underway commit, share, confirm, are accused or answer: the
coordinator knows no others. -/
def MembersOnly (T : Transition E) (ms : List (Msg E)) : Prop :=
  ∀ past msg, past ++ [msg] <+: ms →
    Ceremony.AboutMember (T.stateAfter past).rollover.ceremony msg

instance (r : Ceremony E) (msg : Msg E) : Decidable (Ceremony.AboutMember r msg) :=
  match msg with
  | .event log => decidable_of_iff
      ((Ceremony.subject log.data).all fun x => r.round.all fun y =>
        decide (y.2.id = x.1 → x.2 ∈ y.2.participants)) <| by
      simp only [Option.all_eq_true, decide_eq_true_eq]
      exact ⟨fun h gid p e g hx hy hid => h (gid, p) hx (e, g) hy hid,
        fun h x hx y hy hid => h x.1 x.2 y.1 y.2 hx hy hid⟩
  | .newBlock _ => .isTrue trivial
  | .resume _ => .isTrue trivial

/-- Only members act in a run when each of its messages is about one. -/
theorem membersOnly_of_take {ms : List (Msg E)} (h : ∀ i : Fin ms.length,
    Ceremony.AboutMember (T.stateAfter (ms.take i)).rollover.ceremony (ms.get i)) :
    T.MembersOnly ms := by
  rintro past msg ⟨rest, rfl⟩
  have hi : past.length < (past ++ [msg] ++ rest).length := by simp
  have hget := h ⟨past.length, hi⟩
  simpa using hget

/-- The round underway after some messages. -/
def roundAfter (T : Transition E) (ms : List (Msg E)) : Option (EpochId × Group) :=
  (T.stateAfter ms).rollover.round

/-- Keccak-256 tells the groups of a run apart: an id is that of one participant set in one
context, and the genesis context is no regular epoch's. -/
structure IdsApart (T : Transition E) (ms : List (Msg E)) : Prop where
  ids : ∀ p p' e e' g g', p <+: ms → p' <+: ms → T.roundAfter p = some (e, g) →
    T.roundAfter p' = some (e', g') → g.id = g'.id →
    g.participants = g'.participants ∧ g.context = g'.context
  genesis : ∀ n : ℕ+, (n : Nat) ≤ u64Max →
    genesisContext E.keccak256 T.config.genesisSalt ≠ groupContext T.config.consensus n

/-- The groups the messages of a run join a key generation of, in order. -/
def joined (T : Transition E) (ms : List (Msg E)) : List B256 :=
  (Reactive.runOutputs T.applyTransition (State.default E) ms).filterMap commitsTo

theorem MembersOnly.init {ms ms' : List (Msg E)} (h : T.MembersOnly (ms ++ ms')) :
    T.MembersOnly ms := by
  intro past msg hp
  exact h past msg (hp.trans (List.prefix_append ms ms'))

theorem groupOf_roundAfter {ms : List (Msg E)} {e : EpochId} {g : Group}
    (h : T.roundAfter ms = some (e, g)) : T.GroupOf e g := by
  have hw : WellGrouped T (T.stateAfter ms).rollover :=
    Reactive.runState_induction T.applyTransition (fun _ s => WellGrouped T s.rollover)
      (show WellGrouped T (State.default E).rollover from trivial)
      (fun _ _ msg hw => wellGrouped_applyTransition msg hw) ms
  exact (groupOf_of_round h).mp hw

theorem roundOk_stateAfter {ms : List (Msg E)} (h : T.MembersOnly ms) :
    Ceremony.RoundOk (T.stateAfter ms).rollover.ceremony := by
  induction ms using List.reverseRecOn with
  | nil => trivial
  | append_singleton ms msg ih =>
    rw [stateAfter_concat]
    rcases ceremony_applyTransition (T := T) (T.stateAfter ms) msg with hstep | ⟨-, e, g, -, hfail⟩
    · rw [hstep]
      refine (ih h.init).step (h ms msg (List.prefix_refl _)) fun e g hr => ?_
      rw [ceremony_round] at hr
      exact groupOf_roundAfter hr
    · rw [hfail]
      exact .failed e

/-- A message that leaves a round of an epoch underway follows the ceremony. -/
theorem step_of_roundAfter {ms : List (Msg E)} {msg : Msg E} {e : EpochId} {g : Group}
    (h : T.roundAfter (ms ++ [msg]) = some (e, g)) :
    (T.stateAfter (ms ++ [msg])).rollover.ceremony =
      Ceremony.step T (T.stateAfter ms).activeEpoch (T.stateAfter ms).rollover.ceremony msg := by
  rw [roundAfter, ← ceremony_round] at h
  rw [stateAfter_concat] at h ⊢
  rcases ceremony_applyTransition (T := T) (T.stateAfter ms) msg with hstep | ⟨-, e', g', -, hfail⟩
  · exact hstep
  · rw [hfail, Ceremony.round_failed] at h
    exact absurd h (by simp)

/-- **One message of a run** moves a round of an epoch on, or starts it over without some of its
participants. -/
theorem round_concat {ms : List (Msg E)} {msg : Msg E} {e : EpochId} {g g' : Group}
    (h : T.MembersOnly (ms ++ [msg])) (hr : T.roundAfter ms = some (e, g))
    (hr' : T.roundAfter (ms ++ [msg]) = some (e, g')) :
    Ceremony.Continues (T.stateAfter ms).rollover.ceremony
        (T.stateAfter (ms ++ [msg])).rollover.ceremony ∨
      Ceremony.Excludes T e g g' := by
  have hg := groupOf_roundAfter hr
  have hstep := step_of_roundAfter hr'
  rw [roundAfter, ← ceremony_round] at hr hr'
  rw [hstep] at hr' ⊢
  exact Ceremony.step_round (roundOk_stateAfter h.init) (h ms msg (List.prefix_refl _)) hr hg hr'

/-- **From a round on**, the epoch's rounds leave out at least as many, until it is left behind. -/
theorem round_later {ms ms' : List (Msg E)} {e : EpochId} {g : Group}
    (h : T.MembersOnly (ms ++ ms')) (hr : T.roundAfter ms = some (e, g)) :
    (∃ g', T.roundAfter (ms ++ ms') = some (e, g') ∧ g.excluded ⊆ g'.excluded ∧
        g'.participants ⊆ g.participants) ∨
      Past e (T.stateAfter (ms ++ ms')).rollover := by
  induction ms' using List.reverseRecOn with
  | nil =>
    rw [List.append_nil]
    exact .inl ⟨g, hr, Finset.Subset.refl _, Finset.Subset.refl _⟩
  | append_singleton ms' msg ih =>
    rw [← List.append_assoc] at h ⊢
    rcases ih h.init with ⟨g₁, hr₁, hexcl, hparts⟩ | hpast
    · have hnext := left_applyTransition (T := T) msg hr₁
      rw [← stateAfter_concat] at hnext
      rcases hnext with ⟨g', hr'⟩ | hpast
      · refine .inl ⟨g', hr', ?_⟩
        rcases round_concat h hr₁ hr' with hc | hx
        · have heq : g' = g₁ := Ceremony.Continues.group_eq hc
            (by rw [ceremony_round]; exact hr₁) (by rw [ceremony_round]; exact hr')
          rw [heq]
          exact ⟨hexcl, hparts⟩
        · obtain ⟨h1, h2⟩ := lt_of_excludes (groupOf_roundAfter hr₁) hx
          exact ⟨hexcl.trans h1.1, h2.1.trans hparts⟩
      · exact .inr hpast
    · rw [stateAfter_concat]
      exact .inr (past_applyTransition msg hpast)

/-! ## 5. One commitment for a group -/

/-- The epochs of a run's rounds fit in a `u64`. -/
theorem number_le {ms : List (Msg E)} {n : ℕ+} {g : Group}
    (h : T.roundAfter ms = some (.number n, g)) : (n : Nat) ≤ u64Max := by
  induction ms using List.reverseRecOn generalizing g with
  | nil => exact absurd h (by simp [roundAfter, stateAfter, State.default, RolloverState.round])
  | append_singleton ms msg ih =>
    have hstep := step_of_roundAfter h
    rw [roundAfter, ← ceremony_round, hstep] at h
    rcases Ceremony.step_number h with ⟨g₀, hr⟩ | ⟨block, rfl⟩
    · rw [ceremony_round] at hr
      exact ih hr
    · exact Nat.min_le_right _ _

/-- Rounds under one id are of one epoch and over one participant set. -/
theorem IdsApart.eq {ms p p' : List (Msg E)} {e e' : EpochId} {g g' : Group}
    (h : T.IdsApart ms) (hp : p <+: ms) (hp' : p' <+: ms) (hr : T.roundAfter p = some (e, g))
    (hr' : T.roundAfter p' = some (e', g')) (hid : g.id = g'.id) :
    e = e' ∧ g.participants = g'.participants := by
  obtain ⟨hparts, hctx⟩ := h.ids p p' e e' g g' hp hp' hr hr' hid
  have hg := groupOf_roundAfter hr
  have hg' := groupOf_roundAfter hr'
  refine ⟨?_, hparts⟩
  cases e with
  | genesis =>
    cases e' with
    | genesis => rfl
    | number m =>
      rw [hg.genesis_context, hg'.number.2.2] at hctx
      exact absurd hctx (h.genesis m (number_le hr'))
  | number n =>
    cases e' with
    | genesis =>
      rw [hg.number.2.2, hg'.genesis_context] at hctx
      exact absurd hctx.symm (h.genesis n (number_le hr))
    | number m =>
      rw [hg.number.2.2, hg'.number.2.2] at hctx
      exact congrArg _ (PNat.coe_injective
        (groupContext_injective (number_le hr) (number_le hr') hctx))

/-- **A round under an id of the past is the same round**, moved on. -/
theorem continues_of_id {ms p : List (Msg E)} {msg : Msg E} {e e' : EpochId} {g g' : Group}
    (hm : T.MembersOnly (ms ++ [msg])) (ha : T.IdsApart (ms ++ [msg])) (hp : p <+: ms)
    (hr : T.roundAfter p = some (e, g)) (hround : T.roundAfter (ms ++ [msg]) = some (e', g'))
    (hid : g.id = g'.id) : Ceremony.Continues (T.stateAfter ms).rollover.ceremony
      (T.stateAfter (ms ++ [msg])).rollover.ceremony := by
  obtain ⟨he, hparts⟩ := ha.eq (hp.trans (List.prefix_append ms [msg])) (List.prefix_refl _) hr
    hround hid
  subst he
  obtain ⟨ms', rfl⟩ := hp
  rcases round_later hm.init hr with ⟨g₁, hr₁, -, hsub⟩ | hpast
  · rcases round_concat hm hr₁ hround with hc | hx
    · exact hc
    · have hlt := (lt_of_excludes (groupOf_roundAfter hr₁) hx).2
      exact absurd (hsub.trans hparts.subset) hlt.2
  · have hpast' := past_applyTransition (T := T) msg hpast
    rw [← stateAfter_concat] at hpast'
    exact absurd hround (hpast'.round_ne g')

/-- Our secrets for a group are still to be sampled. -/
def PendingFor (gid : B256) (s : State E) : Prop :=
  ∃ c, s.rollover.ceremony = .commitments c ∧ c.pending = true ∧ c.group.id = gid

/-- A group whose key generation was underway, and that nothing is pending for any more. -/
def Joined (T : Transition E) (ms : List (Msg E)) (gid : B256) : Prop :=
  (∃ p e g, p <+: ms ∧ T.roundAfter p = some (e, g) ∧ g.id = gid) ∧
    ¬ PendingFor gid (T.stateAfter ms)

/-- **Nothing is pending again** for a group that was set up: its id does not come back. -/
theorem Joined.concat {ms : List (Msg E)} {msg : Msg E} {gid : B256}
    (hm : T.MembersOnly (ms ++ [msg])) (ha : T.IdsApart (ms ++ [msg])) (h : T.Joined ms gid) :
    T.Joined (ms ++ [msg]) gid := by
  obtain ⟨⟨p, e, g, hp, hr, hid⟩, hpend⟩ := h
  refine ⟨⟨p, e, g, hp.trans (List.prefix_append ms [msg]), hr, hid⟩, ?_⟩
  rintro ⟨c', hc', hpend', hid'⟩
  have hround : T.roundAfter (ms ++ [msg]) = some (c'.nextEpoch, c'.group) := by
    rw [roundAfter, ← ceremony_round, hc']
    rfl
  have hc := continues_of_id hm ha hp hr hround (hid.trans hid'.symm)
  rw [hc'] at hc
  cases hr₀ : (T.stateAfter ms).rollover.ceremony with
  | commitments c =>
    rw [hr₀] at hc
    exact hpend ⟨c, hr₀, hc.2.2.2 hpend', hc.1 ▸ hid'⟩
  | _ =>
    rw [hr₀] at hc
    exact hc

/-- Setting up a pending round leaves nothing pending. -/
theorem not_pending_of_setup {ms : List (Msg E)} {c : CollectingCommitments E} {x : Secrets E}
    (hr : (T.stateAfter ms).rollover = .collectingCommitments c)
    (hc : c.published.pending = true) (gid : B256) :
    ¬ PendingFor gid (T.stateAfter (ms ++ [.resume (.setup c.group.id x)])) := by
  rintro ⟨c', hc', hpend', -⟩
  have hround : T.roundAfter (ms ++ [.resume (.setup c.group.id x)]) =
      some (c'.nextEpoch, c'.group) := by
    rw [roundAfter, ← ceremony_round, hc']
    rfl
  rw [step_of_roundAfter hround, hr, RolloverState.ceremony, Ceremony.step, Ceremony.afterSetup,
    if_pos ⟨hc, rfl⟩] at hc'
  split at hc'
  · rw [← Ceremony.commitments.inj hc'] at hpend'
    exact absurd hpend' (by simp)
  · exact absurd hc' (Ceremony.closed_ne_commitments _ _ _)

/-- **A run joins the key generation of a group at most once.** -/
theorem joined_nodup {ms : List (Msg E)} (hm : T.MembersOnly ms) (ha : T.IdsApart ms) :
    (T.joined ms).Nodup ∧ ∀ gid ∈ T.joined ms, T.Joined ms gid := by
  induction ms using List.reverseRecOn with
  | nil => exact ⟨List.nodup_nil, fun gid h => absurd h (by simp [joined, Reactive.runOutputs])⟩
  | append_singleton ms msg ih =>
    have ha' : T.IdsApart ms :=
      ⟨fun p p' e e' g g' hp hp' => ha.ids p p' e e' g g' (hp.trans (List.prefix_append ms [msg]))
        (hp'.trans (List.prefix_append ms [msg])), ha.genesis⟩
    obtain ⟨hnodup, hjoined⟩ := ih hm.init ha'
    have houts : T.joined (ms ++ [msg]) = T.joined ms ++
        (T.applyTransition (T.stateAfter ms) msg).2.filterMap commitsTo := by
      rw [joined, Reactive.runOutputs_append, List.filterMap_append]
      simp only [Reactive.runOutputs, List.append_nil]
      rfl
    have hkeep : ∀ gid ∈ T.joined ms, T.Joined (ms ++ [msg]) gid :=
      fun gid hgid => (hjoined gid hgid).concat hm ha
    rw [houts]
    rcases applyTransition_commitsTo (T := T) (T.stateAfter ms) msg with
      hnone | ⟨c, poap, x, hr, hs, rfl, hone⟩
    · rw [hnone, List.append_nil]
      exact ⟨hnodup, hkeep⟩
    · have hround : T.roundAfter ms = some (c.nextEpoch, c.group) := by
        rw [roundAfter, hr]
        rfl
      have hpend : c.published.pending = true := (pending_iff c).mpr ⟨poap, hs⟩
      rw [hone, ← (groupOf_roundAfter hround).id]
      refine ⟨hnodup.append (List.nodup_singleton _) ?_, fun gid hgid => ?_⟩
      · rw [List.disjoint_singleton]
        intro hmem
        exact (hjoined _ hmem).2 ⟨c.published, by rw [hr]; rfl, hpend, rfl⟩
      · rcases List.mem_append.mp hgid with hgid | hgid
        · exact hkeep gid hgid
        · rw [List.mem_singleton] at hgid
          rw [hgid]
          exact ⟨⟨ms, _, _, List.prefix_append _ _, hround, rfl⟩,
            not_pending_of_setup hr hpend _⟩

/-! ## 6. Progress -/

/-- The key generation of an epoch starts over at a message, with the group `g'`. -/
def RestartsAt (T : Transition E) (n : ℕ+) (past : List (Msg E)) (msg : Msg E) (g' : Group) :
    Prop :=
  (∃ g, T.roundAfter past = some (.number n, g)) ∧
    T.roundAfter (past ++ [msg]) = some (.number n, g') ∧
    ¬ Ceremony.Continues (T.stateAfter past).rollover.ceremony
      (T.stateAfter (past ++ [msg])).rollover.ceremony

/-- What a restart is compared with: every earlier round of its epoch. -/
theorem RestartsAt.lt {n : ℕ+} {p past : List (Msg E)} {msg : Msg E} {g g' : Group}
    (hm : T.MembersOnly (past ++ [msg])) (h : T.RestartsAt n past msg g') (hp : p <+: past)
    (hr : T.roundAfter p = some (.number n, g)) :
    g.excluded ⊂ g'.excluded ∧ g'.participants ⊂ g.participants := by
  obtain ⟨⟨g₁, hr₁⟩, hr', hnot⟩ := h
  have hx : Ceremony.Excludes T (.number n) g₁ g' :=
    (round_concat hm hr₁ hr').resolve_left hnot
  obtain ⟨hexcl, hparts⟩ := lt_of_excludes (groupOf_roundAfter hr₁) hx
  obtain ⟨rest, rfl⟩ := hp
  rcases round_later hm.init hr with ⟨g₂, hr₂, h1, h2⟩ | hpast
  · rw [hr₁, Option.some.injEq, Prod.mk.injEq] at hr₂
    rw [← hr₂.2] at h1 h2
    exact ⟨h1.trans_ssubset hexcl, hparts.trans_subset h2⟩
  · exact absurd hr₁ (hpast.round_ne g₁)

/-- Fewer participants than the floor, and the epoch is skipped. -/
theorem restartKeyGenExcluding_skips {n : ℕ+} {x : Finset Address}
    (h : (T.eligibleFor n \ x).card < minParticipants (T.eligibleFor n).card) (s : State E)
    (d : Option Nat) :
    (T.restartKeyGenExcluding s (.number n) x d).1.rollover = .epochSkipped n := by
  have hnone : T.epochParticipants n x = none := by
    simp only [epochParticipants, participantsSet]
    exact if_neg fun hc => absurd hc.2 (not_le.mpr h)
  unfold restartKeyGenExcluding
  dsimp only
  rw [hnone]
  rfl

/-- The progress of the key generations of a run. -/
structure Progresses (T : Transition E) (ms : List (Msg E)) : Prop where
  /-- A restart excludes strictly more than every earlier round of its epoch; hence its
  participants and its group id are new. -/
  shrinks : ∀ n past msg g', past ++ [msg] <+: ms → T.RestartsAt n past msg g' →
    ∀ p g, p <+: past → T.roundAfter p = some (.number n, g) →
      g.excluded ⊂ g'.excluded ∧ g'.participants ⊂ g.participants ∧ g'.id ≠ g.id
  /-- No round runs below the floor. -/
  floor : ∀ n p g, p <+: ms → T.roundAfter p = some (.number n, g) →
    minParticipants (T.eligibleFor n).card ≤ g.participants.card
  /-- A restart below the floor skips the epoch instead. -/
  skips : ∀ (n : ℕ+) (x : Finset Address) (s : State E) (d : Option Nat),
    (T.eligibleFor n \ x).card < minParticipants (T.eligibleFor n).card →
      (T.restartKeyGenExcluding s (.number n) x d).1.rollover = .epochSkipped n
  /-- The restarts of an epoch are at most the participants above the floor. -/
  bounded : ∀ (n : ℕ+) (times : Finset ℕ),
    (∀ i ∈ times, ∃ past msg g', past.length = i ∧ past ++ [msg] <+: ms ∧
      T.RestartsAt n past msg g') →
    times.card ≤ (T.eligibleFor n).card - minParticipants (T.eligibleFor n).card
  /-- A group is joined at most once. -/
  once : (T.joined ms).Nodup

/-- The size of the round underway. -/
def sizeAfter (T : Transition E) (ms : List (Msg E)) : Nat :=
  ((T.roundAfter ms).map fun r => r.2.participants.card).getD 0

theorem sizeAfter_of_round {ms : List (Msg E)} {e : EpochId} {g : Group}
    (h : T.roundAfter ms = some (e, g)) : T.sizeAfter ms = g.participants.card := by
  rw [sizeAfter, h]
  rfl

/-- **Restarts are bounded**: each has a size of its own, between the floor and the eligible. -/
theorem card_restarts_le {ms : List (Msg E)} (hm : T.MembersOnly ms) (n : ℕ+) (times : Finset ℕ)
    (h : ∀ i ∈ times, ∃ past msg g', past.length = i ∧ past ++ [msg] <+: ms ∧
      T.RestartsAt n past msg g') :
    times.card ≤ (T.eligibleFor n).card - minParticipants (T.eligibleFor n).card := by
  have hprefix : ∀ {past : List (Msg E)}, past <+: ms → ms.take past.length = past :=
    fun hp => (List.prefix_iff_eq_take.mp hp).symm
  have hlt : ∀ i ∈ times, ∀ j ∈ times, i < j →
      T.sizeAfter (ms.take (j + 1)) < T.sizeAfter (ms.take (i + 1)) := by
    intro i hi j hj hij
    obtain ⟨past, msg, g, rfl, hp, -, hr, -⟩ := h i hi
    obtain ⟨past', msg', g', rfl, hp', hres⟩ := h j hj
    have htake := hprefix hp
    have htake' := hprefix hp'
    rw [List.length_append, List.length_singleton] at htake htake'
    have hle : past ++ [msg] <+: past' := by
      refine List.prefix_of_prefix_length_le hp ((List.prefix_append _ _).trans hp') ?_
      rw [List.length_append, List.length_singleton]
      exact hij
    obtain ⟨rest, hrest⟩ := hp'
    have hm' : T.MembersOnly (past' ++ [msg']) := (hrest ▸ hm).init
    rw [htake, htake', sizeAfter_of_round hr, sizeAfter_of_round hres.2.1]
    exact Finset.card_lt_card (hres.lt hm' hle hr).2
  have hmem : ∀ i ∈ times, T.sizeAfter (ms.take (i + 1)) ∈
      Finset.Ico (minParticipants (T.eligibleFor n).card) (T.eligibleFor n).card := by
    intro i hi
    obtain ⟨past, msg, g', rfl, hp, hres⟩ := h i hi
    have htake := hprefix hp
    rw [List.length_append, List.length_singleton] at htake
    obtain ⟨rest, hrest⟩ := hp
    have hm' : T.MembersOnly (past ++ [msg]) := (hrest ▸ hm).init
    obtain ⟨g, hr⟩ := hres.1
    have hg := (groupOf_roundAfter hr).number
    rw [htake, sizeAfter_of_round hres.2.1, Finset.mem_Ico]
    refine ⟨(groupOf_roundAfter hres.2.1).number.2.1, ?_⟩
    refine (Finset.card_lt_card (hres.lt hm' (List.prefix_refl _) hr).2).trans_le ?_
    rw [hg.1]
    exact Finset.card_le_card Finset.sdiff_subset
  rw [← Nat.card_Ico]
  refine Finset.card_le_card_of_injOn (fun i => T.sizeAfter (ms.take (i + 1))) hmem ?_
  intro i hi j hj heq
  rcases lt_trichotomy i j with hij | hij | hij
  · exact absurd heq (hlt i hi j hj hij).ne'
  · exact hij
  · exact absurd heq (hlt j hj i hi hij).ne

/-- **Key generation restarts make progress.**  Each excludes strictly more than every earlier
round of its epoch, so its participants and its id are new; the participants never drop below the
floor, where the epoch is skipped instead, so the restarts of an epoch are bounded; and the key
generation of a group is joined at most once. -/
theorem restarts_progress (T : Transition E) (ms : List (Msg E)) (hm : T.MembersOnly ms)
    (ha : T.IdsApart ms) : T.Progresses ms where
  shrinks := by
    intro n past msg g' hp hres p g hpp hr
    obtain ⟨rest, hrest⟩ := id hp
    have hm' : T.MembersOnly (past ++ [msg]) := (hrest ▸ hm).init
    obtain ⟨hexcl, hparts⟩ := hres.lt hm' hpp hr
    refine ⟨hexcl, hparts, fun hid => ?_⟩
    have hpms : p <+: ms := hpp.trans ((List.prefix_append _ _).trans hp)
    exact hparts.ne (ha.eq hp hpms hres.2.1 hr hid).2
  floor := fun _ _ _ _ hr => (groupOf_roundAfter hr).number.2.1
  skips := fun _ _ s d h => restartKeyGenExcluding_skips h s d
  bounded := card_restarts_le hm
  once := (joined_nodup hm ha).1

/-- Keccak-256 tells the groups of a run apart when it tells a list of groups apart that all its
rounds are in. -/
theorem idsApart_of_rounds {ms : List (Msg E)} (rounds : List (EpochId × Group))
    (hr : ∀ i ≤ ms.length, ∀ r ∈ T.roundAfter (ms.take i), r ∈ rounds)
    (h : ∀ a ∈ rounds, ∀ b ∈ rounds, a.2.id = b.2.id →
      a.2.participants = b.2.participants ∧ a.2.context = b.2.context)
    (hg : ∀ n : ℕ+, (n : Nat) ≤ u64Max →
      genesisContext E.keccak256 T.config.genesisSalt ≠ groupContext T.config.consensus n) :
    T.IdsApart ms where
  ids := by
    have hmem : ∀ {p : List (Msg E)} {e : EpochId} {g : Group}, p <+: ms →
        T.roundAfter p = some (e, g) → (e, g) ∈ rounds := by
      intro p e g hp hround
      rw [List.prefix_iff_eq_take.mp hp] at hround
      exact hr p.length hp.length_le (e, g) hround
    intro p p' e e' g g' hp hp' hround hround' hid
    exact h (e, g) (hmem hp hround) (e', g') (hmem hp' hround') hid
  genesis := hg

open Toy in
/-- One of four validators does not commit, and the epoch's key generation restarts without it. -/
theorem restarts_progress_stalled : (validator 1).Progresses (stalledRun 1) ∧
    ((validator 1).roundAfter (stalledRun 1)).map (·.2.excluded) = some {4} := by
  refine ⟨restarts_progress (validator 1) (stalledRun 1) (membersOnly_of_take ?_)
    (idsApart_of_rounds [(.genesis, group), (.number 1, epochGroup ∅), (.number 1, epochGroup {4})]
      ?_ ?_ ?_), ?_⟩
  · decide +kernel
  · decide +kernel
  · decide +kernel
  · intro n _ h
    have hval := congrArg Fin.val h
    change 0 = (77 * 2 ^ 64 + (n : Nat) % 2 ^ 64) % 2 ^ 256 at hval
    rw [Nat.mod_eq_of_lt] at hval
    · omega
    · omega
  · decide +kernel

end Transition

end Safenet
