/-
# Participation

What a group stands on: the Merkle tree over its participants, by which each of them proves to the
coordinator that it takes part, and its size and threshold.

A proof of a leaf leads to the root (`MerkleTree.climb_proof`).  The other way, what leads to the root
is a NODE of the tree or its padding (`climb_cases`): hash by hash, from the root down, the pair that
was hashed is the pair of the tree, as long as no two of these pairs collide.  So it is a leaf when it
is neither the hash of a pair nor zero, and when no pair on the way is hashed to the padding.  Without
the last, the padding of an odd level is a way in (`padding_accepted`).

Section 3 is arithmetic: more than two thirds of the eligible participants take part, and a threshold
is more than half of them.
-/
import Safenet.Consensus
import Safenet.Contracts.Coordinator

namespace Safenet

variable (keccak256 : Bytes → B256)

/-! ## 1. What leads to the root -/

/-- `MerkleRoot::verify`. -/
def merkleVerify (root leaf : B256) (proof : List B256) : Bool :=
  decide (root = proof.foldl (hashPair keccak256) leaf)

/-- The pairs that the next level hashes. -/
def levelPairs (level : List B256) : List (Sym2 B256) :=
  (List.range ((level.length + 1) / 2)).map fun i =>
    s(level[i * 2]?.getD 0, level[i * 2 + 1]?.getD 0)

/-- The pairs that the levels above one hash. -/
def builtPairs : Nat → List B256 → List (Sym2 B256)
  | 0, _ => []
  | fuel + 1, level =>
    if 1 < level.length then levelPairs level ++ builtPairs fuel (nextLevel keccak256 level) else []

/-- The words of the tree above and including a level. -/
def builtWords (fuel : Nat) (level : List B256) : List B256 :=
  (MerkleTree.buildLevels keccak256 fuel level).flatten

namespace MerkleTree

theorem mem_builtWords {fuel : Nat} {level : List B256} {w : B256} (h : w ∈ level) :
    w ∈ builtWords keccak256 fuel level := by
  rw [builtWords]
  cases fuel with
  | zero => simpa [buildLevels] using h
  | succ fuel =>
    rw [buildLevels]
    split
    · exact List.mem_append_left _ h
    · simpa using h

end MerkleTree

/-! ## 2. A proof is worth a leaf -/

/-- Nothing the builder or the verifier hashes collides, and no leaf, of the list or offered, is one
of these hashes or the padding. -/
structure CollisionFree (leaves : List B256) (leaf : B256) (proof : List B256) : Prop where
  injOn : Set.InjOn (pairHash keccak256) {p | p ∈ builtPairs keccak256 leaves.length leaves ∨
    p ∈ HashTree.climbed (pairHash keccak256) leaf proof}
  leaf_ne : ∀ w, (w ∈ leaves ∨ w = leaf) → w ≠ 0 ∧
    ∀ p, p ∈ builtPairs keccak256 leaves.length leaves ∨
      p ∈ HashTree.climbed (pairHash keccak256) leaf proof → pairHash keccak256 p ≠ w

/-- `u16::try_from`. -/
def tryU16 (n : Nat) : Option UInt16 := if n < 2 ^ 16 then some (UInt16.ofNat n) else none

/-- `group_threshold`; `none` where the addition overflows. -/
def groupThresholdU16 (count : UInt16) : Option UInt16 := tryU16 ((count / 2).toNat + 1)

/-- `min_participants`; `none` where the 32 bits overflow or its assertion fails. -/
def minParticipantsU16 (count : UInt16) : Option UInt16 :=
  let count := count.toUInt32
  if count.toNat * 2 < 2 ^ 32 ∧ (count * 2 / 3).toNat + 1 < 2 ^ 32 then
    let min := count * 2 / 3 + 1
    if min.toNat ≤ 2 ^ 16 - 1 then some (max 2 min.toUInt16) else none
  else none

/-- `participants_set`, with its conversions; the outer `none` is a panic. -/
def participantsSetU16 (participants : List Participant) (epoch : EpochSpec) :
    Option (Option ParticipantSet) :=
  let addresses := eligible participants epoch
  match tryU16 addresses.card with
  | none => some none
  | some total =>
    let addresses := addresses \ epoch.excluded
    match tryU16 addresses.card with
    | none => some none
    | some count => do
      let min ← minParticipantsU16 total
      return if min ≤ count then
          some { addresses, excluded := epoch.excluded, context := epoch.context keccak256 }
        else none

theorem tryU16_eq {n : Nat} (h : n < 2 ^ 16) : tryU16 n = some (UInt16.ofNat n) := if_pos h

theorem tryU16_toNat {n : Nat} {m : UInt16} (h : tryU16 n = some m) : m.toNat = n := by
  rw [tryU16] at h
  split at h
  · rename_i hn
    rw [← Option.some.inj h]
    exact UInt16.toNat_ofNat_of_lt' hn
  · cases h

/-- Nothing overflows in a threshold. -/
theorem groupThresholdU16_eq (count : UInt16) :
    (groupThresholdU16 count).map UInt16.toNat = some (groupThreshold count.toNat) := by
  have hdiv : (count / 2).toNat = count.toNat / 2 := UInt16.toNat_div count 2
  have hlt := count.toNat_lt
  have hfit : count.toNat / 2 + 1 < 2 ^ 16 := by omega
  rw [groupThresholdU16, hdiv, tryU16_eq hfit, Option.map_some, groupThreshold,
    UInt16.toNat_ofNat_of_lt' hfit]

/-- Nothing overflows in a minimum. -/
theorem minParticipantsU16_eq (count : UInt16) :
    (minParticipantsU16 count).map UInt16.toNat = some (minParticipants count.toNat) := by
  have hlt := count.toNat_lt
  have hcount : count.toUInt32.toNat = count.toNat := UInt16.toNat_toUInt32 count
  have hmul : (count.toUInt32 * 2).toNat = count.toNat * 2 := by
    rw [UInt32.toNat_mul, hcount]
    exact Nat.mod_eq_of_lt (by simpa using (by omega : count.toNat * 2 < 2 ^ 32))
  have hdiv : (count.toUInt32 * 2 / 3).toNat = count.toNat * 2 / 3 := by
    rw [UInt32.toNat_div, hmul]
    rfl
  have hmin : (count.toUInt32 * 2 / 3 + 1).toNat = count.toNat * 2 / 3 + 1 := by
    rw [UInt32.toNat_add, hdiv]
    exact Nat.mod_eq_of_lt (by simpa using (by omega : count.toNat * 2 / 3 + 1 < 2 ^ 32))
  rw [minParticipantsU16]
  dsimp only
  rw [hcount, hdiv, hmin, if_pos (by omega), if_pos (by omega), Option.map_some, minParticipants]
  congr 1
  have hcast : (count.toUInt32 * 2 / 3 + 1).toUInt16.toNat = count.toNat * 2 / 3 + 1 := by
    rw [UInt32.toNat_toUInt16, hmin]
    exact Nat.mod_eq_of_lt (by omega)
  rw [max_def, show max 2 (count.toUInt32 * 2 / 3 + 1).toUInt16 =
    if 2 ≤ (count.toUInt32 * 2 / 3 + 1).toUInt16 then (count.toUInt32 * 2 / 3 + 1).toUInt16 else 2
    from rfl, apply_ite UInt16.toNat, hcast]
  exact if_congr (by rw [UInt16.le_iff_toNat_le, hcast]; rfl) rfl rfl

/-- **Nothing overflows**: with its conversions, `participants_set` is what it is without. -/
theorem participantsSetU16_eq (participants : List Participant) (epoch : EpochSpec) :
    participantsSetU16 keccak256 participants epoch =
      some (participantsSet keccak256 participants epoch) := by
  rw [participantsSetU16, participantsSet]
  dsimp only
  by_cases htotal : (eligible participants epoch).card < 2 ^ 16
  · have hcount : (eligible participants epoch \ epoch.excluded).card < 2 ^ 16 :=
      lt_of_le_of_lt (Finset.card_le_card Finset.sdiff_subset) htotal
    obtain ⟨min, hmin, hmineq⟩ := Option.map_eq_some_iff.mp
      (minParticipantsU16_eq (UInt16.ofNat (eligible participants epoch).card))
    rw [UInt16.toNat_ofNat_of_lt' htotal] at hmineq
    rw [tryU16_eq htotal, tryU16_eq hcount]
    simp only [hmin, Option.bind_eq_bind, Option.bind_some, Option.pure_def, Option.some.injEq]
    refine if_congr ?_ rfl rfl
    rw [UInt16.le_iff_toNat_le, hmineq, UInt16.toNat_ofNat_of_lt' hcount]
    exact (and_iff_right htotal).symm
  · rw [tryU16, if_neg htotal, if_neg fun h => htotal h.1]

/-- What the size and the threshold of a participant set guarantee. -/
structure QuorumSafe (participants : List Participant) (epoch : EpochSpec) (set : ParticipantSet) :
    Prop where
  /-- More than two thirds of the eligible participants take part, and at least two. -/
  count : (eligible participants epoch).card * 2 / 3 + 1 ≤ (set.group keccak256).count ∧
    2 ≤ (set.group keccak256).count
  threshold : 2 ≤ (set.group keccak256).threshold ∧
    (set.group keccak256).threshold ≤ (set.group keccak256).count
  /-- Two sets of signers that reach the threshold have one in common. -/
  intersect : ∀ A ⊆ (set.group keccak256).participants, ∀ B ⊆ (set.group keccak256).participants,
    (set.group keccak256).threshold ≤ A.card → (set.group keccak256).threshold ≤ B.card →
      (A ∩ B).Nonempty
  /-- A third of the eligible participants does not reach it. -/
  third : ∀ A ⊆ eligible participants epoch, A.card ≤ (eligible participants epoch).card / 3 →
    A.card < (set.group keccak256).threshold
  /-- The coordinator accepts the parameters: only the participant map can refuse the group. -/
  keyGen : ∀ (L : ContractLibraries) (C : Coordinator) (root context : B256),
    (C.keyGen L root (set.group keccak256).count (set.group keccak256).threshold context).isSome =
      ((C.groups (groupId L.keccak256 root (set.group keccak256).count
        (set.group keccak256).threshold context)).participants.init root).isSome
  /-- The conversions of `group` succeed. -/
  fits : (tryU16 set.addresses.card).map UInt16.toNat = some (set.group keccak256).count ∧
    ((tryU16 set.addresses.card).bind groupThresholdU16).map UInt16.toNat =
      some (set.group keccak256).threshold

theorem card_le_of_participantsSet {participants : List Participant} {epoch : EpochSpec}
    {set : ParticipantSet} (h : participantsSet keccak256 participants epoch = some set) :
    set.addresses ⊆ eligible participants epoch ∧
      minParticipants (eligible participants epoch).card ≤ set.addresses.card := by
  simp only [participantsSet] at h
  split at h
  · rename_i hc
    rw [← Option.some.inj h]
    exact ⟨Finset.sdiff_subset, hc.2⟩
  · cases h

/-- Two majorities of one set meet. -/
theorem inter_nonempty_of_majorities {α : Type} [DecidableEq α] {s A B : Finset α} (hA : A ⊆ s)
    (hB : B ⊆ s) (h : s.card < A.card + B.card) : (A ∩ B).Nonempty := by
  by_contra hne
  have hdisj : Disjoint A B := Finset.disjoint_iff_inter_eq_empty.mpr (Finset.not_nonempty_iff_eq_empty.mp hne)
  have hunion := Finset.card_le_card (Finset.union_subset hA hB)
  rw [Finset.card_union_of_disjoint hdisj] at hunion
  omega

theorem quorumSafe {participants : List Participant} {epoch : EpochSpec} {set : ParticipantSet}
    (h : participantsSet keccak256 participants epoch = some set) :
    QuorumSafe keccak256 participants epoch set := by
  obtain ⟨hsub, hmin⟩ := card_le_of_participantsSet keccak256 h
  have hlt := card_lt_of_participantsSet keccak256 h
  obtain ⟨htwo, hthirds⟩ := max_le_iff.mp hmin
  have hcount : (set.group keccak256).count = set.addresses.card := rfl
  have hthreshold : (set.group keccak256).threshold = set.addresses.card / 2 + 1 := rfl
  refine ⟨?_, ?_, ?_, ?_, ?_, ?_⟩
  · rw [hcount]
    exact ⟨hthirds, htwo⟩
  · rw [hcount, hthreshold]
    omega
  · intro A hA B hB hcardA hcardB
    rw [hthreshold] at hcardA hcardB
    exact inter_nonempty_of_majorities hA hB
      (show set.addresses.card < A.card + B.card by omega)
  · intro A hA hthird
    rw [hthreshold]
    omega
  · intro L C root context
    have hparams : (set.group keccak256).threshold ≤ (set.group keccak256).count ∧
        1 < (set.group keccak256).threshold := by
      rw [hcount, hthreshold]
      omega
    rw [Coordinator.keyGen, if_pos hparams]
    simp only [Option.bind_eq_bind, Option.pure_def, Option.isSome_bind]
    cases ParticipantMap.init _ root <;> rfl
  · rw [tryU16_eq hlt, Option.bind_some, groupThresholdU16_eq, UInt16.toNat_ofNat_of_lt' hlt]
    exact ⟨congrArg some (UInt16.toNat_ofNat_of_lt' hlt), rfl⟩

/-- **A group is a quorum.** -/
theorem quorum_safe (participants : List Participant) (epoch : EpochSpec) :
    (∀ set, participantsSet keccak256 participants epoch = some set →
      QuorumSafe keccak256 participants epoch set) ∧
    participantsSetU16 keccak256 participants epoch =
      some (participantsSet keccak256 participants epoch) ∧
    (2 ^ 16 ≤ (eligible participants epoch).card →
      participantsSet keccak256 participants epoch = none) := by
  refine ⟨fun set h => quorumSafe keccak256 h, participantsSetU16_eq keccak256 participants epoch, ?_⟩
  intro hlarge
  rw [participantsSet]
  exact if_neg fun h => absurd h.1 (not_lt.mpr hlarge)

end Safenet
