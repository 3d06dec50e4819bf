/-
# A key generation in which everyone is honest

The exchange of `Frost/Sharing.lean`, driven by the validator.  When every participant committed
by the rules, everyone's dealing succeeds, each share is accepted by each recipient, and a round
in which the shares arrive -- in any order -- says nothing until the last of them and then
confirms, with a value of one polynomial as the key share (`sharing_exact`).
-/
import Safenet.Frost.Sharing
import Safenet.Validator.Rollover

namespace Safenet

open Secp256k1

namespace Frost

variable {E : Crates}

/-! ## 1. Everyone deals -/

/-- Everyone committed by the rules, to a polynomial with `threshold` coefficients. -/
structure AllHonest (F : Dealing E) (commitments : BTreeMap Address (VerifiedCommitment E))
    (threshold : Nat) (secrets : Address → Secrets E) : Prop where
  /-- The number of participants is a `u16`. -/
  small : commitments.size < 2 ^ 16
  ids : DistinctIds E commitments
  honest : ∀ a : Address, (commitments[a]?).isSome → Honest F commitments a (secrets a)
  minSigners : ∀ a : Address, (commitments[a]?).isSome →
    (secrets a).secretPackage.minSigners = threshold
  maxSigners : ∀ a : Address, (commitments[a]?).isSome →
    (secrets a).secretPackage.maxSigners = commitments.size
  proved : ∀ (a : Address) (c : VerifiedCommitment E), commitments[a]? = some c →
    E.verifyProofOfKnowledge (E.derive a) c.package.commitment c.package.proofOfKnowledge = .ok ()

section Everyone

variable {F : Dealing E} {commitments : BTreeMap Address (VerifiedCommitment E)} {t : Nat}
  {secrets : Address → Secrets E}

/-- The dealers' polynomials, all of one length. -/
theorem AllHonest.committed (h : AllHonest F commitments t secrets) :
    Committed F commitments (fun a => (secrets a).polynomial F) t := by
  intro a c hc
  have hsome : (commitments[a]?).isSome := by rw [hc]; rfl
  have ha := h.honest a hsome
  rw [ha.recorded, Option.some.injEq] at hc
  subst hc
  refine ⟨ha.committed, ?_⟩
  change ((secrets a).polynomial F).length = t
  rw [Secrets.polynomial, List.length_map, ha.length, h.minSigners a hsome]

/-- **Dealing succeeds.** -/
theorem AllHonest.deals (h : AllHonest F commitments t secrets) {a : Address}
    (hsome : (commitments[a]?).isSome) :
    ∃ s share, generateSecretShares E (secrets a) commitments = .ok (s, share) := by
  have ha := h.honest a hsome
  have hlengths : ∀ (b : Address) (c : VerifiedCommitment E), commitments[b]? = some c →
      c.package.commitment.length = t := fun b c hc =>
    (h.committed b c hc).1.length.trans (h.committed b c hc).2
  obtain ⟨peers, hpeers, hget, hsize, -⟩ :=
    peerPackages_ok (·.package) h.ids ha.recorded
  obtain ⟨⟨own, packages⟩, hown⟩ := F.part2_ok (secrets a).secretPackage peers
    (by rw [hsize, h.maxSigners a hsome]) fun i package hi => by
      obtain ⟨b, c, hb, -, rfl, rfl⟩ := (hget i package).mp hi
      exact ⟨by rw [hlengths b c hb, h.minSigners a hsome], h.proved b c hb⟩
  obtain ⟨⟨hid, hcommitment, -, -⟩, -, -, hpackages, -⟩ := F.part2_spec _ _ _ _ hown
  obtain ⟨sum, hsum, hlength, -⟩ := F.sumCommitments_ok
    (commitments.values.map (·.package.commitment)) t
    (fun hnil => by
      have hmem := (BTreeMap.mem_values commitments _).mpr ⟨a, ha.recorded⟩
      rw [List.map_eq_nil_iff.mp hnil] at hmem
      exact nomatch hmem)
    (List.forall_mem_map.mpr fun c hc => by
      obtain ⟨b, hb⟩ := (BTreeMap.mem_values _ _).mp hc
      exact hlengths b c hb)
  obtain ⟨c, rest, rfl⟩ := List.exists_cons_of_length_pos
    (by rw [hlength, ← h.minSigners a hsome]; exact ha.positive : 0 < sum.length)
  have hencrypt : ∀ e ∈ commitments.toList.filter fun e => E.derive e.1 ≠ own.identifier,
      ∃ y, encryptFor (secrets a).encryptionKey packages e = .ok y := by
    intro e he
    obtain ⟨hmem, hother⟩ := List.mem_filter.mp he
    rw [decide_eq_true_iff, hid, ha.identifier] at hother
    have hsome' : (packages[E.derive e.1]?).isSome := by
      rw [hpackages, (hget _ _).mpr ⟨e.1, e.2, (BTreeMap.mem_toList_iff _ _ _).mp hmem,
        fun heq => hother (congrArg E.derive heq), rfl, rfl⟩]
      rfl
    obtain ⟨package, hpackage⟩ := Option.isSome_iff_exists.mp hsome'
    unfold encryptFor
    rw [hpackage]
    exact ⟨_, rfl⟩
  choose! mask hmask using hencrypt
  exact ⟨_, _, generateSecretShares_eq_ok.mpr ⟨peers, _, own, packages, _, c, _,
    ha.identifier ▸ hpeers, hown, hcommitment.symm, hsum, F.verifyingKey_cons c rest,
    mapM_eq_ok hmask, rfl, rfl⟩⟩

end Everyone

/-- A share of the key whose polynomial is given. -/
structure KeyShare.Of (F : Dealing E) (polynomial : Polynomial (ZMod N)) (threshold : Nat)
    (key : E.Element) (a : Address) (keyShare : KeyShare E) : Prop where
  identifier : keyShare.keyPackage.identifier = E.derive a
  minSigners : keyShare.keyPackage.minSigners = threshold
  verifyingKey : keyShare.keyPackage.verifyingKey = key
  signingShare : F.scalar keyShare.keyPackage.signingShare =
    polynomial.eval (F.identifier (E.derive a))

section Everyone

variable {F : Dealing E} {commitments : BTreeMap Address (VerifiedCommitment E)} {t : Nat}
  {secrets : Address → Secrets E} {state : Address → SharingState E}
  {share : Address → KeyGenSecretShare}

/-- The polynomial of the group that these secrets make. -/
noncomputable def secretPolynomial (F : Dealing E)
    (commitments : BTreeMap Address (VerifiedCommitment E)) (secrets : Address → Secrets E) :
    Polynomial (ZMod N) :=
  groupPolynomial commitments fun a => (secrets a).polynomial F

/-- The shares a recipient verified: the dealers' values. -/
def Verified (F : Dealing E) (secrets : Address → Secrets E) (j : Address)
    (shares : BTreeMap Address (VerifiedShare E)) : Prop :=
  ∀ (a : Address) (v : VerifiedShare E), shares[a]? = some v →
    F.scalar v.package.signingShare = valueAt F ((secrets a).polynomial F) j

/-- **Everyone's verified shares finalize**, to a share of the group's key. -/
theorem AllHonest.finalizes (h : AllHonest F commitments t secrets)
    (hdeal : ∀ a : Address, (commitments[a]?).isSome →
      generateSecretShares E (secrets a) commitments = .ok (state a, share a))
    {j : Address} (hj : (commitments[j]?).isSome) {shares : BTreeMap Address (VerifiedShare E)}
    (hkeys : ∀ a : Address, (shares[a]?).isSome = (commitments[a]?).isSome)
    (hverified : Verified F secrets j shares) :
    ∃ keyShare, finalize E (state j) shares = .ok keyShare ∧
      keyShare.Of F (secretPolynomial F commitments secrets) t
        (state j).groupCommitments.verifyingKey j := by
  have hjh := h.honest j hj
  obtain ⟨key, hok, hid, hmin, hkey, hvalue, -⟩ := finalize_ok h.ids hjh.toSampled
    (hjh.dealt h.ids (hdeal j hj)) (groupCommitments_of_shares E (hdeal j hj)) h.committed hkeys
    hverified
  exact ⟨_, hok, hid, hmin.trans (h.minSigners j hj), hkey, hvalue⟩

end Everyone

end Frost

/-! ## 2. The round of shares -/

namespace Transition

open Frost

variable {E : Crates} (T : Transition E)

/-- An accepted share is registered without a complaint. -/
theorem registerShare_accepted {c : CollectingShares E} {s : SharingState E} (block : Nat)
    {p : Address} {share : KeyGenSecretShare} {publicKey : PublicKeyShare E} {v : VerifiedShare E}
    (hpart : c.participation = .participating s)
    (hpublic : verifySecretShare E s.groupCommitments p share = .ok (publicKey, share.f))
    (hv : verifyEncryptedSecretShare E s p share.f = .ok v) :
    T.registerShare c block p share = ({ c with
      publicKeys := c.publicKeys.insert p publicKey, shares := c.shares.insert p v }, []) := by
  unfold registerShare
  have hcommitments : c.participation.groupCommitments = s.groupCommitments := by
    rw [hpart]
    rfl
  rw [hcommitments, hpublic]
  dsimp only
  rw [hpart]
  dsimp only
  rw [hv]

/-- The logs of a round in which everyone shares. -/
def ShareLogs (gid : B256) (share : Address → KeyGenSecretShare) (as : List Address)
    (ms : List (Msg E)) : Prop :=
  List.Forall₂ (fun a m => ∃ log : EventLog Event, m = .event log ∧
    log.data = .keyGenSecretShared gid a (share a)) as ms

section Round

variable {T : Transition E} {F : Dealing E} {commitments : BTreeMap Address (VerifiedCommitment E)}
  {t : Nat} {secrets : Address → Secrets E} {state : Address → SharingState E}
  {share : Address → KeyGenSecretShare} {j : Address}

/-- How far a round in which everyone shares has come: `done` have shared. -/
structure Shared (F : Dealing E) (secrets : Address → Secrets E) (s : SharingState E) (j : Address)
    (count : Nat) (done : Finset Address) (c : CollectingShares E) : Prop where
  participation : c.participation = .participating s
  count : c.group.count = count
  publicKeys : BTreeMap.keySet c.publicKeys = done
  shares : BTreeMap.keySet c.shares = done
  verified : Verified F secrets j c.shares

/-- One more share. -/
theorem registerShare_shared (h : AllHonest F commitments t secrets)
    (hdeal : ∀ a : Address, (commitments[a]?).isSome →
      generateSecretShares E (secrets a) commitments = .ok (state a, share a))
    (hj : (commitments[j]?).isSome) {a : Address} (ha : (commitments[a]?).isSome) {count : Nat}
    {done : Finset Address} {c : CollectingShares E} (block : Nat)
    (hc : Shared F secrets (state j) j count done c) :
    ∃ c', T.registerShare c block a (share a) = (c', []) ∧ c'.nextEpoch = c.nextEpoch ∧
      c'.group = c.group ∧ Shared F secrets (state j) j count (insert a done) c' := by
  have hpublic := verifySecretShare_dealt F (h.honest a ha).identifier ha (hdeal a ha)
    (groupCommitments_of_shares E (hdeal j hj))
  obtain ⟨v, hv, hvalue⟩ := verify_dealt h.ids (h.honest a ha) (h.honest j hj) (hdeal a ha)
    (hdeal j hj)
  refine ⟨_, T.registerShare_accepted block hc.participation hpublic hv, rfl, rfl,
    hc.participation, hc.count, ?_, ?_, ?_⟩
  · rw [BTreeMap.keySet_insert, hc.publicKeys]
  · rw [BTreeMap.keySet_insert, hc.shares]
  · intro b w hw
    rw [BTreeMap.get_insert] at hw
    split at hw
    · next hb =>
      rw [Option.some.injEq] at hw
      rw [← hw, hb]
      exact hvalue
    · exact hc.verified b w hw

/-- **The round says nothing until the last share, and then confirms.** -/
theorem round_confirms (h : AllHonest F commitments t secrets)
    (hdeal : ∀ a : Address, (commitments[a]?).isSome →
      generateSecretShares E (secrets a) commitments = .ok (state a, share a))
    (hj : (commitments[j]?).isSome) {gid : B256} {as : List Address} {ms : List (Msg E)}
    {σ : State E} {c : CollectingShares E} (done : Finset Address) (hlogs : ShareLogs gid share as ms)
    (hroll : σ.rollover = .collectingShares c) (hgroup : c.group.id = gid)
    (hc : Shared F secrets (state j) j commitments.size done c) (hne : as ≠ []) (hnodup : as.Nodup)
    (hnew : ∀ a ∈ as, a ∉ done) (hall : done ∪ as.toFinset = BTreeMap.keySet commitments) :
    ∃ keyShare callback deadline c', (keyShare.Of F (secretPolynomial F commitments secrets) t
        (state j).groupCommitments.verifyingKey j) ∧
      Reactive.runOutputs T.applyTransition σ ms =
        [.action (.keyGenConfirm gid callback deadline),
          .effect (.startNonceGeneration gid keyShare)] ∧
      (Reactive.runState T.applyTransition σ ms).rollover = .collectingConfirmations c' ∧
      c'.group = c.group ∧ c'.status = .confirmed keyShare := by
  induction hlogs generalizing σ c done with
  | nil => exact absurd rfl hne
  | @cons a m as ms hlog hrest ih =>
    obtain ⟨log, rfl, hdata⟩ := hlog
    have hsmall := h.small
    have ha : (commitments[a]?).isSome := by
      rw [← BTreeMap.mem_keySet, ← hall]
      exact Finset.mem_union_right _ (List.mem_toFinset.mpr List.mem_cons_self)
    obtain ⟨c', hreg, -, hgroup', hc'⟩ := registerShare_shared (T := T) h hdeal hj ha log.block hc
    have hdone : done.card + 1 = (insert a done).card :=
      (Finset.card_insert_of_notMem (hnew a List.mem_cons_self)).symm
    have hpublic : c'.publicKeys.size = done.card + 1 := by
      rw [← BTreeMap.card_keySet, hc'.publicKeys, hdone]
    have hshares : c'.shares.size = done.card + 1 := by
      rw [← BTreeMap.card_keySet, hc'.shares, hdone]
    have hsize : commitments.size = done.card + 1 + as.length := by
      have hdisjoint : Disjoint done (a :: as).toFinset :=
        Finset.disjoint_left.mpr fun b hb hmem => hnew b (List.mem_toFinset.mp hmem) hb
      rw [← BTreeMap.card_keySet, ← hall, Finset.card_union_of_disjoint hdisjoint,
        List.toFinset_card_of_nodup hnodup, List.length_cons]
      omega
    have hstep : T.applyTransition σ (.event log) =
        T.handleKeyGenSecretShared σ log.block gid a (share a) := by
      change T.applyEvent σ log = _
      unfold applyEvent
      rw [hdata]
    unfold handleKeyGenSecretShared at hstep
    rw [hroll] at hstep
    dsimp only at hstep
    rw [if_pos hgroup, hreg] at hstep
    dsimp only at hstep
    rw [hpublic, hc'.count] at hstep
    by_cases hlast : as = []
    · subst hlast
      cases hrest
      have hkeys : ∀ b : Address, (c'.shares[b]?).isSome = (commitments[b]?).isSome := by
        intro b
        rw [Bool.eq_iff_iff, ← BTreeMap.mem_keySet, ← BTreeMap.mem_keySet, hc'.shares, ← hall,
          Finset.insert_eq, Finset.union_comm]
        rfl
      obtain ⟨keyShare, hfinalize, hof⟩ := h.finalizes hdeal hj hkeys hc'.verified
      rw [List.length_nil, add_zero] at hsize
      have hcount : asU16 (done.card + 1) = commitments.size := by
        rw [← hsize, asU16_of_lt hsmall]
      rw [if_neg (not_not.mpr hcount), hc'.participation] at hstep
      dsimp only at hstep
      rw [hshares, if_pos hcount] at hstep
      unfold confirmKeyGen at hstep
      rw [hfinalize] at hstep
      refine ⟨keyShare, T.keyGenConfirmationCallback c'.nextEpoch,
        (T.confirmationDeadlines log.block c'.deadline).map (·.confirm),
        { nextEpoch := c'.nextEpoch, group := c'.group, participation := .participating (state j)
          status := .confirmed keyShare, confirmations := ∅, complaints := c'.complaints
          deadlines := T.confirmationDeadlines log.block c'.deadline },
        hof, ?_, ?_, hgroup', rfl⟩
      · change (T.applyTransition σ (.event log)).2 ++ [] = _
        rw [List.append_nil, hstep, hgroup', hgroup]
        rfl
      · change (T.applyTransition σ (.event log)).1.rollover = _
        rw [hstep]
        rfl
    · have hpositive := List.length_pos_iff.mpr hlast
      rw [if_pos (by rw [asU16_of_lt (by omega)]; omega)] at hstep
      obtain ⟨keyShare, callback, deadline, c'', hof, hout, hroll'', hgroup'', hstatus⟩ :=
        ih (insert a done) (σ := { σ with rollover := .collectingShares c' }) rfl (hgroup'.symm ▸ hgroup) hc' hlast
          (List.nodup_cons.mp hnodup).2
          (fun b hb hmem => by
            rcases Finset.mem_insert.mp hmem with rfl | hmem
            · exact (List.nodup_cons.mp hnodup).1 hb
            · exact hnew b (List.mem_cons_of_mem _ hb) hmem)
          (by rw [← hall, List.toFinset_cons, Finset.insert_union, Finset.union_insert])
      refine ⟨keyShare, callback, deadline, c'', hof, ?_, ?_, hgroup''.trans hgroup', hstatus⟩
      · change (T.applyTransition σ (.event log)).2 ++
          Reactive.runOutputs T.applyTransition (T.applyTransition σ (.event log)).1 _ = _
        rw [hstep]
        exact hout
      · rw [Reactive.runState_cons, hstep]
        exact hroll''

end Round

end Transition

/-! ## 3. The exchange -/

namespace Frost

variable {E : Crates}

/-- **What an exchange between honest participants comes to.** -/
structure Exchanged (F : Dealing E) (commitments : BTreeMap Address (VerifiedCommitment E))
    (threshold : Nat) (secrets : Address → Secrets E) (state : Address → SharingState E)
    (share : Address → KeyGenSecretShare) : Prop where
  dealt : ∀ i : Address, (commitments[i]?).isSome →
    generateSecretShares E (secrets i) commitments = .ok (state i, share i)
  /-- What one dealt the other decrypts, at the place it looks at. -/
  accepted : ∀ i j : Address, (commitments[i]?).isSome → (commitments[j]?).isSome →
    (∃ publicKey, verifySecretShare E (state j).groupCommitments i (share i) =
      .ok (publicKey, (share i).f)) ∧
    ∃ v, verifyEncryptedSecretShare E (state j) i (share i).f = .ok v ∧
      F.scalar v.package.signingShare = valueAt F ((secrets i).polynomial F) j
  revealed : ∀ (i j : Address) (g : GroupCommitments E), (commitments[i]?).isSome →
    (commitments[j]?).isSome → j ≠ i → groupCommitments E commitments = .ok g →
    ∃ w v, revealSecretShare E (state i) j = .ok w ∧ verifyRevealedSecretShare E g j i w = .ok v ∧
      F.scalar v.package.signingShare = valueAt F ((secrets i).polynomial F) j
  /-- The shares arrive, in any order: nobody complains, and everyone confirms. -/
  uncomplained : ∀ (T : Transition E) (j : Address) (nextEpoch : EpochId) (group : Group)
    (deadline : Option Nat) (σ : State E) (as : List Address) (ms : List (Msg E)),
    (commitments[j]?).isSome → group.count = commitments.size →
    σ.rollover = (Transition.finalizeKeyGenCommitments nextEpoch group (some (secrets j)) commitments
      deadline).1 → as.Perm commitments.keys → Transition.ShareLogs group.id share as ms →
    ∃ keyShare callback deadline', (keyShare.Of F (secretPolynomial F commitments secrets) threshold
        (state j).groupCommitments.verifyingKey j) ∧
      Reactive.runOutputs T.applyTransition σ ms =
        [.action (.keyGenConfirm group.id callback deadline'),
          .effect (.startNonceGeneration group.id keyShare)]
  finalized : ∀ (j : Address) (shares : BTreeMap Address (VerifiedShare E)),
    (commitments[j]?).isSome → (∀ i : Address, (shares[i]?).isSome = (commitments[i]?).isSome) →
    (∀ (i : Address) (v : VerifiedShare E), shares[i]? = some v →
      verifyEncryptedSecretShare E (state j) i (share i).f = .ok v) →
    ∃ keyShare, finalize E (state j) shares = .ok keyShare ∧
      keyShare.Of F (secretPolynomial F commitments secrets) threshold
        (state j).groupCommitments.verifyingKey j
  key : (secretPolynomial F commitments secrets).degree < threshold ∧
    ∀ j : Address, (commitments[j]?).isSome → F.point (state j).groupCommitments.verifyingKey =
      mulG ((secretPolynomial F commitments secrets).eval 0)

theorem AllHonest.exchanged {F : Dealing E} {commitments : BTreeMap Address (VerifiedCommitment E)}
    {t : Nat} {secrets : Address → Secrets E} (h : AllHonest F commitments t secrets)
    {state : Address → SharingState E} {share : Address → KeyGenSecretShare}
    (hdeal : ∀ a : Address, (commitments[a]?).isSome →
      generateSecretShares E (secrets a) commitments = .ok (state a, share a)) :
    Exchanged F commitments t secrets state share where
  dealt := hdeal
  accepted i j hi hj :=
    ⟨⟨_, verifySecretShare_dealt F (h.honest i hi).identifier hi (hdeal i hi)
        (groupCommitments_of_shares E (hdeal j hj))⟩,
      verify_dealt h.ids (h.honest i hi) (h.honest j hj) (hdeal i hi) (hdeal j hj)⟩
  revealed i j g hi hj hne hg := verify_revealed h.ids (h.honest i hi) (hdeal i hi)
    (groupCommitments_eq_ok.mp hg).1 hj hne
  uncomplained T j nextEpoch group deadline σ as ms hj hcount hroll hperm hlogs := by
    unfold Transition.finalizeKeyGenCommitments at hroll
    dsimp only at hroll
    rw [hdeal j hj] at hroll
    have hall : ∅ ∪ as.toFinset = BTreeMap.keySet commitments := by
      rw [Finset.empty_union, BTreeMap.keySet, List.toFinset_eq_of_perm _ _ hperm]
    have hne : as ≠ [] := by
      rintro rfl
      have hmem := (BTreeMap.mem_keySet commitments j).mpr hj
      rw [← hall] at hmem
      exact absurd hmem (Finset.notMem_empty j)
    obtain ⟨keyShare, callback, deadline', -, hof, hout, -⟩ :=
      Transition.round_confirms (T := T) h hdeal hj ∅ hlogs hroll rfl
        ⟨rfl, hcount, BTreeMap.keySet_empty, BTreeMap.keySet_empty, fun a v hv => by simp at hv⟩ hne
        (hperm.nodup_iff.mpr Std.ExtTreeMap.nodup_keys) (fun a _ => Finset.notMem_empty a) hall
    exact ⟨keyShare, callback, deadline', hof, hout⟩
  finalized j shares hj hkeys hverified := by
    refine h.finalizes hdeal hj hkeys fun i v hv => ?_
    have hi : (commitments[i]?).isSome := by
      rw [← hkeys, hv]
      rfl
    obtain ⟨v', hv', hvalue⟩ :=
      verify_dealt h.ids (h.honest i hi) (h.honest j hj) (hdeal i hi) (hdeal j hj)
    rw [hverified i v hv, Except.ok.injEq] at hv'
    rw [hv']
    exact hvalue
  key := by
    refine ⟨degree_groupPolynomial h.committed, fun j hj => ?_⟩
    refine point_groupKey h.committed (fun hnil => ?_) (groupCommitments_of_shares E (hdeal j hj)) ?_
    · have hmem := (BTreeMap.mem_toList_iff commitments _ _).mpr (h.honest j hj).recorded
      rw [hnil] at hmem
      exact absurd hmem List.not_mem_nil
    · rw [← h.minSigners j hj]
      exact (h.honest j hj).positive

/-- **The exchange of shares is complete and sound.**  Whatever passes verification is the committed
polynomial's value at the one it is for, whoever dealt it; and when everyone is honest everything
dealt passes, nobody complains, and the key shares are values of one polynomial whose constant term
is the group key. -/
theorem sharing_exact (F : Dealing E) :
    (∀ (commitments : BTreeMap Address (VerifiedCommitment E)) (j : Address) (secrets : Secrets E)
        (s : SharingState E) (share : KeyGenSecretShare), DistinctIds E commitments →
      Honest F commitments j secrets →
      generateSecretShares E secrets commitments = .ok (s, share) →
      ∀ (i : Address) (c : VerifiedCommitment E) (coefficients : List (ZMod N)),
        commitments[i]? = some c → CommitsTo F c.package.commitment coefficients →
        (∀ encrypted v, verifyEncryptedSecretShare E s i encrypted = .ok v →
          F.scalar v.package.signingShare = valueAt F coefficients j) ∧
        ∀ plaintiff w v, verifyRevealedSecretShare E s.groupCommitments plaintiff i w = .ok v →
          F.scalar v.package.signingShare = valueAt F coefficients plaintiff) ∧
    ∀ (commitments : BTreeMap Address (VerifiedCommitment E)) (threshold : Nat)
      (secrets : Address → Secrets E), AllHonest F commitments threshold secrets →
      ∃ state share, Exchanged F commitments threshold secrets state share := by
  refine ⟨fun commitments j secrets s share hids hj hdeal i c coefficients hi hcommits => ?_,
    fun commitments threshold secrets h => ?_⟩
  · have hd := hj.dealt hids hdeal
    refine ⟨fun encrypted v hv => hd.verifyEncrypted_sound hids hi hcommits hv,
      fun plaintiff w v hv => verifyRevealed_sound (by rw [hd.group]; exact hi) hcommits hv⟩
  · have hdeals : ∀ a : Address, ∃ s share, (commitments[a]?).isSome →
        generateSecretShares E (secrets a) commitments = .ok (s, share) := by
      intro a
      by_cases ha : (commitments[a]?).isSome
      · obtain ⟨s, share, hdeal⟩ := h.deals ha
        exact ⟨s, share, fun _ => hdeal⟩
      · -- someone else's state plays no part
        exact ⟨⟨(secrets a).encryptionKey, ⟨(secrets a).secretPackage.identifier, [],
          (secrets a).encryptionKey, 0, 0⟩, ∅, ⟨∅, [], E.identity⟩⟩, ⟨⟨0, 0⟩, []⟩,
          fun hsome => absurd hsome ha⟩
    choose state share hdeal using hdeals
    exact ⟨state, share, h.exchanged hdeal⟩

/-! ## 4. The assumptions hold together -/

namespace Reference

theorem forM_eq_ok {α : Type} {f : α → Except FrostError Unit} {xs : List α} :
    xs.forM f = .ok () ↔ ∀ x ∈ xs, f x = .ok () := by
  induction xs with
  | nil => exact iff_of_true rfl fun x hx => nomatch hx
  | cons x xs ih =>
    rw [List.forM_eq_forM, List.forM_cons, Except.bind_eq_ok, List.forall_mem_cons, ← ih]
    exact ⟨fun ⟨_, hx, hxs⟩ => ⟨hx, hxs⟩, fun ⟨hx, hxs⟩ => ⟨_, hx, hxs⟩⟩

theorem sumCommitments_ok (commitments : List (List CurvePoint)) (t : Nat) (hne : commitments ≠ [])
    (hlength : ∀ c ∈ commitments, c.length = t) :
    ∃ sum, sumCommitments commitments = .ok sum ∧ sum.length = t ∧
      ∀ k, sum.getD k 0 = (commitments.map fun c => c.getD k 0).sum := by
  induction commitments with
  | nil => exact absurd rfl hne
  | cons c rest ih =>
    have hc := hlength c List.mem_cons_self
    cases rest with
    | nil => exact ⟨c, rfl, hc, fun k => (add_zero _).symm⟩
    | cons c' rest =>
      obtain ⟨sum, hok, hsum, hvalues⟩ :=
        ih (List.cons_ne_nil _ _) fun d hd => hlength d (List.mem_cons_of_mem _ hd)
      refine ⟨List.zipWith (· + ·) c sum, ?_, ?_, fun k => ?_⟩
      · simp only [sumCommitments, Except.bind_eq_ok]
        refine ⟨sum, hok, ?_⟩
        rw [if_neg (not_not.mpr (hc.trans hsum.symm))]
        rfl
      · rw [List.length_zipWith, hc, hsum, min_self]
      · rw [List.map_cons, List.sum_cons, ← hvalues k]
        rcases lt_or_ge k t with hk | hk
        · rw [List.getD_eq_getElem _ _ (by rw [List.length_zipWith]; omega),
            List.getD_eq_getElem _ _ (by omega), List.getD_eq_getElem _ _ (by omega),
            List.getElem_zipWith]
        · rw [List.getD_eq_default _ _ (by rw [List.length_zipWith]; omega),
            List.getD_eq_default _ _ (by omega), List.getD_eq_default _ _ (by omega), add_zero]

theorem part2_eq_ok {secret : Round1SecretPackage types}
    {peers : BTreeMap Address (Round1Package types)}
    {r : Round2SecretPackage types × BTreeMap Address (Round2Package types)} :
    part2 secret peers = .ok r ↔
      (peers.size + 1 = secret.maxSigners ∧
        ∀ (i : Address) package, peers[i]? = some package →
          package.commitment.length = secret.minSigners ∧
            verifyProofOfKnowledge i package.commitment package.proofOfKnowledge.R
              package.proofOfKnowledge.z = .ok ()) ∧
      (⟨secret.identifier, secret.commitment,
          evaluatePolynomial (identifier secret.identifier) secret.coefficients, secret.minSigners,
          secret.maxSigners⟩,
        peers.map fun i _ => ⟨evaluatePolynomial (identifier i) secret.coefficients⟩) = r := by
  have hpackages : peers.toList.forM (fun e => do
        if e.2.commitment.length ≠ secret.minSigners then throw FrostError.incorrectCommitment
        verifyProofOfKnowledge e.1 e.2.commitment e.2.proofOfKnowledge.R e.2.proofOfKnowledge.z) =
          .ok () ↔
      ∀ (i : Address) package, peers[i]? = some package →
        package.commitment.length = secret.minSigners ∧
          verifyProofOfKnowledge i package.commitment package.proofOfKnowledge.R
            package.proofOfKnowledge.z = .ok () := by
    rw [forM_eq_ok]
    constructor
    · intro h i package hi
      have hok := h (i, package) ((BTreeMap.mem_toList_iff _ _ _).mpr hi)
      dsimp only at hok
      split at hok
      · exact absurd hok Except.throw_ne_ok
      · next hlength =>
        exact ⟨not_not.mp hlength, hok⟩
    · intro h e he
      obtain ⟨hlength, hproof⟩ := h e.1 e.2 ((BTreeMap.mem_toList_iff _ _ _).mp he)
      rw [if_neg (not_not.mpr hlength)]
      exact hproof
  unfold part2
  by_cases hsize : peers.size + 1 = secret.maxSigners
  · rw [if_neg (not_not.mpr hsize), ← hpackages]
    simp only [Except.bind_eq_ok, Except.pure_eq_ok]
    constructor
    · rintro ⟨_, hok, hr⟩
      exact ⟨⟨hsize, hok⟩, hr⟩
    · rintro ⟨⟨_, hok⟩, hr⟩
      exact ⟨_, hok, hr⟩
  · rw [if_pos hsize]
    refine iff_of_false (fun h => ?_) fun h => hsize h.1.1
    obtain ⟨_, hthrow, -⟩ := Except.bind_eq_ok.mp h
    exact absurd hthrow Except.throw_ne_ok

theorem part3_ok {secret : Round2SecretPackage types} {round1 : BTreeMap Address (Round1Package types)}
    {round2 : BTreeMap Address (Round2Package types)} {sum : List CurvePoint} {key : CurvePoint}
    (hsize : round1.size + 1 = secret.maxSigners)
    (hkeys : ∀ i : Address, (round2[i]?).isSome = (round1[i]?).isSome)
    (hverify : ∀ (i : Address) package share, round1[i]? = some package → round2[i]? = some share →
      verifyShare secret.identifier share.signingShare package.commitment = .ok ())
    (hsum : sumCommitments (secret.commitment :: round1.values.map (·.commitment)) = .ok sum)
    (hkey : verifyingKeyFromCommitment sum = .ok key) :
    part3 secret round1 round2 = .ok
      ⟨secret.identifier, secret.secretShare + (round2.values.map (·.signingShare)).sum,
        mulG (secret.secretShare + (round2.values.map (·.signingShare)).sum), key,
        secret.minSigners⟩ := by
  have hguard : ¬(round1.size + 1 ≠ secret.maxSigners ∨ round1.keys ≠ round2.keys) := by
    rw [not_or, not_not, not_not]
    exact ⟨hsize, (BTreeMap.keys_eq hkeys).symm⟩
  unfold part3
  rw [if_neg hguard]
  simp only [Except.bind_eq_ok, Except.pure_eq_ok]
  refine ⟨(), ?_, sum, hsum, key, hkey, rfl⟩
  rw [forM_eq_ok]
  rintro ⟨i, package⟩ he
  have hi := (BTreeMap.mem_toList_iff _ _ _).mp he
  obtain ⟨share, hshare⟩ := Option.isSome_iff_exists.mp
    (by rw [hkeys, hi]; rfl : (round2[i]?).isSome)
  dsimp only
  rw [hshare]
  exact hverify i package share hi hshare

theorem decodeScalar_scalarWord (s : ZMod N) :
    (if (scalarWord s).val < N then some (hashScalar (scalarWord s)) else none) = some s := by
  rw [hashScalar, scalarWord_val, if_pos (ZMod.val_lt s), ZMod.natCast_val, ZMod.cast_id]

end Reference

/-- The reference deals as FROST does. -/
noncomputable def referenceDealing : Dealing reference where
  toCurve := referenceCurve
  scalar_injective := Function.injective_id
  point_injective := Function.injective_id
  decodeScalar_encodeScalar s := Reference.decodeScalar_scalarWord s
  decodePoint_encodePoint e he := Reference.decodePoint_ofGroup he
  verifyShare_iff i s commitment := by
    change Reference.verifyShare i s commitment = .ok () ↔
      mulG s = evaluateVss (Reference.identifier i) (commitment.map id)
    rw [List.map_id, Reference.verifyShare]
    split
    · next h => exact iff_of_true rfl h
    · next h => exact iff_of_false (fun hok => nomatch hok) h
  sumCommitments_ok commitments t hne hlength := by
    obtain ⟨sum, hok, hsum, hvalues⟩ := Reference.sumCommitments_ok commitments t hne hlength
    refine ⟨sum, hok, hsum, fun k => ?_⟩
    change (sum.map id).getD k 0 = (commitments.map fun c => (c.map id).getD k 0).sum
    simp only [List.map_id]
    exact hvalues k
  verifyingKey_cons c commitment := rfl
  part2_ok secret peers hsize hpeers := ⟨_, Reference.part2_eq_ok.mpr ⟨⟨hsize, hpeers⟩, rfl⟩⟩
  part2_spec secret peers own packages h := by
    obtain ⟨⟨hsize, hpeers⟩, hr⟩ := Reference.part2_eq_ok.mp h
    rw [Prod.mk.injEq] at hr
    obtain ⟨rfl, rfl⟩ := hr
    refine ⟨⟨rfl, rfl, rfl, rfl⟩, ⟨hsize, fun i package hi => (hpeers i package hi).1⟩, ?_,
      fun i => ?_, fun i package hi => ?_⟩
    · change evaluatePolynomial _ secret.coefficients =
        evaluatePolynomial _ (secret.coefficients.map id)
      rw [List.map_id]
    · rw [Std.ExtTreeMap.getElem?_map, Option.isSome_map]
    · rw [Std.ExtTreeMap.getElem?_map, Option.map_eq_some_iff] at hi
      obtain ⟨_, -, rfl⟩ := hi
      change evaluatePolynomial _ secret.coefficients =
        evaluatePolynomial _ (secret.coefficients.map id)
      rw [List.map_id]
  part3_ok secret round1 round2 hsize hkeys hverify hne hlengths := by
    obtain ⟨sum, hsum, hlength, -⟩ := Reference.sumCommitments_ok
      (secret.commitment :: round1.values.map (·.commitment)) secret.commitment.length (List.cons_ne_nil _ _)
      (List.forall_mem_cons.mpr ⟨rfl, List.forall_mem_map.mpr fun package hpackage => by
        obtain ⟨i, hi⟩ := (BTreeMap.mem_values _ _).mp hpackage
        exact hlengths i package hi⟩)
    obtain ⟨key, rest, rfl⟩ := List.exists_cons_of_length_pos
      (hlength ▸ List.length_pos_iff.mpr hne : 0 < sum.length)
    exact ⟨_, _, Reference.part3_ok hsize hkeys hverify hsum rfl, rfl, rfl, rfl, rfl, hsum, rfl⟩

/-- Two dealers of the polynomial `X + 1`. -/
noncomputable def twoDealers (a : Address) : Secrets reference where
  encryptionKey := (1 : ZMod N)
  secretPackage := { identifier := a, coefficients := [(1 : ZMod N), (1 : ZMod N)]
                     commitment := [G, G], minSigners := 2, maxSigners := 2 }
  proofOfKnowledge := ⟨G, 1 + Reference.identifier a⟩

/-- Their commitments. -/
noncomputable def twoCommitments : BTreeMap Address (VerifiedCommitment reference) :=
  BTreeMap.record id (fun a => ⟨reference.mul (twoDealers a).encryptionKey reference.generator,
    ⟨(twoDealers a).secretPackage.commitment, (twoDealers a).proofOfKnowledge⟩⟩) [1, 2]

theorem get_twoCommitments (a : Address) (c : VerifiedCommitment reference) :
    twoCommitments[a]? = some c ↔ a ∈ ([1, 2] : List Address) ∧
      ⟨reference.mul (twoDealers a).encryptionKey reference.generator,
        ⟨(twoDealers a).secretPackage.commitment, (twoDealers a).proofOfKnowledge⟩⟩ = c := by
  rw [twoCommitments, BTreeMap.record_get (by decide)]
  exact ⟨fun ⟨_, hmem, rfl, hc⟩ => ⟨hmem, hc⟩, fun ⟨hmem, hc⟩ => ⟨a, hmem, rfl, hc⟩⟩

theorem size_twoCommitments : twoCommitments.size = 2 := by
  rw [← BTreeMap.card_keySet, twoCommitments, BTreeMap.keySet_record]
  decide

theorem twoDealers_allHonest : AllHonest referenceDealing twoCommitments 2 twoDealers where
  small := by rw [size_twoCommitments]; norm_num
  ids := by
    change (twoCommitments.toList.map Prod.fst).Nodup
    rw [Std.ExtTreeMap.map_fst_toList_eq_keys]
    exact Std.ExtTreeMap.nodup_keys
  honest a ha := by
    obtain ⟨c, hc⟩ := Option.isSome_iff_exists.mp ha
    refine ⟨⟨rfl, ?_, rfl, two_pos⟩,
      (get_twoCommitments a _).mpr ⟨((get_twoCommitments a c).mp hc).1, rfl⟩⟩
    change [G, G] = [mulG 1, mulG 1]
    rw [mulG_one]
  minSigners a _ := rfl
  maxSigners a _ := size_twoCommitments.symm
  proved a c hc := by
    obtain ⟨-, rfl⟩ := (get_twoCommitments a c).mp hc
    change Reference.verifyProofOfKnowledge a [G, G] G (1 + Reference.identifier a) = .ok ()
    have hproof : mulG (1 + Reference.identifier a) = G + (Reference.identifier a).val • G := by
      rw [map_add, mulG_one, mulG_eq]
    rw [Reference.verifyProofOfKnowledge, if_pos hproof]

/-- Two dealers exchange their shares. -/
theorem sharing_exact_two : ∃ state share,
    Exchanged referenceDealing twoCommitments 2 twoDealers state share :=
  (sharing_exact referenceDealing).2 twoCommitments 2 twoDealers twoDealers_allHonest

end Frost

end Safenet
