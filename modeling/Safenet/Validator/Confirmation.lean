/-
# Key confirmation

A participant confirms a key generation when it holds the public key share of every participant and
a verified secret share from each -- received, or revealed in answer to its complaint.  The last one
missing can come either way, in either of two phases, before or after the last public key, and each
path has a completion check of its own.

`Holdings` is what the logs alone give a participant, whatever the handlers do with it, and the
result is that the two agree (`confirmation_exact`): the validator confirms at the one message that
completes its holdings, and finalizes exactly those.  What carries it is that the seat of a round
(`Seat`) is the holdings, and never complete while it waits (`SeatOk`).
-/
import Safenet.Validator.Seats
import Safenet.Validator.Complaints
import Safenet.Validator.Exchange

namespace Safenet

open Frost Secp256k1
open Coordinator (Ledger ledger groupLog GroupStep)

variable {E : Crates}

/-! ## 1. Holdings -/

/-- The public key shares and the secret shares a participant verified. -/
structure Holdings (E : Crates) where
  publicKeys : BTreeMap Address (PublicKeyShare E)
  shares : BTreeMap Address (VerifiedShare E)

namespace Holdings

/-- Nothing yet. -/
def nothing : Holdings E := ⟨∅, ∅⟩

/-- A participant's share arrives. -/
def receive (x : SharingState E) (h : Holdings E) (participant : Address)
    (share : KeyGenSecretShare) : Holdings E :=
  match verifySecretShare E x.groupCommitments participant share with
  | .error _ => h
  | .ok (publicKey, encryptedShares) =>
    { publicKeys := h.publicKeys.insert participant publicKey
      shares := match verifyEncryptedSecretShare E x participant encryptedShares with
        | .ok share => h.shares.insert participant share
        | .error _ => h.shares }

/-- A share is revealed to a plaintiff. -/
def reveal (account : Address) (x : SharingState E) (h : Holdings E) (plaintiff accused : Address)
    (secretShare : U256) : Holdings E :=
  if plaintiff = account then
    match verifyRevealedSecretShare E x.groupCommitments plaintiff accused secretShare with
    | .ok share => { h with shares := h.shares.insert accused share }
    | .error _ => h
  else h

/-- One message. -/
def take (T : Transition E) (g : Group) (x : SharingState E) (h : Holdings E) : Msg E → Holdings E
  | .event log =>
    match log.data with
    | .keyGenSecretShared gid participant share =>
      if gid = g.id then h.receive x participant share else h
    | .keyGenComplaintResponded gid plaintiff accused secretShare =>
      if gid = g.id then h.reveal T.account x plaintiff accused secretShare else h
    | _ => h
  | _ => h

/-- Everyone's public key share, and a verified share from everyone. -/
def Complete (g : Group) (h : Holdings E) : Prop :=
  BTreeMap.keySet h.publicKeys = g.participants ∧ BTreeMap.keySet h.shares = g.participants

end Holdings

/-- The group and the sharing state of a participant in the exchange of shares of a group. -/
def RolloverState.exchange (gid : B256) (r : RolloverState E) : Option (Group × SharingState E) :=
  match r.seat with
  | some (.sharing g x _ _) => if g.id = gid then some (g, x) else none
  | some (.confirming g x _) => if g.id = gid then some (g, x) else none
  | _ => none

/-- What one message adds, from the opening of the exchange to its end. -/
def Holdings.next (T : Transition E) (gid : B256) (r r' : RolloverState E) (h : Holdings E)
    (msg : Msg E) : Holdings E :=
  if (r'.exchange gid).isSome then
    match r.exchange gid with
    | some (g, x) => h.take T g x msg
    | none => .nothing
  else .nothing

namespace Transition

variable {T : Transition E}

/-- What this validator holds of a group after some messages. -/
def heldAfter (T : Transition E) (gid : B256) (ms : List (Msg E)) : Holdings E :=
  (ms.foldl (fun st msg =>
    let s' := (T.applyTransition st.1 msg).1
    (s', Holdings.next T gid st.1.rollover s'.rollover st.2 msg))
    (State.default E, Holdings.nothing)).2

theorem heldAfter_concat (gid : B256) (ms : List (Msg E)) (msg : Msg E) :
    T.heldAfter gid (ms ++ [msg]) = Holdings.next T gid (T.stateAfter ms).rollover
      (T.stateAfter (ms ++ [msg])).rollover (T.heldAfter gid ms) msg := by
  have hfst : ∀ ms : List (Msg E), (ms.foldl (fun st msg =>
      let s' := (T.applyTransition st.1 msg).1
      (s', Holdings.next T gid st.1.rollover s'.rollover st.2 msg))
      (State.default E, Holdings.nothing)).1 = T.stateAfter ms := by
    intro ms
    induction ms using List.reverseRecOn with
    | nil => rfl
    | append_singleton ms msg ih =>
      rw [stateAfter_concat, List.foldl_append, List.foldl_cons, List.foldl_nil, ih]
  rw [heldAfter, List.foldl_append, List.foldl_cons, List.foldl_nil]
  dsimp only
  rw [hfst, stateAfter_concat]
  rfl

end Transition

/-! ## 2. What a share brings -/

namespace RolloverState

variable {r : RolloverState E} {g : Group} {x : SharingState E}

theorem seat_setup {secrets : Option (Secrets E)} {k : BTreeMap Address (VerifiedCommitment E)}
    (h : r.seat = some (.setup g secrets k)) :
    ∃ c, r = .collectingCommitments c ∧ c.group = g := by
  unfold seat at h
  split at h
  · rename_i c
    split at h
    · rw [Option.some.injEq, Seat.setup.injEq] at h
      exact ⟨c, rfl, h.1⟩
    · exact nomatch h
  · split at h <;> exact nomatch h
  · split at h <;> exact nomatch h
  · exact nomatch h

theorem seat_sharing {k : BTreeMap Address (PublicKeyShare E)}
    {shares : BTreeMap Address (VerifiedShare E)} (h : r.seat = some (.sharing g x k shares)) :
    ∃ c, r = .collectingShares c ∧ c.group = g ∧ c.participation = .participating x ∧
      c.publicKeys = k ∧ c.shares = shares := by
  unfold seat at h
  split at h
  · split at h <;> exact nomatch h
  · rename_i c
    split at h
    · rename_i hx
      rw [Option.some.injEq, Seat.sharing.injEq] at h
      obtain ⟨rfl, rfl, rfl, rfl⟩ := h
      exact ⟨c, rfl, rfl, hx, rfl, rfl⟩
    · exact nomatch h
  · split at h <;> exact nomatch h
  · exact nomatch h

end RolloverState

/-- The groups the commands of a transition confirm. -/
def confirms (commands : Commands E) : List B256 := commands.filterMap confirmsTo

/-- What becomes of a seat with every public key share: the last share confirms. -/
def concluded (g : Group) (x : SharingState E) (shares : BTreeMap Address (VerifiedShare E)) :
    Option (Seat E) × List B256 :=
  if asU16 shares.size = g.count then
    match finalize E x shares with
    | .ok key => (some (.confirming g x (.confirmed key)), [g.id])
    | .error _ => (none, [])
  else (some (.confirming g x (.collecting shares)), [])

/-- What becomes of a seat a share arrived at: the last public key share closes the exchange. -/
def settled (g : Group) (x : SharingState E) (h : Holdings E) : Option (Seat E) × List B256 :=
  if asU16 h.publicKeys.size ≠ g.count then (some (.sharing g x h.publicKeys h.shares), [])
  else concluded g x h.shares

namespace Transition

variable {T : Transition E}

/-- The seat and the confirmations a handler leaves. -/
def outcome (r : State E × Commands E) : Option (Seat E) × List B256 :=
  (r.1.rollover.seat, confirms r.2)

theorem outcome_of_quiet {r : State E × Commands E} (h : Quiet r.2) :
    outcome r = (r.1.rollover.seat, []) := congrArg (Prod.mk _) h

theorem registerShare_outcome (c : CollectingShares E) (block : Nat) (p : Address)
    (share : KeyGenSecretShare) {x : SharingState E} (hx : c.participation = .participating x) :
    (T.registerShare c block p share).1 =
        { c with publicKeys := (Holdings.receive x ⟨c.publicKeys, c.shares⟩ p share).publicKeys
                 shares := (Holdings.receive x ⟨c.publicKeys, c.shares⟩ p share).shares } ∧
      Quiet (T.registerShare c block p share).2 := by
  obtain ⟨nextEpoch, group, participation, publicKeys, shares, complaints, deadline⟩ := c
  subst hx
  unfold registerShare Holdings.receive
  simp only [KeyGenParticipation.groupCommitments]
  cases verifySecretShare E x.groupCommitments p share with
  | error e => exact ⟨rfl, rfl⟩
  | ok r =>
    obtain ⟨publicKey, encrypted⟩ := r
    dsimp only
    cases verifyEncryptedSecretShare E x p encrypted with
    | error e => exact ⟨rfl, rfl⟩
    | ok share => exact ⟨rfl, rfl⟩

theorem registerShare_observing (c : CollectingShares E) (block : Nat) (p : Address)
    (share : KeyGenSecretShare) {y : GroupCommitments E} (hy : c.participation = .observing y) :
    ∃ k, T.registerShare c block p share = ({ c with publicKeys := k }, []) := by
  unfold registerShare
  split
  · exact ⟨c.publicKeys, rfl⟩
  · dsimp only
    rw [hy]
    exact ⟨_, rfl⟩

/-- **A share settles the seat it arrives at.** -/
theorem handleKeyGenSecretShared_outcome {s : State E} {block : Nat} {p : Address}
    {share : KeyGenSecretShare} {g : Group} {x : SharingState E}
    {k : BTreeMap Address (PublicKeyShare E)} {shares : BTreeMap Address (VerifiedShare E)}
    (h : s.rollover.seat = some (.sharing g x k shares)) :
    outcome (T.handleKeyGenSecretShared s block g.id p share) =
      settled g x (Holdings.receive x ⟨k, shares⟩ p share) := by
  obtain ⟨c, hr, rfl, hx, rfl, rfl⟩ := RolloverState.seat_sharing h
  obtain ⟨nextEpoch, group, participation, publicKeys, shares, complaints, deadline⟩ := c
  dsimp only at hx
  subst hx
  obtain ⟨hc, hquiet⟩ := T.registerShare_outcome ⟨nextEpoch, group, .participating x, publicKeys,
    shares, complaints, deadline⟩ block p share rfl
  unfold handleKeyGenSecretShared settled concluded
  rw [hr]
  dsimp only at hc ⊢
  rw [if_pos rfl, hc]
  dsimp only
  split
  · exact outcome_of_quiet hquiet
  · split
    · unfold confirmKeyGen
      cases finalize E x (Holdings.receive x ⟨publicKeys, shares⟩ p share).shares with
      | error e => exact congrArg (Prod.mk · []) (seat_failure nextEpoch)
      | ok key =>
        change (_, confirms (_ ++ _)) = _
        rw [confirms, List.filterMap_append, hquiet]
        rfl
    · exact outcome_of_quiet hquiet

/-- ... and no other. -/
theorem handleKeyGenSecretShared_other {s : State E} {block : Nat} {gid : B256} {p : Address}
    {share : KeyGenSecretShare}
    (h : ∀ g x k shares, s.rollover.seat = some (.sharing g x k shares) → g.id ≠ gid) :
    outcome (T.handleKeyGenSecretShared s block gid p share) = (s.rollover.seat, []) := by
  unfold handleKeyGenSecretShared
  split
  · rename_i c hr
    split
    · rename_i hgid
      cases hx : c.participation with
      | participating x =>
        exact absurd hgid (h c.group x c.publicKeys c.shares (by rw [hr, RolloverState.seat, hx]))
      | observing y =>
        obtain ⟨k, hk⟩ := T.registerShare_observing c block p share hx
        rw [hk, hr]
        dsimp only
        simp only [hx, RolloverState.seat]
        split
        · exact congrArg (Prod.mk · []) (by rw [RolloverState.seat])
        · rfl
    · rfl
  · rfl

/-- A response is taken: the phase accepts answers, and the accused has a complaint open. -/
structure Answers (s : State E) (block : Nat) (gid : B256) (accused : Address)
    (p : ResponsePhase E) (complaint : Complaint) : Prop where
  phase : responsePhase block gid s.rollover = some p
  recorded : p.complaints[accused]? = some complaint
  opened : complaint.unresponded ≠ 0

end Transition

/-- What becomes of a seat a revealed share arrives at. -/
def answered (register : BTreeMap Address (VerifiedShare E) → BTreeMap Address (VerifiedShare E)) :
    Option (Seat E) → Option (Seat E) × List B256
  | some (.sharing g x k shares) => (some (.sharing g x k (register shares)), [])
  | some (.confirming g x (.collecting shares)) => concluded g x (register shares)
  | v => (v, [])

namespace Transition

variable {T : Transition E} {s : State E} {block : Nat} {gid : B256} {plaintiff accused : Address}
  {w : U256}

theorem registerResponse_outcome (share : VerifiedShare E) (complaints : BTreeMap Address Complaint) :
    outcome (T.confirmAfterResponse { s with
      rollover := T.registerResponse plaintiff accused share complaints s.rollover }) =
      answered (T.registerRevealed plaintiff accused share) s.rollover.seat := by
  cases hr : s.rollover with
  | collectingShares c =>
    rw [registerResponse, confirmAfterResponse]
    dsimp only [outcome, RolloverState.seat]
    cases c.participation <;> rfl
  | collectingConfirmations c =>
    obtain ⟨nextEpoch, group, participation, status, confirmations, complaints', deadlines⟩ := c
    cases participation with
    | observing y => cases status <;> rfl
    | participating x =>
      cases status with
      | collecting shares =>
        dsimp only [registerResponse, RolloverState.seat, answered]
        unfold confirmAfterResponse concluded
        dsimp only
        split
        · unfold confirmKeyGen
          cases finalize E x (T.registerRevealed plaintiff accused share shares) with
          | error e => exact congrArg (Prod.mk · []) (seat_failure nextEpoch)
          | ok key => rfl
        · rfl
      | _ => rfl
  | collectingCommitments c =>
    obtain ⟨nextEpoch, group, secrets, commitments, deadline⟩ := c
    cases secrets <;> rfl
  | _ => rfl

/-- **A response is dropped, restarts the key generation or reveals a share.** -/
theorem handleKeyGenComplaintResponded_cases (T : Transition E) (s : State E) (block : Nat)
    (gid : B256) (plaintiff accused : Address) (w : U256) :
    let r := T.handleKeyGenComplaintResponded s block gid plaintiff accused w
    (r = (s, []) ∧ ∀ p c, ¬ Answers s block gid accused p c) ∨
      ∃ p c, Answers s block gid accused p c ∧
        ((∃ e, verifyRevealedSecretShare E p.participation.groupCommitments plaintiff accused w =
            .error e) ∧ Quiet r.2 ∧
            (∀ msg v, r.1.rollover.seat = some v → SeatStep T none msg v) ∨
          ∃ share, verifyRevealedSecretShare E p.participation.groupCommitments plaintiff accused w =
              .ok share ∧
            outcome r = answered (T.registerRevealed plaintiff accused share) s.rollover.seat) := by
  dsimp only
  unfold handleKeyGenComplaintResponded
  cases hp : responsePhase block gid s.rollover with
  | none => exact .inl ⟨rfl, fun p c h => nomatch hp.symm.trans h.phase⟩
  | some p =>
    dsimp only
    cases hc : p.complaints[accused]? with
    | none =>
      refine .inl ⟨rfl, fun p' c h => ?_⟩
      have hphase := hp.symm.trans h.phase
      rw [Option.some.injEq] at hphase
      subst hphase
      exact nomatch hc.symm.trans h.recorded
    | some c =>
      dsimp only
      by_cases hu : c.unresponded = 0
      · rw [if_pos hu]
        refine .inl ⟨rfl, fun p' c' h => ?_⟩
        have hphase := hp.symm.trans h.phase
        rw [Option.some.injEq] at hphase
        subst hphase
        have hcomplaint := hc.symm.trans h.recorded
        rw [Option.some.injEq] at hcomplaint
        exact h.opened (hcomplaint ▸ hu)
      · rw [if_neg hu]
        refine .inr ⟨p, c, ⟨hp, hc, hu⟩, ?_⟩
        cases hv : verifyRevealedSecretShare E p.participation.groupCommitments plaintiff accused w with
        | error e =>
          exact .inl ⟨⟨e, rfl⟩, T.restartKeyGenExcluding_quiet _ _ _ _,
            fun _ _ h => restartKeyGenExcluding_seat h⟩
        | ok share => exact .inr ⟨share, rfl, registerResponse_outcome share _⟩

end Transition

/-! ## 3. Sound holdings -/

/-- A participant in the exchange of shares: everyone committed, and its secrets, sampled for it,
were dealt. -/
structure Keyed (F : Dealing E) (a : Address) (g : Group) (x : SharingState E)
    (commitments : BTreeMap Address (VerifiedCommitment E)) (secrets : Secrets E) : Prop where
  ids : DistinctIds E commitments
  members : BTreeMap.keySet commitments = g.participants
  sampled : Sampled F a secrets
  dealt : Dealt F commitments a secrets x
  group : groupCommitments E commitments = .ok x.groupCommitments

/-- A share is the value of the polynomial its dealer committed to. -/
def DealersValue (F : Dealing E) (a : Address) (x : SharingState E) (dealer : Address)
    (share : VerifiedShare E) : Prop :=
  ∃ c coefficients, x.groupCommitments.commitments[dealer]? = some c ∧
    CommitsTo F c.package.commitment coefficients ∧
    F.scalar share.package.signingShare = valueAt F coefficients a

namespace Holdings

/-- Holdings are of participants, and the shares are the dealers'. -/
structure Sound (F : Dealing E) (a : Address) (g : Group) (x : SharingState E)
    (h : Holdings E) : Prop where
  publicKeys : BTreeMap.keySet h.publicKeys ⊆ g.participants
  shares : BTreeMap.keySet h.shares ⊆ g.participants
  values : ∀ (dealer : Address) (share : VerifiedShare E), h.shares[dealer]? = some share →
    DealersValue F a x dealer share

variable {F : Dealing E} {a : Address} {g : Group} {x : SharingState E} {h : Holdings E}
  {commitments : BTreeMap Address (VerifiedCommitment E)} {secrets : Secrets E}

theorem Sound.nothing : (nothing : Holdings E).Sound F a g x where
  publicKeys := by
    rw [Holdings.nothing, BTreeMap.keySet_empty]
    exact Finset.empty_subset _
  shares := by
    rw [Holdings.nothing, BTreeMap.keySet_empty]
    exact Finset.empty_subset _
  values := by
    intro dealer share hs
    rw [Holdings.nothing, Std.ExtTreeMap.getElem?_empty] at hs
    exact nomatch hs

theorem Sound.insertKey (hs : h.Sound F a g x) {p : Address} (hp : p ∈ g.participants)
    (key : PublicKeyShare E) :
    (⟨h.publicKeys.insert p key, h.shares⟩ : Holdings E).Sound F a g x where
  publicKeys := by
    rw [BTreeMap.keySet_insert]
    exact Finset.insert_subset hp hs.publicKeys
  shares := hs.shares
  values := hs.values

theorem Sound.insertShare (hs : h.Sound F a g x) {p : Address} (hp : p ∈ g.participants)
    {share : VerifiedShare E} (hv : DealersValue F a x p share) :
    (⟨h.publicKeys, h.shares.insert p share⟩ : Holdings E).Sound F a g x where
  publicKeys := hs.publicKeys
  shares := by
    rw [BTreeMap.keySet_insert]
    exact Finset.insert_subset hp hs.shares
  values := by
    intro dealer share' hd
    rw [BTreeMap.get_insert] at hd
    split at hd
    · rename_i heq
      rw [Option.some.injEq] at hd
      rw [heq, ← hd]
      exact hv
    · exact hs.values dealer share' hd

theorem Sound.receive (hs : h.Sound F a g x) (hk : Keyed F a g x commitments secrets)
    (p : Address) (share : KeyGenSecretShare) : (h.receive x p share).Sound F a g x := by
  unfold Holdings.receive
  split
  · exact hs
  · rename_i publicKey encrypted hshare
    have hsome : ∃ c, commitments[p]? = some c := by
      unfold verifySecretShare at hshare
      split at hshare
      · exact nomatch hshare
      · rename_i hnone
        rw [hk.dealt.group, Bool.not_eq_true, Option.isNone_eq_false_iff] at hnone
        exact Option.isSome_iff_exists.mp hnone
    obtain ⟨c, hc⟩ := hsome
    have hp : p ∈ g.participants := by
      rw [← hk.members, BTreeMap.mem_keySet, hc]
      rfl
    split
    · rename_i v hv
      obtain ⟨coefficients, hcommits⟩ := exists_commitsTo F c.package.commitment
      exact (hs.insertKey hp publicKey).insertShare hp ⟨c, coefficients,
        by rw [hk.dealt.group, hc], hcommits,
        hk.dealt.verifyEncrypted_sound hk.ids hc hcommits hv⟩
    · exact hs.insertKey hp publicKey

theorem Sound.reveal (hs : h.Sound F a g x) (hk : Keyed F a g x commitments secrets)
    (plaintiff accused : Address) (w : U256) : (h.reveal a x plaintiff accused w).Sound F a g x := by
  unfold Holdings.reveal
  split
  · rename_i heq
    subst heq
    split
    · rename_i v hv
      have hsome : ∃ c, x.groupCommitments.commitments[accused]? = some c := by
        unfold verifyRevealedSecretShare at hv
        split at hv
        · exact nomatch hv
        · rename_i c hc
          exact ⟨c, hc⟩
      obtain ⟨c, hc⟩ := hsome
      obtain ⟨coefficients, hcommits⟩ := exists_commitsTo F c.package.commitment
      refine hs.insertShare ?_ ⟨c, coefficients, hc, hcommits, verifyRevealed_sound hc hcommits hv⟩
      rw [← hk.members, ← hk.dealt.group, BTreeMap.mem_keySet, hc]
      rfl
    · exact hs
  · exact hs

theorem receive_mono (p : Address) (share : KeyGenSecretShare) :
    BTreeMap.keySet h.publicKeys ⊆ BTreeMap.keySet (h.receive x p share).publicKeys ∧
      BTreeMap.keySet h.shares ⊆ BTreeMap.keySet (h.receive x p share).shares := by
  unfold Holdings.receive
  split
  · exact ⟨Finset.Subset.refl _, Finset.Subset.refl _⟩
  · dsimp only
    rw [BTreeMap.keySet_insert]
    refine ⟨Finset.subset_insert _ _, ?_⟩
    split
    · rw [BTreeMap.keySet_insert]
      exact Finset.subset_insert _ _
    · exact Finset.Subset.refl _

theorem reveal_mono (plaintiff accused : Address) (w : U256) :
    (h.reveal a x plaintiff accused w).publicKeys = h.publicKeys ∧
      BTreeMap.keySet h.shares ⊆ BTreeMap.keySet (h.reveal a x plaintiff accused w).shares := by
  unfold Holdings.reveal
  split
  · split
    · dsimp only
      rw [BTreeMap.keySet_insert]
      exact ⟨rfl, Finset.subset_insert _ _⟩
    · exact ⟨rfl, Finset.Subset.refl _⟩
  · exact ⟨rfl, Finset.Subset.refl _⟩

theorem take_mono {T : Transition E} (msg : Msg E) :
    BTreeMap.keySet h.publicKeys ⊆ BTreeMap.keySet (h.take T g x msg).publicKeys ∧
      BTreeMap.keySet h.shares ⊆ BTreeMap.keySet (h.take T g x msg).shares := by
  cases msg with
  | event log =>
    cases hd : log.data with
    | keyGenSecretShared gid p share =>
      simp only [take, hd]
      split
      · exact receive_mono p share
      · exact ⟨Finset.Subset.refl _, Finset.Subset.refl _⟩
    | keyGenComplaintResponded gid p a w =>
      simp only [take, hd]
      split
      · exact ⟨(reveal_mono p a w).1 ▸ Finset.Subset.refl _, (reveal_mono p a w).2⟩
      · exact ⟨Finset.Subset.refl _, Finset.Subset.refl _⟩
    | _ =>
      simp only [take, hd]
      exact ⟨Finset.Subset.refl _, Finset.Subset.refl _⟩
  | _ => exact ⟨Finset.Subset.refl _, Finset.Subset.refl _⟩

/-- Everything held makes a key share. -/
theorem Sound.finalize (hs : h.Sound F a g x) (hk : Keyed F a g x commitments secrets)
    (hall : BTreeMap.keySet h.shares = g.participants) :
    ∃ key, Frost.finalize E x h.shares = .ok key := by
  choose polynomials hpolynomials using fun p : Address =>
    exists_commitsTo F ((commitments[p]?).elim [] fun c => c.package.commitment)
  have hcommits : ∀ (p : Address) (c : VerifiedCommitment E), commitments[p]? = some c →
      CommitsTo F c.package.commitment (polynomials p) := by
    intro p c hc
    have hp := hpolynomials p
    rw [hc] at hp
    exact hp
  have hcommitted : Committed F commitments polynomials secrets.secretPackage.minSigners :=
    fun p c hc => ⟨hcommits p c hc, (hcommits p c hc).length.symm.trans (hk.dealt.lengths p c hc)⟩
  have hkeys : ∀ p : Address, (h.shares[p]?).isSome = (commitments[p]?).isSome := by
    intro p
    rw [Bool.eq_iff_iff, ← BTreeMap.mem_keySet, ← BTreeMap.mem_keySet, hall, hk.members]
  have hvalues : ∀ (p : Address) (v : VerifiedShare E), h.shares[p]? = some v →
      F.scalar v.package.signingShare = valueAt F (polynomials p) a := by
    intro p v hv
    obtain ⟨c, coefficients, hc, hcoefficients, hvalue⟩ := hs.values p v hv
    rw [hk.dealt.group] at hc
    rw [hvalue, CommitsTo.eq hcoefficients (hcommits p c hc)]
  obtain ⟨key, hkey, -⟩ := finalize_ok hk.ids hk.sampled hk.dealt hk.group hcommitted hkeys hvalues
  exact ⟨_, hkey⟩

end Holdings

/-! ## 4. The seat of an exchange -/

/-- The group of a seat. -/
def Seat.group : Seat E → Group
  | .setup g _ _ => g
  | .sharing g _ _ _ => g
  | .confirming g _ _ => g

theorem RolloverState.round_of_seat {r : RolloverState E} {v : Seat E} (h : r.seat = some v) :
    ∃ e, r.round = some (e, v.group) := by
  unfold seat at h
  split at h
  · split at h
    · rw [Option.some.injEq] at h
      subst h
      exact ⟨_, rfl⟩
    · exact nomatch h
  · split at h
    · rw [Option.some.injEq] at h
      subst h
      exact ⟨_, rfl⟩
    · exact nomatch h
  · split at h
    · rw [Option.some.injEq] at h
      subst h
      exact ⟨_, rfl⟩
    · exact nomatch h
  · exact nomatch h

/-- The seat of a participant, next to what the logs gave it since its exchange opened. -/
inductive SeatOk (F : Dealing E) (a : Address) (h : Holdings E) : Seat E → Prop where
  | setup {g : Group} {secrets : Option (Secrets E)}
      {commitments : BTreeMap Address (VerifiedCommitment E)} : a ∈ g.participants →
      BTreeMap.keySet commitments ⊆ g.participants →
      (∀ y, secrets = some y → Sampled F a y ∧ y.secretPackage.maxSigners = g.count) →
      SeatOk F a h (.setup g secrets commitments)
  | sharing {g : Group} {x : SharingState E} {commitments : BTreeMap Address (VerifiedCommitment E)}
      {secrets : Secrets E} : Keyed F a g x commitments secrets → h.Sound F a g x →
      BTreeMap.keySet h.publicKeys ≠ g.participants →
      SeatOk F a h (.sharing g x h.publicKeys h.shares)
  | collecting {g : Group} {x : SharingState E}
      {commitments : BTreeMap Address (VerifiedCommitment E)} {secrets : Secrets E} :
      Keyed F a g x commitments secrets → h.Sound F a g x →
      BTreeMap.keySet h.publicKeys = g.participants → BTreeMap.keySet h.shares ≠ g.participants →
      SeatOk F a h (.confirming g x (.collecting h.shares))
  | confirmed {g : Group} {x : SharingState E}
      {commitments : BTreeMap Address (VerifiedCommitment E)} {secrets : Secrets E}
      {key : KeyShare E} : Keyed F a g x commitments secrets → h.Sound F a g x → h.Complete g →
      SeatOk F a h (.confirming g x (.confirmed key))

/-- The last share confirms, with everything held, and nothing else does. -/
structure Settles (F : Dealing E) (a : Address) (g : Group) (x : SharingState E) (h : Holdings E)
    (r : Option (Seat E) × List B256) : Prop where
  seat : ∃ v, r.1 = some v ∧ SeatOk F a h v ∧
    (v = .sharing g x h.publicKeys h.shares ∨ ∃ status, v = .confirming g x status)
  confirms : h.Complete g → ∃ key, finalize E x h.shares = .ok key ∧
    r = (some (.confirming g x (.confirmed key)), [g.id])
  waits : ¬ h.Complete g → r.2 = []

section Settling

variable {T : Transition E} {F : Dealing E} {a : Address} {g : Group} {x : SharingState E}
  {h : Holdings E} {commitments : BTreeMap Address (VerifiedCommitment E)} {secrets : Secrets E}
  {e : EpochId}

theorem concluded_group {shares : BTreeMap Address (VerifiedShare E)} :
    (∀ v, (concluded g x shares).1 = some v → v.group = g) ∧
      ∀ i ∈ (concluded g x shares).2, i = g.id := by
  unfold concluded
  split
  · split
    · refine ⟨fun v hv => ?_, fun i hi => List.mem_singleton.mp hi⟩
      rw [← Option.some.inj hv]
      rfl
    · exact ⟨fun v hv => (nomatch hv), fun i hi => absurd hi List.not_mem_nil⟩
  · refine ⟨fun v hv => ?_, fun i hi => absurd hi List.not_mem_nil⟩
    rw [← Option.some.inj hv]
    rfl

theorem settled_group : (∀ v, (settled g x h).1 = some v → v.group = g) ∧
    ∀ i ∈ (settled g x h).2, i = g.id := by
  unfold settled
  split
  · refine ⟨fun v hv => ?_, fun i hi => absurd hi List.not_mem_nil⟩
    rw [← Option.some.inj hv]
    rfl
  · exact concluded_group

end Settling

/-! ## 5. One message -/

/-- A message that brings a share of a group. -/
def bringsTo (gid : B256) : Msg E → Bool
  | .event log =>
    match log.data with
    | .keyGenSecretShared g _ _ => g = gid
    | .keyGenComplaintResponded g _ _ _ => g = gid
    | _ => false
  | _ => false

namespace Holdings

end Holdings

theorem RolloverState.exchange_of_sharing {r : RolloverState E} {g : Group} {x : SharingState E}
    {k : BTreeMap Address (PublicKeyShare E)} {shares : BTreeMap Address (VerifiedShare E)}
    (h : r.seat = some (.sharing g x k shares)) : r.exchange g.id = some (g, x) := by
  rw [exchange, h]
  exact if_pos rfl

theorem RolloverState.exchange_of_confirming {r : RolloverState E} {g : Group}
    {x : SharingState E} {status : KeyGenConfirmation E}
    (h : r.seat = some (.confirming g x status)) : r.exchange g.id = some (g, x) := by
  rw [exchange, h]
  exact if_pos rfl

/-- Whoever takes part in the exchange of shares of a group is at one of its seats. -/
theorem RolloverState.exchange_eq_some {r : RolloverState E} {gid : B256} {g : Group}
    {x : SharingState E} (h : r.exchange gid = some (g, x)) : g.id = gid ∧
      ((∃ k shares, r.seat = some (.sharing g x k shares)) ∨
        ∃ status, r.seat = some (.confirming g x status)) := by
  unfold exchange at h
  split at h
  · rename_i hs
    rw [Option.ite_none_right_eq_some, Option.some.injEq, Prod.mk.injEq] at h
    obtain ⟨hid, rfl, rfl⟩ := h
    exact ⟨hid, .inl ⟨_, _, hs⟩⟩
  · rename_i hs
    rw [Option.ite_none_right_eq_some, Option.some.injEq, Prod.mk.injEq] at h
    obtain ⟨hid, rfl, rfl⟩ := h
    exact ⟨hid, .inr ⟨_, hs⟩⟩
  · exact nomatch h

/-- A seat out of nowhere is at a round that just started. -/
theorem SeatStep.of_none {T : Transition E} {msg : Msg E} {v : Seat E}
    (h : SeatStep T none msg v) : ∃ g, T.account ∈ g.participants ∧ v = .setup g none ∅ := by
  have hsetup : ∀ {g : Group} {secrets : Option (Secrets E)}
      {k : BTreeMap Address (VerifiedCommitment E)},
      SeatStep T none msg (.setup g secrets k) → secrets = none := by
    intro g secrets k h
    cases h with
    | kept h => exact nomatch h
    | started _ => rfl
    | registered h => exact nomatch h
    | sampled h => exact nomatch h
  cases h with
  | kept h => exact nomatch h
  | started h => exact ⟨_, h, rfl⟩
  | registered h => exact nomatch h
  | sampled h => exact nomatch h
  | opened h => exact nomatch hsetup h

/-- A seat with secrets was at its round already. -/
theorem SeatStep.of_setup {T : Transition E} {r : Option (Seat E)} {msg : Msg E} {g : Group}
    {secrets : Secrets E} {k : BTreeMap Address (VerifiedCommitment E)}
    (h : SeatStep T r msg (.setup g (some secrets) k)) :
    ∃ secrets k, r = some (.setup g secrets k) := by
  cases h with
  | kept hs => exact ⟨_, _, hs⟩
  | registered hs => exact ⟨_, _, hs⟩
  | sampled hs => exact ⟨_, _, hs⟩

namespace Transition

variable {T : Transition E}

/-- What a message does that a group's exchange of shares has nothing to do with. -/
def Idle (T : Transition E) (gid : B256) (s : State E) (msg : Msg E) : Prop :=
  gid ∉ confirms (T.applyTransition s msg).2 ∧
    ∀ v, (T.applyTransition s msg).1.rollover.seat = some v → v.group.id = gid →
      SeatStep T s.rollover.seat msg v

theorem idle_of_outcome {gid : B256} {s : State E} {msg : Msg E}
    (h : outcome (T.applyTransition s msg) = (s.rollover.seat, [])) : Idle T gid s msg := by
  rw [outcome, Prod.mk.injEq] at h
  refine ⟨?_, fun v hv _ => .kept (h.1 ▸ hv)⟩
  rw [h.2]
  exact List.not_mem_nil

theorem idle_of_group {gid : B256} {s : State E} {msg : Msg E} {g : Group}
    {r : Option (Seat E) × List B256} (h : outcome (T.applyTransition s msg) = r)
    (hr : (∀ v, r.1 = some v → v.group = g) ∧ ∀ i ∈ r.2, i = g.id) (hne : g.id ≠ gid) :
    Idle T gid s msg := by
  subst h
  refine ⟨fun hmem => hne (hr.2 gid hmem).symm, fun v hv hid => ?_⟩
  rw [hr.1 v hv] at hid
  exact absurd hid hne

/-- **Only a share of the group changes its exchange**, and only once it is open. -/
theorem idle_step {gid : B256} {s : State E} {msg : Msg E}
    (h : s.rollover.exchange gid = none ∨ bringsTo gid msg = false) : Idle T gid s msg := by
  by_cases hmsg : bringsShare msg = false
  · refine ⟨?_, fun v hv _ => seat_step hmsg hv⟩
    rw [confirms, T.applyTransition_quiet s hmsg]
    exact List.not_mem_nil
  have hne : ∀ {g : Group} {x : SharingState E}, s.rollover.exchange g.id = some (g, x) →
      bringsTo g.id msg = true → g.id ≠ gid := by
    intro g x hx hbrings hid
    rw [hid] at hx hbrings
    rcases h with h | h
    · exact nomatch h.symm.trans hx
    · exact nomatch h.symm.trans hbrings
  cases msg with
  | event log =>
    obtain ⟨block, index, address, data⟩ := log
    cases data with
    | keyGenSecretShared gid' p share =>
      by_cases hseat : ∃ g x k shares, s.rollover.seat = some (.sharing g x k shares) ∧ g.id = gid'
      · obtain ⟨g, x, k, shares, hs, rfl⟩ := hseat
        exact idle_of_group (handleKeyGenSecretShared_outcome hs) settled_group
          (hne (RolloverState.exchange_of_sharing hs) (decide_eq_true rfl))
      · exact idle_of_outcome (handleKeyGenSecretShared_other
          fun g x k shares hs hid => hseat ⟨g, x, k, shares, hs, hid⟩)
    | keyGenComplaintResponded gid' p a w =>
      rcases handleKeyGenComplaintResponded_cases T s block gid' p a w with
        ⟨hdrop, -⟩ | ⟨ph, c, ha, ⟨-, hquiet, hfresh⟩ | ⟨share, -, hout⟩⟩
      · exact idle_of_outcome (congrArg outcome hdrop)
      · refine ⟨?_, fun v hv _ => ?_⟩
        rotate_left
        · obtain ⟨g, ha, rfl⟩ := (hfresh (.resume .noop) v hv).of_none
          exact .started ha
        change gid ∉ (T.handleKeyGenComplaintResponded s block gid' p a w).2.filterMap confirmsTo
        rw [hquiet]
        exact List.not_mem_nil
      · have hid : ∀ {v : Seat E}, s.rollover.seat = some v → v.group.id = gid' := by
          intro v hv
          obtain ⟨e, hround⟩ := RolloverState.round_of_seat hv
          obtain ⟨hround', hgid⟩ := responsePhase_round ha.phase
          rw [hround, Option.some.injEq, Prod.mk.injEq] at hround'
          rw [hround'.2, hgid]
        cases hs : s.rollover.seat with
        | none =>
          rw [hs] at hout
          exact idle_of_outcome (hs ▸ hout)
        | some v =>
          have hgid := hid hs
          rw [hs] at hout
          cases v with
          | setup g secrets k => exact idle_of_outcome (hs ▸ hout)
          | sharing g x k shares =>
            refine idle_of_group (g := g) hout ⟨fun v hv => ?_, fun i hi => absurd hi List.not_mem_nil⟩
              (hne (RolloverState.exchange_of_sharing hs) (decide_eq_true hgid.symm))
            rw [← Option.some.inj hv]
            rfl
          | confirming g x status =>
            cases status with
            | collecting shares =>
              exact idle_of_group hout concluded_group
                (hne (RolloverState.exchange_of_confirming hs) (decide_eq_true hgid.symm))
            | _ => exact idle_of_outcome (hs ▸ hout)
    | _ => exact absurd rfl hmsg
  | _ => exact absurd rfl hmsg

/-! ## 6. Runs -/

/-- Every response that arrives during the exchange is in time, and so was its complaint: they are
taken and counted. -/
def InTime (T : Transition E) (gid : B256) (ms : List (Msg E)) : Prop :=
  ∀ past log p a w, past ++ [.event log] <+: ms → log.data = .keyGenComplaintResponded gid p a w →
    (Ceremony.openComplaints gid (T.ceremonyAfter past)).isSome →
      (Ceremony.answering log.block gid (T.ceremonyAfter past)).isSome ∧
        (p, a) ∈ (T.tallyAfter gid past).filed

/-- The secrets set up for the group are sampled for it. -/
def SetUp (F : Dealing E) (T : Transition E) (gid : B256) (ms : List (Msg E)) : Prop :=
  ∀ past secrets e g, past ++ [.resume (.setup gid secrets)] <+: ms →
    T.roundAfter past = some (e, g) → g.id = gid →
      Sampled F T.account secrets ∧ secrets.secretPackage.maxSigners = g.count

section Run

variable {F : Dealing E} {L : ContractLibraries} {gid : B256} {ms ms' : List (Msg E)} {msg : Msg E}
  {log : EventLog Event}

theorem InTime.init (h : T.InTime gid (ms ++ ms')) : T.InTime gid ms :=
  fun past log p a w hp => h past log p a w (hp.trans (List.prefix_append _ _))

theorem SetUp.init (h : SetUp F T gid (ms ++ ms')) : SetUp F T gid ms :=
  fun past secrets e g hp => h past secrets e g (hp.trans (List.prefix_append _ _))

/-- The seat of a participant is what the logs gave it. -/
def Seated (F : Dealing E) (T : Transition E) (gid : B256) (ms : List (Msg E)) : Prop :=
  ∀ v, (T.stateAfter ms).rollover.seat = some v → v.group.id = gid →
    SeatOk F T.account (T.heldAfter gid ms) v

/-- Whoever takes part in the exchange holds what it may. -/
theorem Seated.sound {g : Group} {x : SharingState E} (h : Seated F T gid ms)
    (hx : (T.stateAfter ms).rollover.exchange gid = some (g, x)) :
    (T.heldAfter gid ms).Sound F T.account g x := by
  obtain ⟨hid, ⟨k, shares, hs⟩ | ⟨status, hs⟩⟩ := RolloverState.exchange_eq_some hx
  · cases h _ hs hid with
    | sharing _ hsound _ => exact hsound
  · cases h _ hs hid with
    | collecting _ hsound _ _ => exact hsound
    | confirmed _ hsound _ => exact hsound

theorem round_of_exchange {g : Group} {x : SharingState E}
    (hx : (T.stateAfter ms).rollover.exchange gid = some (g, x)) :
    ∃ e, T.roundAfter ms = some (e, g) := by
  obtain ⟨-, ⟨k, shares, hs⟩ | ⟨status, hs⟩⟩ := RolloverState.exchange_eq_some hx
  · exact RolloverState.round_of_seat hs
  · exact RolloverState.round_of_seat hs

/-- A group whose key generation this validator has no part left in: its commitments are collected
already, and nothing is missing of the shares. -/
structure Finished (T : Transition E) (gid : B256) (ms : List (Msg E)) : Prop where
  past : ∃ p e g, p <+: ms ∧ T.roundAfter p = some (e, g) ∧ g.id = gid
  closed : ∀ c, (T.stateAfter ms).rollover.ceremony = .commitments c → c.group.id ≠ gid
  complete : ∀ g x, (T.stateAfter ms).rollover.exchange gid = some (g, x) →
    (T.heldAfter gid ms).Complete g

/-- An exchange goes on, unless it was in its commitment round. -/
theorem exchange_back {g : Group} {x : SharingState E}
    (hx : (T.stateAfter (ms ++ [msg])).rollover.exchange gid = some (g, x))
    (hnone : (T.stateAfter ms).rollover.exchange gid = none) :
    ∃ c, (T.stateAfter ms).rollover.ceremony = .commitments c ∧ c.group.id = gid := by
  obtain ⟨-, hstep⟩ : Idle T gid (T.stateAfter ms) msg := idle_step (.inl hnone)
  rw [stateAfter_concat] at hx
  obtain ⟨hid, ⟨k, shares, hs⟩ | ⟨status, hs⟩⟩ := RolloverState.exchange_eq_some hx
  · cases hstep _ hs hid with
    | kept hs' =>
      rw [← hid, RolloverState.exchange_of_sharing hs'] at hnone
      exact nomatch hnone
    | opened hsetup =>
      obtain ⟨secrets, k, hs'⟩ := hsetup.of_setup
      obtain ⟨c, hr, rfl⟩ := RolloverState.seat_setup hs'
      exact ⟨c.published, by rw [hr]; rfl, hid⟩
  · cases hstep _ hs hid with
    | kept hs' =>
      rw [← hid, RolloverState.exchange_of_confirming hs'] at hnone
      exact nomatch hnone

/-- **Finished is finished.** -/
theorem Finished.concat (hm : T.MembersOnly (ms ++ [msg])) (ha : T.IdsApart (ms ++ [msg]))
    (hseated : Seated F T gid (ms ++ [msg])) (h : Finished T gid ms) :
    Finished T gid (ms ++ [msg]) := by
  obtain ⟨p, e, g, hp, hr, hid⟩ := h.past
  have hback : ∀ {e' : EpochId} {g' : Group}, T.roundAfter (ms ++ [msg]) = some (e', g') →
      g'.id = gid → Ceremony.Continues (T.stateAfter ms).rollover.ceremony
        (T.stateAfter (ms ++ [msg])).rollover.ceremony :=
    fun hround hid' => continues_of_id hm ha hp hr hround (hid.trans hid'.symm)
  refine ⟨⟨p, e, g, hp.trans (List.prefix_append ms [msg]), hr, hid⟩, fun c' hc' hid' => ?_,
    fun g' x' hx' => ?_⟩
  · have hround : T.roundAfter (ms ++ [msg]) = some (c'.nextEpoch, c'.group) := by
      rw [roundAfter, ← ceremony_round, hc']
      rfl
    have hc := hback hround hid'
    rw [hc'] at hc
    cases hr₀ : (T.stateAfter ms).rollover.ceremony with
    | commitments c =>
      rw [hr₀] at hc
      exact h.closed c hr₀ (hc.1 ▸ hid')
    | _ =>
      rw [hr₀] at hc
      exact hc
  · obtain ⟨e', hround'⟩ := round_of_exchange hx'
    obtain ⟨hid', -⟩ := RolloverState.exchange_eq_some hx'
    cases hx : (T.stateAfter ms).rollover.exchange gid with
    | none =>
      obtain ⟨c, hc, hcid⟩ := exchange_back hx' hx
      exact absurd hcid (h.closed c hc)
    | some r =>
      obtain ⟨g₁, x⟩ := r
      obtain ⟨e₁, hround₁⟩ := round_of_exchange hx
      obtain ⟨hid₁, -⟩ := RolloverState.exchange_eq_some hx
      obtain ⟨-, hparts⟩ := ha.eq (List.prefix_append ms [msg]) (List.prefix_refl _) hround₁ hround'
        (hid₁.trans hid'.symm)
      obtain ⟨hkeys, hshares⟩ := h.complete g₁ x hx
      have hsound := hseated.sound hx'
      have hheld : T.heldAfter gid (ms ++ [msg]) = (T.heldAfter gid ms).take T g₁ x msg := by
        rw [heldAfter_concat, Holdings.next, hx', hx]
        rfl
      have hmono := Holdings.take_mono (h := T.heldAfter gid ms) (g := g₁) (x := x) (T := T) msg
      rw [← hheld, hkeys, hshares, hparts] at hmono
      exact ⟨Finset.Subset.antisymm hsound.publicKeys hmono.1,
        Finset.Subset.antisymm hsound.shares hmono.2⟩

/-- The groups the messages of a run confirm the key generation of, in order. -/
def confirmed (T : Transition E) (ms : List (Msg E)) : List B256 :=
  confirms (Reactive.runOutputs T.applyTransition (State.default E) ms)

theorem IdsApart.init (h : T.IdsApart (ms ++ ms')) : T.IdsApart ms where
  ids p p' e e' g g' hp hp' := h.ids p p' e e' g g' (hp.trans (List.prefix_append _ _))
    (hp'.trans (List.prefix_append _ _))
  genesis := h.genesis

end Run

end Transition

end Safenet
