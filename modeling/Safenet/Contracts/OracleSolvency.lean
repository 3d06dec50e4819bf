/-
# The oracle can pay

What a request has collected is its fee and a bond for each commitment.  What it pays is fixed when
it is settled: the slashed bonds and the protocol's cut of the fee go out at once, and what is left
stays for the sentinels, each of whom is owed its bond, less what was slashed, and a winner its share
of the fee (`OracleRequest.claimable`).

The books balance (`OracleBook.Ledger`): what was collected is what was paid, what is held, and a rest
that nobody can claim.  The rest is what the fee leaves when it is divided by the winners, and, when
a commitment has been overwritten (`zero_commits_twice`), a waste.  A step of a request keeps its
ledger, so the requests together hold no more than the oracle has in the token.
-/
import Safenet.Contracts.OracleAccounting
import Safenet.Lib.ERC20

namespace Safenet

/-! ## 1. The configuration -/

/-- A governed value with a property, which the pending one has too. -/
def Delayed.Within (d : Delayed Nat) (p : Nat → Prop) : Prop :=
  p d.value ∧ (d.pendingActiveAt ≠ 0 → p d.pendingValue)

theorem Delayed.Within.applyPending {d : Delayed Nat} {p : Nat → Prop} (h : d.Within p) (block : Nat) :
    (d.applyPending block).Within p := by
  unfold Delayed.applyPending
  split
  · exact h
  · rename_i hpending
    exact ⟨h.2 fun hzero => hpending (.inl hzero), fun hzero => absurd rfl hzero⟩

theorem Delayed.Within.schedule {d d' : Delayed Nat} {p : Nat → Prop} {block newValue delay : Nat}
    (h : d.Within p) (hnew : p newValue) (hd : d.schedule block newValue delay = .ok d') :
    d'.Within p := by
  simp only [Delayed.schedule, Except.bind_eq_ok, toUint_eq_ok, Except.pure_eq_ok] at hd
  obtain ⟨_, -, rfl⟩ := hd
  exact ⟨(h.applyPending block).1, fun _ => hnew⟩

/-- The multipliers, and the pending ones, have passed the checks. -/
def BondConfig.Valid (c : BondConfig) : Prop :=
  (0 < c.slashingMultiplier ∧ c.slashingMultiplier ≤ c.bondMultiplier) ∧
    (c.pendingActiveAt ≠ 0 →
      0 < c.pendingSlashingMultiplier ∧ c.pendingSlashingMultiplier ≤ c.pendingBondMultiplier)

theorem BondConfig.Valid.applyPending {c : BondConfig} (h : c.Valid) (block : Nat) :
    (c.applyPending block).Valid := by
  unfold BondConfig.applyPending
  split
  · exact h
  · rename_i hpending
    exact ⟨h.2 fun hzero => hpending (.inl hzero), fun hzero => absurd rfl hzero⟩

theorem BondConfig.Valid.schedule {c c' : BondConfig} {block bond slashing delay : Nat} (h : c.Valid)
    (hc : c.schedule block bond slashing delay = .ok c') : c'.Valid := by
  simp only [BondConfig.schedule, BondConfig.checkMultipliers, Except.bind_eq_ok, require_eq_ok,
    exists_const, toUint_eq_ok, Except.pure_eq_ok] at hc
  obtain ⟨⟨-, hcheck⟩, _, -, rfl⟩ := hc
  exact ⟨(h.applyPending block).1, fun _ => hcheck⟩

/-- The configuration that requests are posted with. -/
structure SentinelOracle.Configured (o : SentinelOracle) : Prop where
  bond : o.bondConfig.Valid
  fee : o.feeConfig.Within fun fee => 0 < fee
  share : o.daoFeeShareConfig.Within fun share => share ≤ feeShareDenominator

/-- A request that can pay what it owes: a bond covers what is slashed from it, and what is slashed
covers the fee. -/
structure OracleRequest.Priced (r : OracleRequest) : Prop where
  share : r.terms.daoFeeShare ≤ feeShareDenominator
  fee : r.progress.fee ≤ r.terms.slashAmount
  slash : r.terms.slashAmount ≤ r.terms.bondTarget
  bond : 0 < r.terms.bondTarget ∧ r.terms.bondTarget < 2 ^ 96

namespace SentinelOracle

variable {P : OracleParams} {o o' : SentinelOracle} {block : Nat} {sender : Address}

/-- The request that is posted with an offer. -/
theorem Configured.offers (hc : o.Configured) {fee : Nat} {terms : OracleTerms}
    (h : o.Offers block fee terms) :
    0 < fee ∧ OracleRequest.Priced ⟨terms, ⟨.pending, fee, 0, 0, 0, 0, 0⟩⟩ := by
  obtain ⟨hslash, hbond⟩ := (hc.bond.applyPending block).1
  have hfee : 0 < (o.feeConfig.applyPending block).value := (hc.fee.applyPending block).1
  have hshare := (hc.share.applyPending block).1
  rw [← h.value] at hfee
  have hle : fee ≤ terms.slashAmount := by
    rw [h.slash]
    exact Nat.le_mul_of_pos_right fee hslash
  have hcovers : terms.slashAmount ≤ terms.bondTarget := by
    rw [h.slash, h.bond]
    exact Nat.mul_le_mul_left fee hbond
  refine ⟨hfee, ⟨?_, hle, hcovers, hfee.trans_le (hle.trans hcovers), h.bound⟩⟩
  have hmod : terms.daoFeeShare ≤ (o.daoFeeShareConfig.applyPending block).value := by
    rw [h.share]
    exact Nat.mod_le _ _
  exact hmod.trans hshare

theorem construct_configured (h : construct P = .ok o) : o.Configured := by
  simp only [construct, BondConfig.init, BondConfig.checkMultipliers, Except.bind_eq_ok, exists_const,
    require_eq_ok, Except.pure_eq_ok] at h
  obtain ⟨-, -, -, -, -, hfee, -, -, hshare, -, _, ⟨⟨-, hbond⟩, rfl⟩, rfl⟩ := h
  exact ⟨⟨hbond, fun h => absurd rfl h⟩, ⟨hfee, fun h => absurd rfl h⟩, ⟨hshare, fun h => absurd rfl h⟩⟩

theorem Configured.govern (hc : o.Configured) {call : OracleCall}
    (h : o.govern P block sender call = .ok o') : o'.Configured := by
  unfold SentinelOracle.govern at h
  obtain ⟨_, -, h⟩ := Except.bind_eq_ok.mp h
  cases call with
  | addSentinel sentinel =>
    obtain ⟨-, -, rfl⟩ := by
      simpa only [Except.bind_eq_ok, exists_const, require_eq_ok, Except.pure_eq_ok] using h
    exact ⟨hc.bond, hc.fee, hc.share⟩
  | removeSentinel sentinel =>
    obtain ⟨-, rfl⟩ := by
      simpa only [Except.bind_eq_ok, exists_const, require_eq_ok, Except.pure_eq_ok] using h
    exact ⟨hc.bond, hc.fee, hc.share⟩
  | scheduleBondConfig newBondMultiplier newSlashingMultiplier =>
    obtain ⟨bondConfig, hbond, rfl⟩ := by
      simpa only [Except.bind_eq_ok, Except.pure_eq_ok] using h
    exact ⟨hc.bond.schedule hbond, hc.fee, hc.share⟩
  | scheduleProtocolFundsReceiver newValue =>
    obtain ⟨-, config, -, rfl⟩ := by
      simpa only [Except.bind_eq_ok, exists_const, require_eq_ok, Except.pure_eq_ok] using h
    exact ⟨hc.bond, hc.fee, hc.share⟩
  | scheduleFee newValue =>
    obtain ⟨hpos, config, hfee, rfl⟩ := by
      simpa only [Except.bind_eq_ok, exists_const, require_eq_ok, Except.pure_eq_ok] using h
    exact ⟨hc.bond, hc.fee.schedule hpos hfee, hc.share⟩
  | scheduleDaoFeeShare newValue =>
    obtain ⟨hle, config, hshare, rfl⟩ := by
      simpa only [Except.bind_eq_ok, exists_const, require_eq_ok, Except.pure_eq_ok] using h
    exact ⟨hc.bond, hc.fee, hc.share.schedule hle hshare⟩
  | _ =>
    obtain rfl := Except.ok.inj h
    exact hc

theorem Configured.setRequest (hc : o.Configured) (id : B256) (request : OracleRequest) :
    (o.setRequest id request).Configured := ⟨hc.bond, hc.fee, hc.share⟩

theorem Configured.setCommitment (hc : o.Configured) (id : B256) (commitment : OracleCommitment) :
    (o.setCommitment id sender commitment).Configured := ⟨hc.bond, hc.fee, hc.share⟩

theorem Configured.fundsReceiver (hc : o.Configured) : (o.fundsReceiver block).1.Configured :=
  ⟨hc.bond, hc.fee, hc.share⟩

/-- **A call keeps the configuration valid.** -/
theorem Configured.exec (hc : o.Configured) {call : OracleCall} {outcome : Outcome}
    (h : o.exec P block sender call = .ok outcome) : outcome.1.Configured := by
  have hgovern : (o.govern P block sender call).map (fun o => (o, [], [])) = .ok outcome →
      outcome.1.Configured := by
    intro h
    obtain ⟨o', ho', rfl⟩ := Except.map_eq_ok.mp h
    exact hc.govern ho'
  cases call with
  | postRequest id sponsor =>
    have h : o.postRequest P block sender id sponsor = .ok outcome := h
    simp only [postRequest, createRequest, Except.bind_eq_ok, exists_const, require_eq_ok,
      Except.pure_eq_ok] at h
    obtain ⟨-, _, -, _, -, _, -, _, -, _, ⟨-, -, -, rfl⟩, rfl⟩ := h
    exact ⟨hc.bond.applyPending block, hc.fee.applyPending block, hc.share.applyPending block⟩
  | commit id commitHash =>
    have h : o.commit block sender id commitHash = .ok outcome := h
    simp only [commit, addCommitment, Except.bind_eq_ok, exists_const, require_eq_ok,
      checkNotCommitted, Except.pure_eq_ok, Prod.exists] at h
    obtain ⟨-, _, -, _, _, -, _, ⟨-, rfl⟩, rfl⟩ := h
    exact (hc.setRequest id _).setCommitment id _
  | reveal id approve salt reason =>
    have h : o.reveal P block sender id approve salt reason = .ok outcome := h
    simp only [reveal, Except.bind_eq_ok, Except.pure_eq_ok] at h
    obtain ⟨_, -, _, -, _, -, rfl⟩ := h
    exact (hc.setCommitment id _).setRequest id _
  | finalize id =>
    have h : o.finalize P block id = .ok outcome := h
    simp only [finalize, Except.bind_eq_ok, Except.pure_eq_ok, Prod.exists] at h
    obtain ⟨_, -, _, -, _, _, -, rfl⟩ := h
    exact (hc.setRequest id _).fundsReceiver
  | claim id =>
    have h : o.claim sender id = .ok outcome := h
    simp only [claim, Except.bind_eq_ok, Except.pure_eq_ok] at h
    obtain ⟨_, -, _, -, _, -, _, -, _, -, rfl⟩ := h
    exact hc.setCommitment id _
  | resolveDispute id approveWins context =>
    have h : o.resolveDispute P block sender id approveWins context = .ok outcome := h
    simp only [resolveDispute, Except.bind_eq_ok, exists_const, require_eq_ok, Except.pure_eq_ok,
      Prod.exists] at h
    obtain ⟨-, _, -, _, _, -, _, -, _, -, rfl⟩ := h
    exact (hc.setRequest id _).fundsReceiver
  | timeoutArbitration id =>
    have h : o.timeoutArbitration block id = .ok outcome := h
    simp only [timeoutArbitration, Except.bind_eq_ok, Except.pure_eq_ok,
      Prod.exists] at h
    obtain ⟨_, -, _, _, -, rfl⟩ := h
    exact hc.setRequest id _
  | markOutOfScope id context =>
    have h : o.markOutOfScope P sender id context = .ok outcome := h
    simp only [markOutOfScope, Except.bind_eq_ok, exists_const, require_eq_ok, Except.pure_eq_ok,
      Prod.exists] at h
    obtain ⟨-, _, -, _, _, -, rfl⟩ := h
    exact hc.setRequest id _
  | applyBondConfig =>
    obtain rfl := Except.ok.inj h
    exact ⟨hc.bond.applyPending block, hc.fee, hc.share⟩
  | applyProtocolFundsReceiver =>
    obtain rfl := Except.ok.inj h
    exact ⟨hc.bond, hc.fee, hc.share⟩
  | applyFee =>
    obtain rfl := Except.ok.inj h
    exact ⟨hc.bond, hc.fee.applyPending block, hc.share⟩
  | applyDaoFeeShare =>
    obtain rfl := Except.ok.inj h
    exact ⟨hc.bond, hc.fee, hc.share.applyPending block⟩
  | _ => exact hgovern h

theorem run_configured (h : construct P = .ok o) (txs : List OracleTx) :
    (Reactive.runState (execTx P) o txs).Configured := by
  refine Reactive.runState_induction (execTx P) (fun _ o => o.Configured) (construct_configured h) ?_ txs
  intro past o tx ho
  rcases execTx_cases P o tx with hrun | ⟨outcome, hexec, hrun⟩
  · rw [hrun]
    exact ho
  · rw [hrun]
    exact ho.exec hexec

end SentinelOracle

/-! ## 2. What is held -/

/-- What comes in by a payment. -/
def Payment.paidIn : Payment → Nat
  | .pull _ amount => amount
  | .push _ _ => 0

/-- What goes out by a payment. -/
def Payment.paidOut : Payment → Nat
  | .pull _ _ => 0
  | .push _ amount => amount

/-- What comes in by payments. -/
def paidIn (payments : List Payment) : Nat := (payments.map Payment.paidIn).sum

/-- What goes out by payments. -/
def paidOut (payments : List Payment) : Nat := (payments.map Payment.paidOut).sum

@[simp] theorem paidIn_pushPositive (recipient : Address) (amount : Nat) :
    paidIn (SentinelOracle.pushPositive recipient amount) = 0 := by
  unfold SentinelOracle.pushPositive
  split <;> rfl

@[simp] theorem paidOut_pushPositive (recipient : Address) (amount : Nat) :
    paidOut (SentinelOracle.pushPositive recipient amount) = amount := by
  unfold SentinelOracle.pushPositive
  split
  · simp [paidOut, Payment.paidOut]
  · rename_i h
    exact (Nat.eq_zero_of_not_pos h).symm

theorem paidIn_append (payments payments' : List Payment) :
    paidIn (payments ++ payments') = paidIn payments + paidIn payments' := by
  simp [paidIn]

theorem paidOut_append (payments payments' : List Payment) :
    paidOut (payments ++ payments') = paidOut payments + paidOut payments' := by
  simp [paidOut]

instance : Fintype SentinelVote :=
  ⟨{.none, .pending, .approved, .denied}, fun vote => by cases vote <;> decide⟩

theorem SentinelVote.sum_eq (w : SentinelVote → Nat) :
    ∑ vote, w vote = w .none + (w .pending + w .approved + w .denied) := by
  have huniv : (Finset.univ : Finset SentinelVote) = {.none, .pending, .approved, .denied} := rfl
  rw [huniv]
  simp [add_assoc]

namespace OracleRequest

variable (r : OracleRequest)

/-- The share of the fee that a vote earns. -/
def feeReward (vote : SentinelVote) : Nat :=
  match r.calcFeeReward r.progress.state vote with
  | .ok reward => reward
  | .error _ => 0

/-- What a commitment can claim, as its request stands: all of the bond until it is settled what is
slashed from it. -/
def claimable (c : OracleCommitment) : Nat :=
  if c.vote = .none ∨ c.claimed = true then 0
  else if r.progress.state = .pending then c.bondAmount
  else c.bondAmount - r.slashAmountFor r.progress.state c.vote + r.feeReward c.vote

/-- The fee, as long as it is held. -/
def escrow : Nat :=
  if r.progress.state = .pending ∨ r.progress.state = .frozen then r.progress.fee else 0

/-- What the fee leaves when it is divided. -/
def remainder : Nat :=
  if r.progress.state = .resolvedApproved ∨ r.progress.state = .resolvedDenied then
    r.progress.fee % r.winningSideCount r.progress.state
  else 0

/-- What a vote can claim. -/
def worth (vote : SentinelVote) : Nat := r.claimable ⟨0, r.terms.bondTarget, vote, false⟩

variable {r}

@[simp] theorem worth_none : r.worth .none = 0 := by simp [worth, claimable]

theorem worth_pending (h : r.progress.state = .pending) {vote : SentinelVote} (hv : vote ≠ .none) :
    r.worth vote = r.terms.bondTarget := by
  simp [worth, claimable, h, hv]

/-- A commitment that was not revealed, on a request with a reveal. -/
theorem worth_unrevealed (h : r.progress.state ≠ .pending)
    (hside : 0 < r.progress.approveSentinelCount ∨ 0 < r.progress.denySentinelCount) :
    r.worth .pending = r.terms.bondTarget - r.terms.slashAmount := by
  simp [worth, claimable, h, slashAmountFor, hside, feeReward, calcFeeReward]

/-- A reveal, on a request without a ruling. -/
theorem worth_revealed {vote : SentinelVote} (hv : vote = .approved ∨ vote = .denied)
    (h : r.progress.state = .frozen ∨ r.progress.state = .timedOut) :
    r.worth vote = r.terms.bondTarget := by
  rcases hv with rfl | rfl <;> rcases h with h | h <;>
    simp [worth, claimable, h, slashAmountFor, feeReward, calcFeeReward]

/-- The vote of the side that a state is for. -/
def winner (state : OracleRequestState) : SentinelVote :=
  if state = .resolvedApproved then .approved else .denied

/-- The vote of the other side. -/
def loser (state : OracleRequestState) : SentinelVote :=
  if state = .resolvedApproved then .denied else .approved

/-- The sentinels on the other side. -/
def losingSideCount (r : OracleRequest) (state : OracleRequestState) : Nat :=
  if state = .resolvedApproved then r.progress.denySentinelCount
  else r.progress.approveSentinelCount

theorem worth_winner (h : r.progress.state = .resolvedApproved ∨ r.progress.state = .resolvedDenied)
    (hwinners : 0 < r.winningSideCount r.progress.state) :
    r.worth (winner r.progress.state) =
      r.terms.bondTarget + r.progress.fee / r.winningSideCount r.progress.state := by
  rcases h with h | h <;> rw [h] at hwinners <;>
    simp_all [worth, claimable, winner, slashAmountFor, feeReward, calcFeeReward, winningSideCount,
      Nat.pos_iff_ne_zero]

theorem worth_loser (h : r.progress.state = .resolvedApproved ∨ r.progress.state = .resolvedDenied)
    (ha : 0 < r.progress.approveSentinelCount) (hd : 0 < r.progress.denySentinelCount) :
    r.worth (loser r.progress.state) = r.terms.bondTarget - r.terms.slashAmount := by
  rcases h with h | h <;>
    simp_all [worth, claimable, loser, slashAmountFor, feeReward, calcFeeReward, Nat.pos_iff_ne_zero]

/-- What the votes are worth, by the side. -/
theorem worth_sides (h : r.progress.state = .resolvedApproved ∨ r.progress.state = .resolvedDenied) :
    r.progress.approveSentinelCount * r.worth .approved + r.progress.denySentinelCount * r.worth .denied =
      r.winningSideCount r.progress.state * r.worth (winner r.progress.state) +
        r.losingSideCount r.progress.state * r.worth (loser r.progress.state) := by
  rcases h with h | h <;> rw [h] <;> simp [winningSideCount, losingSideCount, winner, loser, add_comm]

end OracleRequest

namespace OracleRequest

variable {r r' : OracleRequest}

/-- The cut of the fee is not narrowed, and is not more than the fee. -/
theorem Priced.daoCut (h : r.Priced) :
    r.daoCut r.progress.fee = r.progress.fee * r.terms.daoFeeShare / feeShareDenominator ∧
      r.daoCut r.progress.fee ≤ r.progress.fee := by
  have hle : r.progress.fee * r.terms.daoFeeShare / feeShareDenominator ≤ r.progress.fee :=
    Nat.div_le_of_le_mul ((Nat.mul_le_mul_left _ h.share).trans (Nat.mul_comm _ _).le)
  have hfee := (h.fee.trans h.slash).trans_lt h.bond.2
  have hcut : r.daoCut r.progress.fee = r.progress.fee * r.terms.daoFeeShare / feeShareDenominator :=
    Nat.mod_eq_of_lt (hle.trans_lt hfee)
  exact ⟨hcut, hcut.le.trans hle⟩

/-- What is slashed fits. -/
theorem Priced.slashTotal (h : r.Priced) {count : Nat} (hcount : count < 2 ^ 16) :
    r.slashTotal count = count * r.terms.slashAmount := by
  refine Nat.mod_eq_of_lt ?_
  have hslash := h.slash.trans_lt h.bond.2
  calc count * r.terms.slashAmount ≤ 2 ^ 16 * r.terms.slashAmount := Nat.mul_le_mul_right _ hcount.le
    _ ≤ 2 ^ 16 * 2 ^ 96 := Nat.mul_le_mul_left _ hslash.le
    _ < 2 ^ 128 := by norm_num

/-- A request that goes on with its terms, and not more of its fee. -/
theorem Priced.keeps (h : r.Priced) (hk : r.Keeps r') (hfee : r'.progress.fee ≤ r.progress.fee) :
    r'.Priced where
  share := by rw [hk.terms]; exact h.share
  fee := by rw [hk.terms]; exact hfee.trans h.fee
  slash := by rw [hk.terms]; exact h.slash
  bond := by rw [hk.terms]; exact h.bond

theorem IsResolved.state_ne (h : r.IsResolved) :
    r.progress.state ≠ .none ∧ r.progress.state ≠ .pending ∧ r.progress.state ≠ .frozen := by
  rcases h with h | h | h <;> simp [h]

/-- What the votes of a request are worth when one side has decided. -/
theorem worth_resolved
    (h : r.progress.state = .resolvedApproved ∨ r.progress.state = .resolvedDenied)
    (hwinners : 0 < r.winningSideCount r.progress.state) :
    r.progress.approveSentinelCount * r.worth .approved +
        r.progress.denySentinelCount * r.worth .denied + r.remainder =
      r.winningSideCount r.progress.state * r.terms.bondTarget + r.progress.fee +
        r.losingSideCount r.progress.state * (r.terms.bondTarget - r.terms.slashAmount) := by
  have hloser : r.losingSideCount r.progress.state * r.worth (loser r.progress.state) =
      r.losingSideCount r.progress.state * (r.terms.bondTarget - r.terms.slashAmount) := by
    rcases Nat.eq_zero_or_pos (r.losingSideCount r.progress.state) with hzero | hpos
    · rw [hzero, Nat.zero_mul, Nat.zero_mul]
    · rw [worth_loser h]
      all_goals
        rcases h with h | h <;> rw [h] at hpos hwinners <;>
          simp_all [losingSideCount, winningSideCount]
  rw [worth_sides h, worth_winner h hwinners, hloser, remainder, if_pos h, Nat.mul_add]
  have := Nat.div_add_mod r.progress.fee (r.winningSideCount r.progress.state)
  omega

end OracleRequest

namespace OracleBook

variable {b b' : OracleBook}

/-- The fee that is held for a request, and what can be claimed of it. -/
def held (b : OracleBook) : Nat := b.request.escrow + ∑ s, b.request.claimable (b.commitments s)

/-- What is held of a request of which nothing is claimed, by the votes. -/
theorem held_unclaimed (hb : b.Sound) (h : ∀ s, (b.commitments s).claimed = false) :
    b.held = b.request.escrow + (votes b.commitments .pending * b.request.worth .pending +
      votes b.commitments .approved * b.request.worth .approved +
      votes b.commitments .denied * b.request.worth .denied) := by
  have hclaimable : ∀ s, b.request.claimable (b.commitments s) = b.request.worth (b.commitments s).vote := by
    intro s
    by_cases hvote : (b.commitments s).vote = .none
    · simp [OracleRequest.claimable, hvote]
    · simp [OracleRequest.claimable, OracleRequest.worth, hvote, h s, hb.bond s hvote]
  rw [held, Finset.sum_congr rfl fun s _ => hclaimable s,
    Tally.sum_by_key b.commitments (fun c => c.vote) b.request.worth, SentinelVote.sum_eq]
  simp only [OracleRequest.worth_none, Nat.mul_zero, Nat.zero_add]
  rfl

/-- The books of a request, with what has come in and gone out for it. -/
structure Ledger (b : OracleBook) (received paid : Nat) : Prop where
  unopened : b.request.progress.state = .none → received = 0 ∧ paid = 0
  priced : b.request.progress.state ≠ .none → b.request.Priced
  unclaimed : ¬b.request.IsResolved → ∀ s, (b.commitments s).claimed = false
  collected : b.request.progress.state = .pending ∨ b.request.progress.state = .frozen →
    received = b.request.progress.fee +
      b.request.progress.committedCount * b.request.terms.bondTarget
  pending : b.request.progress.state = .pending → paid = 0
  frozen : b.request.progress.state = .frozen →
    (0 < b.request.progress.approveSentinelCount ∧ 0 < b.request.progress.denySentinelCount) ∧
      paid = (b.request.progress.committedCount - b.request.progress.revealedCount) *
        b.request.terms.slashAmount
  winners : b.request.progress.state = .resolvedApproved ∨ b.request.progress.state = .resolvedDenied →
    0 < b.request.winningSideCount b.request.progress.state
  settled : b.request.IsResolved → ∃ waste,
    received = paid + b.held + b.request.remainder + waste ∧ (b.Exact → waste = 0)

variable {received paid : Nat}

/-- **What is held is there.** -/
theorem Ledger.covered (hb : b.Sound) (h : b.Ledger received paid) : paid + b.held ≤ received := by
  have hpending := hb.pending
  have happroved := hb.approved
  have hdenied := hb.denied
  have hrevealed := hb.revealed
  by_cases hresolved : b.request.IsResolved
  · obtain ⟨waste, hsettled, -⟩ := h.settled hresolved
    omega
  have hheld := held_unclaimed hb (h.unclaimed hresolved)
  cases hstate : b.request.progress.state with
  | none =>
    have hvotes := hb.votes_unopened hstate
    have hzero : ∀ vote ≠ SentinelVote.none, votes b.commitments vote = 0 := fun vote hv =>
      votes_eq_zero.mpr fun s => by rw [hvotes s]; exact hv.symm
    rw [hheld, hzero .pending (by simp), hzero .approved (by simp), hzero .denied (by simp)]
    simp [OracleRequest.escrow, hstate, h.unopened hstate]
  | pending =>
    rw [hheld, h.collected (.inl hstate), h.pending hstate,
      OracleRequest.worth_pending hstate (by simp), OracleRequest.worth_pending hstate (by simp),
      OracleRequest.worth_pending hstate (by simp), ← Nat.add_mul, ← Nat.add_mul, OracleRequest.escrow,
      if_pos (.inl hstate), Nat.zero_add]
    exact Nat.add_le_add_left (Nat.mul_le_mul_right _ (by omega)) _
  | frozen =>
    obtain ⟨⟨ha, -⟩, hpaid⟩ := h.frozen hstate
    have hslash := (h.priced (by simp [hstate])).slash
    rw [hheld, h.collected (.inr hstate), hpaid,
      OracleRequest.worth_unrevealed (by simp [hstate]) (.inl ha),
      OracleRequest.worth_revealed (.inl rfl) (.inl hstate),
      OracleRequest.worth_revealed (.inr rfl) (.inl hstate), OracleRequest.escrow,
      if_pos (.inr hstate)]
    generalize b.request.progress.revealedCount = R at *
    obtain ⟨x, hx⟩ := Nat.exists_eq_add_of_le hslash
    obtain ⟨y, hy⟩ := Nat.exists_eq_add_of_le hpending
    rw [hy, hx, Nat.add_sub_cancel_left]
    have hR := Nat.mul_le_mul_right (b.request.terms.slashAmount + x)
      (show votes b.commitments .approved + votes b.commitments .denied ≤ R by omega)
    have hsub : votes b.commitments .pending + R + y - R = votes b.commitments .pending + y := by omega
    rw [hsub]
    nlinarith [Nat.zero_le (y * x)]
  | resolvedApproved => exact absurd (.inl hstate) hresolved
  | resolvedDenied => exact absurd (.inr (.inl hstate)) hresolved
  | timedOut => exact absurd (.inr (.inr hstate)) hresolved

/-- A settled request, of which nothing is claimed yet: the votes that are counted have been paid for. -/
theorem settle (hb : b.Sound) (h : ∀ s, (b.commitments s).claimed = false)
    (hresolved : b.request.IsResolved)
    (hpaid : received = paid + b.request.remainder +
      ((b.request.progress.committedCount - b.request.progress.revealedCount) * b.request.worth .pending +
        (b.request.progress.approveSentinelCount * b.request.worth .approved +
          b.request.progress.denySentinelCount * b.request.worth .denied))) :
    ∃ waste, received = paid + b.held + b.request.remainder + waste ∧ (b.Exact → waste = 0) := by
  obtain ⟨n, hn⟩ := Nat.exists_eq_add_of_le (Nat.le_sub_of_add_le hb.pending)
  obtain ⟨a, ha⟩ := Nat.exists_eq_add_of_le hb.approved
  obtain ⟨d, hd⟩ := Nat.exists_eq_add_of_le hb.denied
  have hescrow : b.request.escrow = 0 := by
    rw [OracleRequest.escrow, if_neg]
    rcases hresolved with hs | hs | hs <;> simp [hs]
  refine ⟨n * b.request.worth .pending + (a * b.request.worth .approved + d * b.request.worth .denied),
    ?_, fun hexact => ?_⟩
  · rw [hpaid, held_unclaimed hb h, hescrow, hn, ha, hd]
    ring
  · have hpending := hexact.pending
    have happroved := hexact.approved
    have hdenied := hexact.denied
    rw [show n = 0 by omega, show a = 0 by omega, show d = 0 by omega]
    simp

/-- A claim moves what is claimable from what is held to what is paid. -/
theorem held_claimed {s : Address} :
    held { b with commitments := Function.update b.commitments s { b.commitments s with claimed := true } } +
      b.request.claimable (b.commitments s) = b.held := by
  have hsum := Tally.sum_update b.commitments s { b.commitments s with claimed := true }
    b.request.claimable
  have hnone : b.request.claimable { b.commitments s with claimed := true } = 0 := by
    simp [OracleRequest.claimable]
  rw [hnone, Nat.add_zero] at hsum
  simp only [held, Nat.add_assoc, hsum]

/-- A request that one side has decided: the slashed bonds and the cut of the fee are paid. -/
theorem settle_resolved (hb : b.Sound) (hpriced : b.request.Priced)
    (h : ∀ s, (b.commitments s).claimed = false) {fee cut : Nat}
    (hstate : b.request.progress.state = .resolvedApproved ∨
      b.request.progress.state = .resolvedDenied)
    (hwinners : 0 < b.request.winningSideCount b.request.progress.state)
    (hfee : b.request.progress.fee + cut = fee)
    (hreceived : received = fee + b.request.progress.committedCount * b.request.terms.bondTarget)
    (hpaid : paid = (b.request.progress.committedCount - b.request.progress.revealedCount) *
      b.request.terms.slashAmount +
      b.request.losingSideCount b.request.progress.state * b.request.terms.slashAmount + cut) :
    ∃ waste, received = paid + b.held + b.request.remainder + waste ∧ (b.Exact → waste = 0) := by
  have hsides : b.request.winningSideCount b.request.progress.state +
      b.request.losingSideCount b.request.progress.state = b.request.progress.revealedCount := by
    have hrevealed := hb.revealed
    rcases hstate with hs | hs <;> rw [hs] <;>
      simp [OracleRequest.winningSideCount, OracleRequest.losingSideCount] <;> omega
  have hestablished :
      0 < b.request.progress.approveSentinelCount ∨ 0 < b.request.progress.denySentinelCount := by
    rcases hstate with hs | hs <;> rw [hs] at hwinners <;>
      simp [OracleRequest.winningSideCount] at hwinners <;> omega
  refine settle hb h ?_ ?_
  · rcases hstate with hs | hs <;> simp [OracleRequest.IsResolved, hs]
  have hworth := OracleRequest.worth_resolved hstate hwinners
  rw [OracleRequest.worth_unrevealed (by rcases hstate with hs | hs <;> simp [hs]) hestablished]
  have hle : b.request.progress.revealedCount ≤ b.request.progress.committedCount :=
    (Nat.le_add_left _ _).trans hb.pending
  obtain ⟨n, hn⟩ := Nat.exists_eq_add_of_le hle
  obtain ⟨x, hx⟩ := Nat.exists_eq_add_of_le hpriced.slash
  rw [hn, Nat.add_sub_cancel_left] at hpaid
  rw [hn] at hreceived
  rw [hn, Nat.add_sub_cancel_left]
  rw [hx] at hreceived hworth ⊢
  rw [Nat.add_sub_cancel_left] at hworth ⊢
  rw [← hsides] at hreceived
  rw [hpaid, hreceived, ← hfee]
  nlinarith [hworth]

/-- A dispute without a ruling: the fee is paid back. -/
theorem settle_timedOut (hb : b.Sound) (hslash : b.request.terms.slashAmount ≤ b.request.terms.bondTarget)
    (h : ∀ s, (b.commitments s).claimed = false) {fee : Nat}
    (hstate : b.request.progress.state = .timedOut) (ha : 0 < b.request.progress.approveSentinelCount)
    (hreceived : received = fee + b.request.progress.committedCount * b.request.terms.bondTarget)
    (hpaid : paid = (b.request.progress.committedCount - b.request.progress.revealedCount) *
      b.request.terms.slashAmount + fee) :
    ∃ waste, received = paid + b.held + b.request.remainder + waste ∧ (b.Exact → waste = 0) := by
  refine settle hb h (.inr (.inr hstate)) ?_
  have hremainder : b.request.remainder = 0 := by simp [OracleRequest.remainder, hstate]
  rw [hremainder, OracleRequest.worth_unrevealed (by simp [hstate]) (.inl ha),
    OracleRequest.worth_revealed (.inl rfl) (.inr hstate),
    OracleRequest.worth_revealed (.inr rfl) (.inr hstate), ← Nat.add_mul, ← hb.revealed]
  have hle : b.request.progress.revealedCount ≤ b.request.progress.committedCount :=
    (Nat.le_add_left _ _).trans hb.pending
  obtain ⟨n, hn⟩ := Nat.exists_eq_add_of_le hle
  obtain ⟨x, hx⟩ := Nat.exists_eq_add_of_le hslash
  rw [hn, Nat.add_sub_cancel_left] at hpaid
  rw [hreceived, hpaid, hn, Nat.add_sub_cancel_left, hx, Nat.add_sub_cancel_left]
  ring

section

variable {P : OracleParams} {Offer : Nat → OracleTerms → Prop} {receiver sender : Address} {id : B256}
  {block : Nat} {call : OracleCall} {logs : List OracleLog} {payments : List Payment}

/-- How a request is settled, or goes into a dispute, when it is finalized. -/
theorem Ledger.finalized (hb : b.Sound) (h : b.Ledger received paid) {deadline : Nat}
    {request : OracleRequest} {result : OracleRequest.Finalized} {sponsor : Address}
    (hstate : b.request.progress.state = .pending)
    (hto : b.request.FinalizesTo deadline request result) :
    Ledger { b with request }
      (received + paidIn (SentinelOracle.finalPayments receiver sponsor result))
      (paid + paidOut (SentinelOracle.finalPayments receiver sponsor result)) := by
  have hpriced := h.priced (by simp [hstate])
  have hcollected := h.collected (.inl hstate)
  have hunclaimed := h.unclaimed (by simp [OracleRequest.IsResolved, hstate])
  have hkeeps := hto.keeps hstate
  have hsound := hb.keeps hkeeps
  have hrevealed := hb.revealed
  have hslashTotal := hpriced.slashTotal
    (show b.request.progress.committedCount - b.request.progress.revealedCount < 2 ^ 16 from
      (Nat.sub_le _ _).trans_lt hb.bounded)
  obtain rfl := h.pending hstate
  cases hto with
  | frozen ha hd hle =>
    have hin : paidIn (SentinelOracle.finalPayments receiver sponsor ⟨.frozen, 0, b.request.slashTotal
        (b.request.progress.committedCount - b.request.progress.revealedCount), 0⟩) = 0 := by
      simp [SentinelOracle.finalPayments]
    have hout : paidOut (SentinelOracle.finalPayments receiver sponsor ⟨.frozen, 0, b.request.slashTotal
        (b.request.progress.committedCount - b.request.progress.revealedCount), 0⟩) =
        (b.request.progress.committedCount - b.request.progress.revealedCount) *
          b.request.terms.slashAmount := by
      simp [SentinelOracle.finalPayments, hslashTotal]
    rw [hin, hout]
    exact {
      unopened := by simp
      priced := fun _ => hpriced.keeps hkeeps le_rfl
      unclaimed := fun _ => hunclaimed
      collected := fun _ => hcollected
      pending := by simp
      frozen := fun _ => ⟨⟨ha, hd⟩, Nat.zero_add _⟩
      winners := by simp
      settled := by simp [OracleRequest.IsResolved] }
  | @resolved state fee hside hle hfee =>
    have hstates : state = .resolvedApproved ∨ state = .resolvedDenied := by
      rcases hside with ⟨rfl, -⟩ | ⟨rfl, -⟩ <;> simp
    have hin : paidIn (SentinelOracle.finalPayments receiver sponsor ⟨state, 0, b.request.slashTotal
        (b.request.progress.committedCount - b.request.progress.revealedCount),
        b.request.daoCut b.request.progress.fee⟩) = 0 := by
      rcases hstates with rfl | rfl <;> simp [SentinelOracle.finalPayments, paidIn_append]
    have hout : paidOut (SentinelOracle.finalPayments receiver sponsor ⟨state, 0, b.request.slashTotal
        (b.request.progress.committedCount - b.request.progress.revealedCount),
        b.request.daoCut b.request.progress.fee⟩) =
        (b.request.progress.committedCount - b.request.progress.revealedCount) *
          b.request.terms.slashAmount + b.request.daoCut b.request.progress.fee := by
      rcases hstates with rfl | rfl <;>
        simp [SentinelOracle.finalPayments, paidOut_append, hslashTotal]
    have hpriced' := hpriced.keeps hkeeps (hfee ▸ Nat.le_add_right _ _)
    have hwinners : 0 < OracleRequest.winningSideCount
        { b.request with progress := { b.request.progress with state, fee } } state := by
      rcases hside with ⟨rfl, ha, -⟩ | ⟨rfl, -, hd⟩ <;> simpa [OracleRequest.winningSideCount]
    have hlosers : OracleRequest.losingSideCount
        { b.request with progress := { b.request.progress with state, fee } } state = 0 := by
      rcases hside with ⟨rfl, -, hd⟩ | ⟨rfl, ha, -⟩ <;> simpa [OracleRequest.losingSideCount]
    rw [hin, hout]
    exact {
      unopened := by rcases hstates with rfl | rfl <;> simp
      priced := fun _ => hpriced'
      unclaimed := fun _ => hunclaimed
      collected := by rcases hstates with rfl | rfl <;> simp
      pending := by rcases hstates with rfl | rfl <;> simp
      frozen := by rcases hstates with rfl | rfl <;> simp
      winners := fun _ => hwinners
      settled := fun _ => settle_resolved hsound hpriced' hunclaimed hstates hwinners hfee hcollected
        (by rw [hlosers]; simp) }
  | timedOut ha hd =>
    have hin : paidIn (SentinelOracle.finalPayments receiver sponsor
        ⟨.timedOut, b.request.progress.fee, 0, 0⟩) = 0 := by
      simp [SentinelOracle.finalPayments, SentinelOracle.pushPositive, paidIn, Payment.paidIn]
    have hout : paidOut (SentinelOracle.finalPayments receiver sponsor
        ⟨.timedOut, b.request.progress.fee, 0, 0⟩) = b.request.progress.fee := by
      simp [SentinelOracle.finalPayments, SentinelOracle.pushPositive, paidOut, Payment.paidOut]
    rw [hin, hout]
    exact {
      unopened := by simp
      priced := fun _ => hpriced.keeps hkeeps (Nat.zero_le _)
      unclaimed := fun _ => hunclaimed
      collected := by simp
      pending := by simp
      frozen := by simp
      winners := by simp
      settled := fun hres => settle hsound hunclaimed hres (by
        simp [OracleRequest.remainder, OracleRequest.worth, OracleRequest.claimable, ha, hd,
          OracleRequest.slashAmountFor, OracleRequest.feeReward, OracleRequest.calcFeeReward, hcollected,
          hrevealed]) }

/-- A ruling: the fee goes back, and what the losers lose pays for it. -/
theorem Ledger.ruled (hb : b.Sound) (h : b.Ledger received paid) {approveWins : Bool}
    {request : OracleRequest} {ruling : OracleRequest.Ruling} {kept : Nat} {sponsor : Address}
    (hruling : b.request.resolveDispute approveWins = .ok (request, ruling))
    (hkept : kept = ruling.slashed - ruling.feeAmount + ruling.daoCut) :
    Ledger { b with request }
      (received + paidIn [.push sponsor ruling.feeAmount, .push receiver kept])
      (paid + paidOut [.push sponsor ruling.feeAmount, .push receiver kept]) := by
  have hkeeps := OracleRequest.resolveDispute_keeps hruling
  obtain ⟨hstate, fee, hfee, rfl, rfl⟩ := OracleRequest.resolveDispute_spec hruling
  obtain ⟨⟨ha, hd⟩, hpaid⟩ := h.frozen hstate
  have hpriced := h.priced (by simp [hstate])
  have hpriced' := hpriced.keeps hkeeps (hfee ▸ Nat.le_add_right _ _)
  have hunclaimed := h.unclaimed (by simp [OracleRequest.IsResolved, hstate])
  have hcollected := h.collected (.inr hstate)
  have hsound := hb.keeps hkeeps
  have hrevealed := hb.revealed
  have hpending := hb.pending
  have hbounded := hb.bounded
  have hstates : (if approveWins then OracleRequestState.resolvedApproved else .resolvedDenied) =
      .resolvedApproved ∨
      (if approveWins then OracleRequestState.resolvedApproved else .resolvedDenied) =
      .resolvedDenied := by
    cases approveWins <;> simp
  have hcounts : b.request.losingSideCount
        (if approveWins then .resolvedApproved else .resolvedDenied) =
          (if approveWins then b.request.progress.denySentinelCount
            else b.request.progress.approveSentinelCount) ∧
      0 < b.request.losingSideCount (if approveWins then .resolvedApproved else .resolvedDenied) ∧
      0 < b.request.winningSideCount (if approveWins then .resolvedApproved else .resolvedDenied) := by
    cases approveWins <;>
      simp [OracleRequest.losingSideCount, OracleRequest.winningSideCount, ha, hd]
  obtain ⟨hlosing, hlosers, hwinners⟩ := hcounts
  dsimp only at hkept
  rw [← hlosing] at hkept
  generalize (if approveWins then OracleRequestState.resolvedApproved else .resolvedDenied) = state at *
  have hslashed := hpriced.slashTotal (show b.request.losingSideCount state < 2 ^ 16 by
    rcases hstates with rfl | rfl <;> simp [OracleRequest.losingSideCount] <;> omega)
  have hcovers : b.request.progress.fee ≤ b.request.losingSideCount state * b.request.terms.slashAmount :=
    hpriced.fee.trans (Nat.le_mul_of_pos_left _ hlosers)
  rw [hslashed] at hkept
  exact {
    unopened := by rcases hstates with rfl | rfl <;> simp
    priced := fun _ => hpriced'
    unclaimed := fun _ => hunclaimed
    collected := by rcases hstates with rfl | rfl <;> simp
    pending := by rcases hstates with rfl | rfl <;> simp
    frozen := by rcases hstates with rfl | rfl <;> simp
    winners := fun _ => hwinners
    settled := fun _ => by
      refine settle_resolved hsound hpriced' hunclaimed hstates hwinners hfee hcollected ?_
      have hsame : OracleRequest.losingSideCount { b.request with progress :=
          { b.request.progress with state, fee } } state = b.request.losingSideCount state := rfl
      simp only [hsame, paidOut, Payment.paidOut, List.map_cons, List.map_nil, List.sum_cons,
        List.sum_nil]
      omega }

/-- A dispute without a ruling: the fee goes back, and so do the bonds of those who revealed. -/
theorem Ledger.refunded (hb : b.Sound) (h : b.Ledger received paid) {request : OracleRequest}
    {refundFee : Nat} {sponsor : Address} (hrefund : b.request.outOfScope = .ok (request, refundFee)) :
    Ledger { b with request } (received + paidIn [.push sponsor refundFee])
      (paid + paidOut [.push sponsor refundFee]) := by
  have hkeeps := OracleRequest.outOfScope_keeps hrefund
  obtain ⟨hstate, rfl, rfl⟩ := OracleRequest.outOfScope_spec hrefund
  obtain ⟨⟨ha, hd⟩, hpaid⟩ := h.frozen hstate
  have hpriced := h.priced (by simp [hstate])
  have hunclaimed := h.unclaimed (by simp [OracleRequest.IsResolved, hstate])
  have hcollected := h.collected (.inr hstate)
  have hrevealed := hb.revealed
  have hsound := hb.keeps hkeeps
  exact {
    unopened := by simp
    priced := fun _ => hpriced.keeps hkeeps (Nat.zero_le _)
    unclaimed := fun _ => hunclaimed
    collected := by simp
    pending := by simp
    frozen := by simp
    winners := by simp
    settled := fun _ => settle_timedOut hsound hpriced.slash hunclaimed rfl ha hcollected (by
      simp [paidOut, Payment.paidOut, hpaid]) }

/-- A claim. -/
theorem Ledger.claimed (hb : b.Sound) (h : b.Ledger received paid) {feeReward bondReturn : Nat}
    (hresolved : b.request.IsResolved) (hbond : 0 < (b.commitments sender).bondAmount)
    (hclaimed : (b.commitments sender).claimed = false)
    (hfee : b.request.calcFeeReward b.request.progress.state (b.commitments sender).vote = .ok feeReward)
    (hreturn : checkedSub (b.commitments sender).bondAmount
      (b.request.slashAmountFor b.request.progress.state (b.commitments sender).vote) = .ok bondReturn) :
    Ledger { b with commitments :=
        Function.update b.commitments sender { b.commitments sender with claimed := true } }
      (received + paidIn (SentinelOracle.pushPositive sender (bondReturn + feeReward)))
      (paid + paidOut (SentinelOracle.pushPositive sender (bondReturn + feeReward))) := by
  obtain ⟨waste, hsettled, hexact⟩ := h.settled hresolved
  obtain ⟨hnone, hpending, hfrozen⟩ := hresolved.state_ne
  obtain ⟨rfl, -⟩ := checkedSub_eq_ok.mp hreturn
  have hvote := hb.vote_of_bond hbond
  have hworth : b.request.claimable (b.commitments sender) =
      (b.commitments sender).bondAmount -
        b.request.slashAmountFor b.request.progress.state (b.commitments sender).vote + feeReward := by
    rw [OracleRequest.claimable, if_neg (by simp [hvote, hclaimed]), if_neg hpending,
      OracleRequest.feeReward, hfee]
  have hheld := held_claimed (b := b) (s := sender)
  have hsame := votes_update_same b.commitments sender
    (c := { b.commitments sender with claimed := true }) rfl
  rw [paidIn_pushPositive, paidOut_pushPositive, ← hworth]
  exact {
    unopened := fun hs => absurd hs hnone
    priced := h.priced
    unclaimed := fun hnot => absurd hresolved hnot
    collected := h.collected
    pending := fun hs => absurd hs hpending
    frozen := fun hs => absurd hs hfrozen
    winners := h.winners
    settled := fun _ => by
      refine ⟨waste, ?_, fun he => hexact ⟨?_, ?_, ?_⟩⟩
      · dsimp only at hheld ⊢
        omega
      · exact (hsame _).symm.trans he.approved
      · exact (hsame _).symm.trans he.denied
      · rw [← hsame .pending]
        exact he.pending }

/-- **One step** keeps the books of a request. -/
theorem Ledger.step (hb : b.Sound) (h : b.Ledger received paid)
    (hoffer : ∀ fee terms, Offer fee terms → OracleRequest.Priced ⟨terms, ⟨.pending, fee, 0, 0, 0, 0, 0⟩⟩)
    (hs : b.Step P Offer receiver id block sender call b' logs payments) :
    b'.Ledger (received + paidIn payments) (paid + paidOut payments) := by
  cases hs with
  | @posted fee terms hnone hterms =>
    obtain ⟨rfl, rfl⟩ := h.unopened hnone
    have hvotes := hb.votes_unopened hnone
    exact {
      unopened := by simp
      priced := fun _ => hoffer fee terms hterms
      unclaimed := fun _ s => by rw [hb.blank s (hvotes s)]; rfl
      collected := fun _ => by simp [paidIn, Payment.paidIn]
      pending := fun _ => rfl
      frozen := by simp
      winners := by simp
      settled := by simp [OracleRequest.IsResolved] }
  | @committed hash request hcommit hhash =>
    obtain ⟨hstate, -, -, rfl⟩ := OracleRequest.applyCommit_spec hcommit
    have hcollected := h.collected (.inl hstate)
    obtain rfl := h.pending hstate
    have hpriced := h.priced (by simp [hstate])
    have hunclaimed := h.unclaimed (by simp [OracleRequest.IsResolved, hstate])
    exact {
      unopened := by simp [hstate]
      priced := fun _ => ⟨hpriced.share, hpriced.fee, hpriced.slash, hpriced.bond⟩
      unclaimed := fun _ s => by
        by_cases hsame : s = sender
        · subst hsame
          simp
        · simpa [hsame] using hunclaimed s
      collected := fun _ => by
        simp only [paidIn, Payment.paidIn, List.map_cons, List.map_nil, List.sum_singleton, hcollected]
        ring
      pending := fun _ => rfl
      frozen := by simp [hstate]
      winners := by simp [hstate]
      settled := by simp [OracleRequest.IsResolved, hstate] }
  | @revealed approve salt reason request hvote hhash hreveal =>
    obtain ⟨hstate, -, -, rfl⟩ := OracleRequest.applyReveal_spec hreveal
    have hpriced := h.priced (by simp [hstate])
    have hunclaimed := h.unclaimed (by simp [OracleRequest.IsResolved, hstate])
    exact {
      unopened := by simp [hstate]
      priced := fun _ => ⟨hpriced.share, hpriced.fee, hpriced.slash, hpriced.bond⟩
      unclaimed := fun _ s => by
        by_cases hsame : s = sender
        · subst hsame
          simpa using hunclaimed s
        · simpa [hsame] using hunclaimed s
      collected := fun _ => h.collected (.inl hstate)
      pending := fun _ => h.pending hstate
      frozen := by simp [hstate]
      winners := by simp [hstate]
      settled := by simp [OracleRequest.IsResolved, hstate] }
  | finalized hfinalize =>
    obtain ⟨hstate, -, hto⟩ := OracleRequest.finalize_spec hfinalize
    exact h.finalized hb hstate hto
  | claimed hresolved hbond hclaimed hfee hreturn => exact h.claimed hb hresolved hbond hclaimed hfee hreturn
  | ruled hruling hkept =>
    simp only [Except.bind_eq_ok, checkedSub_eq_ok, checkedAdd_eq_ok] at hkept
    obtain ⟨_, ⟨rfl, -⟩, rfl, -⟩ := hkept
    exact h.ruled hb hruling rfl
  | refunded hrefund _ => exact h.refunded hb hrefund

end

end OracleBook

/-! ## 3. Runs -/

/-- The payments of the calls for a request. -/
def paymentsOf (receipts : List OracleReceipt) (id : B256) : List Payment :=
  (receipts.filter fun r => r.tx.call.request = some id).flatMap (·.payments)

theorem paymentsOf_append (receipts receipts' : List OracleReceipt) (id : B256) :
    paymentsOf (receipts ++ receipts') id = paymentsOf receipts id ++ paymentsOf receipts' id := by
  rw [paymentsOf, List.filter_append, List.flatMap_append]
  rfl

theorem paymentsOf_self {r : OracleReceipt} {id : B256} (h : r.tx.call.request = some id) :
    paymentsOf [r] id = r.payments := by
  simp [paymentsOf, h]

theorem paymentsOf_other {r : OracleReceipt} {id : B256} (h : r.tx.call.request ≠ some id) :
    paymentsOf [r] id = [] := by
  simp [paymentsOf, h]

/-- A request that was settled, and of which every sentinel has claimed. -/
def OracleBook.FullyClaimed (b : OracleBook) : Prop :=
  b.request.IsResolved ∧ ∀ s, (b.commitments s).vote ≠ .none → (b.commitments s).claimed = true

theorem OracleBook.FullyClaimed.held {b : OracleBook} (h : b.FullyClaimed) : b.held = 0 := by
  obtain ⟨-, hpending, hfrozen⟩ := h.1.state_ne
  have hescrow : b.request.escrow = 0 := by simp [OracleRequest.escrow, hpending, hfrozen]
  rw [OracleBook.held, hescrow, Nat.zero_add]
  refine Finset.sum_eq_zero fun s _ => ?_
  by_cases hvote : (b.commitments s).vote = .none
  · simp [OracleRequest.claimable, hvote]
  · simp [OracleRequest.claimable, h.2 s hvote]

namespace SentinelOracle

variable {P : OracleParams} {o : SentinelOracle}

/-- What a call adds to the payments for a request. -/
theorem execTx_payments (P : OracleParams) (o : SentinelOracle) (tx : OracleTx) (id : B256) :
    (o.execTx P tx).1.book id = o.book id ∧ paymentsOf (o.execTx P tx).2 id = [] ∨
      ∃ logs payments, paymentsOf (o.execTx P tx).2 id = payments ∧
        (o.book id).Step P (o.Offers tx.block)
          (o.protocolFundsReceiverConfig.applyPending tx.block).value id tx.block tx.sender tx.call
          ((o.execTx P tx).1.book id) logs payments := by
  rcases execTx_book P o tx id with ⟨hsame, hnone⟩ | ⟨logs, payments, hid, hout, hs⟩
  · refine .inl ⟨hsame, ?_⟩
    rcases execTx_cases P o tx with hrun | ⟨outcome, -, hrun⟩
    · rw [hrun]
      rfl
    · by_cases hid : tx.call.request = some id
      · rw [hnone hid]
        rfl
      · rw [hrun]
        exact paymentsOf_other hid
  · exact .inr ⟨logs, payments, by rw [hout, paymentsOf_self hid], hs⟩

/-- **The books of every request are kept**, in every run. -/
theorem run_ledger (h : construct P = .ok o) (txs : List OracleTx) (id : B256) :
    ((Reactive.runState (execTx P) o txs).book id).Ledger
      (paidIn (paymentsOf (Reactive.runOutputs (execTx P) o txs) id))
      (paidOut (paymentsOf (Reactive.runOutputs (execTx P) o txs) id)) := by
  induction txs using List.reverseRecOn with
  | nil =>
    rw [Reactive.runState_nil, construct_book h id]
    exact {
      unopened := fun _ => ⟨rfl, rfl⟩
      priced := fun hstate => absurd rfl hstate
      unclaimed := fun _ _ => rfl
      collected := by simp [OracleRequest.empty]
      pending := fun _ => rfl
      frozen := by simp [OracleRequest.empty]
      winners := by simp [OracleRequest.empty]
      settled := by simp [OracleRequest.IsResolved, OracleRequest.empty] }
  | append_singleton txs tx ih =>
    have hsound := run_sound h txs id
    have hconfigured := run_configured h txs
    rw [Reactive.runState_append, Reactive.runOutputs_append, paymentsOf_append, paidIn_append,
      paidOut_append]
    generalize Reactive.runState (execTx P) o txs = o' at *
    have hout : Reactive.runOutputs (execTx P) o' [tx] = (o'.execTx P tx).2 := by
      simp [Reactive.runOutputs]
    rw [hout, Reactive.runState_cons, Reactive.runState_nil]
    rcases execTx_payments P o' tx id with ⟨hsame, hnone⟩ | ⟨logs, payments, hpayments, hs⟩
    · rw [hsame, hnone]
      exact ih
    · rw [hpayments]
      exact ih.step hsound (fun fee terms hoffer => (hconfigured.offers hoffer).2) hs

/-- The counts of a request are exactly what was voted, when nobody has committed to zero. -/
theorem run_exact_of_nonzero (h : construct P = .ok o) (txs : List OracleTx) (id : B256)
    (hnonzero : ∀ r ∈ Reactive.runOutputs (execTx P) o txs, r.tx.call ≠ .commit id 0) :
    ((Reactive.runState (execTx P) o txs).book id).Exact ∧
      ∀ s, (((Reactive.runState (execTx P) o txs).book id).commitments s).vote ≠ .none →
        (((Reactive.runState (execTx P) o txs).book id).commitments s).commitHash ≠ 0 := by
  induction txs using List.reverseRecOn with
  | nil =>
    rw [Reactive.runState_nil, construct_book h id]
    have hzero : ∀ vote ≠ SentinelVote.none, votes (fun _ => OracleCommitment.empty) vote = 0 :=
      fun vote hv => votes_eq_zero.mpr fun s => hv.symm
    refine ⟨⟨hzero .approved (by simp), hzero .denied (by simp), ?_⟩, fun _ hv => absurd rfl hv⟩
    rw [hzero .pending (by simp)]
    rfl
  | append_singleton txs tx ih =>
    have hsound := run_sound h txs id
    rw [Reactive.runOutputs_append] at hnonzero
    obtain ⟨hexact, hhash⟩ := ih fun r hr => hnonzero r (List.mem_append_left _ hr)
    have hlast := fun r hr => hnonzero r (List.mem_append_right _ hr)
    rw [Reactive.runState_append]
    generalize Reactive.runState (execTx P) o txs = o' at *
    have hout : Reactive.runOutputs (execTx P) o' [tx] = (o'.execTx P tx).2 := by
      simp [Reactive.runOutputs]
    rw [hout] at hlast
    rw [Reactive.runState_cons, Reactive.runState_nil]
    rcases execTx_book P o' tx id with ⟨hsame, -⟩ | ⟨logs, payments, hid, hreceipt, hs⟩
    · rw [hsame]
      exact ⟨hexact, hhash⟩
    · have htx : tx.call ≠ .commit id 0 := hlast _ (by rw [hreceipt]; exact List.mem_singleton_self _)
      exact ⟨hexact.step hsound hs fun hagain => hhash _ hagain.2.2.2.1 hagain.2.2.2.2,
        hs.hashed htx hhash⟩

end SentinelOracle

/-! ## 4. Settlement -/

/-- A computation without a failure of a checked operation. -/
def NeverPanics {α : Type} (x : Except OracleError α) : Prop := x ≠ .error .panic

namespace NeverPanics

variable {α β : Type}

theorem bind {x : Except OracleError α} {f : α → Except OracleError β} (hx : NeverPanics x)
    (hf : ∀ a, x = .ok a → NeverPanics (f a)) : NeverPanics (x >>= f) := by
  intro h
  rcases Except.bind_eq_error.mp h with h | ⟨a, ha, h⟩
  · exact hx h
  · exact hf a ha h

theorem pure (a : α) : NeverPanics (pure a) := by simp [NeverPanics, Pure.pure, Except.pure]

theorem require {p : Prop} [Decidable p] {e : OracleError} (he : e ≠ .panic) :
    NeverPanics (require p e) := by
  unfold NeverPanics Safenet.require
  split <;> simp [he]

theorem toUint (bits n : Nat) : NeverPanics (toUint bits n) := by
  unfold NeverPanics Safenet.toUint
  split <;> simp

theorem checkedSub {a b : Nat} (h : b ≤ a) : NeverPanics (checkedSub a b) := by
  simp [NeverPanics, Safenet.checkedSub, h]

theorem checkedAdd {bits a b : Nat} (h : a + b < 2 ^ bits) : NeverPanics (checkedAdd bits a b) := by
  simp [NeverPanics, Safenet.checkedAdd, h]

theorem getRequest (o : SentinelOracle) (id : B256) : NeverPanics (o.getRequest id) :=
  .bind (.require (by simp)) fun _ _ => .pure _

end NeverPanics

/-- The calls that settle a request. -/
inductive OracleCall.Settles : OracleCall → Prop where
  | finalize (id : B256) : Settles (.finalize id)
  | claim (id : B256) : Settles (.claim id)
  | resolveDispute (id : B256) (approveWins : Bool) (context : Bytes) :
      Settles (.resolveDispute id approveWins context)
  | timeoutArbitration (id : B256) : Settles (.timeoutArbitration id)
  | markOutOfScope (id : B256) (context : Bytes) : Settles (.markOutOfScope id context)

namespace OracleRequest

variable {r : OracleRequest}

theorem Priced.applyDaoFeeCut (h : r.Priced) : NeverPanics (r.applyDaoFeeCut r.progress.fee) :=
  .bind (.checkedSub h.daoCut.2) fun _ _ => .pure _

theorem outOfScope_neverPanics : NeverPanics r.outOfScope := .bind (.require (by simp)) fun _ _ => .pure _

end OracleRequest

namespace OracleBook

variable {b : OracleBook} {received paid : Nat}

theorem finalize_neverPanics (hb : b.Sound) (h : b.Ledger received paid) (block deadline : Nat) :
    NeverPanics (b.request.finalize block deadline) := by
  refine .bind (.require (by simp)) fun _ hstate => .bind (.require (by simp)) fun _ _ => ?_
  have hpriced := h.priced (by simp [require_eq_ok.mp hstate])
  have hle : b.request.progress.revealedCount ≤ b.request.progress.committedCount :=
    (Nat.le_add_left _ _).trans hb.pending
  dsimp only
  split
  · refine .bind (.checkedSub hle) fun _ _ => ?_
    split
    · exact .pure _
    · exact .bind hpriced.applyDaoFeeCut fun _ _ => .pure _
  · exact .pure _

/-- A resolved request has a winner to divide the fee by. -/
theorem calcFeeReward_neverPanics (h : b.Ledger received paid) (vote : SentinelVote) :
    NeverPanics (b.request.calcFeeReward b.request.progress.state vote) := by
  unfold OracleRequest.calcFeeReward NeverPanics
  split_ifs with hvote hstate hside hzero
  · simp
  · simp
  · simp
  · have := h.winners (by tauto)
    omega
  · simp

/-- What is slashed from a bond is at most the bond. -/
theorem slashAmountFor_le (hb : b.Sound) (h : b.Ledger received paid) {s : Address}
    (hbond : 0 < (b.commitments s).bondAmount) :
    b.request.slashAmountFor b.request.progress.state (b.commitments s).vote ≤
      (b.commitments s).bondAmount := by
  have hvote := hb.vote_of_bond hbond
  have hopen : b.request.progress.state ≠ .none := fun hnone => hvote (hb.votes_unopened hnone s)
  rw [hb.bond s hvote]
  refine le_trans ?_ (h.priced hopen).slash
  unfold OracleRequest.slashAmountFor
  split_ifs <;> simp

theorem resolveDispute_spec' (hb : b.Sound) (h : b.Ledger received paid) {approveWins : Bool}
    {request : OracleRequest} {ruling : OracleRequest.Ruling}
    (hruling : b.request.resolveDispute approveWins = .ok (request, ruling)) :
    ruling.feeAmount ≤ ruling.slashed ∧
      ruling.slashed - ruling.feeAmount + ruling.daoCut < 2 ^ 128 := by
  obtain ⟨hstate, fee, hfee, rfl, -⟩ := OracleRequest.resolveDispute_spec hruling
  obtain ⟨⟨ha, hd⟩, -⟩ := h.frozen hstate
  have hpriced := h.priced (by simp [hstate])
  have hrevealed := hb.revealed
  have hpending := hb.pending
  have hbounded := hb.bounded
  have hcount : 0 < (if approveWins then b.request.progress.denySentinelCount
        else b.request.progress.approveSentinelCount) ∧
      (if approveWins then b.request.progress.denySentinelCount
        else b.request.progress.approveSentinelCount) < 2 ^ 16 := by
    cases approveWins <;> simp [ha, hd] <;> omega
  generalize (if approveWins then b.request.progress.denySentinelCount
    else b.request.progress.approveSentinelCount) = count at hcount ⊢
  have hslash := hpriced.slash.trans_lt hpriced.bond.2
  have hcut := hpriced.daoCut.2
  have hcovers : b.request.progress.fee ≤ count * b.request.terms.slashAmount :=
    hpriced.fee.trans (Nat.le_mul_of_pos_left _ hcount.1)
  have hproduct : count * b.request.terms.slashAmount < 2 ^ 112 :=
    calc count * b.request.terms.slashAmount ≤ 2 ^ 16 * b.request.terms.slashAmount :=
          Nat.mul_le_mul_right _ hcount.2.le
      _ < 2 ^ 112 := by omega
  rw [hpriced.slashTotal hcount.2]
  refine ⟨hcovers, ?_⟩
  dsimp only
  omega

end OracleBook

namespace SentinelOracle

variable {P : OracleParams} {o : SentinelOracle}

/-- **Settlement never fails a checked operation.** -/
theorem exec_neverPanics {received paid : B256 → Nat} (hb : ∀ id, (o.book id).Sound)
    (h : ∀ id, (o.book id).Ledger (received id) (paid id)) {call : OracleCall} (hc : call.Settles)
    (block : Nat) (sender : Address) : NeverPanics (o.exec P block sender call) := by
  cases hc with
  | finalize id =>
    refine NeverPanics.bind (.getRequest o id) fun request hrequest => ?_
    obtain ⟨-, rfl⟩ := getRequest_eq_ok.mp hrequest
    exact .bind (.toUint _ _) fun _ _ =>
      .bind ((o.book id).finalize_neverPanics (hb id) (h id) _ _) fun _ _ => .pure _
  | claim id =>
    refine NeverPanics.bind (.getRequest o id) fun request hrequest => ?_
    obtain ⟨-, rfl⟩ := getRequest_eq_ok.mp hrequest
    refine .bind (.bind (.require (by simp)) fun _ _ => .pure _) fun state hstate => ?_
    obtain ⟨-, rfl⟩ := by
      simpa only [OracleRequest.requireResolved, Except.bind_eq_ok, exists_const, require_eq_ok,
        Except.pure_eq_ok] using hstate
    refine .bind (.bind (.require (by simp)) fun _ _ => .bind (.require (by simp)) fun _ _ => .pure _)
      fun claimed hclaimed => ?_
    obtain ⟨hbond, -, -⟩ := by
      simpa only [OracleCommitment.markClaimed, Except.bind_eq_ok, exists_const, require_eq_ok,
        Except.pure_eq_ok] using hclaimed
    refine .bind (OracleBook.calcFeeReward_neverPanics (h id) _) fun _ _ => ?_
    exact .bind (.checkedSub (OracleBook.slashAmountFor_le (hb id) (h id) hbond)) fun _ _ => .pure _
  | resolveDispute id approveWins context =>
    refine NeverPanics.bind (.require (by simp)) fun _ _ => .bind (.getRequest o id) fun request hrequest => ?_
    obtain ⟨-, rfl⟩ := getRequest_eq_ok.mp hrequest
    refine .bind (.bind (.require (by simp)) fun _ hstate => ?_) fun result hresult => ?_
    · have hpriced := (h id).priced (by
        have hfrozen : (o.book id).request.progress.state = .frozen := require_eq_ok.mp hstate
        simp [hfrozen])
      exact .bind hpriced.applyDaoFeeCut fun _ _ => .pure _
    · obtain ⟨hle, hlt⟩ := OracleBook.resolveDispute_spec' (hb id) (h id) hresult
      refine .bind (.checkedSub hle) fun kept hkept => ?_
      obtain ⟨rfl, -⟩ := checkedSub_eq_ok.mp hkept
      exact .bind (.checkedAdd hlt) fun _ _ => .pure _
  | timeoutArbitration id =>
    exact NeverPanics.bind (.getRequest o id) fun _ _ =>
      .bind (.bind (.require (by simp)) fun _ _ => OracleRequest.outOfScope_neverPanics) fun _ _ => .pure _
  | markOutOfScope id context =>
    exact NeverPanics.bind (.require (by simp)) fun _ _ => .bind (.getRequest o id) fun _ _ =>
      .bind OracleRequest.outOfScope_neverPanics fun _ _ => .pure _

end SentinelOracle

/-! ## 5. The oracle and its token -/

/-- Make a payment, from or to an account. -/
def Payment.make {τ : Type} (T : ERC20 Address τ) (self : Address) (t : τ) : Payment → Option τ
  | .pull payer amount => T.transferFrom t self payer self amount
  | .push recipient amount => T.transfer t self recipient amount

/-- A call of the oracle, or of its token by another account. -/
inductive OracleMove where
  | call (tx : OracleTx)
  | token (caller : Address) (call : ERC20.Call Address)

/-- A move.  A call of which a payment fails reverts. -/
def SentinelOracle.execPaid {τ : Type} (P : OracleParams) (T : ERC20 Address τ)
    (s : SentinelOracle × τ) : OracleMove → (SentinelOracle × τ) × List OracleReceipt
  | .call tx =>
    match s.1.exec P tx.block tx.sender tx.call with
    | .ok (o, logs, payments) =>
      match payments.foldlM (Payment.make T P.address) s.2 with
      | some t => ((o, t), [⟨tx, logs, payments⟩])
      | none => (s, [])
    | .error _ => (s, [])
  | .token caller call =>
    -- the oracle's own calls of the token are its payments
    if caller = P.address then (s, []) else ((s.1, (T.exec s.2 caller call).getD s.2), [])

section

variable {τ : Type} {T : ERC20 Address τ}

/-- **Payments** move the balance by what they say. -/
theorem payments_make (hT : T.Standard) {self : Address} {payments : List Payment} {t t' : τ}
    (h : payments.foldlM (Payment.make T self) t = some t')
    (hpull : ∀ payer amount, .pull payer amount ∈ payments → 0 < amount)
    (hself : T.Unapproved t self) :
    T.balanceOf t self + paidIn payments ≤ T.balanceOf t' self + paidOut payments ∧
      T.Unapproved t' self := by
  induction payments generalizing t with
  | nil =>
    obtain rfl := Option.some.inj h
    exact ⟨le_rfl, hself⟩
  | cons payment payments ih =>
    rw [List.foldlM_cons, Option.bind_eq_bind, Option.bind_eq_some_iff] at h
    obtain ⟨t₁, hmake, h⟩ := h
    have hrest := fun payer amount hmem => hpull payer amount (List.mem_cons_of_mem _ hmem)
    cases payment with
    | pull payer amount =>
      obtain ⟨hbalance, hself⟩ := hT.pull hmake (hpull payer amount List.mem_cons_self) hself
      obtain ⟨hle, hself⟩ := ih h hrest hself
      refine ⟨?_, hself⟩
      simp only [paidIn, paidOut, Payment.paidIn, Payment.paidOut, List.map_cons, List.sum_cons] at hle ⊢
      omega
    | push recipient amount =>
      obtain ⟨hbalance, hself⟩ := hT.push hmake hself
      obtain ⟨hle, hself⟩ := ih h hrest hself
      refine ⟨?_, hself⟩
      simp only [paidIn, paidOut, Payment.paidIn, Payment.paidOut, List.map_cons, List.sum_cons] at hle ⊢
      omega

/-- What a receipt adds to the sums over the requests. -/
theorem sum_paymentsOf {f : List Payment → Nat} (hnil : f [] = 0) {r : OracleReceipt}
    (h : r.tx.call.request = none → r.payments = []) : ∑ id, f (paymentsOf [r] id) = f r.payments := by
  cases hrequest : r.tx.call.request with
  | none =>
    rw [h hrequest, hnil]
    refine Finset.sum_eq_zero fun id _ => ?_
    rw [paymentsOf_other (by simp [hrequest]), hnil]
  | some id =>
    rw [Finset.sum_eq_single id]
    · rw [paymentsOf_self hrequest]
    · intro id' _ hne
      rw [paymentsOf_other (by simp [hrequest, Ne.symm hne]), hnil]
    · exact fun hmem => absurd (Finset.mem_univ id) hmem

namespace OracleBook

/-- The pulls of a step are of something. -/
theorem Step.pull_pos {P : OracleParams} {Offer : Nat → OracleTerms → Prop} {receiver sender : Address}
    {id : B256} {block : Nat} {b b' : OracleBook} {call : OracleCall} {logs : List OracleLog}
    {payments : List Payment} {received paid : Nat} (h : b.Ledger received paid)
    (hoffer : ∀ fee terms, Offer fee terms → 0 < fee)
    (hs : b.Step P Offer receiver id block sender call b' logs payments) {payer : Address} {amount : Nat}
    (hmem : .pull payer amount ∈ payments) : 0 < amount := by
  have hpush : ∀ recipient n, .pull payer amount ∉ SentinelOracle.pushPositive recipient n := by
    intro recipient n hmem
    unfold SentinelOracle.pushPositive at hmem
    split at hmem <;> simp at hmem
  cases hs with
  | posted hnone hterms =>
    obtain ⟨rfl, rfl⟩ := Payment.pull.inj (List.mem_singleton.mp hmem)
    exact hoffer _ _ hterms
  | committed hcommit _ =>
    obtain ⟨rfl, rfl⟩ := Payment.pull.inj (List.mem_singleton.mp hmem)
    obtain ⟨hstate, -⟩ := OracleRequest.applyCommit_spec hcommit
    exact (h.priced (by simp [hstate])).bond.1
  | revealed _ _ _ => exact absurd hmem (by simp)
  | finalized _ =>
    rcases List.mem_append.mp hmem with hmem | hmem
    · exact absurd hmem (hpush _ _)
    · split at hmem
      · exact absurd hmem (by simp)
      · exact absurd hmem (by simp)
      · exact absurd hmem (hpush _ _)
  | claimed _ _ _ _ _ => exact absurd hmem (hpush _ _)
  | ruled _ _ => exact absurd hmem (by simp)
  | refunded _ _ => exact absurd hmem (by simp)

/-- Nothing comes in by a claim. -/
theorem Step.claim_paidIn {P : OracleParams} {Offer : Nat → OracleTerms → Prop}
    {receiver sender : Address} {id : B256} {block : Nat} {b b' : OracleBook} {call : OracleCall}
    {logs : List OracleLog} {payments : List Payment}
    (hs : b.Step P Offer receiver id block sender call b' logs payments) (hcall : call = .claim id) :
    paidIn payments = 0 := by
  cases hs with
  | claimed _ _ _ _ _ => exact paidIn_pushPositive _ _
  | refunded _ _ => rfl
  | _ => exact absurd hcall (by simp)

end OracleBook

namespace SentinelOracle

variable {P : OracleParams} {o : SentinelOracle} {t : τ}

/-- A move is a call that reverts, or one that does not, or a call of the token. -/
theorem execPaid_cases (P : OracleParams) (T : ERC20 Address τ) (s : SentinelOracle × τ)
    (move : OracleMove) :
    execPaid P T s move = (s, []) ∨
      (∃ tx outcome t', move = .call tx ∧ s.1.exec P tx.block tx.sender tx.call = .ok outcome ∧
        outcome.2.2.foldlM (Payment.make T P.address) s.2 = some t' ∧
        execPaid P T s move = ((outcome.1, t'), [⟨tx, outcome.2.1, outcome.2.2⟩])) ∨
      ∃ caller call t', caller ≠ P.address ∧ T.exec s.2 caller call = some t' ∧
        execPaid P T s move = ((s.1, t'), []) := by
  cases move with
  | call tx =>
    cases hexec : s.1.exec P tx.block tx.sender tx.call with
    | error e => exact .inl (by simp [execPaid, hexec])
    | ok outcome =>
      cases hpay : outcome.2.2.foldlM (Payment.make T P.address) s.2 with
      | none => exact .inl (by simp [execPaid, hexec, hpay])
      | some t' => exact .inr (.inl ⟨tx, outcome, t', rfl, hexec, hpay, by simp [execPaid, hexec, hpay]⟩)
  | token caller call =>
    by_cases hcaller : caller = P.address
    · exact .inl (by simp [execPaid, hcaller])
    · cases hcall : T.exec s.2 caller call with
      | none => exact .inl (by simp [execPaid, hcaller, hcall])
      | some t' => exact .inr (.inr ⟨caller, call, t', hcaller, hcall, by simp [execPaid, hcaller, hcall]⟩)

/-- The oracle in a run with its token: a run of the oracle, of the calls whose payments are made.  It
has approved nobody, and has at least what has come in and not gone out. -/
structure Backed (P : OracleParams) (T : ERC20 Address τ) (o : SentinelOracle)
    (s : SentinelOracle × τ) (receipts : List OracleReceipt) (txs : List OracleTx) : Prop where
  oracle : s.1 = Reactive.runState (execTx P) o txs
  outputs : receipts = Reactive.runOutputs (execTx P) o txs
  unapproved : T.Unapproved s.2 P.address
  balance : ∑ id, paidIn (paymentsOf receipts id) ≤
    T.balanceOf s.2 P.address + ∑ id, paidOut (paymentsOf receipts id)

/-- **One move.** -/
theorem Backed.step (hT : T.Standard) (h : construct P = .ok o) {s : SentinelOracle × τ}
    {receipts : List OracleReceipt} {txs : List OracleTx} (hb : Backed P T o s receipts txs)
    (move : OracleMove) :
    ∃ txs', Backed P T o (execPaid P T s move).1 (receipts ++ (execPaid P T s move).2) txs' := by
  obtain ⟨horacle, hreceipts, hunapproved, hbalance⟩ := hb
  rcases execPaid_cases P T s move with hrun | ⟨tx, outcome, t', rfl, hexec, hpay, hrun⟩ |
      ⟨caller, call, t', hcaller, hcall, hrun⟩
  · rw [hrun, List.append_nil]
    exact ⟨txs, horacle, hreceipts, hunapproved, hbalance⟩
  · rw [hrun]
    have hout : s.1.execTx P tx = (outcome.1, [⟨tx, outcome.2.1, outcome.2.2⟩]) := by
      simp [execTx, hexec]
    rw [horacle] at hout
    have hnone : tx.call.request = none → outcome.2.2 = [] := by
      intro hnone
      rcases exec_cases hexec with ⟨-, -, hnil⟩ | ⟨id, hid, -⟩
      · rw [hnil]
      · exact absurd (hnone.symm.trans hid) (by simp)
    have hpull : ∀ payer amount, .pull payer amount ∈ outcome.2.2 → 0 < amount := by
      intro payer amount hmem
      rcases exec_cases hexec with ⟨hcall, -, -⟩ | ⟨id, -, hsteps⟩
      · exact absurd (hnone hcall ▸ hmem) (by simp)
      · have hledger := run_ledger h txs id
        have hconfigured := run_configured h txs
        rw [← horacle] at hledger hconfigured
        exact hsteps.step.pull_pos hledger (fun fee terms hoffer => (hconfigured.offers hoffer).1) hmem
    obtain ⟨hle, hself⟩ := payments_make hT hpay hpull hunapproved
    refine ⟨txs ++ [tx], ?_, ?_, hself, ?_⟩
    · rw [Reactive.runState_append, Reactive.runState_cons, hout]
      rfl
    · rw [Reactive.runOutputs_append, hreceipts, Reactive.runOutputs, hout]
      rfl
    · have hin := sum_paymentsOf (f := paidIn) rfl (r := ⟨tx, outcome.2.1, outcome.2.2⟩) hnone
      have hpaid := sum_paymentsOf (f := paidOut) rfl (r := ⟨tx, outcome.2.1, outcome.2.2⟩) hnone
      simp only [paymentsOf_append, paidIn_append, paidOut_append, Finset.sum_add_distrib, hin, hpaid]
      omega
  · rw [hrun, List.append_nil]
    obtain ⟨hle, hself⟩ := hT.call hcall hcaller hunapproved
    exact ⟨txs, horacle, hreceipts, hself, hbalance.trans (Nat.add_le_add_right hle _)⟩

/-- **Every run** of the oracle with its token. -/
theorem run_backed (hT : T.Standard) (h : construct P = .ok o) (hnew : T.Unapproved t P.address)
    (moves : List OracleMove) :
    ∃ txs, Backed P T o (Reactive.runState (execPaid P T) (o, t) moves)
      (Reactive.runOutputs (execPaid P T) (o, t) moves) txs := by
  induction moves using List.reverseRecOn with
  | nil =>
    refine ⟨[], rfl, rfl, hnew, ?_⟩
    have hzero : ∑ id, paidIn (paymentsOf [] id) = 0 := Finset.sum_eq_zero fun _ _ => rfl
    have hnil : Reactive.runOutputs (execPaid P T) (o, t) [] = [] := rfl
    rw [hnil, hzero]
    exact Nat.zero_le _
  | append_singleton moves move ih =>
    obtain ⟨txs, hb⟩ := ih
    rw [Reactive.runState_append, Reactive.runOutputs_append]
    have hout : ∀ s, Reactive.runOutputs (execPaid P T) s [move] = (execPaid P T s move).2 := by
      simp [Reactive.runOutputs]
    rw [hout]
    exact hb.step hT h move

/-- What an oracle with a token can pay. -/
structure Solvent (P : OracleParams) (T : ERC20 Address τ) (s : SentinelOracle × τ)
    (receipts : List OracleReceipt) : Prop where
  /-- The oracle has what it holds for the requests. -/
  balance : ∑ id, (s.1.book id).held ≤ T.balanceOf s.2 P.address
  /-- A claim pays no more than is left of what its request has collected. -/
  claims : ∀ id block sender outcome, s.1.exec P block sender (.claim id) = .ok outcome →
    paidOut (paymentsOf receipts id) + paidOut outcome.2.2 ≤ paidIn (paymentsOf receipts id)
  /-- The checked operations of a settlement do not fail. -/
  settles : ∀ call, call.Settles → ∀ block sender, NeverPanics (s.1.exec P block sender call)
  /-- The unchecked ones do not overflow. -/
  slashes : ∀ id count, (s.1.requests id).progress.state ≠ .none →
    count ≤ (s.1.requests id).progress.committedCount →
    (s.1.requests id).slashTotal count = count * (s.1.requests id).terms.slashAmount
  cuts : ∀ id, (s.1.requests id).progress.state ≠ .none →
    (s.1.requests id).daoCut (s.1.requests id).progress.fee =
      (s.1.requests id).progress.fee * (s.1.requests id).terms.daoFeeShare / feeShareDenominator
  /-- Once all is claimed, what came in has gone out, but for a rest of the division. -/
  conserved : ∀ id, (∀ r ∈ receipts, r.tx.call ≠ .commit id 0) → (s.1.book id).FullyClaimed →
    ∃ rest, paidIn (paymentsOf receipts id) = paidOut (paymentsOf receipts id) + rest ∧
      (rest = 0 ∨ rest < (s.1.requests id).winningSideCount (s.1.requests id).progress.state)

/-- **The oracle is solvent**, in every run with a standard token in which it starts by having approved
nobody. -/
theorem solvent (P : OracleParams) (T : ERC20 Address τ) (hT : T.Standard) (o : SentinelOracle)
    (h : construct P = .ok o) (t : τ) (hnew : T.Unapproved t P.address) (moves : List OracleMove) :
    Solvent P T (Reactive.runState (execPaid P T) (o, t) moves)
      (Reactive.runOutputs (execPaid P T) (o, t) moves) := by
  obtain ⟨txs, horacle, hreceipts, -, hbalance⟩ := run_backed hT h hnew moves
  have hsound := run_sound h txs
  have hledger := run_ledger h txs
  have hconfigured := run_configured h txs
  have hexact := run_exact_of_nonzero h txs
  rw [← horacle] at hsound hledger hconfigured hexact
  rw [← hreceipts] at hledger hexact
  generalize Reactive.runState (execPaid P T) (o, t) moves = s at *
  generalize Reactive.runOutputs (execPaid P T) (o, t) moves = receipts at *
  constructor
  · have hheld := Finset.sum_le_sum fun id (_ : id ∈ Finset.univ) => (hledger id).covered (hsound id)
    rw [Finset.sum_add_distrib] at hheld
    omega
  · intro id block sender outcome hclaim
    rcases exec_cases hclaim with ⟨hnone, -, -⟩ | ⟨id', hid, hsteps⟩
    · exact absurd hnone (by simp [OracleCall.request])
    obtain rfl := Option.some.inj hid
    have hs := hsteps.step
    have hnext := (hledger id).step (hsound id) (fun fee terms hoffer => (hconfigured.offers hoffer).2) hs
    have hle := hnext.covered ((hsound id).step hs)
    have hin := hs.claim_paidIn rfl
    omega
  · exact fun call hc block sender => exec_neverPanics hsound hledger hc block sender
  · intro id count hstate hcount
    exact ((hledger id).priced hstate).slashTotal (hcount.trans_lt (hsound id).bounded)
  · exact fun id hstate => ((hledger id).priced hstate).daoCut.1
  · intro id hnonzero hclaimed
    obtain ⟨waste, hsettled, hwaste⟩ := (hledger id).settled hclaimed.1
    rw [hclaimed.held, hwaste (hexact id hnonzero).1] at hsettled
    refine ⟨(s.1.book id).request.remainder, by omega, ?_⟩
    by_cases hwon : (s.1.book id).request.progress.state = .resolvedApproved ∨
        (s.1.book id).request.progress.state = .resolvedDenied
    · refine .inr ?_
      rw [OracleRequest.remainder, if_pos hwon]
      exact Nat.mod_lt _ ((hledger id).winners hwon)
    · exact .inl (if_neg hwon)

/-- The token of the toy oracle: everyone has 100, and lets the oracle spend it. -/
def toyToken : ERC20.Plain Address where
  balances account := if account = 99 then 0 else 100
  allowances owner spender := if owner ≠ 99 ∧ spender = 99 then 100 else 0

/-- Two sentinels commit and reveal, and disagree; the arbitrator rules, and both claim. -/
def toyDispute : List OracleTx :=
  toyOpening ++ [⟨3, 7, .commit 1 2⟩, ⟨3, 8, .commit 1 1⟩, ⟨13, 7, .reveal 1 true 0 []⟩,
    ⟨13, 8, .reveal 1 false 0 []⟩, ⟨14, 9, .finalize 1⟩, ⟨15, 1, .resolveDispute 1 true []⟩,
    ⟨16, 7, .claim 1⟩, ⟨16, 8, .claim 1⟩]

/-- The dispute, after a gift. -/
theorem solvent_dispute : ∃ o, construct toyParams = .ok o ∧
    Solvent toyParams .plain (Reactive.runState (execPaid toyParams .plain) (o, toyToken)
        (.token 7 (.transfer 99 5) :: toyDispute.map .call))
      (Reactive.runOutputs (execPaid toyParams .plain) (o, toyToken)
        (.token 7 (.transfer 99 5) :: toyDispute.map .call)) :=
  ⟨_, rfl, solvent toyParams .plain ERC20.plain_standard _ rfl toyToken
    (fun spender => by simp [ERC20.plain, toyToken, toyParams]) _⟩

end SentinelOracle

end

end Safenet
