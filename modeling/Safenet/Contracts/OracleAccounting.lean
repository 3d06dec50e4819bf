/-
# Who committed, and who revealed

The oracle counts the commitments and the reveals of a request, and keeps what each sentinel did.
What the counts have to do with the sentinels is an invariant of the request's book
(`OracleBook.Sound`): there are as many revealed votes as are counted, or fewer, and a pending vote
for each commitment that is not revealed, or fewer.

They are exactly as many (`OracleBook.Exact`) as long as nobody commits again after a commitment to
the hash zero.  Then the counts are the numbers of sentinels, and a bond is taken once.
-/
import Safenet.Contracts.SentinelOracle
import Safenet.Lib.Tally

namespace Safenet

/-! ## 1. What a step leaves of the request -/

namespace OracleRequest

variable {r r' : OracleRequest} {block : Nat}

/-- A request that goes on with its terms and its counts. -/
structure Keeps (r r' : OracleRequest) : Prop where
  terms : r'.terms = r.terms
  committed : r'.progress.committedCount = r.progress.committedCount
  revealed : r'.progress.revealedCount = r.progress.revealedCount
  approved : r'.progress.approveSentinelCount = r.progress.approveSentinelCount
  denied : r'.progress.denySentinelCount = r.progress.denySentinelCount
  opened : r.progress.state ≠ .none ∧ r'.progress.state ≠ .none

theorem applyCommit_spec {bond : Nat} (h : r.applyCommit block = .ok (r', bond)) :
    r.progress.state = .pending ∧ block ≤ r.terms.commitDeadline ∧
      r.progress.committedCount + 1 < 2 ^ 16 ∧ r' = { r with progress :=
        { r.progress with committedCount := r.progress.committedCount + 1 } } := by
  simp only [applyCommit, Except.bind_eq_ok, Except.pure_eq_ok, require_eq_ok, exists_const,
    checkedAdd_eq_ok, Prod.mk.injEq] at h
  obtain ⟨hstate, hblock, _, ⟨rfl, hcount⟩, rfl, -⟩ := h
  exact ⟨hstate, hblock, hcount, rfl⟩

theorem applyReveal_spec {approve : Bool} (h : r.applyReveal block approve = .ok r') :
    r.progress.state = .pending ∧ r.terms.commitDeadline < block ∧ block ≤ r.terms.revealDeadline ∧
      r' = { r with progress := { r.progress with
        revealedCount := r.progress.revealedCount + 1
        approveSentinelCount := r.progress.approveSentinelCount + if approve then 1 else 0
        denySentinelCount := r.progress.denySentinelCount + if approve then 0 else 1 } } := by
  simp only [applyReveal, Except.bind_eq_ok, require_eq_ok, exists_const, checkedAdd_eq_ok] at h
  obtain ⟨hstate, hopen, hclose, _, ⟨rfl, -⟩, h⟩ := h
  cases approve
  · simp only [Bool.false_eq_true, if_false, Except.bind_eq_ok, checkedAdd_eq_ok, Except.pure_eq_ok] at h
    obtain ⟨_, ⟨rfl, -⟩, rfl⟩ := h
    exact ⟨hstate, hopen, hclose, rfl⟩
  · simp only [if_true, Except.bind_eq_ok, checkedAdd_eq_ok, Except.pure_eq_ok] at h
    obtain ⟨_, ⟨rfl, -⟩, rfl⟩ := h
    exact ⟨hstate, hopen, hclose, rfl⟩

theorem applyDaoFeeCut_eq_ok {feeAmount rest cut : Nat} :
    r.applyDaoFeeCut feeAmount = .ok (rest, cut) ↔
      cut = r.daoCut feeAmount ∧ rest + cut = feeAmount := by
  simp only [applyDaoFeeCut, Except.bind_eq_ok, checkedSub_eq_ok, Except.pure_eq_ok, Prod.mk.injEq]
  constructor
  · rintro ⟨_, ⟨rfl, hle⟩, rfl, rfl⟩
    exact ⟨rfl, by omega⟩
  · rintro ⟨rfl, h⟩
    exact ⟨rest, ⟨by omega, by omega⟩, rfl, rfl⟩

/-- How a request is finalized: into a dispute, by the only side there is, or for want of one. -/
inductive FinalizesTo (r : OracleRequest) (deadline : Nat) : OracleRequest → Finalized → Prop where
  | frozen : 0 < r.progress.approveSentinelCount → 0 < r.progress.denySentinelCount →
      r.progress.revealedCount ≤ r.progress.committedCount →
      FinalizesTo r deadline
        { r with progress := { r.progress with state := .frozen, arbitrationDeadline := deadline } }
        ⟨.frozen, 0, r.slashTotal (r.progress.committedCount - r.progress.revealedCount), 0⟩
  | resolved {state : OracleRequestState} {fee : Nat} :
      (state = .resolvedApproved ∧ 0 < r.progress.approveSentinelCount ∧
          r.progress.denySentinelCount = 0 ∨
        state = .resolvedDenied ∧ r.progress.approveSentinelCount = 0 ∧
          0 < r.progress.denySentinelCount) →
      r.progress.revealedCount ≤ r.progress.committedCount →
      fee + r.daoCut r.progress.fee = r.progress.fee →
      FinalizesTo r deadline { r with progress := { r.progress with state := state, fee := fee } }
        ⟨state, 0, r.slashTotal (r.progress.committedCount - r.progress.revealedCount),
          r.daoCut r.progress.fee⟩
  | timedOut : r.progress.approveSentinelCount = 0 → r.progress.denySentinelCount = 0 →
      FinalizesTo r deadline { r with progress := { r.progress with state := .timedOut, fee := 0 } }
        ⟨.timedOut, r.progress.fee, 0, 0⟩

theorem finalize_spec {deadline : Nat} {result : Finalized}
    (h : r.finalize block deadline = .ok (r', result)) :
    r.progress.state = .pending ∧ r.CanFinalize block ∧ r.FinalizesTo deadline r' result := by
  simp only [finalize, Except.bind_eq_ok, require_eq_ok, exists_const] at h
  obtain ⟨hstate, hcan, h⟩ := h
  refine ⟨hstate, hcan, ?_⟩
  by_cases happrove : 0 < r.progress.approveSentinelCount <;>
    by_cases hdeny : 0 < r.progress.denySentinelCount <;>
    simp only [happrove, hdeny, decide_true, decide_false, Bool.or_true, Bool.or_false, Bool.and_true,
      Bool.and_false, Bool.or_self, Bool.and_self, if_true, if_false, Bool.false_eq_true,
      Except.bind_eq_ok, Except.pure_eq_ok, checkedSub_eq_ok, Prod.exists, Prod.mk.injEq,
      applyDaoFeeCut_eq_ok] at h
  · obtain ⟨_, ⟨rfl, hle⟩, rfl, rfl⟩ := h
    exact .frozen happrove hdeny hle
  · obtain ⟨_, ⟨rfl, hle⟩, _, _, ⟨rfl, hfee⟩, rfl, rfl⟩ := h
    exact .resolved (.inl ⟨rfl, happrove, by omega⟩) hle hfee
  · obtain ⟨_, ⟨rfl, hle⟩, _, _, ⟨rfl, hfee⟩, rfl, rfl⟩ := h
    exact .resolved (.inr ⟨rfl, by omega, hdeny⟩) hle hfee
  · obtain ⟨rfl, rfl⟩ := h
    exact .timedOut (by omega) (by omega)

theorem resolveDispute_spec {approveWins : Bool} {ruling : Ruling}
    (h : r.resolveDispute approveWins = .ok (r', ruling)) :
    r.progress.state = .frozen ∧ ∃ fee, fee + r.daoCut r.progress.fee = r.progress.fee ∧
      ruling = ⟨if approveWins then .resolvedApproved else .resolvedDenied,
        r.slashTotal (if approveWins then r.progress.denySentinelCount
          else r.progress.approveSentinelCount), r.progress.fee, r.daoCut r.progress.fee⟩ ∧
      r' = { r with progress := { r.progress with
        state := if approveWins then .resolvedApproved else .resolvedDenied, fee := fee } } := by
  simp only [resolveDispute, Except.bind_eq_ok, require_eq_ok, exists_const, Except.pure_eq_ok,
    Prod.exists, Prod.mk.injEq, applyDaoFeeCut_eq_ok] at h
  obtain ⟨hstate, fee, _, ⟨rfl, hfee⟩, rfl, rfl⟩ := h
  exact ⟨hstate, fee, hfee, rfl, rfl⟩

theorem outOfScope_spec {refundFee : Nat} (h : r.outOfScope = .ok (r', refundFee)) :
    r.progress.state = .frozen ∧ refundFee = r.progress.fee ∧
      r' = { r with progress := { r.progress with state := .timedOut, fee := 0 } } := by
  simp only [outOfScope, Except.bind_eq_ok, require_eq_ok, exists_const, Except.pure_eq_ok,
    Prod.mk.injEq] at h
  obtain ⟨hstate, rfl, rfl⟩ := h
  exact ⟨hstate, rfl, rfl⟩

theorem FinalizesTo.keeps {deadline : Nat} {result : Finalized}
    (h : r.FinalizesTo deadline r' result) (hstate : r.progress.state = .pending) : r.Keeps r' := by
  cases h with
  | frozen _ _ _ => exact ⟨rfl, rfl, rfl, rfl, rfl, by simp [hstate]⟩
  | resolved hside _ _ =>
    refine ⟨rfl, rfl, rfl, rfl, rfl, by simp [hstate], ?_⟩
    rcases hside with ⟨rfl, -⟩ | ⟨rfl, -⟩ <;> simp
  | timedOut _ _ => exact ⟨rfl, rfl, rfl, rfl, rfl, by simp [hstate]⟩

theorem resolveDispute_keeps {approveWins : Bool} {ruling : Ruling}
    (h : r.resolveDispute approveWins = .ok (r', ruling)) : r.Keeps r' := by
  obtain ⟨hstate, fee, -, -, rfl⟩ := resolveDispute_spec h
  refine ⟨rfl, rfl, rfl, rfl, rfl, by simp [hstate], ?_⟩
  cases approveWins <;> simp

theorem outOfScope_keeps {refundFee : Nat} (h : r.outOfScope = .ok (r', refundFee)) : r.Keeps r' := by
  obtain ⟨hstate, -, rfl⟩ := outOfScope_spec h
  exact ⟨rfl, rfl, rfl, rfl, rfl, by simp [hstate], by simp⟩

end OracleRequest

/-! ## 2. The books -/

/-- The number of sentinels with a vote. -/
def votes (commitments : Address → OracleCommitment) (vote : SentinelVote) : Nat :=
  Tally.count commitments fun c => c.vote = vote

theorem votes_update (commitments : Address → OracleCommitment) (s : Address) (c : OracleCommitment)
    (vote : SentinelVote) :
    votes (Function.update commitments s c) vote + (if (commitments s).vote = vote then 1 else 0) =
      votes commitments vote + if c.vote = vote then 1 else 0 :=
  Tally.count_update commitments s c fun c => c.vote = vote

/-- A commitment that goes on with its vote. -/
theorem votes_update_same (commitments : Address → OracleCommitment) (s : Address)
    {c : OracleCommitment} (h : c.vote = (commitments s).vote) (vote : SentinelVote) :
    votes (Function.update commitments s c) vote = votes commitments vote := by
  have := votes_update commitments s c vote
  rw [h] at this
  omega

theorem votes_eq_zero {commitments : Address → OracleCommitment} {vote : SentinelVote} :
    votes commitments vote = 0 ↔ ∀ s, (commitments s).vote ≠ vote := Tally.count_eq_zero

namespace OracleBook

/-- The sentinels that have a recorded commitment. -/
def committers (b : OracleBook) : Finset Address :=
  Finset.univ.filter fun s => (b.commitments s).vote ≠ .none

/-- The sentinels that have revealed. -/
def revealers (b : OracleBook) : Finset Address :=
  Finset.univ.filter fun s => (b.commitments s).vote = .approved ∨ (b.commitments s).vote = .denied

/-- What holds of every request: it is counted what was voted, or more. -/
structure Sound (b : OracleBook) : Prop where
  unopened : b.request.progress.state = .none →
    b.request.progress.committedCount = 0 ∧ b.request.progress.revealedCount = 0 ∧
      b.request.progress.approveSentinelCount = 0 ∧ b.request.progress.denySentinelCount = 0
  approved : votes b.commitments .approved ≤ b.request.progress.approveSentinelCount
  denied : votes b.commitments .denied ≤ b.request.progress.denySentinelCount
  revealed : b.request.progress.revealedCount =
    b.request.progress.approveSentinelCount + b.request.progress.denySentinelCount
  pending : votes b.commitments .pending + b.request.progress.revealedCount ≤
    b.request.progress.committedCount
  bounded : b.request.progress.committedCount < 2 ^ 16
  blank : ∀ s, (b.commitments s).vote = .none → b.commitments s = .empty
  bond : ∀ s, (b.commitments s).vote ≠ .none →
    (b.commitments s).bondAmount = b.request.terms.bondTarget

/-- It is counted exactly what was voted. -/
structure Exact (b : OracleBook) : Prop where
  approved : votes b.commitments .approved = b.request.progress.approveSentinelCount
  denied : votes b.commitments .denied = b.request.progress.denySentinelCount
  pending : votes b.commitments .pending + b.request.progress.revealedCount =
    b.request.progress.committedCount

variable {b b' : OracleBook}

/-- The committers are those with a pending vote, and the revealers. -/
theorem card_committers (b : OracleBook) : b.committers.card =
    votes b.commitments .pending + (votes b.commitments .approved + votes b.commitments .denied) := by
  have hsplit : ∀ c : OracleCommitment,
      c.vote ≠ .none ↔ c.vote = .pending ∨ (c.vote = .approved ∨ c.vote = .denied) := by
    intro c
    cases c.vote <;> simp
  rw [committers, Tally.card_places b.commitments fun c => c.vote ≠ .none, Tally.count_congr hsplit,
    Tally.count_or b.commitments _ _ fun c hc => by simp [hc],
    Tally.count_or b.commitments _ _ fun c hc => by simp [hc]]
  rfl

theorem card_revealers (b : OracleBook) :
    b.revealers.card = votes b.commitments .approved + votes b.commitments .denied := by
  rw [revealers, Tally.card_places b.commitments fun c => c.vote = .approved ∨ c.vote = .denied,
    Tally.count_or b.commitments _ _ fun c hc => by simp [hc]]
  rfl

/-- Nobody votes on a request that was not posted. -/
theorem Sound.votes_unopened (h : b.Sound) (hstate : b.request.progress.state = .none) (s : Address) :
    (b.commitments s).vote = .none := by
  obtain ⟨hcommitted, -, happrove, hdeny⟩ := h.unopened hstate
  have hpending := h.pending
  have happroved := h.approved
  have hdenied := h.denied
  have hp := votes_eq_zero.mp (show votes b.commitments .pending = 0 by omega) s
  have ha := votes_eq_zero.mp (show votes b.commitments .approved = 0 by omega) s
  have hd := votes_eq_zero.mp (show votes b.commitments .denied = 0 by omega) s
  cases hv : (b.commitments s).vote with
  | none => rfl
  | pending => exact absurd hv hp
  | approved => exact absurd hv ha
  | denied => exact absurd hv hd

/-- A book that goes on with the counts of its request. -/
theorem Sound.keeps (h : b.Sound) {request : OracleRequest} (hk : b.request.Keeps request) :
    Sound { b with request } where
  unopened := fun hnone => absurd hnone hk.opened.2
  approved := by rw [hk.approved]; exact h.approved
  denied := by rw [hk.denied]; exact h.denied
  revealed := by rw [hk.revealed, hk.approved, hk.denied]; exact h.revealed
  pending := by rw [hk.revealed, hk.committed]; exact h.pending
  bounded := by rw [hk.committed]; exact h.bounded
  blank := h.blank
  bond := by rw [hk.terms]; exact h.bond

theorem Exact.keeps (h : b.Exact) {request : OracleRequest} (hk : b.request.Keeps request) :
    Exact { b with request } where
  approved := by rw [hk.approved]; exact h.approved
  denied := by rw [hk.denied]; exact h.denied
  pending := by rw [hk.revealed, hk.committed]; exact h.pending

/-- What is kept of each commitment when one is written. -/
theorem Sound.update (h : b.Sound) {s : Address} {c : OracleCommitment} (hblank : c.vote ≠ .none)
    (hbond : c.bondAmount = b.request.terms.bondTarget) :
    (∀ s', (Function.update b.commitments s c s').vote = .none →
        Function.update b.commitments s c s' = .empty) ∧
      ∀ s', (Function.update b.commitments s c s').vote ≠ .none →
        (Function.update b.commitments s c s').bondAmount = b.request.terms.bondTarget := by
  constructor <;> intro s' hs <;> by_cases hsame : s' = s
  · rw [hsame, Function.update_self] at hs
    exact absurd hs hblank
  · rw [Function.update_of_ne hsame] at hs ⊢
    exact h.blank s' hs
  · rw [hsame, Function.update_self]
    exact hbond
  · rw [Function.update_of_ne hsame] at hs ⊢
    exact h.bond s' hs

/-- A bond was paid for a vote. -/
theorem Sound.vote_of_bond (h : b.Sound) {s : Address} (hbond : 0 < (b.commitments s).bondAmount) :
    (b.commitments s).vote ≠ .none := by
  intro hnone
  rw [h.blank s hnone] at hbond
  exact absurd hbond (by simp [OracleCommitment.empty])

section

variable {P : OracleParams} {Offer : Nat → OracleTerms → Prop} {receiver sender : Address} {id : B256}
  {block : Nat} {call : OracleCall} {logs : List OracleLog} {payments : List Payment}

/-- A sentinel commits again, while it can, to a request on which its commitment has the hash zero. -/
def Recommits (b : OracleBook) (block : Nat) (sender : Address) (call : OracleCall) : Prop :=
  (∃ id commitHash, call = .commit id commitHash) ∧ b.request.progress.state = .pending ∧
    block ≤ b.request.terms.commitDeadline ∧ (b.commitments sender).vote ≠ .none ∧
    (b.commitments sender).commitHash = 0

/-- **One step** keeps the counts at what was voted, or more. -/
theorem Sound.step (h : b.Sound) (hs : b.Step P Offer receiver id block sender call b' logs payments) :
    b'.Sound := by
  cases hs with
  | posted hnone _ =>
    have hvotes := h.votes_unopened hnone
    have hzero : ∀ vote ≠ SentinelVote.none, votes b.commitments vote = 0 := fun vote hv =>
      votes_eq_zero.mpr fun s => by rw [hvotes s]; exact hv.symm
    exact {
      unopened := fun _ => ⟨rfl, rfl, rfl, rfl⟩
      approved := (hzero .approved (by simp)).le
      denied := (hzero .denied (by simp)).le
      revealed := rfl
      pending := by
        rw [hzero .pending (by simp)]
        exact le_rfl
      bounded := Nat.two_pow_pos 16
      blank := h.blank
      bond := fun s hv => absurd (hvotes s) hv }
  | @committed hash request hcommit hhash =>
    obtain ⟨hstate, -, hcount, rfl⟩ := OracleRequest.applyCommit_spec hcommit
    have hvote := votes_update b.commitments sender ⟨hash, b.request.terms.bondTarget, .pending, false⟩
    have ha := hvote .approved
    have hd := hvote .denied
    have hp := hvote .pending
    simp only [reduceCtorEq, if_false, if_true, add_zero] at ha hd hp
    have happroved := h.approved
    have hdenied := h.denied
    have hpending := h.pending
    obtain ⟨hblank, hbond⟩ := h.update (s := sender)
      (c := ⟨hash, b.request.terms.bondTarget, .pending, false⟩) (by simp) rfl
    refine ⟨fun hnone => ?_, ?_, ?_, h.revealed, ?_, hcount, hblank, hbond⟩
    · exact absurd (hstate.symm.trans hnone) (by simp)
    all_goals dsimp only; omega
  | @revealed approve salt reason request hvote hhash hreveal =>
    obtain ⟨hstate, -, -, rfl⟩ := OracleRequest.applyReveal_spec hreveal
    have hupdate := votes_update b.commitments sender
      { b.commitments sender with vote := if approve then .approved else .denied }
    have ha := hupdate .approved
    have hd := hupdate .denied
    have hp := hupdate .pending
    simp only [hvote, reduceCtorEq, if_false, if_true, add_zero] at ha hd hp
    have happroved := h.approved
    have hdenied := h.denied
    have hpending := h.pending
    have hrevealed := h.revealed
    obtain ⟨hblank, hbond⟩ := h.update (s := sender)
      (c := { b.commitments sender with vote := if approve then .approved else .denied })
      (by cases approve <;> simp) (h.bond sender (by simp [hvote]))
    refine ⟨fun hnone => ?_, ?_, ?_, ?_, ?_, h.bounded, hblank, hbond⟩
    · exact absurd (hstate.symm.trans hnone) (by simp)
    all_goals cases approve <;> simp at ha hd hp ⊢ <;> omega
  | finalized hfinalize =>
    obtain ⟨hstate, -, hto⟩ := OracleRequest.finalize_spec hfinalize
    exact h.keeps (hto.keeps hstate)
  | claimed _ hbond _ _ _ =>
    have hvote := h.vote_of_bond hbond
    have hsame := votes_update_same b.commitments sender (c := { b.commitments sender with claimed := true }) rfl
    obtain ⟨hblank, hamount⟩ := h.update (s := sender)
      (c := { b.commitments sender with claimed := true }) hvote (h.bond sender hvote)
    refine ⟨h.unopened, ?_, ?_, h.revealed, ?_, h.bounded, hblank, hamount⟩
    · rw [hsame]
      exact h.approved
    · rw [hsame]
      exact h.denied
    · rw [hsame]
      exact h.pending
  | ruled hruling _ => exact h.keeps (OracleRequest.resolveDispute_keeps hruling)
  | refunded hrefund _ => exact h.keeps (OracleRequest.outOfScope_keeps hrefund)

/-- **One step** keeps the counts at exactly what was voted, when it does not commit again. -/
theorem Exact.step (h : b.Sound) (he : b.Exact)
    (hs : b.Step P Offer receiver id block sender call b' logs payments)
    (hagain : ¬b.Recommits block sender call) : b'.Exact := by
  cases hs with
  | posted hnone _ =>
    have hvotes := h.votes_unopened hnone
    have hzero : ∀ vote ≠ SentinelVote.none, votes b.commitments vote = 0 := fun vote hv =>
      votes_eq_zero.mpr fun s => by rw [hvotes s]; exact hv.symm
    exact ⟨hzero .approved (by simp), hzero .denied (by simp), by rw [hzero .pending (by simp)]; rfl⟩
  | @committed hash request hcommit hhash =>
    obtain ⟨hstate, hopen, hcount, rfl⟩ := OracleRequest.applyCommit_spec hcommit
    have hfresh : (b.commitments sender).vote = .none := by
      by_contra hvote
      exact hagain ⟨⟨id, hash, rfl⟩, hstate, hopen, hvote, hhash⟩
    have hvote := votes_update b.commitments sender ⟨hash, b.request.terms.bondTarget, .pending, false⟩
    have ha := hvote .approved
    have hd := hvote .denied
    have hp := hvote .pending
    simp only [hfresh, reduceCtorEq, if_false, if_true, add_zero] at ha hd hp
    have hpending := he.pending
    refine ⟨ha.trans he.approved, hd.trans he.denied, ?_⟩
    dsimp only
    omega
  | @revealed approve salt reason request hvote hhash hreveal =>
    obtain ⟨hstate, -, -, rfl⟩ := OracleRequest.applyReveal_spec hreveal
    have hupdate := votes_update b.commitments sender
      { b.commitments sender with vote := if approve then .approved else .denied }
    have ha := hupdate .approved
    have hd := hupdate .denied
    have hp := hupdate .pending
    simp only [hvote, reduceCtorEq, if_false, if_true, add_zero] at ha hd hp
    have happroved := he.approved
    have hdenied := he.denied
    have hpending := he.pending
    constructor
    all_goals cases approve <;> simp at ha hd hp ⊢ <;> omega
  | finalized hfinalize =>
    obtain ⟨hstate, -, hto⟩ := OracleRequest.finalize_spec hfinalize
    exact he.keeps (hto.keeps hstate)
  | claimed _ hbond _ _ _ =>
    have hsame := votes_update_same b.commitments sender (c := { b.commitments sender with claimed := true }) rfl
    exact ⟨(hsame _).trans he.approved, (hsame _).trans he.denied, by rw [hsame]; exact he.pending⟩
  | ruled hruling _ => exact he.keeps (OracleRequest.resolveDispute_keeps hruling)
  | refunded hrefund _ => exact he.keeps (OracleRequest.outOfScope_keeps hrefund)

/-- A recorded commitment stays recorded. -/
theorem Step.vote (h : b.Sound) (hs : b.Step P Offer receiver id block sender call b' logs payments)
    {s : Address} (hv : (b.commitments s).vote ≠ .none) : (b'.commitments s).vote ≠ .none := by
  have hupdate : ∀ c : OracleCommitment, c.vote ≠ .none →
      (Function.update b.commitments sender c s).vote ≠ .none := by
    intro c hc
    by_cases hsender : s = sender
    · rw [hsender, Function.update_self]
      exact hc
    · rw [Function.update_of_ne hsender]
      exact hv
  cases hs with
  | posted _ _ => exact hv
  | committed _ _ => exact hupdate _ (by simp)
  | revealed _ _ _ => exact hupdate _ (by dsimp only; split <;> simp)
  | finalized _ => exact hv
  | claimed _ hbond _ _ _ => exact hupdate _ (h.vote_of_bond hbond)
  | ruled _ _ => exact hv
  | refunded _ _ => exact hv

/-- Commitments to a hash that is not zero, unless one to zero is made. -/
theorem Step.hashed (hs : b.Step P Offer receiver id block sender call b' logs payments)
    (hnonzero : call ≠ .commit id 0)
    (h : ∀ s, (b.commitments s).vote ≠ .none → (b.commitments s).commitHash ≠ 0) (s : Address)
    (hv : (b'.commitments s).vote ≠ .none) : (b'.commitments s).commitHash ≠ 0 := by
  have hupdate : ∀ c : OracleCommitment, c.commitHash ≠ 0 →
      (Function.update b.commitments sender c s).vote ≠ .none →
      (Function.update b.commitments sender c s).commitHash ≠ 0 := by
    intro c hc hv
    by_cases hsender : s = sender
    · rw [hsender, Function.update_self]
      exact hc
    · rw [Function.update_of_ne hsender] at hv ⊢
      exact h s hv
  cases hs with
  | posted _ _ => exact h s hv
  | committed _ _ =>
    refine hupdate _ (fun hzero => hnonzero ?_) hv
    rw [← hzero]
  | revealed hvote _ _ => exact hupdate _ (h sender (by simp [hvote])) hv
  | finalized _ => exact h s hv
  | claimed _ _ _ _ _ =>
    by_cases hsender : s = sender
    · subst hsender
      simp only [Function.update_self] at hv ⊢
      exact h s hv
    · simp only [Function.update_of_ne hsender] at hv ⊢
      exact h s hv
  | ruled _ _ => exact h s hv
  | refunded _ _ => exact h s hv

end

end OracleBook

/-! ## 3. Runs -/

/-- Whether a call commits to a request. -/
def OracleCall.commits (id : B256) : OracleCall → Bool
  | .commit requestId _ => requestId = id
  | _ => false

/-- The payments of a sentinel's commitments to a request. -/
def bondsTaken (receipts : List OracleReceipt) (id : B256) (sentinel : Address) : List Payment :=
  (receipts.filter fun r => decide (r.tx.sender = sentinel) && r.tx.call.commits id).flatMap (·.payments)

theorem OracleCall.request_of_commits {call : OracleCall} {id : B256} (h : call.commits id = true) :
    call.request = some id := by
  cases call with
  | commit requestId _ => exact congrArg some (by simpa [commits] using h)
  | _ => exact absurd h (by simp [commits])

theorem bondsTaken_append (receipts receipts' : List OracleReceipt) (id : B256) (s : Address) :
    bondsTaken (receipts ++ receipts') id s = bondsTaken receipts id s ++ bondsTaken receipts' id s := by
  rw [bondsTaken, List.filter_append, List.flatMap_append]
  rfl

theorem bondsTaken_eq_nil {receipts : List OracleReceipt} {id : B256} {s : Address}
    (h : ∀ r ∈ receipts, r.tx.sender = s → r.tx.call.commits id = false) :
    bondsTaken receipts id s = [] := by
  rw [bondsTaken, List.filter_eq_nil_iff.mpr, List.flatMap_nil]
  intro r hr
  by_cases hs : r.tx.sender = s
  · simp [h r hr hs]
  · simp [hs]

namespace SentinelOracle

variable {P : OracleParams} {o o' : SentinelOracle} {id : B256}

theorem construct_book (h : construct P = .ok o) (id : B256) : o.book id = ⟨.empty, fun _ => .empty⟩ := by
  simp only [construct, Except.bind_eq_ok, Except.pure_eq_ok] at h
  obtain ⟨-, -, -, -, -, -, -, -, -, -, -, -, -, -, -, -, -, -, -, -, bondConfig, -, rfl⟩ := h
  rfl

/-- A call reverts, or is one of those. -/
theorem execTx_cases (P : OracleParams) (o : SentinelOracle) (tx : OracleTx) :
    o.execTx P tx = (o, []) ∨ ∃ outcome, o.exec P tx.block tx.sender tx.call = .ok outcome ∧
      o.execTx P tx = (outcome.1, [⟨tx, outcome.2.1, outcome.2.2⟩]) := by
  unfold execTx
  split
  · rename_i o' logs payments h
    exact .inr ⟨_, h, rfl⟩
  · exact .inl rfl

/-- What a call does to a request: nothing, or a step. -/
theorem execTx_book (P : OracleParams) (o : SentinelOracle) (tx : OracleTx) (id : B256) :
    (o.execTx P tx).1.book id = o.book id ∧
        (tx.call.request = some id → (o.execTx P tx).2 = []) ∨
      ∃ logs payments, tx.call.request = some id ∧ (o.execTx P tx).2 = [⟨tx, logs, payments⟩] ∧
        (o.book id).Step P (o.Offers tx.block)
          (o.protocolFundsReceiverConfig.applyPending tx.block).value id tx.block tx.sender tx.call
          ((o.execTx P tx).1.book id) logs payments := by
  rcases execTx_cases P o tx with hrun | ⟨outcome, hexec, hrun⟩
  · rw [hrun]
    exact .inl ⟨rfl, fun _ => rfl⟩
  · rw [hrun]
    rcases exec_cases hexec with ⟨hnone, hbook, -⟩ | ⟨id', hid', hsteps⟩
    · exact .inl ⟨hbook id, fun hid => absurd (hnone.symm.trans hid) (by simp)⟩
    · by_cases hid : id = id'
      · subst hid
        exact .inr ⟨_, _, hid', rfl, hsteps.step⟩
      · exact .inl ⟨hsteps.others id hid, fun h => absurd (Option.some.inj (h.symm.trans hid')) hid⟩

/-- What every step of a request's book keeps, every call keeps. -/
theorem execTx_keeps {I : OracleBook → Prop} (tx : OracleTx) (h : I (o.book id))
    (hstep : ∀ b' logs payments, tx.call.request = some id → (o.book id).Step P (o.Offers tx.block)
      (o.protocolFundsReceiverConfig.applyPending tx.block).value id tx.block tx.sender tx.call b' logs
      payments → I b') : I ((o.execTx P tx).1.book id) := by
  rcases execTx_book P o tx id with ⟨hsame, -⟩ | ⟨logs, payments, hid, -, hs⟩
  · rw [hsame]
    exact h
  · exact hstep _ _ _ hid hs

/-- **Every request is sound**, in every run. -/
theorem run_sound (h : construct P = .ok o) (txs : List OracleTx) (id : B256) :
    ((Reactive.runState (execTx P) o txs).book id).Sound := by
  refine Reactive.runState_induction (execTx P) (fun _ o => (o.book id).Sound) ?_ ?_ txs
  · rw [construct_book h id]
    exact {
      unopened := fun _ => ⟨rfl, rfl, rfl, rfl⟩
      approved := (votes_eq_zero.mpr fun s => by simp [OracleCommitment.empty]).le
      denied := (votes_eq_zero.mpr fun s => by simp [OracleCommitment.empty]).le
      revealed := rfl
      pending := by
        rw [votes_eq_zero.mpr fun s => by simp [OracleCommitment.empty]]
        exact le_rfl
      bounded := Nat.two_pow_pos 16
      blank := fun _ _ => rfl
      bond := fun _ hv => absurd rfl hv }
  · exact fun past o tx ho => execTx_keeps tx ho fun b' logs payments _ hs => ho.step hs

/-- No call of a run commits again after a commitment to the hash zero. -/
def NeverRecommits (P : OracleParams) (o : SentinelOracle) (txs : List OracleTx) : Prop :=
  ∀ past tx rest, txs = past ++ tx :: rest → ∀ id, tx.call.request = some id →
    ¬((Reactive.runState (execTx P) o past).book id).Recommits tx.block tx.sender tx.call

theorem NeverRecommits.init {txs : List OracleTx} {tx : OracleTx}
    (h : NeverRecommits P o (txs ++ [tx])) : NeverRecommits P o txs := by
  intro past tx' rest hsplit
  exact h past tx' (rest ++ [tx]) (by rw [hsplit]; simp)

/-- The counts of a request are exactly what was voted. -/
theorem run_exact (h : construct P = .ok o) {txs : List OracleTx} (hagain : NeverRecommits P o txs)
    (id : B256) : ((Reactive.runState (execTx P) o txs).book id).Exact := by
  induction txs using List.reverseRecOn with
  | nil =>
    rw [Reactive.runState_nil, construct_book h id]
    have hzero : ∀ vote ≠ SentinelVote.none, votes (fun _ => OracleCommitment.empty) vote = 0 :=
      fun vote hv => votes_eq_zero.mpr fun s => hv.symm
    exact ⟨hzero .approved (by simp), hzero .denied (by simp), by rw [hzero .pending (by simp)]; rfl⟩
  | append_singleton txs tx ih =>
    rw [Reactive.runState_append]
    exact execTx_keeps tx (ih hagain.init) fun b' logs payments hid hs =>
      (ih hagain.init).step (run_sound h txs id) hs (hagain txs tx [] rfl id hid)

/-- The bonds a sentinel has paid for a request, and whether it has committed. -/
theorem run_bonds (h : construct P = .ok o) {txs : List OracleTx} (hagain : NeverRecommits P o txs)
    (id : B256) (s : Address) :
    (bondsTaken (Reactive.runOutputs (execTx P) o txs) id s).length ≤
      if (((Reactive.runState (execTx P) o txs).book id).commitments s).vote = .none then 0 else 1 := by
  induction txs using List.reverseRecOn with
  | nil => exact Nat.zero_le _
  | append_singleton txs tx ih =>
    have ih := ih hagain.init
    have hsound := run_sound h txs id
    have hagain' := hagain txs tx [] rfl id
    rw [Reactive.runOutputs_append, Reactive.runState_append, bondsTaken_append, List.length_append]
    generalize Reactive.runState (execTx P) o txs = o' at *
    have hout : Reactive.runOutputs (execTx P) o' [tx] = (o'.execTx P tx).2 := by
      simp [Reactive.runOutputs]
    rw [hout, Reactive.runState_cons, Reactive.runState_nil]
    rcases execTx_book P o' tx id with ⟨hsame, hnone⟩ | ⟨logs, payments, hid, hout, hs⟩
    · have hnil : bondsTaken (o'.execTx P tx).2 id s = [] := by
        refine bondsTaken_eq_nil fun r hr _ => ?_
        rcases execTx_cases P o' tx with hrun | ⟨outcome, -, hrun⟩
        · exact absurd hr (by simp [hrun])
        · rw [hrun] at hr
          obtain rfl := List.mem_singleton.mp hr
          by_contra hcommits
          have := hnone (OracleCall.request_of_commits (by simpa using hcommits))
          simp [hrun] at this
      rw [hnil, hsame]
      exact ih
    · rw [hout]
      by_cases hcommit : tx.sender = s ∧ tx.call.commits id = true
      · obtain ⟨rfl, hcommit⟩ := hcommit
        have hagain := hagain' hid
        have hfilter : bondsTaken [⟨tx, logs, payments⟩] id tx.sender = payments := by
          simp [bondsTaken, hcommit]
        rw [hfilter]
        generalize tx.call = call at hs hcommit hagain
        generalize (o'.execTx P tx).1.book id = b' at *
        cases hs with
        | committed happly hhash =>
          obtain ⟨hstate, hopen, -⟩ := OracleRequest.applyCommit_spec happly
          have hfresh : ((o'.book id).commitments tx.sender).vote = .none := by
            by_contra hvote
            exact hagain ⟨⟨_, _, rfl⟩, hstate, hopen, hvote, hhash⟩
          rw [if_pos hfresh] at ih
          rw [if_neg (by simp)]
          simpa using ih
        | posted _ _ => exact absurd hcommit (by simp [OracleCall.commits])
        | revealed _ _ _ => exact absurd hcommit (by simp [OracleCall.commits])
        | finalized _ => exact absurd hcommit (by simp [OracleCall.commits])
        | claimed _ _ _ _ _ => exact absurd hcommit (by simp [OracleCall.commits])
        | ruled _ _ => exact absurd hcommit (by simp [OracleCall.commits])
        | refunded _ hcall =>
          rcases hcall with ⟨rfl, -⟩ | ⟨_, rfl, -⟩ <;> exact absurd hcommit (by simp [OracleCall.commits])
      · have hnil : bondsTaken [⟨tx, logs, payments⟩] id s = [] := by
          refine bondsTaken_eq_nil fun r hr hsender => ?_
          obtain rfl := List.mem_singleton.mp hr
          simpa using fun h => hcommit ⟨hsender, h⟩
        rw [hnil]
        refine ih.trans ?_
        split
        · exact Nat.zero_le _
        · rename_i hvote
          rw [if_neg (hs.vote hsound hvote)]

/-- What the counts of a request say, and that each sentinel has paid a bond at most once. -/
structure Accounted (b : OracleBook) (receipts : List OracleReceipt) (id : B256) : Prop where
  committed : b.request.progress.committedCount = b.committers.card
  bonds : ∀ s, (bondsTaken receipts id s).length ≤ 1
  revealed : b.request.progress.approveSentinelCount + b.request.progress.denySentinelCount =
    b.revealers.card
  bounded : b.request.progress.approveSentinelCount + b.request.progress.denySentinelCount ≤
    b.request.progress.committedCount

/-- **The votes are accounted for**, in a run in which nobody commits again after a commitment to the
hash zero. -/
theorem votes_accounted (P : OracleParams) (o : SentinelOracle) (h : construct P = .ok o)
    (txs : List OracleTx) (hagain : NeverRecommits P o txs) (id : B256) :
    Accounted ((Reactive.runState (execTx P) o txs).book id) (Reactive.runOutputs (execTx P) o txs)
      id := by
  obtain ⟨happroved, hdenied, hpending⟩ := run_exact h hagain id
  have hsound := run_sound h txs id
  have hrevealed := hsound.revealed
  constructor
  · rw [OracleBook.card_committers]
    omega
  · intro s
    refine (run_bonds h hagain id s).trans ?_
    split
    · exact Nat.zero_le _
    · exact le_rfl
  · rw [OracleBook.card_revealers]
    omega
  · omega

/-- Nobody commits again when nobody commits to zero. -/
theorem neverRecommits_of_nonzero (h : construct P = .ok o) {txs : List OracleTx}
    (hnonzero : ∀ tx ∈ txs, ∀ id, tx.call ≠ .commit id 0) : NeverRecommits P o txs := by
  have hhash : ∀ past rest, txs = past ++ rest → ∀ id s,
      (((Reactive.runState (execTx P) o past).book id).commitments s).vote ≠ .none →
      (((Reactive.runState (execTx P) o past).book id).commitments s).commitHash ≠ 0 := by
    intro past
    induction past using List.reverseRecOn with
    | nil =>
      intro rest _ id s hv
      rw [Reactive.runState_nil, construct_book h id] at hv
      exact absurd rfl hv
    | append_singleton past tx ih =>
      intro rest hsplit id
      have ih := ih (tx :: rest) (by rw [hsplit]; simp) id
      rw [Reactive.runState_append]
      exact execTx_keeps (I := fun b => ∀ s, (b.commitments s).vote ≠ .none →
        (b.commitments s).commitHash ≠ 0) tx ih fun b' logs payments _ hs =>
          hs.hashed (hnonzero tx (by rw [hsplit]; simp) id) ih
  intro past tx rest hsplit id _ hagain
  obtain ⟨-, -, -, hvote, hzero⟩ := hagain
  exact hhash past (tx :: rest) hsplit id tx.sender hvote hzero

/-- An oracle with a hash that is the vote. -/
def toyParams : OracleParams where
  address := 99
  keccak256 bytes := Fin.ofNat _ ((bytes.headD 0).toNat + 1)
  arbitrator := 1
  governance := 2
  protocolFundsReceiver := 3
  proposer := 4
  feeToken := 5
  requestFee := 10
  initialBondMultiplier := 3
  initialSlashingMultiplier := 2
  initialDaoFeeShare := 1000
  commitWindow := 10
  revealWindow := 10
  governanceDelay := 0
  arbitrationTimeout := 50

/-- Two sentinels, and a request. -/
def toyOpening : List OracleTx :=
  [⟨1, 2, .addSentinel 7⟩, ⟨1, 2, .addSentinel 8⟩, ⟨2, 4, .postRequest 1 6⟩]

/-- Two sentinels commit, and one reveals. -/
theorem votes_accounted_two : ∃ o, construct toyParams = .ok o ∧
    Accounted ((Reactive.runState (execTx toyParams) o (toyOpening ++ [⟨3, 7, .commit 1 2⟩,
      ⟨3, 8, .commit 1 1⟩, ⟨13, 7, .reveal 1 true 0 []⟩])).book 1)
      (Reactive.runOutputs (execTx toyParams) o (toyOpening ++ [⟨3, 7, .commit 1 2⟩,
      ⟨3, 8, .commit 1 1⟩, ⟨13, 7, .reveal 1 true 0 []⟩])) 1 := by
  refine ⟨_, rfl, votes_accounted toyParams _ rfl _ (neverRecommits_of_nonzero rfl ?_) 1⟩
  simp [toyOpening]

/-- A sentinel commits to the hash zero, twice. -/
theorem zero_commits_twice : ∃ o, construct toyParams = .ok o ∧
    ¬Accounted ((Reactive.runState (execTx toyParams) o (toyOpening ++ [⟨3, 7, .commit 1 0⟩,
      ⟨3, 7, .commit 1 0⟩])).book 1)
      (Reactive.runOutputs (execTx toyParams) o (toyOpening ++ [⟨3, 7, .commit 1 0⟩,
      ⟨3, 7, .commit 1 0⟩])) 1 := by
  refine ⟨_, rfl, fun h => absurd (h.bonds 7) ?_⟩
  decide +kernel

end SentinelOracle

end Safenet
