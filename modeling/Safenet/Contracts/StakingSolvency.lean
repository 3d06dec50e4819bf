/-
# Staking with its token

The calls of the staking contract, the payments they make, and the calls others make of the token.
What is staked or pending is always there (`stakes_covered`), whatever the owner recovers: it gets what is
left over.  So what is due is paid when it is claimed, and what is staked can be withdrawn
(`Covered`): no sum that the contract keeps can make a staker's call revert.
-/
import Safenet.Contracts.StakingLedger

namespace Safenet

/-- A call of the contract, or of its token by another account. -/
inductive StakingMove where
  | call (tx : StakingTx)
  | token (caller : Address) (call : ERC20.Call Address)

/-- A call, where the contract has a balance in the token. -/
def StakingTx.withBalance (tx : StakingTx) (token : Address) (balance : Nat) : StakingTx :=
  { tx with env := { tx.env with balanceOf := Function.update tx.env.balanceOf token balance } }

/-- A move.  A call of which a payment fails reverts. -/
def Staking.execPaid {τ : Type} (P : StakingParams) (T : ERC20 Address τ) (s : Staking × τ) :
    StakingMove → (Staking × τ) × List StakingReceipt
  | .call tx =>
    let tx := tx.withBalance P.safeToken (T.balanceOf s.2 P.address)
    match s.1.exec P tx.env tx.call with
    | .ok (s', logs, payments) =>
      match payments.foldlM (Payment.make T P.address) s.2 with
      | some t => ((s', t), [⟨tx, s.1.withdrawDelay, logs, payments⟩])
      | none => (s, [])
    | .error _ => (s, [])
  | .token caller call =>
    -- the contract's own calls of the token are its payments
    if caller = P.address then (s, []) else ((s.1, (T.exec s.2 caller call).getD s.2), [])

namespace Staking

variable {τ : Type} {T : ERC20 Address τ} {P : StakingParams} {s : Staking} {t : τ}
  {a v : Address} {n : Nat} {env : StakingEnv} {q q' : Address → List Withdrawal}
  {receipts : List StakingReceipt}

/-! ## 1. One move -/

/-- A move is a call that reverts, or one that does not, or a call of the token. -/
theorem execPaid_cases (P : StakingParams) (T : ERC20 Address τ) (s : Staking × τ)
    (move : StakingMove) :
    execPaid P T s move = (s, []) ∨
      (∃ tx o t', tx.env.balanceOf P.safeToken = T.balanceOf s.2 P.address ∧
        s.1.exec P tx.env tx.call = .ok o ∧
        o.2.2.foldlM (Payment.make T P.address) s.2 = some t' ∧
        execPaid P T s move = ((o.1, t'), [⟨tx, s.1.withdrawDelay, o.2.1, o.2.2⟩])) ∨
      ∃ caller call t', caller ≠ P.address ∧ T.exec s.2 caller call = some t' ∧
        execPaid P T s move = ((s.1, t'), []) := by
  cases move with
  | call tx =>
    let tx' := tx.withBalance P.safeToken (T.balanceOf s.2 P.address)
    have hbalance : tx'.env.balanceOf P.safeToken = T.balanceOf s.2 P.address :=
      Function.update_self ..
    cases hexec : s.1.exec P tx'.env tx'.call with
    | error e => exact .inl (by simp only [execPaid]; simp only [tx'] at hexec; rw [hexec])
    | ok o =>
      cases hpay : o.2.2.foldlM (Payment.make T P.address) s.2 with
      | none => exact .inl (by simp only [execPaid]; simp only [tx'] at hexec; rw [hexec]; simp [hpay])
      | some t' =>
        refine .inr (.inl ⟨tx', o, t', hbalance, hexec, hpay, ?_⟩)
        simp only [execPaid]
        simp only [tx'] at hexec
        rw [hexec]
        simp [hpay, tx']
  | token caller call =>
    by_cases hcaller : caller = P.address
    · exact .inl (by simp [execPaid, hcaller])
    · cases hcall : T.exec s.2 caller call with
      | none => exact .inl (by simp [execPaid, hcaller, hcall])
      | some t' => exact .inr (.inr ⟨caller, call, t', hcaller, hcall, by simp [execPaid, hcaller, hcall]⟩)

/-- The contract in a run with its token: a run of the contract, of the calls whose payments are made.
It has approved nobody, and has what is staked or pending. -/
structure Backed (P : StakingParams) (T : ERC20 Address τ) (s₀ : Staking) (s : Staking × τ)
    (receipts : List StakingReceipt) (txs : List StakingTx) : Prop where
  contract : s.1 = Reactive.runState (execTx P) s₀ txs
  outputs : receipts = Reactive.runOutputs (execTx P) s₀ txs
  unapproved : T.Unapproved s.2 P.address
  balance : s.1.totalStakedAmount + s.1.totalPendingWithdrawals ≤ T.balanceOf s.2 P.address

/-- What a step moves is what its sums change by. -/
theorem Step.backed {o : Outcome} (hs : Step P env s q o q') {balance balance' : Nat}
    (henv : env.balanceOf P.safeToken = balance)
    (hold : s.totalStakedAmount + s.totalPendingWithdrawals ≤ balance)
    (hpaid : balance + paidIn o.2.2 ≤ balance' + paidOut o.2.2) :
    o.1.totalStakedAmount + o.1.totalPendingWithdrawals ≤ balance' := by
  cases hs with
  | @staked validator n hn =>
    simp only [paidIn, paidOut, Payment.paidIn, Payment.paidOut, List.map_cons, List.map_nil,
      List.sum_cons, List.sum_nil, addStake] at hpaid ⊢
    omega
  | @started validator n ys zs hr hq hplace =>
    have hsums := insertBetween_sums (s.releaseStake env.sender validator n) env.sender
      s.nextWithdrawalId n (s.claimableAt env) (lastId ys) (headId zs)
    have hle := hr.staked
    simp only [paidIn, paidOut, List.map_nil, List.sum_nil] at hpaid
    rw [insertAt, hsums.staked, hsums.pending]
    unfold releaseStake
    dsimp only
    omega
  | @claimed w l hq htime hle =>
    have hsums := removeHead_sums s env.sender
    have hstaked : (s.payHead env.sender w.amount).totalStakedAmount = s.totalStakedAmount :=
      hsums.staked
    have hpending : (s.payHead env.sender w.amount).totalPendingWithdrawals =
      s.totalPendingWithdrawals - w.amount := rfl
    simp only [paidIn, paidOut, Payment.paidIn, Payment.paidOut, List.map_cons, List.map_nil,
      List.sum_cons, List.sum_nil] at hpaid
    rw [hstaked, hpending]
    omega
  | recovered hn =>
    simp only [paidIn, paidOut, Payment.paidIn, Payment.paidOut, List.map_cons, List.map_nil,
      List.sum_cons, List.sum_nil] at hpaid ⊢
    omega
  | other hsame _ =>
    simp only [paidIn, paidOut, List.map_nil, List.sum_nil] at hpaid
    rw [hsame.staked, hsame.pending]
    omega

/-- The pulls of a step are of something. -/
theorem Step.pull_pos {o : Outcome} (hs : Step P env s q o q') {payer : Address} {amount : Nat}
    (hmem : .pull payer amount ∈ o.2.2) : 0 < amount := by
  cases hs with
  | staked hn =>
    obtain ⟨rfl, rfl⟩ := Payment.pull.inj (List.mem_singleton.mp hmem)
    exact hn
  | started _ _ _ => exact absurd hmem (by simp)
  | claimed _ _ _ => exact absurd hmem (by simp)
  | recovered _ => exact absurd hmem (by simp)
  | other _ _ => exact absurd hmem (by simp)

variable {s₀ : Staking}

/-- **One move.** -/
theorem Backed.step (hT : T.Standard) (h : construct P = .ok s₀) {s : Staking × τ}
    {txs : List StakingTx} (hb : Backed P T s₀ s receipts txs) (move : StakingMove) :
    ∃ txs', Backed P T s₀ (execPaid P T s move).1 (receipts ++ (execPaid P T s move).2) txs' := by
  obtain ⟨hcontract, hreceipts, hunapproved, hbalance⟩ := hb
  rcases execPaid_cases P T s move with hrun | ⟨tx, o, t', henv, hexec, hpay, hrun⟩ |
      ⟨caller, call, t', hcaller, hcall, hrun⟩
  · rw [hrun, List.append_nil]
    exact ⟨txs, hcontract, hreceipts, hunapproved, hbalance⟩
  · rw [hrun]
    have hout : s.1.execTx P tx = (o.1, [⟨tx, s.1.withdrawDelay, o.2.1, o.2.2⟩]) := by
      simp [execTx, hexec]
    obtain ⟨q, hq⟩ := run_accounted h txs
    rw [← hcontract] at hq
    obtain ⟨q', hstep⟩ := hq.books.exec_step hexec
    obtain ⟨hpaid, hself⟩ := payments_make hT hpay (fun _ _ hmem => hstep.pull_pos hmem) hunapproved
    refine ⟨txs ++ [tx], ?_, ?_, hself, hstep.backed henv hbalance hpaid⟩
    · rw [Reactive.runState_append, Reactive.runState_cons, ← hcontract, hout]
      rfl
    · rw [Reactive.runOutputs_append, hreceipts, Reactive.runOutputs, ← hcontract, hout]
      rfl
  · rw [hrun, List.append_nil]
    obtain ⟨hle, hself⟩ := hT.call hcall hcaller hunapproved
    exact ⟨txs, hcontract, hreceipts, hself, hbalance.trans hle⟩

/-- **Every run** of the contract with its token. -/
theorem run_backed (hT : T.Standard) (h : construct P = .ok s₀) (hnew : T.Unapproved t P.address)
    (moves : List StakingMove) :
    ∃ txs, Backed P T s₀ (Reactive.runState (execPaid P T) (s₀, t) moves)
      (Reactive.runOutputs (execPaid P T) (s₀, t) moves) txs := by
  induction moves using List.reverseRecOn with
  | nil =>
    have hzero : s₀.totalStakedAmount + s₀.totalPendingWithdrawals = 0 := by
      simp only [construct, Except.bind_eq_ok, Except.pure_eq_ok] at h
      obtain ⟨_, -, _, -, _, -, _, -, _, -, rfl⟩ := h
      rfl
    exact ⟨[], rfl, rfl, hnew, hzero.trans_le (Nat.zero_le _)⟩
  | append_singleton moves move ih =>
    obtain ⟨txs, hb⟩ := ih
    rw [Reactive.runState_append, Reactive.runOutputs_append]
    simp only [Reactive.runState_cons, Reactive.runState_nil, Reactive.runOutputs, List.append_nil]
    exact hb.step hT h move

/-! ## 2. What is due is paid -/

/-- A claim of the first withdrawal, when it is due. -/
theorem Books.claimWithdrawal_due (h : s.Books q) (env : StakingEnv) {w : Withdrawal} {l : List Withdrawal}
    (hq : q env.sender = w :: l) (htime : w.claimableAt ≤ env.timestamp) :
    w.amount ≤ s.totalPendingWithdrawals ∧ s.claimWithdrawal env =
      .ok (s.payHead env.sender w.amount, [.withdrawalClaimed env.sender w.id w.amount],
        [.push env.sender w.amount]) := by
  have hle : w.amount ≤ s.totalPendingWithdrawals := by
    have hone := Finset.single_le_sum (f := fun a => amounts (q a)) (fun _ _ => Nat.zero_le _)
      (Finset.mem_univ env.sender)
    have hamounts : amounts (q env.sender) = w.amount + amounts l := congrArg amounts hq
    rw [h.pending]
    omega
  have hqueue := hq ▸ h.queue env.sender
  have hhead : (s.withdrawalQueues env.sender).head = w.id := hqueue.head
  obtain ⟨hamount, hclaimable⟩ := hqueue.nodes w List.mem_cons_self
  unfold node at hamount hclaimable
  refine ⟨hle, ?_⟩
  simp only [claimWithdrawal, Except.bind_eq_ok, Except.pure_eq_ok, require_eq_ok, exists_const,
    checkedSub_eq_ok, hhead, hamount, hclaimable]
  exact ⟨(hqueue.valid w List.mem_cons_self).1, htime, _, ⟨rfl, hle⟩, rfl⟩

/-- A withdrawal can start when there is the stake for it. -/
theorem Books.releasable (h : s.Books q) (env : StakingEnv) (hpos : 0 < n) (hstake : n ≤ s.stakes env.sender v)
    (hbound : s.totalStakedAmount + s.totalPendingWithdrawals < 2 ^ 256)
    (htime : env.timestamp + s.withdrawDelay < 2 ^ 256) (hnext : s.nextWithdrawalId + 1 < 2 ^ 64) :
    s.Releasable env v n := by
  have hvalidator : s.stakes env.sender v ≤ s.totalValidatorStakes v := by
    rw [h.validator]
    exact Finset.single_le_sum (f := fun a => s.stakes a v) (fun _ _ => Nat.zero_le _)
      (Finset.mem_univ env.sender)
  have hstaker : s.stakes env.sender v ≤ s.totalStakerStakes env.sender := by
    rw [h.staker]
    exact Finset.single_le_sum (fun _ _ => Nat.zero_le _) (Finset.mem_univ v)
  have hstaked : s.totalStakerStakes env.sender ≤ s.totalStakedAmount := by
    rw [h.staked]
    exact Finset.single_le_sum (fun _ _ => Nat.zero_le _) (Finset.mem_univ env.sender)
  exact ⟨hpos, hstake, by omega, by omega, by omega, htime, by omega, hnext⟩

/-- A call that is done. -/
theorem execPaid_done {s : Staking × τ} {tx : StakingTx} :
    (execPaid P T s (.call tx)).2 ≠ [] ↔
      ∃ o, s.1.exec P (tx.withBalance P.safeToken (T.balanceOf s.2 P.address)).env tx.call = .ok o ∧
        (o.2.2.foldlM (Payment.make T P.address) s.2).isSome := by
  have hcall : (tx.withBalance P.safeToken (T.balanceOf s.2 P.address)).call = tx.call := rfl
  simp only [execPaid]
  rw [hcall]
  cases hexec : s.1.exec P (tx.withBalance P.safeToken (T.balanceOf s.2 P.address)).env tx.call with
  | error e => simp
  | ok o => cases hpay : o.2.2.foldlM (Payment.make T P.address) s.2 <;> simp [hpay]

/-- What a contract with a token can pay. -/
structure Covered (P : StakingParams) (T : ERC20 Address τ) (s : Staking × τ)
    (receipts : List StakingReceipt) : Prop where
  /-- It has what is staked or pending. -/
  balance : (∑ a, ∑ v, s.1.stakes a v) + ∑ a, amounts (pendingOf receipts a) ≤
    T.balanceOf s.2 P.address
  /-- A claim is paid when a withdrawal of the staker is due. -/
  claims : ∀ a timestamp balances, a ≠ 0 →
    ((execPaid P T s (.call ⟨⟨timestamp, a, balances⟩, .claimWithdrawal⟩)).2 ≠ [] ↔
      ∃ w ∈ pendingOf receipts a, w.claimableAt ≤ timestamp)
  /-- A withdrawal starts when there is the stake for it. -/
  withdrawals : T.balanceOf s.2 P.address < 2 ^ 256 → ∀ a v timestamp balances (n : U256),
    (execPaid P T s (.call ⟨⟨timestamp, a, balances⟩, .initiateWithdrawal v n⟩)).2 ≠ [] ↔
      0 < n.val ∧ n.val + releasedOf receipts a v ≤ stakedOf receipts a v ∧
        timestamp + s.1.withdrawDelay < 2 ^ 256 ∧ s.1.nextWithdrawalId + 1 < 2 ^ 64

/-- **What is staked is there**, in every run with a standard token in which the contract starts by
having approved nobody. -/
theorem stakes_covered (P : StakingParams) (T : ERC20 Address τ) (hT : T.Standard) (s₀ : Staking)
    (h : construct P = .ok s₀) (t : τ) (hnew : T.Unapproved t P.address) (moves : List StakingMove) :
    Covered P T (Reactive.runState (execPaid P T) (s₀, t) moves)
      (Reactive.runOutputs (execPaid P T) (s₀, t) moves) := by
  obtain ⟨txs, hcontract, hreceipts, -, hbalance⟩ := run_backed hT h hnew moves
  obtain ⟨q, hq⟩ := run_accounted h txs
  rw [← hcontract, ← hreceipts] at hq
  generalize Reactive.runOutputs (execPaid P T) (s₀, t) moves = receipts at *
  generalize Reactive.runState (execPaid P T) (s₀, t) moves = s at *
  constructor
  · have hkept := hq.kept
    rw [← hkept.staked, ← hkept.pending]
    exact hbalance
  · intro a timestamp balances ha
    have hperm := hq.pending a
    rw [execPaid_done]
    constructor
    · rintro ⟨o, hexec, -⟩
      obtain ⟨hne, htime, -⟩ := by
        simpa only [exec, claimWithdrawal, Except.bind_eq_ok, require_eq_ok, exists_const] using hexec
      have hqueue := hq.books.queue a
      cases hqa : q a with
      | nil => exact absurd (hqueue.head_eq_zero.mpr hqa) hne
      | cons w l =>
        rw [hqa] at hqueue hperm
        have hhead : (s.1.withdrawalQueues a).head = w.id := hqueue.head
        have hclaimable := (hqueue.nodes w List.mem_cons_self).2
        refine ⟨w, hperm.mem_iff.mp List.mem_cons_self, ?_⟩
        rw [← hclaimable, ← hhead]
        exact htime
    · rintro ⟨v, hv, htime⟩
      have hv := hperm.mem_iff.mpr hv
      cases hqa : q a with
      | nil => exact absurd (hqa ▸ hv) List.not_mem_nil
      | cons w l =>
        have hfirst : w.claimableAt ≤ timestamp := by
          rcases List.mem_cons.mp (hqa ▸ hv) with rfl | hmem
          · exact htime
          · have hsorted := hqa ▸ (hq.books.queue a).sorted
            exact ((List.pairwise_cons.mp hsorted).1 v hmem).trans htime
        obtain ⟨hle, hclaim⟩ := hq.books.claimWithdrawal_due ⟨timestamp, a,
          Function.update balances P.safeToken (T.balanceOf s.2 P.address)⟩ hqa hfirst
        refine ⟨_, hclaim, ?_⟩
        have hbacked : w.amount ≤ T.balanceOf s.2 P.address := by omega
        have hpays := hT.transfers s.2 P.address hbacked ha
        simpa [Payment.make] using hpays
  · intro hbound a v timestamp balances n
    have hstakes := hq.stakes a v
    rw [execPaid_done]
    constructor
    · rintro ⟨o, hexec, -⟩
      obtain ⟨hr, -⟩ := hq.books.initiateWithdrawal_spec hexec
      have hle : n.val ≤ s.1.stakes a v := hr.stake
      exact ⟨hr.pos, by omega, hr.time, hr.next⟩
    · rintro ⟨hpos, hstake, htime, hnext⟩
      have hr := hq.books.releasable ⟨timestamp, a,
        Function.update balances P.safeToken (T.balanceOf s.2 P.address)⟩ hpos
        (show n.val ≤ s.1.stakes a v by omega) (by omega) htime hnext
      obtain ⟨ys, zs, hsplit, hys, hzs⟩ := exists_place (hq.books.queue a).sorted
        (s.1.claimableAt ⟨timestamp, a,
          Function.update balances P.safeToken (T.balanceOf s.2 P.address)⟩)
      exact ⟨_, hq.books.initiateWithdrawal_place hr hsplit hys hzs, rfl⟩

/-- The token of the toy contract: everyone has 100, and lets the contract spend it. -/
def toyStakingToken : ERC20.Plain Address where
  balances account := if account = 99 then 0 else 100
  allowances owner spender := if owner ≠ 99 ∧ spender = 99 then 100 else 0

/-- The stakes of the toy contract. -/
theorem stakes_covered_toy : ∃ s₀, construct toyStaking = .ok s₀ ∧
    Covered toyStaking .plain
      (Reactive.runState (execPaid toyStaking .plain) (s₀, toyStakingToken) (toyStakes.map .call))
      (Reactive.runOutputs (execPaid toyStaking .plain) (s₀, toyStakingToken) (toyStakes.map .call)) :=
  ⟨_, rfl, stakes_covered toyStaking .plain ERC20.plain_standard _ rfl toyStakingToken
    (fun spender => by simp [ERC20.plain, toyStakingToken, toyStaking]) _⟩

end Staking

end Safenet
