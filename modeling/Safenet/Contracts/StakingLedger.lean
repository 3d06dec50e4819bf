/-
# What stakers are owed

The books of the staking contract are its stakes, the sums of them it keeps, and the pending
withdrawals.  A call does one of five things to them (`Staking.Step`): a stake, a withdrawal that
starts, one that is claimed, a recovery of what is left over, or nothing.  The sums stay the sums
(`Books`), so the contract has in the token all that is staked or pending, and pays a withdrawal once,
when it is due (sections 5 and 6).
-/
import Safenet.Contracts.StakingQueue
import Safenet.Contracts.OracleSolvency

namespace Safenet

open Links

/-- Whether a log is about a stake or a withdrawal. -/
def StakingLog.ofBooks : StakingLog → Bool
  | .stakeIncreased .. | .withdrawalInitiated .. | .withdrawalClaimed .. => true
  | _ => false

namespace Staking

variable {P : StakingParams} {env : StakingEnv} {s s' : Staking} {a b v : Address} {n : Nat}

/-! ## 1. What a call does -/

theorem checkedAdd_eq_ok {bits m k : Nat} :
    checkedAdd bits n m = .ok k ↔ k = n + m ∧ n + m < 2 ^ bits := by
  unfold checkedAdd
  split <;> rename_i h <;> simp [h, eq_comm]

theorem checkedSub_eq_ok {m k : Nat} : checkedSub n m = .ok k ↔ k = n - m ∧ m ≤ n := by
  unfold checkedSub
  split <;> rename_i h <;> simp [h, eq_comm]

/-- A staker has more stake toward a validator. -/
def addStake (s : Staking) (a v : Address) (n : Nat) : Staking :=
  { s with
    stakes := Function.update s.stakes a (Function.update (s.stakes a) v (s.stakes a v + n))
    totalValidatorStakes :=
      Function.update s.totalValidatorStakes v (s.totalValidatorStakes v + n)
    totalStakerStakes := Function.update s.totalStakerStakes a (s.totalStakerStakes a + n)
    totalStakedAmount := s.totalStakedAmount + n }

/-- A staker has less stake toward a validator, and what it had less is pending. -/
def releaseStake (s : Staking) (a v : Address) (n : Nat) : Staking :=
  { s with
    stakes := Function.update s.stakes a (Function.update (s.stakes a) v (s.stakes a v - n))
    totalValidatorStakes :=
      Function.update s.totalValidatorStakes v (s.totalValidatorStakes v - n)
    totalStakerStakes := Function.update s.totalStakerStakes a (s.totalStakerStakes a - n)
    totalStakedAmount := s.totalStakedAmount - n
    totalPendingWithdrawals := s.totalPendingWithdrawals + n
    nextWithdrawalId := s.nextWithdrawalId + 1 }

/-- When a withdrawal that starts now can be claimed. -/
def claimableAt (s : Staking) (env : StakingEnv) : Nat := (env.timestamp + s.withdrawDelay) % 2 ^ 128

theorem stake_spec {o : Outcome} (h : s.stake env v n = .ok o) :
    0 < n ∧ o = (s.addStake env.sender v n, [.stakeIncreased env.sender v n],
      [.pull env.sender n]) := by
  simp only [stake, Except.bind_eq_ok, exists_const, require_eq_ok, checkedAdd_eq_ok,
    Except.pure_eq_ok] at h
  obtain ⟨hn, -, -, _, ⟨rfl, -⟩, _, ⟨rfl, -⟩, _, ⟨rfl, -⟩, _, ⟨rfl, -⟩, rfl⟩ := h
  exact ⟨Nat.pos_of_ne_zero hn, rfl⟩

/-- What is checked when a withdrawal starts. -/
structure Releasable (s : Staking) (env : StakingEnv) (v : Address) (n : Nat) : Prop where
  pos : 0 < n
  stake : n ≤ s.stakes env.sender v
  validator : n ≤ s.totalValidatorStakes v
  staker : n ≤ s.totalStakerStakes env.sender
  staked : n ≤ s.totalStakedAmount
  time : env.timestamp + s.withdrawDelay < 2 ^ 256
  pending : s.totalPendingWithdrawals + n < 2 ^ 256
  next : s.nextWithdrawalId + 1 < 2 ^ 64

theorem beginWithdrawal_eq_ok {o : Staking × Nat × Nat × List StakingLog} :
    s.beginWithdrawal env n v = .ok o ↔ s.Releasable env v n ∧
      o = (s.releaseStake env.sender v n, s.nextWithdrawalId, s.claimableAt env,
        [.withdrawalInitiated env.sender v s.nextWithdrawalId n]) := by
  simp only [beginWithdrawal, Except.bind_eq_ok, exists_const, require_eq_ok, checkedAdd_eq_ok,
    checkedSub_eq_ok, Except.pure_eq_ok]
  constructor
  · rintro ⟨hn, hstake, _, ⟨rfl, htime⟩, _, ⟨rfl, -⟩, _, ⟨rfl, hvalidator⟩, _, ⟨rfl, hstaker⟩, _,
      ⟨rfl, hstaked⟩, _, ⟨rfl, hpending⟩, _, ⟨rfl, hnext⟩, rfl⟩
    exact ⟨⟨Nat.pos_of_ne_zero hn, hstake, hvalidator, hstaker, hstaked, htime, hpending, hnext⟩, rfl⟩
  · rintro ⟨h, rfl⟩
    exact ⟨h.pos.ne', h.stake, _, ⟨rfl, h.time⟩, _, ⟨rfl, h.stake⟩, _, ⟨rfl, h.validator⟩, _,
      ⟨rfl, h.staker⟩, _, ⟨rfl, h.staked⟩, _, ⟨rfl, h.pending⟩, _, ⟨rfl, h.next⟩, rfl⟩

/-- The stakes and the sums stay. -/
structure SameSums (s s' : Staking) : Prop where
  staked : s'.totalStakedAmount = s.totalStakedAmount
  pending : s'.totalPendingWithdrawals = s.totalPendingWithdrawals
  next : s'.nextWithdrawalId = s.nextWithdrawalId
  validator : s'.totalValidatorStakes = s.totalValidatorStakes
  stakes : s'.stakes = s.stakes
  staker : s'.totalStakerStakes = s.totalStakerStakes

/-- A call that leaves the books: the owner, the delay and the validators are not in them. -/
structure SameBooks (s s' : Staking) : Prop extends SameSums s s' where
  queues : s'.withdrawalQueues = s.withdrawalQueues
  nodes : s'.withdrawalNodes = s.withdrawalNodes

theorem insertBetween_sums (s : Staking) (a : Address) (id amount time p next : Nat) :
    s.SameSums (s.insertBetween a id amount time p next) := by
  unfold insertBetween
  dsimp only
  split <;> split <;> exact ⟨rfl, rfl, rfl, rfl, rfl, rfl⟩

theorem removeHead_sums (s : Staking) (a : Address) : s.SameSums (s.removeHead a) := by
  unfold removeHead
  dsimp only
  split <;> exact ⟨rfl, rfl, rfl, rfl, rfl, rfl⟩

/-- The first withdrawal of a staker is paid. -/
def payHead (s : Staking) (a : Address) (n : Nat) : Staking :=
  { s.removeHead a with totalPendingWithdrawals := s.totalPendingWithdrawals - n }

/-- What a call does to the storage and to the pending withdrawals, and what it logs and pays. -/
inductive Step (P : StakingParams) (env : StakingEnv) (s : Staking) (q : Address → List Withdrawal) :
    Outcome → (Address → List Withdrawal) → Prop where
  | staked {validator : Address} {n : Nat} : 0 < n →
      Step P env s q (s.addStake env.sender validator n,
        [.stakeIncreased env.sender validator n], [.pull env.sender n]) q
  | started {validator : Address} {n : Nat} {ys zs : List Withdrawal} :
      s.Releasable env validator n →
      q env.sender = ys ++ zs →
      (s.releaseStake env.sender validator n).Place env.sender
        ⟨s.nextWithdrawalId, n, s.claimableAt env⟩ ys zs →
      Step P env s q
        ((s.releaseStake env.sender validator n).insertAt env.sender
            ⟨s.nextWithdrawalId, n, s.claimableAt env⟩ ys zs,
          [.withdrawalInitiated env.sender validator s.nextWithdrawalId n], [])
        (Function.update q env.sender (ys ++ ⟨s.nextWithdrawalId, n, s.claimableAt env⟩ :: zs))
  | claimed {w : Withdrawal} {l : List Withdrawal} :
      q env.sender = w :: l → w.claimableAt ≤ env.timestamp → w.amount ≤ s.totalPendingWithdrawals →
      Step P env s q
        (s.payHead env.sender w.amount, [.withdrawalClaimed env.sender w.id w.amount],
          [.push env.sender w.amount])
        (Function.update q env.sender l)
  | recovered {recipient : Address} {n : Nat} :
      n + s.totalPendingWithdrawals + s.totalStakedAmount = env.balanceOf P.safeToken →
      Step P env s q (s, [.tokensRecovered P.safeToken recipient n], [.push recipient n]) q
  | other {s' : Staking} {logs : List StakingLog} : s.SameBooks s' →
      (∀ log ∈ logs, log.ofBooks = false) → Step P env s q (s', logs, []) q

/-! ## 2. The books -/

/-- The storage stands for the pending withdrawals of each staker, and the sums it keeps are sums. -/
structure Books (s : Staking) (q : Address → List Withdrawal) : Prop where
  queue : ∀ a, s.QueueOk a (q a)
  next : 0 < s.nextWithdrawalId
  validator : ∀ v, s.totalValidatorStakes v = ∑ a, s.stakes a v
  staker : ∀ a, s.totalStakerStakes a = ∑ v, s.stakes a v
  staked : s.totalStakedAmount = ∑ a, s.totalStakerStakes a
  pending : s.totalPendingWithdrawals = ∑ a, amounts (q a)

variable {q q' : Address → List Withdrawal}

/-- A new withdrawal at a place. -/
theorem Books.place (h : s.Books q) (hr : s.Releasable env v n) {ys zs : List Withdrawal}
    (hq : q env.sender = ys ++ zs) (hys : ∀ y ∈ ys, y.claimableAt ≤ s.claimableAt env)
    (hzs : ∀ z ∈ zs, s.claimableAt env ≤ z.claimableAt) :
    (s.releaseStake env.sender v n).Place env.sender ⟨s.nextWithdrawalId, n, s.claimableAt env⟩ ys zs := by
  have hqueue := hq ▸ h.queue env.sender
  refine ⟨hqueue.congr (fun _ => rfl) rfl (Nat.le_succ _), ?_, ⟨h.next.ne', Nat.lt_succ_self _, hr.pos⟩,
    hys, hzs⟩
  intro hmem
  obtain ⟨w, hw, hid⟩ := List.mem_map.mp hmem
  exact (hqueue.valid w hw).2.1.ne hid

theorem Books.initiateWithdrawal_step (h : s.Books q) {o : Outcome}
    (ho : s.initiateWithdrawal env v n = .ok o) : ∃ q', Step P env s q o q' := by
  simp only [initiateWithdrawal, Except.bind_eq_ok, Except.pure_eq_ok, beginWithdrawal_eq_ok] at ho
  obtain ⟨_, ⟨hr, rfl⟩, s', hs', rfl⟩ := ho
  obtain ⟨ys, zs, hq, hys, hzs⟩ := exists_place (h.queue env.sender).sorted (s.claimableAt env)
  have hplace := h.place hr hq hys fun z hz => (hzs z hz).le
  have hinsert := hplace.insertSorted_eq hzs
  obtain rfl := Except.ok.inj (hs'.symm.trans hinsert)
  exact ⟨_, .started hr hq hplace⟩

theorem Books.atPosition_step (h : s.Books q) {o : Outcome} {previousId : Nat}
    (ho : s.initiateWithdrawalAtPosition env v n previousId = .ok o) : ∃ q', Step P env s q o q' := by
  simp only [initiateWithdrawalAtPosition, Except.bind_eq_ok, Except.pure_eq_ok,
    beginWithdrawal_eq_ok] at ho
  obtain ⟨_, ⟨hr, rfl⟩, nextId, hnext, rfl⟩ := ho
  have hqueue : (s.releaseStake env.sender v n).QueueOk env.sender (q env.sender) :=
    (h.queue env.sender).congr (fun _ => rfl) rfl (Nat.le_succ _)
  obtain ⟨ys, zs, hq, rfl, rfl, hys, hzs⟩ := checkPosition_spec hqueue hnext
  exact ⟨_, .started hr hq (h.place hr hq hys hzs)⟩

theorem Books.claimWithdrawal_step (h : s.Books q) {o : Outcome} (ho : s.claimWithdrawal env = .ok o) :
    ∃ q', Step P env s q o q' := by
  simp only [claimWithdrawal, Except.bind_eq_ok, Except.pure_eq_ok, require_eq_ok, exists_const,
    checkedSub_eq_ok] at ho
  obtain ⟨hne, htime, _, ⟨rfl, hle⟩, rfl⟩ := ho
  have hqueue := h.queue env.sender
  cases hq : q env.sender with
  | nil => exact absurd (hqueue.head_eq_zero.mpr hq) hne
  | cons w l =>
    rw [hq] at hqueue
    have hhead : (s.withdrawalQueues env.sender).head = w.id := hqueue.head
    obtain ⟨hamount, hclaimable⟩ := hqueue.nodes w List.mem_cons_self
    unfold node at hamount hclaimable
    rw [hhead, hclaimable] at htime
    rw [hhead, hamount] at hle
    rw [hhead, hamount]
    exact ⟨_, .claimed hq htime hle⟩

/-- **A call does one of the five things.** -/
theorem Books.exec_step (h : s.Books q) {call : StakingCall} {o : Outcome}
    (ho : s.exec P env call = .ok o) : ∃ q', Step P env s q o q' := by
  have hsame : s.SameBooks s := ⟨⟨rfl, rfl, rfl, rfl, rfl, rfl⟩, rfl, rfl⟩
  cases call with
  | stake validator amount =>
    obtain ⟨hn, rfl⟩ := stake_spec ho
    exact ⟨q, .staked hn⟩
  | initiateWithdrawal validator amount => exact h.initiateWithdrawal_step ho
  | initiateWithdrawalAtPosition validator amount previousId => exact h.atPosition_step ho
  | claimWithdrawal => exact h.claimWithdrawal_step ho
  | proposeWithdrawDelay newDelay =>
    have ho : s.proposeWithdrawDelay P env newDelay.val = .ok o := ho
    simp only [proposeWithdrawDelay, Except.bind_eq_ok, Except.pure_eq_ok] at ho
    obtain ⟨_, -, _, -, _, -, _, -, rfl⟩ := ho
    exact ⟨q, .other ⟨⟨rfl, rfl, rfl, rfl, rfl, rfl⟩, rfl, rfl⟩ (by simp [StakingLog.ofBooks])⟩
  | proposeValidators validators isRegistration =>
    have ho : s.proposeValidators P env validators isRegistration = .ok o := ho
    simp only [proposeValidators, Except.bind_eq_ok, Except.pure_eq_ok] at ho
    obtain ⟨_, -, _, -, _, -, _, -, _, -, rfl⟩ := ho
    exact ⟨q, .other ⟨⟨rfl, rfl, rfl, rfl, rfl, rfl⟩, rfl, rfl⟩ (by simp [StakingLog.ofBooks])⟩
  | executeWithdrawDelayChange =>
    have ho : s.executeWithdrawDelayChange env = .ok o := ho
    simp only [executeWithdrawDelayChange, Except.bind_eq_ok, Except.pure_eq_ok] at ho
    obtain ⟨_, -, _, -, rfl⟩ := ho
    exact ⟨q, .other ⟨⟨rfl, rfl, rfl, rfl, rfl, rfl⟩, rfl, rfl⟩ (by simp [StakingLog.ofBooks])⟩
  | executeValidatorChanges validators isRegistration executableAt =>
    have ho : s.executeValidatorChanges P env validators isRegistration executableAt.val = .ok o := ho
    simp only [executeValidatorChanges, Except.bind_eq_ok, Except.pure_eq_ok] at ho
    obtain ⟨_, -, _, -, _, -, _, -, _, -, rfl⟩ := ho
    refine ⟨q, .other ⟨⟨rfl, rfl, rfl, rfl, rfl, rfl⟩, rfl, rfl⟩ fun log hlog => ?_⟩
    obtain ⟨change, -, rfl⟩ := List.mem_map.mp hlog
    rfl
  | recoverTokens token recipient =>
    have ho : s.recoverTokens P env token recipient = .ok o := ho
    unfold recoverTokens at ho
    by_cases htoken : token = P.safeToken
    · subst htoken
      simp only [if_true, Except.bind_eq_ok, checkedSub_eq_ok, Except.pure_eq_ok] at ho
      obtain ⟨_, -, _, -, _, ⟨rfl, hstaked⟩, _, ⟨rfl, hpending⟩, _, -, rfl⟩ := ho
      exact ⟨q, .recovered (by omega)⟩
    · simp only [htoken, if_false, pure_bind, Except.bind_eq_ok, Except.pure_eq_ok] at ho
      obtain ⟨_, -, _, -, _, -, rfl⟩ := ho
      exact ⟨q, .other hsame (by simp [StakingLog.ofBooks])⟩
  | transferOwnership newOwner =>
    have ho : s.transferOwnership env newOwner = .ok o := ho
    simp only [transferOwnership, Except.bind_eq_ok, Except.pure_eq_ok] at ho
    obtain ⟨_, -, _, -, rfl⟩ := ho
    exact ⟨q, .other ⟨⟨rfl, rfl, rfl, rfl, rfl, rfl⟩, rfl, rfl⟩ (by simp [StakingLog.ofBooks])⟩
  | renounceOwnership =>
    have ho : s.renounceOwnership env = .ok o := ho
    simp only [renounceOwnership, Except.bind_eq_ok, Except.pure_eq_ok] at ho
    obtain ⟨_, -, rfl⟩ := ho
    exact ⟨q, .other ⟨⟨rfl, rfl, rfl, rfl, rfl, rfl⟩, rfl, rfl⟩ (by simp [StakingLog.ofBooks])⟩

/-! ## 3. A step keeps the books -/

/-- A stake is another one, and so are the sums it is in. -/
theorem sum_stakes (s : Staking) (a v w : Address) (x : Nat) :
    ∑ b, Function.update s.stakes a (Function.update (s.stakes a) v x) b w + s.stakes a w =
      ∑ b, s.stakes b w + Function.update (s.stakes a) v x w :=
  Tally.sum_update s.stakes a (Function.update (s.stakes a) v x) fun row => row w

theorem amounts_perm {l m : List Withdrawal} (h : l.Perm m) : amounts l = amounts m :=
  (h.map _).sum_eq

/-- The pending amounts, when those of one staker change. -/
theorem sum_amounts (q : Address → List Withdrawal) (a : Address) (l : List Withdrawal) :
    ∑ b, amounts (Function.update q a l b) + amounts (q a) = ∑ b, amounts (q b) + amounts l :=
  Tally.sum_update q a l amounts

theorem Books.same (h : s.Books q) (hs : s.SameBooks s') : s'.Books q where
  queue a := (h.queue a).congr (fun id => congrFun (congrFun hs.nodes a) id) (congrFun hs.queues a)
    hs.next.ge
  next := hs.next ▸ h.next
  validator w := by
    rw [hs.validator, hs.stakes]
    exact h.validator w
  staker b := by
    rw [hs.staker, hs.stakes]
    exact h.staker b
  staked := by
    rw [hs.staked, hs.staker]
    exact h.staked
  pending := hs.pending.trans h.pending

theorem Books.addStake (h : s.Books q) : (s.addStake a v n).Books q where
  queue b := (h.queue b).congr (fun _ => rfl) rfl le_rfl
  next := h.next
  validator w := by
    have hsum := sum_stakes s a v w (s.stakes a v + n)
    have hold := h.validator w
    unfold Staking.addStake
    dsimp only
    by_cases hw : w = v
    · subst hw
      rw [Function.update_self] at hsum ⊢
      omega
    · rw [Function.update_of_ne hw] at hsum ⊢
      omega
  staker b := by
    have hold := h.staker b
    unfold Staking.addStake
    dsimp only
    by_cases hb : b = a
    · subst hb
      have hsum := Tally.sum_update (s.stakes b) v (s.stakes b v + n) id
      simp only [id_eq] at hsum
      rw [Function.update_self, Function.update_self]
      omega
    · rw [Function.update_of_ne hb, Function.update_of_ne hb]
      exact hold
  staked := by
    have hsum := Tally.sum_update s.totalStakerStakes a (s.totalStakerStakes a + n) id
    have hold := h.staked
    simp only [id_eq] at hsum
    unfold Staking.addStake
    dsimp only
    omega
  pending := h.pending

/-- A withdrawal starts. -/
theorem Books.started (h : s.Books q) (hr : s.Releasable env v n) {w : Withdrawal}
    {ys zs : List Withdrawal} (hq : q env.sender = ys ++ zs) (hw : w.amount = n)
    (hplace : (s.releaseStake env.sender v n).Place env.sender w ys zs) :
    ((s.releaseStake env.sender v n).insertAt env.sender w ys zs).Books
      (Function.update q env.sender (ys ++ w :: zs)) := by
  have hsums := insertBetween_sums (s.releaseStake env.sender v n) env.sender w.id w.amount
    w.claimableAt (lastId ys) (headId zs)
  constructor
  · intro b
    by_cases hb : b = env.sender
    · subst hb
      rw [Function.update_self]
      exact hplace.insert
    · rw [Function.update_of_ne hb]
      exact insertBetween_other hb ((h.queue b).congr (fun _ => rfl) rfl (Nat.le_succ _))
  · exact hsums.next ▸ Nat.succ_pos _
  · intro w'
    have hsum := sum_stakes s env.sender v w' (s.stakes env.sender v - n)
    have hold := h.validator w'
    have hle := hr.stake
    have hlev := hr.validator
    rw [insertAt, hsums.validator, hsums.stakes]
    unfold releaseStake
    dsimp only
    by_cases hw' : w' = v
    · subst hw'
      rw [Function.update_self] at hsum ⊢
      omega
    · rw [Function.update_of_ne hw'] at hsum ⊢
      omega
  · intro b
    have hold := h.staker b
    rw [insertAt, hsums.staker, hsums.stakes]
    unfold releaseStake
    dsimp only
    by_cases hb : b = env.sender
    · subst hb
      have hsum := Tally.sum_update (s.stakes env.sender) v (s.stakes env.sender v - n) id
      have hle := hr.stake
      simp only [id_eq] at hsum
      rw [Function.update_self, Function.update_self]
      omega
    · rw [Function.update_of_ne hb, Function.update_of_ne hb]
      exact hold
  · have hsum := Tally.sum_update s.totalStakerStakes env.sender
      (s.totalStakerStakes env.sender - n) id
    have hold := h.staked
    have hle := hr.staker
    simp only [id_eq] at hsum
    rw [insertAt, hsums.staked, hsums.staker]
    unfold releaseStake
    dsimp only
    omega
  · have hsum := sum_amounts q env.sender (ys ++ w :: zs)
    have hold := h.pending
    have hamounts : amounts (ys ++ w :: zs) = n + amounts (ys ++ zs) := by
      rw [amounts_perm List.perm_middle, ← hw]
      rfl
    rw [hq] at hsum
    rw [insertAt, hsums.pending]
    unfold releaseStake
    dsimp only
    omega

/-- A withdrawal is claimed. -/
theorem Books.claimed (h : s.Books q) {w : Withdrawal} {l : List Withdrawal} (hq : q a = w :: l) :
    (s.payHead a w.amount).Books (Function.update q a l) := by
  have hsums := removeHead_sums s a
  have hqueue := hq ▸ h.queue a
  constructor
  · intro b
    by_cases hb : b = a
    · subst hb
      rw [Function.update_self]
      exact (removeHead_ok hqueue).congr (fun _ => rfl) rfl le_rfl
    · rw [Function.update_of_ne hb]
      exact (removeHead_other hb hqueue (h.queue b)).congr (fun _ => rfl) rfl le_rfl
  · exact hsums.next ▸ h.next
  · intro v
    have hold := h.validator v
    rwa [← hsums.validator, ← hsums.stakes] at hold
  · intro b
    have hold := h.staker b
    rwa [← hsums.staker, ← hsums.stakes] at hold
  · have hold := h.staked
    rwa [← hsums.staked, ← hsums.staker] at hold
  · have hsum := sum_amounts q a l
    have hold := h.pending
    have hamounts : amounts (q a) = w.amount + amounts l := congrArg amounts hq
    unfold payHead
    dsimp only
    omega

/-- **A step keeps the books.** -/
theorem Step.books {o : Outcome} (hs : Step P env s q o q') (h : s.Books q) : o.1.Books q' := by
  cases hs with
  | staked _ => exact h.addStake
  | started hr hq hplace => exact h.started hr hq rfl hplace
  | claimed hq _ _ => exact h.claimed hq
  | recovered _ => exact h
  | other hsame _ => exact h.same hsame

theorem construct_books (h : construct P = .ok s) : s.Books fun _ => [] := by
  simp only [construct, Except.bind_eq_ok, Except.pure_eq_ok] at h
  obtain ⟨_, -, _, -, _, -, _, -, _, -, rfl⟩ := h
  refine ⟨fun a => queueOk_nil (fun _ => rfl) rfl, Nat.one_pos, ?_, ?_, ?_, ?_⟩
  · exact fun _ => Finset.sum_const_zero.symm
  · exact fun _ => Finset.sum_const_zero.symm
  · exact Finset.sum_const_zero.symm
  · exact Finset.sum_const_zero.symm

end Staking

/-! ## 4. Receipts -/

/-- A call, in its block. -/
structure StakingTx where
  env : StakingEnv
  call : StakingCall

/-- What a call that did not revert leaves behind, with the delay that was in force. -/
structure StakingReceipt where
  tx : StakingTx
  delay : Nat
  logs : List StakingLog
  payments : List Payment

namespace StakingReceipt

/-- The withdrawals of a staker that start by a call. -/
def started (r : StakingReceipt) (a : Address) : List Withdrawal :=
  r.logs.filterMap fun
    | .withdrawalInitiated staker _ id amount =>
      if staker = a then some ⟨id, amount, (r.tx.env.timestamp + r.delay) % 2 ^ 128⟩ else none
    | _ => none

/-- The withdrawals of a staker that are claimed by a call. -/
def claimed (r : StakingReceipt) (a : Address) : List Nat :=
  r.logs.filterMap fun
    | .withdrawalClaimed staker id _ => if staker = a then some id else none
    | _ => none

/-- What a staker stakes toward a validator by a call. -/
def staked (r : StakingReceipt) (a v : Address) : Nat :=
  (r.logs.map fun
    | .stakeIncreased staker validator amount => if staker = a ∧ validator = v then amount else 0
    | _ => 0).sum

/-- What a staker starts to withdraw from a validator by a call. -/
def released (r : StakingReceipt) (a v : Address) : Nat :=
  (r.logs.map fun
    | .withdrawalInitiated staker validator _ amount =>
      if staker = a ∧ validator = v then amount else 0
    | _ => 0).sum

variable {r : StakingReceipt}

/-- A call that is not about the books. -/
theorem other (h : ∀ log ∈ r.logs, log.ofBooks = false) (a v : Address) :
    r.started a = [] ∧ r.claimed a = [] ∧ r.staked a v = 0 ∧ r.released a v = 0 := by
  refine ⟨List.filterMap_eq_nil_iff.mpr ?_, List.filterMap_eq_nil_iff.mpr ?_,
    List.sum_eq_zero_iff.mpr ?_, List.sum_eq_zero_iff.mpr ?_⟩
  · intro log hlog
    have hfalse := h log hlog
    cases log <;> first | rfl | exact absurd hfalse (by simp [StakingLog.ofBooks])
  · intro log hlog
    have hfalse := h log hlog
    cases log <;> first | rfl | exact absurd hfalse (by simp [StakingLog.ofBooks])
  · intro x hx
    obtain ⟨log, hlog, rfl⟩ := List.mem_map.mp hx
    have hfalse := h log hlog
    cases log <;> first | rfl | exact absurd hfalse (by simp [StakingLog.ofBooks])
  · intro x hx
    obtain ⟨log, hlog, rfl⟩ := List.mem_map.mp hx
    have hfalse := h log hlog
    cases log <;> first | rfl | exact absurd hfalse (by simp [StakingLog.ofBooks])

end StakingReceipt

/-- The withdrawals of a staker that were started. -/
def startedOf (receipts : List StakingReceipt) (a : Address) : List Withdrawal :=
  receipts.flatMap (·.started a)

/-- The withdrawals of a staker that were claimed. -/
def claimedOf (receipts : List StakingReceipt) (a : Address) : List Nat :=
  receipts.flatMap (·.claimed a)

/-- The withdrawals of a staker that were started and not claimed. -/
def pendingOf (receipts : List StakingReceipt) (a : Address) : List Withdrawal :=
  (startedOf receipts a).filter fun w => w.id ∉ claimedOf receipts a

/-- What a staker staked toward a validator. -/
def stakedOf (receipts : List StakingReceipt) (a v : Address) : Nat :=
  (receipts.map (·.staked a v)).sum

/-- What a staker started to withdraw from a validator. -/
def releasedOf (receipts : List StakingReceipt) (a v : Address) : Nat :=
  (receipts.map (·.released a v)).sum

namespace Staking

/-- The contract, as a machine of calls: one that reverts leaves it as it is. -/
def execTx (P : StakingParams) (s : Staking) (tx : StakingTx) : Staking × List StakingReceipt :=
  match s.exec P tx.env tx.call with
  | .ok (s', logs, payments) => (s', [⟨tx, s.withdrawDelay, logs, payments⟩])
  | .error _ => (s, [])

variable {P : StakingParams} {env : StakingEnv} {s s' : Staking} {a b v : Address} {n : Nat}
  {q q' : Address → List Withdrawal} {receipts : List StakingReceipt}

/-- The books agree with the receipts. -/
structure Accounted (s : Staking) (q : Address → List Withdrawal) (receipts : List StakingReceipt) :
    Prop where
  books : s.Books q
  pending : ∀ a, (q a).Perm (pendingOf receipts a)
  fresh : ∀ a, ∀ w ∈ startedOf receipts a, w.id < s.nextWithdrawalId
  claimed : ∀ a, ∀ id ∈ claimedOf receipts a, id < s.nextWithdrawalId
  once : ∀ a, (claimedOf receipts a).Nodup
  stakes : ∀ a v, s.stakes a v + releasedOf receipts a v = stakedOf receipts a v

variable {r : StakingReceipt}

theorem startedOf_concat : startedOf (receipts ++ [r]) a = startedOf receipts a ++ r.started a := by
  simp [startedOf]

theorem claimedOf_concat : claimedOf (receipts ++ [r]) a = claimedOf receipts a ++ r.claimed a := by
  simp [claimedOf]

theorem stakedOf_concat : stakedOf (receipts ++ [r]) a v = stakedOf receipts a v + r.staked a v := by
  simp [stakedOf]

theorem releasedOf_concat :
    releasedOf (receipts ++ [r]) a v = releasedOf receipts a v + r.released a v := by
  simp [releasedOf]

/-- The pending withdrawals after a call that claims none. -/
theorem pendingOf_started (hclaimed : r.claimed a = [])
    (hnew : ∀ w ∈ r.started a, w.id ∉ claimedOf receipts a) :
    pendingOf (receipts ++ [r]) a = pendingOf receipts a ++ r.started a := by
  have hself : (r.started a).filter (fun w => w.id ∉ claimedOf receipts a) = r.started a :=
    List.filter_eq_self.mpr fun w hw => decide_eq_true (hnew w hw)
  unfold pendingOf
  rw [claimedOf_concat, startedOf_concat, hclaimed, List.append_nil, List.filter_append, hself]

/-- The pending withdrawals after a call that starts none. -/
theorem pendingOf_claimed (hstarted : r.started a = []) : pendingOf (receipts ++ [r]) a =
    (pendingOf receipts a).filter fun w => w.id ∉ r.claimed a := by
  unfold pendingOf
  rw [claimedOf_concat, startedOf_concat, hstarted, List.append_nil, List.filter_filter]
  refine List.filter_congr fun w _ => ?_
  simp [not_or, Bool.and_comm]

/-- A step whose receipt says nothing about the books. -/
theorem Accounted.other (h : s.Accounted q receipts) (hs : s.SameBooks s')
    (hlogs : ∀ log ∈ r.logs, log.ofBooks = false) : s'.Accounted q (receipts ++ [r]) := by
  have hr := StakingReceipt.other hlogs
  refine ⟨h.books.same hs, fun a => ?_, fun a => ?_, fun a => ?_, fun a => ?_, fun a v => ?_⟩
  · obtain ⟨hstarted, hclaimed, -⟩ := hr a a
    rw [pendingOf_started hclaimed (by simp [hstarted]), hstarted, List.append_nil]
    exact h.pending a
  · rw [startedOf_concat, (hr a a).1, List.append_nil, hs.next]
    exact h.fresh a
  · rw [claimedOf_concat, (hr a a).2.1, List.append_nil, hs.next]
    exact h.claimed a
  · rw [claimedOf_concat, (hr a a).2.1, List.append_nil]
    exact h.once a
  · obtain ⟨-, -, hstaked, hreleased⟩ := hr a v
    rw [stakedOf_concat, releasedOf_concat, hstaked, hreleased, hs.stakes]
    exact h.stakes a v

/-- **A step keeps the account.** -/
theorem Accounted.step (h : s.Accounted q receipts) {call : StakingCall} {o : Outcome}
    (hs : Step P env s q o q') :
    o.1.Accounted q' (receipts ++ [⟨⟨env, call⟩, s.withdrawDelay, o.2.1, o.2.2⟩]) := by
  have hbooks := hs.books h.books
  cases hs with
  | @staked validator n hn =>
    refine ⟨hbooks, fun a => ?_, fun a => ?_, fun a => ?_, fun a => ?_, fun a v => ?_⟩
    · rw [pendingOf_started rfl (fun w hw => absurd hw List.not_mem_nil)]
      exact (List.append_nil _).symm ▸ h.pending a
    · rw [startedOf_concat]
      exact (List.append_nil (startedOf receipts a)).symm ▸ h.fresh a
    · rw [claimedOf_concat]
      exact (List.append_nil (claimedOf receipts a)).symm ▸ h.claimed a
    · rw [claimedOf_concat]
      exact (List.append_nil (claimedOf receipts a)).symm ▸ h.once a
    · rw [stakedOf_concat, releasedOf_concat]
      have hold := h.stakes a v
      simp only [StakingReceipt.staked, StakingReceipt.released, List.map_cons, List.map_nil,
        List.sum_cons, List.sum_nil, addStake]
      by_cases ha : env.sender = a
      · subst ha
        by_cases hv : validator = v
        · subst hv
          simp only [Function.update_self, true_and, if_true]
          omega
        · simp only [Function.update_self, Function.update_of_ne (Ne.symm hv), hv, and_false, if_false]
          omega
      · simp only [Function.update_of_ne (Ne.symm ha), ha, false_and, if_false]
        omega
  | @started validator n ys zs hr hq hplace =>
    have hsums := insertBetween_sums (s.releaseStake env.sender validator n) env.sender
      s.nextWithdrawalId n (s.claimableAt env) (lastId ys) (headId zs)
    have hfresh : ∀ a, s.nextWithdrawalId ∉ claimedOf receipts a :=
      fun a hmem => (h.claimed a _ hmem).false
    refine ⟨hbooks, fun a => ?_, fun a => ?_, fun a => ?_, fun a => ?_, fun a v => ?_⟩
    · by_cases ha : env.sender = a
      · subst ha
        rw [pendingOf_started rfl (by simp [StakingReceipt.started, hfresh]), Function.update_self]
        have hpending := hq ▸ h.pending env.sender
        refine List.perm_middle.trans ((hpending.cons _).trans ?_)
        simp only [StakingReceipt.started, List.filterMap_cons, if_true, List.filterMap_nil]
        exact (List.perm_append_singleton _ _).symm
      · rw [pendingOf_started rfl (by simp [StakingReceipt.started, ha]),
          Function.update_of_ne (Ne.symm ha)]
        simpa [StakingReceipt.started, ha] using h.pending a
    · rw [startedOf_concat, insertAt, hsums.next]
      intro w hw
      rcases List.mem_append.mp hw with hw | hw
      · exact (h.fresh a w hw).trans (Nat.lt_succ_self _)
      · by_cases ha : env.sender = a
        · simp only [StakingReceipt.started, ha, List.filterMap_cons, if_true, List.filterMap_nil,
            List.mem_singleton] at hw
          subst hw
          exact Nat.lt_succ_self _
        · simp [StakingReceipt.started, ha] at hw
    · rw [claimedOf_concat, insertAt, hsums.next]
      intro id hid
      rcases List.mem_append.mp hid with hid | hid
      · exact (h.claimed a id hid).trans (Nat.lt_succ_self _)
      · exact absurd hid List.not_mem_nil
    · rw [claimedOf_concat]
      exact (List.append_nil (claimedOf receipts a)).symm ▸ h.once a
    · rw [stakedOf_concat, releasedOf_concat, insertAt, hsums.stakes]
      have hold := h.stakes a v
      have hle := hr.stake
      simp only [StakingReceipt.staked, StakingReceipt.released, List.map_cons, List.map_nil,
        List.sum_cons, List.sum_nil, releaseStake]
      by_cases ha : env.sender = a
      · subst ha
        by_cases hv : validator = v
        · subst hv
          simp only [Function.update_self, true_and, if_true]
          omega
        · simp only [Function.update_self, Function.update_of_ne (Ne.symm hv), hv, and_false, if_false]
          omega
      · simp only [Function.update_of_ne (Ne.symm ha), ha, false_and, if_false]
        omega
  | @claimed w l hq htime hle =>
    have hsums := removeHead_sums s env.sender
    obtain ⟨hmem, hunclaimed⟩ := List.mem_filter.mp
      ((h.pending env.sender).mem_iff.mp (hq ▸ List.mem_cons_self))
    refine ⟨hbooks, fun a => ?_, fun a => ?_, fun a => ?_, fun a => ?_, fun a v => ?_⟩
    · rw [pendingOf_claimed rfl]
      by_cases ha : env.sender = a
      · subst ha
        have hqueue := hq ▸ h.books.queue env.sender
        have hnodup : w.id ∉ ids l := (List.nodup_cons.mp hqueue.nodup).1
        have hfilter := (hq ▸ h.pending env.sender).filter fun (v : Withdrawal) => v.id ∉ [w.id]
        rw [Function.update_self]
        simp only [StakingReceipt.claimed, List.filterMap_cons, if_true, List.filterMap_nil]
        refine List.Perm.trans (List.Perm.of_eq ?_) hfilter
        rw [List.filter_cons_of_neg (by simp), List.filter_eq_self.mpr]
        intro v hv
        have hne : v.id ≠ w.id := fun heq => hnodup (heq ▸ List.mem_map_of_mem hv)
        simpa using hne
      · rw [Function.update_of_ne (Ne.symm ha)]
        simpa [StakingReceipt.claimed, ha] using h.pending a
    · rw [startedOf_concat]
      exact (List.append_nil (startedOf receipts a)).symm ▸ hsums.next.symm ▸ h.fresh a
    · intro id hid
      rw [claimedOf_concat] at hid
      refine hsums.next.symm ▸ ?_
      rcases List.mem_append.mp hid with hid | hid
      · exact h.claimed a id hid
      · by_cases ha : env.sender = a
        · simp only [StakingReceipt.claimed, ha, List.filterMap_cons, if_true, List.filterMap_nil,
            List.mem_singleton] at hid
          subst hid
          exact h.fresh _ w hmem
        · simp [StakingReceipt.claimed, ha] at hid
    · rw [claimedOf_concat]
      by_cases ha : env.sender = a
      · subst ha
        refine List.nodup_append.mpr ⟨h.once env.sender, by simp [StakingReceipt.claimed], ?_⟩
        rintro id hid _ hw rfl
        have hid' : id = w.id := by simpa [StakingReceipt.claimed] using hw
        exact of_decide_eq_true hunclaimed (hid' ▸ hid)
      · simpa [StakingReceipt.claimed, ha] using h.once a
    · rw [stakedOf_concat, releasedOf_concat]
      exact hsums.stakes.symm ▸ h.stakes a v
  | recovered hn =>
    exact h.other ⟨⟨rfl, rfl, rfl, rfl, rfl, rfl⟩, rfl, rfl⟩ (by simp [StakingLog.ofBooks])
  | other hsame hlogs => exact h.other hsame hlogs

/-! ## 5. Runs -/

/-- A call reverts, or takes a step. -/
theorem execTx_cases (P : StakingParams) (s : Staking) (tx : StakingTx) :
    execTx P s tx = (s, []) ∨ ∃ o, s.exec P tx.env tx.call = .ok o ∧
      execTx P s tx = (o.1, [⟨tx, s.withdrawDelay, o.2.1, o.2.2⟩]) := by
  cases hexec : s.exec P tx.env tx.call with
  | error e => exact .inl (by simp [execTx, hexec])
  | ok o => exact .inr ⟨o, rfl, by simp [execTx, hexec]⟩

theorem construct_accounted (h : construct P = .ok s) : s.Accounted (fun _ => []) [] := by
  have hstakes : s.stakes = fun _ _ => 0 := by
    simp only [construct, Except.bind_eq_ok, Except.pure_eq_ok] at h
    obtain ⟨_, -, _, -, _, -, _, -, _, -, rfl⟩ := h
    rfl
  refine ⟨construct_books h, fun a => .nil, ?_, ?_, fun a => .nil, fun a v => ?_⟩
  · exact fun a w hw => absurd hw List.not_mem_nil
  · exact fun a id hid => absurd hid List.not_mem_nil
  · rw [hstakes]
    rfl

/-- **Every run** keeps the account. -/
theorem run_accounted (h : construct P = .ok s) (txs : List StakingTx) :
    ∃ q, (Reactive.runState (execTx P) s txs).Accounted q (Reactive.runOutputs (execTx P) s txs) := by
  induction txs using List.reverseRecOn with
  | nil => exact ⟨_, construct_accounted h⟩
  | append_singleton txs tx ih =>
    obtain ⟨q, hq⟩ := ih
    rw [Reactive.runState_append, Reactive.runOutputs_append]
    simp only [Reactive.runState_cons, Reactive.runState_nil, Reactive.runOutputs, List.append_nil]
    rcases execTx_cases P (Reactive.runState (execTx P) s txs) tx with hrun | ⟨o, hexec, hrun⟩
    · rw [hrun, List.append_nil]
      exact ⟨q, hq⟩
    · obtain ⟨q', hstep⟩ := hq.books.exec_step hexec
      rw [hrun]
      exact ⟨q', hq.step hstep⟩

/-- A receipt is of a call in the run. -/
theorem receipt_exec {txs : List StakingTx} {past rest : List StakingReceipt} {r : StakingReceipt}
    (hr : Reactive.runOutputs (execTx P) s txs = past ++ r :: rest) :
    ∃ before, Reactive.runOutputs (execTx P) s before = past ∧
      r.delay = (Reactive.runState (execTx P) s before).withdrawDelay ∧
      ∃ s', (Reactive.runState (execTx P) s before).exec P r.tx.env r.tx.call =
        .ok (s', r.logs, r.payments) := by
  have hone : ∀ s tx, (execTx P s tx).2.length ≤ 1 := by
    intro s tx
    rcases execTx_cases P s tx with hrun | ⟨o, -, hrun⟩
    · rw [hrun]
      exact Nat.zero_le 1
    · rw [hrun]
      exact le_rfl
  obtain ⟨before, tx, after, -, hpast, hlast⟩ := Reactive.runOutputs_split (execTx P) hone hr
  refine ⟨before, hpast, ?_⟩
  rcases execTx_cases P (Reactive.runState (execTx P) s before) tx with hrun | ⟨o, hexec, hrun⟩
  · rw [hrun] at hlast
    exact absurd hlast (by simp)
  · rw [hrun] at hlast
    obtain rfl := List.singleton_inj.mp hlast
    exact ⟨rfl, o.1, hexec⟩

/-- What the storage says, by what was logged. -/
structure Kept (s : Staking) (receipts : List StakingReceipt) : Prop where
  /-- A stake is what was staked and not released. -/
  stakes : ∀ a v, s.stakes a v + releasedOf receipts a v = stakedOf receipts a v
  validator : ∀ v, s.totalValidatorStakes v = ∑ a, s.stakes a v
  staker : ∀ a, s.totalStakerStakes a = ∑ v, s.stakes a v
  staked : s.totalStakedAmount = ∑ a, ∑ v, s.stakes a v
  pending : s.totalPendingWithdrawals = ∑ a, amounts (pendingOf receipts a)
  /-- The list of a staker has the pending withdrawals, and is read as it is. -/
  listed : ∀ a, ∃ l, s.QueueOk a l ∧ l.Perm (pendingOf receipts a) ∧
    s.getPendingWithdrawals a = some (l.map fun w => (w.amount, w.claimableAt))

theorem Accounted.kept (h : s.Accounted q receipts) : s.Kept receipts where
  stakes := h.stakes
  validator := h.books.validator
  staker := h.books.staker
  staked := by
    rw [h.books.staked]
    exact Finset.sum_congr rfl fun a _ => h.books.staker a
  pending := by
    rw [h.books.pending]
    exact Finset.sum_congr rfl fun a _ => amounts_perm (h.pending a)
  listed a := ⟨q a, h.books.queue a, h.pending a, getPendingWithdrawals_eq (h.books.queue a)⟩

/-- **The storage is what was logged**, in every run. -/
theorem withdrawals_kept (P : StakingParams) (s : Staking) (h : construct P = .ok s) (txs : List StakingTx) :
    (Reactive.runState (execTx P) s txs).Kept (Reactive.runOutputs (execTx P) s txs) := by
  obtain ⟨q, hq⟩ := run_accounted h txs
  exact hq.kept

/-- A contract with a delay of ten seconds, and of twenty for its configuration. -/
def toyStaking : StakingParams where
  address := 99
  keccak256 _ := 1
  initialOwner := 1
  safeToken := 50
  initialWithdrawDelay := 10
  configTimeDelay := 20

/-- A validator is registered, and someone stakes, withdraws a part at a time, and claims a part. -/
def toyStakes : List StakingTx :=
  [⟨⟨0, 1, fun _ => 0⟩, .proposeValidators [2] [true]⟩,
    ⟨⟨20, 7, fun _ => 0⟩, .executeValidatorChanges [2] [true] 20⟩,
    ⟨⟨21, 7, fun _ => 0⟩, .stake 2 50⟩,
    ⟨⟨22, 7, fun _ => 0⟩, .initiateWithdrawal 2 30⟩,
    ⟨⟨23, 7, fun _ => 0⟩, .initiateWithdrawalAtPosition 2 10 1⟩,
    ⟨⟨32, 7, fun _ => 0⟩, .claimWithdrawal⟩]

theorem withdrawals_kept_toy : ∃ s, construct toyStaking = .ok s ∧
    (Reactive.runState (execTx toyStaking) s toyStakes).Kept
      (Reactive.runOutputs (execTx toyStaking) s toyStakes) :=
  ⟨_, rfl, withdrawals_kept toyStaking _ rfl toyStakes⟩

/-- A claim pays the first withdrawal. -/
theorem Step.claims {o : Outcome} (hs : Step P env s q o q') {id : Nat}
    (hlog : .withdrawalClaimed a id n ∈ o.2.1) : a = env.sender ∧ o.2.2 = [.push a n] ∧
      ∃ w l, q a = w :: l ∧ w.id = id ∧ w.amount = n ∧ w.claimableAt ≤ env.timestamp := by
  cases hs with
  | staked _ => exact absurd hlog (by simp)
  | started _ _ _ => exact absurd hlog (by simp)
  | @claimed w l hq htime _ =>
    obtain ⟨rfl, rfl, rfl⟩ := StakingLog.withdrawalClaimed.inj (List.mem_singleton.mp hlog)
    exact ⟨rfl, rfl, w, l, hq, rfl, rfl, htime⟩
  | recovered _ => exact absurd hlog (by simp)
  | other _ hlogs => exact absurd (hlogs _ hlog) (by simp [StakingLog.ofBooks])

/-- A payment is a claim, or a recovery. -/
theorem Step.pushes {o : Outcome} (hs : Step P env s q o q') {recipient : Address}
    (hpush : .push recipient n ∈ o.2.2) :
    (∃ id, .withdrawalClaimed recipient id n ∈ o.2.1) ∨
      .tokensRecovered P.safeToken recipient n ∈ o.2.1 := by
  cases hs with
  | staked _ => exact absurd hpush (by simp)
  | started _ _ _ => exact absurd hpush (by simp)
  | @claimed w l hq htime _ =>
    obtain ⟨rfl, rfl⟩ := Payment.push.inj (List.mem_singleton.mp hpush)
    exact .inl ⟨w.id, List.mem_cons_self⟩
  | recovered _ =>
    obtain ⟨rfl, rfl⟩ := Payment.push.inj (List.mem_singleton.mp hpush)
    exact .inr List.mem_cons_self
  | other _ _ => exact absurd hpush (by simp)

/-- The withdrawals of a run are paid as they should. -/
structure PaidOnce (P : StakingParams) (receipts : List StakingReceipt) : Prop where
  once : ∀ a, (claimedOf receipts a).Nodup
  /-- It is an earliest one of those pending, due, and paid to its staker. -/
  due : ∀ past r rest, receipts = past ++ r :: rest → ∀ a id n,
    .withdrawalClaimed a id n ∈ r.logs → r.tx.env.sender = a ∧ r.payments = [.push a n] ∧
      ∃ w ∈ pendingOf past a, w.id = id ∧ w.amount = n ∧ w.claimableAt ≤ r.tx.env.timestamp ∧
        ∀ v ∈ pendingOf past a, w.claimableAt ≤ v.claimableAt
  /-- Nothing else goes out, but what the owner recovers. -/
  only : ∀ r ∈ receipts, ∀ recipient n, .push recipient n ∈ r.payments →
    (∃ id, .withdrawalClaimed recipient id n ∈ r.logs) ∨
      .tokensRecovered P.safeToken recipient n ∈ r.logs

theorem withdrawals_paid_once (P : StakingParams) (s : Staking) (h : construct P = .ok s) (txs : List StakingTx) :
    PaidOnce P (Reactive.runOutputs (execTx P) s txs) := by
  constructor
  · obtain ⟨q, hq⟩ := run_accounted h txs
    exact hq.once
  · intro past r rest hr a id n hlog
    obtain ⟨before, rfl, -, s', hexec⟩ := receipt_exec hr
    obtain ⟨q, hq⟩ := run_accounted h before
    obtain ⟨q', hstep⟩ := hq.books.exec_step hexec
    obtain ⟨ha, hpayments, w, l, hqueue, hid, hamount, htime⟩ := hstep.claims hlog
    have hperm := hqueue ▸ hq.pending a
    have hsorted := hqueue ▸ (hq.books.queue a).sorted
    refine ⟨ha.symm, hpayments, w, hperm.mem_iff.mp List.mem_cons_self, hid, hamount, htime, ?_⟩
    intro v hv
    rcases List.mem_cons.mp (hperm.mem_iff.mpr hv) with rfl | hv
    · exact le_rfl
    · exact (List.pairwise_cons.mp hsorted).1 v hv
  · intro r hr recipient n hpush
    obtain ⟨past, rest, hsplit⟩ := List.append_of_mem hr
    obtain ⟨before, -, -, s', hexec⟩ := receipt_exec hsplit
    obtain ⟨q, hq⟩ := run_accounted h before
    obtain ⟨q', hstep⟩ := hq.books.exec_step hexec
    exact hstep.pushes hpush

theorem withdrawals_paid_once_toy : ∃ s, construct toyStaking = .ok s ∧
    PaidOnce toyStaking (Reactive.runOutputs (execTx toyStaking) s toyStakes) :=
  ⟨_, rfl, withdrawals_paid_once toyStaking _ rfl toyStakes⟩

/-! ## 6. The two ways to start a withdrawal -/

/-- The outcome of a withdrawal that starts, at its place. -/
def startedAt (s : Staking) (env : StakingEnv) (v : Address) (n : Nat) (ys zs : List Withdrawal) :
    Outcome :=
  ((s.releaseStake env.sender v n).insertAt env.sender
      ⟨s.nextWithdrawalId, n, s.claimableAt env⟩ ys zs,
    [.withdrawalInitiated env.sender v s.nextWithdrawalId n], [])

variable {ys zs : List Withdrawal}

/-- A withdrawal that starts by the search. -/
theorem Books.initiateWithdrawal_place (h : s.Books q) (hr : s.Releasable env v n)
    (hq : q env.sender = ys ++ zs) (hys : ∀ y ∈ ys, y.claimableAt ≤ s.claimableAt env)
    (hzs : ∀ z ∈ zs, s.claimableAt env < z.claimableAt) :
    s.initiateWithdrawal env v n = .ok (s.startedAt env v n ys zs) := by
  have hplace := h.place hr hq hys fun z hz => (hzs z hz).le
  simp only [initiateWithdrawal, Except.bind_eq_ok, Except.pure_eq_ok, beginWithdrawal_eq_ok]
  exact ⟨_, ⟨hr, rfl⟩, _, hplace.insertSorted_eq hzs, rfl⟩

/-- A withdrawal that starts at a position. -/
theorem Books.atPosition_place (h : s.Books q) (hr : s.Releasable env v n)
    (hq : q env.sender = ys ++ zs) (hpos : ∀ y ∈ ys, 0 < y.claimableAt)
    (hys : ∀ y ∈ ys, y.claimableAt ≤ s.claimableAt env)
    (hzs : ∀ z ∈ zs, s.claimableAt env ≤ z.claimableAt) :
    s.initiateWithdrawalAtPosition env v n (lastId ys) = .ok (s.startedAt env v n ys zs) := by
  have hqueue : (s.releaseStake env.sender v n).QueueOk env.sender (ys ++ zs) :=
    (hq ▸ h.queue env.sender).congr (fun _ => rfl) rfl (Nat.le_succ _)
  simp only [initiateWithdrawalAtPosition, Except.bind_eq_ok, Except.pure_eq_ok,
    beginWithdrawal_eq_ok]
  exact ⟨_, ⟨hr, rfl⟩, _, checkPosition_place hqueue hpos hys hzs, rfl⟩

theorem Books.initiateWithdrawal_spec (h : s.Books q) {o : Outcome}
    (ho : s.initiateWithdrawal env v n = .ok o) : s.Releasable env v n ∧ ∃ ys zs,
      q env.sender = ys ++ zs ∧ (∀ y ∈ ys, y.claimableAt ≤ s.claimableAt env) ∧
        (∀ z ∈ zs, s.claimableAt env < z.claimableAt) ∧ o = s.startedAt env v n ys zs := by
  have hok := ho
  simp only [initiateWithdrawal, Except.bind_eq_ok, beginWithdrawal_eq_ok] at ho
  obtain ⟨_, ⟨hr, -⟩, -⟩ := ho
  obtain ⟨ys, zs, hq, hys, hzs⟩ := exists_place (h.queue env.sender).sorted (s.claimableAt env)
  exact ⟨hr, ys, zs, hq, hys, hzs,
    Except.ok.inj (hok.symm.trans (h.initiateWithdrawal_place hr hq hys hzs))⟩

theorem Books.atPosition_spec (h : s.Books q) {o : Outcome} {previousId : Nat}
    (ho : s.initiateWithdrawalAtPosition env v n previousId = .ok o) :
    s.Releasable env v n ∧ ∃ ys zs, q env.sender = ys ++ zs ∧ previousId = lastId ys ∧
      (∀ y ∈ ys, y.claimableAt ≤ s.claimableAt env) ∧
        (∀ z ∈ zs, s.claimableAt env ≤ z.claimableAt) ∧ o = s.startedAt env v n ys zs := by
  simp only [initiateWithdrawalAtPosition, Except.bind_eq_ok, Except.pure_eq_ok,
    beginWithdrawal_eq_ok] at ho
  obtain ⟨_, ⟨hr, rfl⟩, nextId, hnext, rfl⟩ := ho
  have hqueue : (s.releaseStake env.sender v n).QueueOk env.sender (q env.sender) :=
    (h.queue env.sender).congr (fun _ => rfl) rfl (Nat.le_succ _)
  obtain ⟨ys, zs, hq, rfl, rfl, hys, hzs⟩ := checkPosition_spec hqueue hnext
  exact ⟨hr, ys, zs, hq, rfl, hys, hzs, rfl⟩

/-- What is listed once a withdrawal has started. -/
theorem Books.startedAt_listed (h : s.Books q) (hr : s.Releasable env v n)
    (hq : q env.sender = ys ++ zs) (hys : ∀ y ∈ ys, y.claimableAt ≤ s.claimableAt env)
    (hzs : ∀ z ∈ zs, s.claimableAt env ≤ z.claimableAt) : ∃ l,
    (s.startedAt env v n ys zs).1.getPendingWithdrawals env.sender = some l ∧
      l.Perm ((n, s.claimableAt env) :: (q env.sender).map fun w => (w.amount, w.claimableAt)) := by
  have hbooks := h.started hr hq rfl (h.place hr hq hys hzs)
  have hlisted := getPendingWithdrawals_eq (hbooks.queue env.sender)
  rw [Function.update_self] at hlisted
  refine ⟨_, hlisted, ?_⟩
  rw [hq]
  exact List.perm_middle.map _

/-- The place of a time that no other has. -/
theorem place_unique {l ys zs ys' zs' : List Withdrawal} {t : Nat} (h : l = ys ++ zs)
    (h' : l = ys' ++ zs') (hys : ∀ y ∈ ys, y.claimableAt ≤ t) (hzs : ∀ z ∈ zs, t < z.claimableAt)
    (hys' : ∀ y ∈ ys', y.claimableAt ≤ t) (hzs' : ∀ z ∈ zs', t < z.claimableAt) :
    ys = ys' ∧ zs = zs' := by
  have hfilter : ∀ ys zs : List Withdrawal, (∀ y ∈ ys, y.claimableAt ≤ t) →
      (∀ z ∈ zs, t < z.claimableAt) → (ys ++ zs).filter (fun w => w.claimableAt ≤ t) = ys := by
    intro ys zs hys hzs
    have hself : ys.filter (fun w => w.claimableAt ≤ t) = ys :=
      List.filter_eq_self.mpr fun y hy => decide_eq_true (hys y hy)
    have hnil : zs.filter (fun w => w.claimableAt ≤ t) = [] :=
      List.filter_eq_nil_iff.mpr fun z hz => by simpa using hzs z hz
    rw [List.filter_append, hself, hnil, List.append_nil]
  have hsame : ys = ys' := by
    rw [← hfilter ys zs hys hzs, ← h, h', hfilter ys' zs' hys' hzs']
  subst hsame
  exact ⟨rfl, List.append_cancel_left (h.symm.trans h')⟩

/-- How a withdrawal that starts at a position compares with one that is searched a place for. -/
structure Agree (P : StakingParams) (s : Staking) (receipts : List StakingReceipt) (env : StakingEnv)
    (v : Address) (n : U256) : Prop where
  /-- A position is accepted when the list is sorted with the withdrawal after it. -/
  accepts : (∀ w ∈ pendingOf receipts env.sender, 0 < w.claimableAt) → ∀ p,
    (∃ o, s.exec P env (.initiateWithdrawalAtPosition v n p) = .ok o) ↔
      s.Releasable env v n.val ∧ ∃ ys zs, s.QueueOk env.sender (ys ++ zs) ∧ p.val = lastId ys ∧
        (∀ y ∈ ys, y.claimableAt ≤ s.claimableAt env) ∧ ∀ z ∈ zs, s.claimableAt env ≤ z.claimableAt
  /-- What a position gives, the search does too, but for the order of those due at once. -/
  search : ∀ p o, s.exec P env (.initiateWithdrawalAtPosition v n p) = .ok o →
    ∃ o', s.exec P env (.initiateWithdrawal v n) = .ok o' ∧ o'.2 = o.2 ∧
      (∃ l l', o.1.getPendingWithdrawals env.sender = some l ∧
        o'.1.getPendingWithdrawals env.sender = some l' ∧ l.Perm l') ∧
      ((∀ w ∈ pendingOf receipts env.sender, w.claimableAt ≠ s.claimableAt env) → o' = o)
  /-- What the search gives, some position does too. -/
  position : ∀ o, s.exec P env (.initiateWithdrawal v n) = .ok o →
    (∀ w ∈ pendingOf receipts env.sender, 0 < w.claimableAt) →
      ∃ p, s.exec P env (.initiateWithdrawalAtPosition v n p) = .ok o

/-- **A position is an optimisation**: in every run it stores what the search stores. -/
theorem position_agrees (P : StakingParams) (s : Staking) (h : construct P = .ok s)
    (txs : List StakingTx) (env : StakingEnv) (v : Address) (n : U256) :
    Agree P (Reactive.runState (execTx P) s txs) (Reactive.runOutputs (execTx P) s txs) env v n := by
  obtain ⟨q, hq⟩ := run_accounted h txs
  generalize Reactive.runOutputs (execTx P) s txs = receipts at *
  generalize Reactive.runState (execTx P) s txs = s at *
  have hperm := hq.pending env.sender
  constructor
  · intro hpos p
    constructor
    · rintro ⟨o, ho⟩
      obtain ⟨hr, ys, zs, hsplit, hp, hys, hzs, -⟩ := hq.books.atPosition_spec ho
      exact ⟨hr, ys, zs, hsplit ▸ hq.books.queue env.sender, hp, hys, hzs⟩
    · rintro ⟨hr, ys, zs, hqueue, hp, hys, hzs⟩
      have hsplit : q env.sender = ys ++ zs := (hq.books.queue env.sender).unique hqueue
      have hplace := hq.books.atPosition_place hr hsplit
        (fun y hy => hpos y (hperm.mem_iff.mp (hsplit ▸ List.mem_append_left _ hy))) hys hzs
      rw [← hp] at hplace
      exact ⟨_, hplace⟩
  · intro p o ho
    obtain ⟨hr, ys, zs, hsplit, -, hys, hzs, rfl⟩ := hq.books.atPosition_spec ho
    obtain ⟨ys', zs', hsplit', hys', hzs'⟩ :=
      exists_place (hq.books.queue env.sender).sorted (s.claimableAt env)
    refine ⟨_, hq.books.initiateWithdrawal_place hr hsplit' hys' hzs', rfl, ?_, ?_⟩
    · obtain ⟨l, hl, hlperm⟩ := hq.books.startedAt_listed hr hsplit hys hzs
      obtain ⟨l', hl', hlperm'⟩ :=
        hq.books.startedAt_listed hr hsplit' hys' fun z hz => (hzs' z hz).le
      exact ⟨l, l', hl, hl', hlperm.trans hlperm'.symm⟩
    · intro hties
      have hlater : ∀ z ∈ zs, s.claimableAt env < z.claimableAt := by
        intro z hz
        have hmem : z ∈ pendingOf receipts env.sender :=
          hperm.mem_iff.mp (hsplit ▸ List.mem_append_right _ hz)
        exact lt_of_le_of_ne (hzs z hz) (Ne.symm (hties z hmem))
      obtain ⟨rfl, rfl⟩ := place_unique hsplit hsplit' hys hlater hys' hzs'
      rfl
  · intro o ho hpos
    obtain ⟨hr, ys, zs, hsplit, hys, hzs, rfl⟩ := hq.books.initiateWithdrawal_spec ho
    have hbound : lastId ys < 2 ^ 64 := by
      by_cases hzero : lastId ys = 0
      · rw [hzero]
        exact Nat.two_pow_pos 64
      · obtain ⟨y, hy, hid⟩ := List.mem_map.mp (lastId_mem hzero)
        have hvalid := (hq.books.queue env.sender).valid y (hsplit ▸ List.mem_append_left _ hy)
        have hnext := hr.next
        omega
    refine ⟨⟨lastId ys, hbound⟩, hq.books.atPosition_place hr hsplit ?_ hys fun z hz => (hzs z hz).le⟩
    intro y hy
    exact hpos y (hperm.mem_iff.mp (hsplit ▸ List.mem_append_left _ hy))

theorem position_agrees_toy : ∃ s, construct toyStaking = .ok s ∧
    Agree toyStaking (Reactive.runState (execTx toyStaking) s toyStakes)
      (Reactive.runOutputs (execTx toyStaking) s toyStakes) ⟨33, 7, fun _ => 0⟩ 2 5 :=
  ⟨_, rfl, position_agrees toyStaking _ rfl toyStakes _ _ _⟩

end Staking

end Safenet
