/-
# What an affirmation of the engine means

The chain stops at the first checker that does not abstain.  So an affirmation is one
checker's: the checkers before it abstained, and those after it were not asked.

`nativeValue_iff` asks whether an affirmed transaction can carry native value away from the
Safe, and `unanimous_iff` whether a checker that was not asked would have denied it.  Both can
happen, and both theorems give the exact transactions.
-/
import Safenet.Engine.Patterns

namespace Safenet
namespace Engine

/-! ## 1. Affirmations and native value -/

section
variable {A : Abi} {E : Services} {tx : SafeTransaction} {ctx : CheckContext}

/-- A transaction that carries native value to another account, and that one of the two
affirming checkers that do not look at the value is the first to have a verdict on. -/
structure Services.ValueOverlooked (E : Services) (tx : SafeTransaction) (ctx : CheckContext) :
    Prop where
  operation : tx.operation = .call
  to_ne : tx.to ≠ tx.safe
  value_ne : tx.value ≠ 0
  unlisted : tx.to ∉ E.blocklist
  affirmed : isNestedExecTransaction E.abi tx = true ∨
    E.KnownRecipient tx ctx ∧ ¬ E.abi.Unlimited tx ∧ ¬ E.PoisonedRefund tx ctx

/-- The chain affirms when a checker does and those before it do not deny. -/
theorem securityCheck_chain_secure_iff : securityCheck E.chain tx ctx = .secure ↔
    cancellationChecker tx = .secure ∨ cancellationChecker tx = .abstain ∧
    (escapeHatchChecker tx = .secure ∨ escapeHatchChecker tx = .abstain ∧
    (baseChecker E.abi tx = .abstain ∧ blocklistChecker E.blocklist tx = .abstain ∧
    (nestedSafeChecker E.abi tx = .secure ∨ nestedSafeChecker E.abi tx = .abstain ∧
    (excessiveApprovalChecker E.abi tx = .abstain ∧
    (E.cowChecker tx = .secure ∨ E.cowChecker tx = .abstain ∧
    (stakingChecker E.abi tx = .secure ∨ stakingChecker E.abi tx = .abstain ∧
    (E.refundChecker tx ctx = .abstain ∧
      E.addressPoisoningChecker tx ctx = .secure))))))) := by
  simp only [Services.chain, securityCheck, Verdict.orElse_eq_secure, baseChecker_ne_secure,
    blocklistChecker_ne_secure, excessiveApprovalChecker_ne_secure, refundChecker_ne_secure,
    false_or, reduceCtorEq, and_false, or_false]

/-- Every call of a batch with an order is valueless. -/
theorem Services.CowOrderBatch.valueless (h : E.CowOrderBatch tx) {c : SafeTransaction}
    (hc : c ∈ E.abi.subTransactions tx) : valueless c = true := by
  obtain ⟨-, first, second, heq, h⟩ := h
  rw [heq, List.mem_pair] at hc
  rcases h with ⟨_, _, _, _, _, -, ha, hp, -⟩ | ⟨_, _, _, _, _, -, ha, hp, -⟩ |
    ⟨_, _, _, _, _, ha, ht, -⟩ | ⟨_, _, _, _, _, ha, ht, -⟩ <;> rcases hc with rfl | rfl
  · exact (vaultRelayerApprovalAmount_eq_some.mp ha).1
  · exact (presignatureOrderUid_eq_some.mp hp).1
  · exact (presignatureOrderUid_eq_some.mp hp).1
  · exact (vaultRelayerApprovalAmount_eq_some.mp ha).1
  · exact (vaultRelayerApprovalAmount_eq_some.mp ha).1
  · exact (twapOrderTerms_some ht).1
  · exact (twapOrderTerms_some ht).1
  · exact (vaultRelayerApprovalAmount_eq_some.mp ha).1

/-- Every call of a staking flow is valueless. -/
theorem StakingFlow.valueless (h : StakingFlow A tx) {c : SafeTransaction}
    (hc : c ∈ A.subTransactions tx) : valueless c = true := by
  rcases h.call hc with ⟨_, h⟩ | ⟨_, h⟩ | ⟨_, h⟩
  · exact (claimAccount_eq_some.mp h).1
  · exact (stakeAmount_eq_some.mp h).1
  · exact (stakingApprovalAmount_eq_some.mp h).1

/-- A plain call that carries value has no verdict from the checkers that want none. -/
theorem value_abstains (hop : tx.operation = .call) (hvalue : tx.value ≠ 0) :
    cancellationChecker tx = .abstain ∧ escapeHatchChecker tx = .abstain ∧
      E.cowChecker tx = .abstain ∧ stakingChecker A tx = .abstain := by
  have hsubs (B : Abi) := subTransactions_of_call (A := B) hop
  have hnv : valueless tx ≠ true := by
    rw [Ne, valueless_iff]
    tauto
  refine ⟨Verdict.eq_abstain_of (fun h => hvalue ?_) cancellationChecker_not_denies,
    Verdict.eq_abstain_of (fun h => ?_) escapeHatchChecker_not_denies,
    Verdict.eq_abstain_of (fun h => ?_) (fun h => ?_),
    Verdict.eq_abstain_of (fun h => ?_) (fun h => ?_)⟩
  · rw [cancellationChecker_secure_iff.mp h]
    rfl
  · exact hvalue (isEscapeHatchCall_iff.mp (escapeHatchChecker_secure_iff.mp h)).2.1
  · exact hnv ((cowChecker_secure_iff.mp h).valueless (by simp [hsubs]))
  · obtain ⟨c, hc, ⟨token, amount⟩, happrove⟩ := exists_approval_of_cowChecker_denies h
    rw [hsubs, List.mem_singleton] at hc
    exact hnv (hc ▸ (vaultRelayerApprovalAmount_eq_some.mp happrove).1)
  · exact hnv ((stakingChecker_secure_iff.mp h).valueless (by simp [hsubs]))
  · obtain ⟨c, hc, ⟨_, hcall⟩ | ⟨_, hcall⟩⟩ := exists_call_of_stakingChecker_denies h
    all_goals rw [hsubs, List.mem_singleton] at hc
    · exact hnv (hc ▸ (claimAccount_eq_some.mp hcall).1)
    · exact hnv (hc ▸ (stakingApprovalAmount_eq_some.mp hcall).1)

/-- The base checker has nothing against a call to another account. -/
theorem baseChecker_of_other (hop : tx.operation = .call) (hto : tx.to ≠ tx.safe) :
    baseChecker A tx = .abstain := by
  refine Verdict.eq_abstain_of (baseChecker_ne_secure A tx) ?_
  rw [baseChecker_denies_iff, not_not, checkTransaction_of_call hop, checkCalls,
    if_neg (not_not.mpr hop), if_pos (Ne.symm hto)]

theorem blocklistChecker_of_unlisted {blocklist : Finset Address} (h : tx.to ∉ blocklist) :
    blocklistChecker blocklist tx = .abstain :=
  Verdict.eq_abstain_of blocklistChecker_ne_secure (mt blocklistChecker_denies_iff.mp h)

theorem checkTransaction_of_baseChecker (h : baseChecker A tx = .abstain) :
    checkTransaction A tx = .ok () := by
  by_contra hne
  have hdenies := baseChecker_denies_iff.mpr hne
  rw [h] at hdenies
  exact Verdict.not_denies_abstain hdenies

theorem unlisted_of_blocklistChecker {blocklist : Finset Address}
    (h : blocklistChecker blocklist tx = .abstain) : tx.to ∉ blocklist := by
  intro hmem
  have hdenies := blocklistChecker_denies_iff.mpr hmem
  rw [h] at hdenies
  exact Verdict.not_denies_abstain hdenies

theorem not_unlimited_of_excessiveApprovalChecker (h : excessiveApprovalChecker A tx = .abstain) :
    ¬ A.Unlimited tx := by
  intro hun
  have hdenies := excessiveApprovalChecker_denies_iff.mpr hun
  rw [h] at hdenies
  exact Verdict.not_denies_abstain hdenies

/-- **Affirmations and native value.**  An affirmed transaction sends native value to another
account exactly when the value is overlooked: it is a plain call with value to an unlisted
account, and it is an `execTransaction` or a token call to a known recipient. -/
theorem nativeValue_iff :
    (securityCheck E.chain tx ctx = .secure →
      ∀ c ∈ E.abi.subTransactions tx, c.to ≠ tx.safe → c.value = 0) ↔
    ¬ E.ValueOverlooked tx ctx := by
  constructor
  · intro h hover
    obtain ⟨hcancel, hescape, hcow, hstaking⟩ :=
      value_abstains (A := E.abi) (E := E) hover.operation hover.value_ne
    refine hover.value_ne (h (securityCheck_chain_secure_iff.mpr ?_) tx
      (by simp [subTransactions_of_call hover.operation]) hover.to_ne)
    refine .inr ⟨hcancel, .inr ⟨hescape, baseChecker_of_other hover.operation hover.to_ne,
      blocklistChecker_of_unlisted hover.unlisted, ?_⟩⟩
    by_cases hnested : isNestedExecTransaction E.abi tx = true
    · exact .inl (nestedSafeChecker_secure_iff.mpr hnested)
    · obtain ⟨hknown, hun, hrefund⟩ := hover.affirmed.resolve_left hnested
      refine .inr ⟨Verdict.eq_abstain_of (mt nestedSafeChecker_secure_iff.mp hnested)
        nestedSafeChecker_not_denies, Verdict.eq_abstain_of excessiveApprovalChecker_ne_secure
        (mt excessiveApprovalChecker_denies_iff.mp hun), .inr ⟨hcow, .inr ⟨hstaking, ?_, ?_⟩⟩⟩
      · exact Verdict.eq_abstain_of refundChecker_ne_secure
          (mt refundChecker_denies_iff.mp hrefund)
      · exact addressPoisoningChecker_secure_iff.mpr hknown
  · intro hnot hsecure c hc hto
    by_contra hvalue
    -- a plain call is its own only call
    have hself (hop : tx.operation = .call) : c = tx := by
      rw [subTransactions_of_call hop] at hc
      exact List.mem_singleton.mp hc
    rcases securityCheck_chain_secure_iff.mp hsecure with h | ⟨-, h⟩
    · have heq := cancellationChecker_secure_iff.mp h
      have hop : tx.operation = .call := by rw [heq]; rfl
      have hown : tx.to = tx.safe := by rw [heq]; rfl
      exact hto (hself hop ▸ hown)
    rcases h with h | ⟨-, -, hlist, h⟩
    · obtain ⟨hop, hzero, -⟩ := isEscapeHatchCall_iff.mp (escapeHatchChecker_secure_iff.mp h)
      exact hvalue (hself hop ▸ hzero)
    have hunlisted := unlisted_of_blocklistChecker hlist
    rcases h with h | ⟨-, hun, h⟩
    · have hnested := nestedSafeChecker_secure_iff.mp h
      obtain ⟨hop, hne, -⟩ := isNestedExecTransaction_iff.mp hnested
      exact hnot ⟨hop, hne, hself hop ▸ hvalue, hunlisted, .inl hnested⟩
    rcases h with h | ⟨-, h⟩
    · exact hvalue (valueless_iff.mp ((cowChecker_secure_iff.mp h).valueless hc)).2
    rcases h with h | ⟨-, hrefund, h⟩
    · exact hvalue (valueless_iff.mp ((stakingChecker_secure_iff.mp h).valueless hc)).2
    · have hknown := addressPoisoningChecker_secure_iff.mp h
      obtain ⟨candidate, kind, htarget, -⟩ := hknown
      have hop := operation_of_decodeTarget htarget
      have hself := hself hop
      subst hself
      refine hnot ⟨hop, hto, hvalue, hunlisted,
        .inr ⟨addressPoisoningChecker_secure_iff.mp h,
          not_unlimited_of_excessiveApprovalChecker hun, fun hp => ?_⟩⟩
      · have hdenies := refundChecker_denies_iff.mpr hp
        rw [hrefund] at hdenies
        exact Verdict.not_denies_abstain hdenies

/-- Services without a history: no logs, no orders and no recognised events. -/
def Services.idle (blocklist : Finset Address) : Services where
  abi := Abi.words
  chainId := 1
  getLogs _ := some []
  decodeTransferLog _ := none
  decodeApprovalLog _ := none
  fetchOrder _ _ := none
  eip712SigningHash _ _ := 0
  blocklist := blocklist
  lookbackBlocks := 0
  maxBlockRange := none

/-- One wei to account 7, with the calldata of an empty `execTransaction`. -/
def nestedPayment : SafeTransaction :=
  { SafeTransaction.default with
    chainId := 1, safe := 0x5afe, «to» := 7, value := 1,
    data := beBytes 4 Selectors.execTransaction.val ++
      [0, 0, 0x140, 0, 0, 0, 0, 0, 0, 0x160, 0, 0].flatMap (beBytes 32) }

/-- The engine affirms the payment, although its value goes to another account. -/
theorem nestedPayment_affirmed :
    ¬ (securityCheck (Services.idle ∅).chain nestedPayment ⟨0⟩ = .secure →
      ∀ c ∈ (Services.idle ∅).abi.subTransactions nestedPayment,
        c.to ≠ nestedPayment.safe → c.value = 0) := by
  intro h
  have hop : nestedPayment.operation = .call := rfl
  obtain ⟨hcancel, hescape, -⟩ :=
    value_abstains (A := Abi.words) (E := Services.idle ∅) hop (by decide)
  have hnested : isNestedExecTransaction Abi.words nestedPayment = true := by decide +kernel
  refine absurd (h (securityCheck_chain_secure_iff.mpr (.inr ⟨hcancel, .inr ⟨hescape,
    baseChecker_of_other hop (by decide), blocklistChecker_of_unlisted (by simp [Services.idle]),
    .inl (nestedSafeChecker_secure_iff.mpr hnested)⟩⟩)) nestedPayment
      (by simp [subTransactions_of_call hop]) (by decide)) (by decide)

/-! ## 2. Affirmations and the checkers not asked -/

/-- No checker of the chain denies the transaction, run alone. -/
def Services.Unanimous (E : Services) (tx : SafeTransaction) (ctx : CheckContext) : Prop :=
  ∀ checker ∈ E.chain, ¬ (checker tx ctx).Denies

theorem unanimous_chain_iff : E.Unanimous tx ctx ↔
    ¬ (baseChecker E.abi tx).Denies ∧ ¬ (blocklistChecker E.blocklist tx).Denies ∧
    ¬ (excessiveApprovalChecker E.abi tx).Denies ∧ ¬ (E.cowChecker tx).Denies ∧
    ¬ (stakingChecker E.abi tx).Denies ∧ ¬ (E.refundChecker tx ctx).Denies ∧
    ¬ (E.addressPoisoningChecker tx ctx).Denies := by
  simp [Services.Unanimous, Services.chain, cancellationChecker_not_denies,
    escapeHatchChecker_not_denies, nestedSafeChecker_not_denies]

/-- A denial that the chain does not reach, because an earlier checker affirms.

The cancellation and the escape hatch stand before the base guarantees and the blocklist;
the nested Safe, CoW and staking patterns stand before the refund. -/
inductive Services.Shadowed (E : Services) (tx : SafeTransaction) (ctx : CheckContext) : Prop
  | listedSafe : tx = cancellation tx → tx.safe ∈ E.blocklist → E.Shadowed tx ctx
  | escapeToSelf : isEscapeHatchCall tx = true → tx.to = tx.safe → E.Shadowed tx ctx
  | escapeToListed : isEscapeHatchCall tx = true → tx.to ∈ E.blocklist → E.Shadowed tx ctx
  | refund : E.PoisonedRefund tx ctx → tx.to ∉ E.blocklist →
      (isNestedExecTransaction E.abi tx = true ∨
        checkTransaction E.abi tx = .ok () ∧ ¬ E.abi.Unlimited tx ∧
          (E.CowOrderBatch tx ∨ StakingFlow E.abi tx)) → E.Shadowed tx ctx

/-- An escape-hatch call to the Safe itself is no administrative call. -/
theorem checkTransaction_of_escapeHatch (h : isEscapeHatchCall tx = true) :
    checkTransaction A tx = .ok () ↔ tx.to ≠ tx.safe := by
  obtain ⟨hop, -, -, hs⟩ := isEscapeHatchCall_iff.mp h
  rw [checkTransaction_of_call hop, checkCalls, if_neg (not_not.mpr hop)]
  by_cases hto : tx.to = tx.safe
  · have hself : checkSelfCalls A tx = false := by
      have hne : ∀ s ∈ [Selectors.addOwnerWithThreshold, Selectors.removeOwner,
          Selectors.swapOwner, Selectors.changeThreshold, Selectors.disableModule,
          Selectors.setFallbackHandler, Selectors.setGuard, Selectors.enableModule,
          Selectors.setModuleGuard], startsWith tx.data s = false := by
        intro s hmem
        by_contra hstart
        rw [Bool.not_eq_false] at hstart
        revert hmem
        rcases hs with hs | hs <;> rw [← startsWith_unique hs hstart] <;> decide
      simp only [List.forall_mem_cons] at hne
      obtain ⟨h1, h2, h3, h4, h5, h6, h7, h8, h9, -⟩ := hne
      simp [checkSelfCalls, h1, h2, h3, h4, h5, Abi.setFallbackHandlerCall, Abi.setGuardCall,
        Abi.enableModuleCall, Abi.setModuleGuardCall, h6, h7, h8, h9]
    have hdata : tx.data ≠ [] := by
      rcases hs with hs | hs <;> exact ne_nil_of_startsWith hs
    simp [hto, hdata, hself]
  · simp [hto, Ne.symm hto]

theorem opaque_of_cancellation (h : tx = cancellation tx) : Opaque A tx := by
  refine opaque_of_nil ?_ ?_ <;> rw [h] <;> rfl

theorem opaque_of_escapeHatch (h : isEscapeHatchCall tx = true) : Opaque A tx := by
  obtain ⟨hop, -, -, hs | hs⟩ := isEscapeHatchCall_iff.mp h
  · exact opaque_of_startsWith hop hs (by decide)
  · exact opaque_of_startsWith hop hs (by decide)

theorem opaque_of_nested (h : isNestedExecTransaction A tx = true) : Opaque A tx := by
  obtain ⟨hop, -, hs, -⟩ := isNestedExecTransaction_iff.mp h
  exact opaque_of_startsWith (s := Selectors.execTransaction) hop hs (by decide)

/-- On a call without a token effect only the base checker, the blocklist and the refund are
left to deny. -/
theorem Opaque.unanimous_iff_unlisted (h : Opaque E.abi tx) : E.Unanimous tx ctx ↔
    checkTransaction E.abi tx = .ok () ∧ tx.to ∉ E.blocklist ∧ ¬ E.PoisonedRefund tx ctx := by
  have htarget := decodeTarget_of_none h.transfer h.transferFrom h.approve
  rw [unanimous_chain_iff, baseChecker_denies_iff, blocklistChecker_denies_iff,
    excessiveApprovalChecker_denies_iff, refundChecker_denies_iff, not_not]
  have h1 := h.not_unlimited
  have h2 := h.cowChecker_not_denies
  have h3 := h.stakingChecker_not_denies
  have h4 : ¬ (E.addressPoisoningChecker tx ctx).Denies :=
    addressPoisoningChecker_not_denies htarget
  tauto

/-- An unrelayed transaction has no refund. -/
theorem not_poisonedRefund_of_gasPrice (h : tx.gasPrice = 0) : ¬ E.PoisonedRefund tx ctx :=
  fun hp => hp.gasPrice h

/-- What is left to deny a transaction that the base checker, the blocklist and the approval
checker let pass, when it has no token target of its own. -/
theorem unanimous_iff_of_passed (hbase : checkTransaction E.abi tx = .ok ())
    (hun : ¬ E.abi.Unlimited tx) (hlist : tx.to ∉ E.blocklist)
    (hcow : ¬ (E.cowChecker tx).Denies) (hstaking : ¬ (stakingChecker E.abi tx).Denies)
    (htarget : decodeTarget E.abi tx = none) :
    E.Unanimous tx ctx ↔ ¬ E.PoisonedRefund tx ctx := by
  rw [unanimous_chain_iff, baseChecker_denies_iff, blocklistChecker_denies_iff,
    excessiveApprovalChecker_denies_iff, refundChecker_denies_iff, not_not]
  have h : ¬ (E.addressPoisoningChecker tx ctx).Denies :=
    addressPoisoningChecker_not_denies htarget
  tauto

/-- The calls of an order batch are no claims and no approvals of the staking contract. -/
theorem Services.CowOrderBatch.stakingChecker_not_denies (h : E.CowOrderBatch tx) :
    ¬ (stakingChecker E.abi tx).Denies := by
  intro hdenies
  obtain ⟨c, hc, hcall⟩ := exists_call_of_stakingChecker_denies hdenies
  obtain ⟨-, first, second, heq, h⟩ := h
  rw [heq, List.mem_pair] at hc
  have happroved {c : SafeTransaction} {approved : Address × U256}
      (ha : vaultRelayerApprovalAmount E.abi c = some approved) :
      ¬ ((∃ account, claimAccount E.abi c = some account) ∨
        ∃ amount, stakingApprovalAmount E.abi c = some amount) := by
    obtain ⟨-, hdec, -⟩ := vaultRelayerApprovalAmount_eq_some.mp ha
    rintro (⟨account, hclaim⟩ | ⟨amount, happrove⟩)
    · have hnone : E.abi.claimCall.abiDecode c.data = none := SolCall.abiDecode_eq_none
        (SolCall.startsWith_of_abiDecode hdec) (by decide : Selectors.approve ≠ Selectors.claim)
      exact absurd (hnone.symm.trans (claimAccount_eq_some.mp hclaim).2.2) (by simp)
    · have hspender := hdec.symm.trans (stakingApprovalAmount_eq_some.mp happrove).2.2
      rw [Option.some.injEq, Prod.mk.injEq] at hspender
      exact absurd hspender.1 (by decide)
  have hto {c : SafeTransaction} (hne : c.to ≠ rewardsDistributor ∧ c.to ≠ safeToken) :
      ¬ ((∃ account, claimAccount E.abi c = some account) ∨
        ∃ amount, stakingApprovalAmount E.abi c = some amount) := by
    rintro (⟨account, hclaim⟩ | ⟨amount, happrove⟩)
    · exact hne.1 (claimAccount_eq_some.mp hclaim).2.1
    · exact hne.2 (stakingApprovalAmount_eq_some.mp happrove).2.1
  have hpresig {c : SafeTransaction} {uid : Bytes}
      (hp : presignatureOrderUid E.abi c = some uid) :
      c.to ≠ rewardsDistributor ∧ c.to ≠ safeToken := by
    rw [(presignatureOrderUid_eq_some.mp hp).2.1]
    decide
  have htwap {c : SafeTransaction} {terms : Address × Address × U256 × U256}
      (ht : twapOrderTerms E.abi c = some terms) :
      c.to ≠ rewardsDistributor ∧ c.to ≠ safeToken := by
    rw [(twapOrderTerms_some ht).2.1]
    decide
  rcases h with ⟨_, _, _, _, _, -, ha, hp, -⟩ | ⟨_, _, _, _, _, -, ha, hp, -⟩ |
    ⟨_, _, _, _, _, ha, ht, -⟩ | ⟨_, _, _, _, _, ha, ht, -⟩ <;> rcases hc with rfl | rfl
  · exact happroved ha hcall
  · exact hto (hpresig hp) hcall
  · exact hto (hpresig hp) hcall
  · exact happroved ha hcall
  · exact happroved ha hcall
  · exact hto (htwap ht) hcall
  · exact hto (htwap ht) hcall
  · exact happroved ha hcall

/-- A batch of two is a delegatecall. -/
theorem operation_of_subTransactions {first second : SafeTransaction}
    (h : A.subTransactions tx = [first, second]) : tx.operation = .delegatecall := by
  cases hop : tx.operation with
  | call => exact absurd ((subTransactions_of_call hop).symm.trans h) (by simp)
  | delegatecall => rfl

/-- The calls of a staking flow do not approve the relayer. -/
theorem StakingFlow.cowChecker_not_denies (h : StakingFlow E.abi tx) :
    ¬ (E.cowChecker tx).Denies := by
  intro hdenies
  obtain ⟨c, hc, ⟨token, amount⟩, happrove⟩ := exists_approval_of_cowChecker_denies hdenies
  obtain ⟨-, hdec, -⟩ := vaultRelayerApprovalAmount_eq_some.mp happrove
  have hs := SolCall.startsWith_of_abiDecode hdec
  rcases h.call hc with ⟨_, hcall⟩ | ⟨_, hcall⟩ | ⟨_, hcall⟩
  · have hnone : E.abi.claimCall.abiDecode c.data = none :=
      SolCall.abiDecode_eq_none hs (by decide : Selectors.approve ≠ Selectors.claim)
    exact absurd (hnone.symm.trans (claimAccount_eq_some.mp hcall).2.2) (by simp)
  · have hnone : E.abi.stakeCall.abiDecode c.data = none :=
      SolCall.abiDecode_eq_none hs (by decide : Selectors.approve ≠ Selectors.stake)
    exact absurd (hnone.symm.trans (stakeAmount_eq_some.mp hcall).2.2) (by simp)
  · have hspender := hdec.symm.trans (stakingApprovalAmount_eq_some.mp hcall).2.2
    rw [Option.some.injEq, Prod.mk.injEq] at hspender
    exact absurd hspender.1 (by decide)

/-- A staking flow has no token target: as a plain call it is one claim or one stake. -/
theorem StakingFlow.decodeTarget (h : StakingFlow A tx) : decodeTarget A tx = none := by
  cases hop : tx.operation with
  | delegatecall => exact decodeTarget_of_delegatecall hop
  | call =>
    have hsubs := subTransactions_of_call (A := A) hop
    obtain ⟨s, hs, hmem⟩ : ∃ s, startsWith tx.data s = true ∧
        (s = Selectors.claim ∨ s = Selectors.stake) := by
      rcases h.rest with ⟨hnil, -⟩ | ⟨call, amount, hone, hstake⟩ | ⟨first, second, _, _, htwo, -⟩
      · rw [hsubs] at hnil
        have hsome := List.filter_eq_nil_iff.mp hnil tx (by simp)
        obtain ⟨account, hclaim⟩ := Option.isSome_iff_exists.mp
          (by simpa [Option.isSome_iff_ne_none] using hsome)
        exact ⟨_, SolCall.startsWith_of_abiDecode (claimAccount_eq_some.mp hclaim).2.2, .inl rfl⟩
      · have hcall : call ∈ A.subTransactions tx := by
          have : call ∈ unclaimed A (A.subTransactions tx) := by simp [hone]
          exact (List.mem_filter.mp this).1
        rw [hsubs, List.mem_singleton] at hcall
        subst hcall
        exact ⟨_, SolCall.startsWith_of_abiDecode (stakeAmount_eq_some.mp hstake).2.2, .inr rfl⟩
      · have hle := List.length_filter_le (fun call => (claimAccount A call).isNone)
          (A.subTransactions tx)
        rw [← unclaimed, htwo, hsubs] at hle
        exact absurd hle (by simp)
    have hne : ∀ t ∈ [Selectors.transfer, Selectors.transferFrom, Selectors.approve], s ≠ t := by
      simp only [List.forall_mem_cons]
      rcases hmem with rfl | rfl <;> exact ⟨by decide, by decide, by decide, by simp⟩
    exact decodeTarget_of_none (SolCall.abiDecode_eq_none hs (hne Selectors.transfer (by decide)))
      (SolCall.abiDecode_eq_none hs (hne Selectors.transferFrom (by decide)))
      (SolCall.abiDecode_eq_none hs (hne Selectors.approve (by decide)))

/-- The chain affirms what the escape hatch affirms. -/
theorem securityCheck_of_escapeHatch (h : isEscapeHatchCall tx = true) :
    securityCheck E.chain tx ctx = .secure := by
  refine securityCheck_chain_secure_iff.mpr ?_
  rcases Verdict.secure_or_abstain (@cancellationChecker_not_denies tx) with hc | hc
  · exact .inl hc
  · exact .inr ⟨hc, .inl (escapeHatchChecker_secure_iff.mpr h)⟩

/-- The chain affirms a nested Safe, order or staking transaction that passes the denying
checkers in front, whatever its refund. -/
theorem securityCheck_of_pattern (hlist : tx.to ∉ E.blocklist)
    (h : isNestedExecTransaction E.abi tx = true ∨
      checkTransaction E.abi tx = .ok () ∧ ¬ E.abi.Unlimited tx ∧
        (E.CowOrderBatch tx ∨ StakingFlow E.abi tx)) :
    securityCheck E.chain tx ctx = .secure := by
  refine securityCheck_chain_secure_iff.mpr ?_
  rcases Verdict.secure_or_abstain (@cancellationChecker_not_denies tx) with hc | hc
  · exact .inl hc
  rcases Verdict.secure_or_abstain (@escapeHatchChecker_not_denies tx) with he | he
  · exact .inr ⟨hc, .inl he⟩
  have hblock := blocklistChecker_of_unlisted hlist
  rcases h with hnested | ⟨hbase, hun, hpattern⟩
  · obtain ⟨hop, hto, -⟩ := isNestedExecTransaction_iff.mp hnested
    exact .inr ⟨hc, .inr ⟨he, baseChecker_of_other hop hto, hblock,
      .inl (nestedSafeChecker_secure_iff.mpr hnested)⟩⟩
  have hok : baseChecker E.abi tx = .abstain :=
    Verdict.eq_abstain_of (baseChecker_ne_secure _ _) (by rw [baseChecker_denies_iff]; tauto)
  refine .inr ⟨hc, .inr ⟨he, hok, hblock, ?_⟩⟩
  rcases Verdict.secure_or_abstain (@nestedSafeChecker_not_denies E.abi tx) with hn | hn
  · exact .inl hn
  refine .inr ⟨hn, Verdict.eq_abstain_of excessiveApprovalChecker_ne_secure
    (mt excessiveApprovalChecker_denies_iff.mp hun), ?_⟩
  rcases hpattern with hcow | hstaking
  · exact .inl (cowChecker_secure_iff.mpr hcow)
  · rcases Verdict.secure_or_abstain hstaking.cowChecker_not_denies with hcow | hcow
    · exact .inl hcow
    · exact .inr ⟨hcow, .inl (stakingChecker_secure_iff.mpr hstaking)⟩

/-- **Unanimity.**  An affirmed transaction is denied by no checker of the chain, run alone,
exactly when no denial is shadowed. -/
theorem unanimous_iff :
    (securityCheck E.chain tx ctx = .secure → E.Unanimous tx ctx) ↔ ¬ E.Shadowed tx ctx := by
  constructor
  · rintro h (⟨heq, hmem⟩ | ⟨he, hto⟩ | ⟨he, hmem⟩ | ⟨hp, hlist, hpattern⟩)
    · have hun := h (securityCheck_chain_secure_iff.mpr
        (.inl (cancellationChecker_secure_iff.mpr heq)))
      have hown : tx.to = tx.safe := by rw [heq]; rfl
      exact ((opaque_of_cancellation heq).unanimous_iff_unlisted.mp hun).2.1 (hown ▸ hmem)
    · have hun := h (securityCheck_of_escapeHatch he)
      have hok := ((opaque_of_escapeHatch he).unanimous_iff_unlisted.mp hun).1
      exact (checkTransaction_of_escapeHatch he).mp hok hto
    · have hun := h (securityCheck_of_escapeHatch he)
      exact ((opaque_of_escapeHatch he).unanimous_iff_unlisted.mp hun).2.1 hmem
    · have hun := unanimous_chain_iff.mp (h (securityCheck_of_pattern hlist hpattern))
      exact hun.2.2.2.2.2.1 (refundChecker_denies_iff.mpr hp)
  · intro hnot hsecure
    rcases securityCheck_chain_secure_iff.mp hsecure with h | ⟨-, h⟩
    · have heq := cancellationChecker_secure_iff.mp h
      have hgas : tx.gasPrice = 0 := by rw [heq]; rfl
      have hop : tx.operation = .call := by rw [heq]; rfl
      have hown : tx.to = tx.safe := by rw [heq]; rfl
      have hdata : tx.data = [] := by rw [heq]; rfl
      refine (opaque_of_cancellation heq).unanimous_iff_unlisted.mpr
        ⟨?_, fun hmem => hnot (.listedSafe heq (hown ▸ hmem)), fun hp => hp.gasPrice hgas⟩
      rw [checkTransaction_of_call hop]
      simp [checkCalls, hop, hown, hdata]
    rcases h with h | ⟨-, hbase, hblock, h⟩
    · have he := escapeHatchChecker_secure_iff.mp h
      refine (opaque_of_escapeHatch he).unanimous_iff_unlisted.mpr
        ⟨(checkTransaction_of_escapeHatch he).mpr fun hto => hnot (.escapeToSelf he hto),
          fun hmem => hnot (.escapeToListed he hmem), fun hp => hp.gasPrice ?_⟩
      exact (isEscapeHatchCall_iff.mp he).2.2.1
    have hok := checkTransaction_of_baseChecker hbase
    have hlist := unlisted_of_blocklistChecker hblock
    rcases h with h | ⟨-, hexc, h⟩
    · have hnested := nestedSafeChecker_secure_iff.mp h
      exact (opaque_of_nested hnested).unanimous_iff_unlisted.mpr
        ⟨hok, hlist, fun hp => hnot (.refund hp hlist (.inl hnested))⟩
    have hun := not_unlimited_of_excessiveApprovalChecker hexc
    rcases h with h | ⟨hcow, h⟩
    · have hbatch := cowChecker_secure_iff.mp h
      have hop : tx.operation = .delegatecall := by
        obtain ⟨-, first, second, heq, -⟩ := hbatch
        exact operation_of_subTransactions heq
      refine (unanimous_iff_of_passed hok hun hlist ?_ hbatch.stakingChecker_not_denies
        (decodeTarget_of_delegatecall hop)).mpr
          fun hp => hnot (.refund hp hlist (.inr ⟨hok, hun, .inl hbatch⟩))
      rw [h]
      exact Verdict.not_denies_secure
    rcases h with h | ⟨hstaking, hrefund, h⟩
    · have hflow := stakingChecker_secure_iff.mp h
      refine (unanimous_iff_of_passed hok hun hlist hflow.cowChecker_not_denies ?_
        hflow.decodeTarget).mpr
          fun hp => hnot (.refund hp hlist (.inr ⟨hok, hun, .inr hflow⟩))
      rw [h]
      exact Verdict.not_denies_secure
    · rw [unanimous_chain_iff, hbase, hblock, hexc, hcow, hstaking, hrefund, h]
      simp

/-- An announcement sent to a listed account. -/
def listedAnnouncement : SafeTransaction :=
  { SafeTransaction.default with
    chainId := 1, safe := 0x5afe, «to» := 0xbad,
    data := beBytes 4 Selectors.announceTransaction.val }

/-- The engine affirms the announcement, although the blocklist checker denies it. -/
theorem listedAnnouncement_affirmed :
    ¬ (securityCheck (Services.idle {0xbad}).chain listedAnnouncement ⟨0⟩ = .secure →
      (Services.idle {0xbad}).Unanimous listedAnnouncement ⟨0⟩) := by
  intro h
  have hescape : isEscapeHatchCall listedAnnouncement = true := by decide +kernel
  have hun := unanimous_chain_iff.mp (h (securityCheck_of_escapeHatch hescape))
  exact hun.2.1 (blocklistChecker_denies_iff.mpr (by decide))

end

end Engine

end Safenet
