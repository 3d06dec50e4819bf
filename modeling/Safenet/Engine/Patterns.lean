/-
# What the checkers affirm and deny

One table for the chain: what each checker affirms, and what it must have seen to deny.  The
CoW and staking checkers affirm shapes of batches (`CowOrderBatch`, `StakingFlow`); the
address-poisoning checker affirms a known recipient; the refund checker only denies, and only
on a provider of chain zero, since the refund is checked as a transaction of that chain.

A plain call whose calldata is none of the token calls (`Opaque`) is outside what the checkers
behind the blocklist deny.
-/
import Safenet.Engine.Checkers

namespace Safenet
namespace Engine

/-! ## 1. The first verdict -/

@[simp] theorem Verdict.orElse_abstain (w : Verdict) : Verdict.abstain.orElse w = w := rfl

@[simp] theorem Verdict.orElse_secure (w : Verdict) : Verdict.secure.orElse w = .secure := rfl

theorem Verdict.orElse_eq_secure {v w : Verdict} :
    v.orElse w = .secure ↔ v = .secure ∨ v = .abstain ∧ w = .secure := by
  cases v <;> simp [Verdict.orElse]

theorem Verdict.denies_orElse {v w : Verdict} (h : (v.orElse w).Denies) :
    v.Denies ∨ v = .abstain ∧ w.Denies := by
  cases v with
  | secure => exact absurd h Verdict.not_denies_secure
  | insecure rule => exact .inl (Verdict.denies_insecure rule)
  | abstain => exact .inr ⟨rfl, h⟩

/-- A verdict that neither affirms nor denies abstains. -/
theorem Verdict.eq_abstain_of {v : Verdict} (hs : v ≠ .secure) (hd : ¬ v.Denies) :
    v = .abstain := by
  cases v with
  | secure => exact absurd rfl hs
  | insecure rule => exact absurd (Verdict.denies_insecure rule) hd
  | abstain => rfl

/-- A verdict that does not deny affirms or abstains. -/
theorem Verdict.secure_or_abstain {v : Verdict} (hd : ¬ v.Denies) :
    v = .secure ∨ v = .abstain := by
  by_cases hs : v = .secure
  · exact .inl hs
  · exact .inr (Verdict.eq_abstain_of hs hd)

/-! ## 2. What each checker affirms and denies -/

section
variable {A : Abi} {E : Services} {tx : SafeTransaction} {ctx : CheckContext}

theorem cancellationChecker_secure_iff :
    cancellationChecker tx = .secure ↔ tx = cancellation tx := by
  unfold cancellationChecker
  split
  · next h => exact ⟨fun _ => h, fun _ => rfl⟩
  · next h => exact ⟨fun h' => absurd h' (by simp), fun h' => absurd h' h⟩

theorem cancellationChecker_not_denies : ¬ (cancellationChecker tx).Denies := by
  unfold cancellationChecker
  split <;> simp

theorem escapeHatchChecker_secure_iff :
    escapeHatchChecker tx = .secure ↔ isEscapeHatchCall tx = true := by
  unfold escapeHatchChecker
  split <;> simp [*]

theorem escapeHatchChecker_not_denies : ¬ (escapeHatchChecker tx).Denies := by
  unfold escapeHatchChecker
  split <;> simp

theorem nestedSafeChecker_secure_iff :
    nestedSafeChecker A tx = .secure ↔ isNestedExecTransaction A tx = true := by
  unfold nestedSafeChecker
  split <;> simp [*]

theorem nestedSafeChecker_not_denies : ¬ (nestedSafeChecker A tx).Denies := by
  unfold nestedSafeChecker
  split <;> simp

theorem blocklistChecker_ne_secure {blocklist : Finset Address} :
    blocklistChecker blocklist tx ≠ .secure := by
  unfold blocklistChecker
  split <;> simp

theorem excessiveApprovalChecker_ne_secure : excessiveApprovalChecker A tx ≠ .secure := by
  unfold excessiveApprovalChecker
  split <;> simp

/-- What `is_escape_hatch_call` recognises. -/
theorem isEscapeHatchCall_iff :
    isEscapeHatchCall tx = true ↔ tx.operation = .call ∧ tx.value = 0 ∧ tx.gasPrice = 0 ∧
      (startsWith tx.data Selectors.announceTransaction = true ∨
        startsWith tx.data Selectors.cancelAnnouncement = true) := by
  unfold isEscapeHatchCall
  split
  · simp; tauto
  · simp; tauto

theorem isNestedExecTransaction_iff :
    isNestedExecTransaction A tx = true ↔ tx.operation = .call ∧ tx.to ≠ tx.safe ∧
      startsWith tx.data A.execTransactionCall.selector = true ∧
        (A.execTransactionCall.abiDecode tx.data).isSome = true := by
  simp [isNestedExecTransaction, and_assoc]

theorem valueless_iff : valueless tx = true ↔ tx.operation = .call ∧ tx.value = 0 := by
  simp [valueless]

theorem vaultRelayerApprovalAmount_eq_some {token : Address} {amount : U256} :
    vaultRelayerApprovalAmount A tx = some (token, amount) ↔ valueless tx = true ∧
      A.approveCall.abiDecode tx.data = some (gpV2VaultRelayer, amount) ∧ tx.to = token := by
  unfold vaultRelayerApprovalAmount
  split
  · simp_all
  · simp only [Option.bind_eq_bind, Option.bind_eq_some_iff, Prod.exists]
    constructor
    · rintro ⟨spender, a, hdec, h⟩
      split at h
      · simp_all
      · exact absurd h (by simp)
    · rintro ⟨-, hdec, rfl⟩
      exact ⟨_, _, hdec, if_pos rfl⟩

/-- A check for valueless calls to one contract, in front of a decoder. -/
theorem targeted_eq_some {α : Type} {target : Address} {decoded : Option α} {a : α} :
    (if ¬ valueless tx ∨ tx.to ≠ target then none else decoded) = some a ↔
      valueless tx = true ∧ tx.to = target ∧ decoded = some a := by
  split
  · next hcall =>
    constructor
    · intro h
      exact absurd h (by simp)
    · rintro ⟨hv, hto, -⟩
      exact absurd hcall (by simp [hv, hto])
  · next hcall => simp_all

theorem presignatureOrderUid_eq_some {uid : Bytes} :
    presignatureOrderUid A tx = some uid ↔ valueless tx = true ∧ tx.to = gpV2Settlement ∧
      A.setPreSignatureCall.abiDecode tx.data = some (uid, true) := by
  rw [presignatureOrderUid, targeted_eq_some]
  simp [Option.bind_eq_some_iff]

/-- A claim for `account`. -/
theorem claimAccount_eq_some {account : Address} :
    claimAccount A tx = some account ↔ valueless tx = true ∧ tx.to = rewardsDistributor ∧
      A.claimCall.abiDecode tx.data = some account :=
  targeted_eq_some

theorem stakeAmount_eq_some {amount : U256} :
    stakeAmount A tx = some amount ↔ valueless tx = true ∧ tx.to = staking ∧
      A.stakeCall.abiDecode tx.data = some amount :=
  targeted_eq_some

theorem stakingApprovalAmount_eq_some {amount : U256} :
    stakingApprovalAmount A tx = some amount ↔ valueless tx = true ∧ tx.to = safeToken ∧
      A.approveCall.abiDecode tx.data = some (staking, amount) := by
  rw [stakingApprovalAmount, targeted_eq_some]
  simp [Option.bind_eq_some_iff]

/-- What a call with recognised TWAP terms is. -/
theorem twapOrderTerms_some {terms : Address × Address × U256 × U256}
    (h : twapOrderTerms A tx = some terms) : valueless tx = true ∧ tx.to = composableCow ∧
      ∃ create, A.createWithContextCall.abiDecode tx.data = some create ∧
        create.handler = twapHandler ∧ create.factory = currentBlockTimestampFactory := by
  unfold twapOrderTerms at h
  split at h
  · exact absurd h (by simp)
  · next hcall =>
    simp only [Option.bind_eq_bind, Option.bind_eq_some_iff] at h
    obtain ⟨create, hdec, h⟩ := h
    split at h
    · exact absurd h (by simp)
    · next hcreate => exact ⟨by tauto, by tauto, create, hdec, by tauto, by tauto⟩

/-- The pair of a batch is an approval of the relayer and a presignature. -/
theorem decodeApprovalAndPresignature_eq_some {approval presig : SafeTransaction}
    {token : Address} {amount : U256} {uid : Bytes} :
    decodeApprovalAndPresignature A approval presig = some (token, amount, uid) ↔
      vaultRelayerApprovalAmount A approval = some (token, amount) ∧
        presignatureOrderUid A presig = some uid := by
  simp [decodeApprovalAndPresignature, Option.bind_eq_some_iff, and_left_comm]

theorem decodeApprovalAndTwap_eq_some {approval twap : SafeTransaction} {token sell receiver :
    Address} {amount total n : U256} :
    decodeApprovalAndTwap A approval twap = some (token, amount, sell, receiver, total, n) ↔
      vaultRelayerApprovalAmount A approval = some (token, amount) ∧
        twapOrderTerms A twap = some (sell, receiver, total, n) := by
  simp [decodeApprovalAndTwap, Option.bind_eq_some_iff, and_left_comm]

/-- An approval is no presignature. -/
theorem presignatureOrderUid_of_approval {approved : Address × U256}
    (h : vaultRelayerApprovalAmount A tx = some approved) : presignatureOrderUid A tx = none := by
  have hs := SolCall.startsWith_of_abiDecode (vaultRelayerApprovalAmount_eq_some.mp h).2.1
  refine Option.eq_none_iff_forall_ne_some.mpr fun uid huid => ?_
  have hnone : A.setPreSignatureCall.abiDecode tx.data = none :=
    SolCall.abiDecode_eq_none hs (by decide : Selectors.approve ≠ Selectors.setPreSignature)
  exact absurd (hnone.symm.trans (presignatureOrderUid_eq_some.mp huid).2.2) (by simp)

/-- An approval creates no TWAP order. -/
theorem twapOrderTerms_of_approval {approved : Address × U256}
    (h : vaultRelayerApprovalAmount A tx = some approved) : twapOrderTerms A tx = none := by
  have hs := SolCall.startsWith_of_abiDecode (vaultRelayerApprovalAmount_eq_some.mp h).2.1
  refine Option.eq_none_iff_forall_ne_some.mpr fun terms hterms => ?_
  obtain ⟨-, -, create, hdec, -⟩ := twapOrderTerms_some hterms
  have hnone : A.createWithContextCall.abiDecode tx.data = none :=
    SolCall.abiDecode_eq_none hs (by decide : Selectors.approve ≠ Selectors.createWithContext)
  exact absurd (hnone.symm.trans hdec) (by simp)

/-- A TWAP creation is no presignature. -/
theorem presignatureOrderUid_of_twap {terms : Address × Address × U256 × U256}
    (h : twapOrderTerms A tx = some terms) : presignatureOrderUid A tx = none := by
  refine Option.eq_none_iff_forall_ne_some.mpr fun uid huid => ?_
  have hto := (twapOrderTerms_some h).2.1.symm.trans (presignatureOrderUid_eq_some.mp huid).2.1
  exact absurd hto (by decide)

/-- The order the API returns for a presigned UID is the Safe's, and is what is approved. -/
def Services.PresignedOrder (E : Services) (safe : Address) (chainId : U256)
    (approval presig : SafeTransaction) : Prop :=
  ∃ baseUrl token amount uid order, orderApiBaseUrl chainId = some baseUrl ∧
    vaultRelayerApprovalAmount E.abi approval = some (token, amount) ∧
    presignatureOrderUid E.abi presig = some uid ∧ E.fetchOrder baseUrl uid = some order ∧
    uid = E.computeOrderUid chainId order ∧ order.effectiveReceiver = safe ∧
    token = order.sellToken ∧ amount = order.sellAmount

/-- The created TWAP order pays the Safe, and covers what is approved. -/
def TwapOrder (A : Abi) (safe : Address) (approval twap : SafeTransaction) : Prop :=
  ∃ token amount receiver total n,
    vaultRelayerApprovalAmount A approval = some (token, amount) ∧
    twapOrderTerms A twap = some (token, receiver, total, n) ∧
    (receiver = safe ∨ receiver = 0) ∧ amount.val ≤ maxApprovalForTwapTotal total n

/-- A presigned order's pair decodes, and its other reading does not. -/
theorem Services.PresignedOrder.decode {safe : Address} {chainId : U256}
    {approval presig : SafeTransaction} (h : E.PresignedOrder safe chainId approval presig) :
    (decodeApprovalAndPresignature E.abi approval presig).isSome = true ∧
      decodeApprovalAndPresignature E.abi presig approval = none := by
  obtain ⟨_, token, amount, uid, _, -, happrove, hpresig, -⟩ := h
  refine ⟨by simp [decodeApprovalAndPresignature, happrove, hpresig], ?_⟩
  simp [decodeApprovalAndPresignature, presignatureOrderUid_of_approval happrove]

/-- What the presignature check affirms of a pair, read in either order. -/
theorem checkPresignatureBatch_secure_iff {safe : Address} {chainId : U256}
    {first second : SafeTransaction} :
    E.checkPresignatureBatch safe chainId [first, second] = .secure ↔
      E.PresignedOrder safe chainId first second ∨
        E.PresignedOrder safe chainId second first := by
  constructor
  · intro h
    unfold Services.checkPresignatureBatch at h
    cases hurl : orderApiBaseUrl chainId with
    | none => simp [hurl] at h
    | some baseUrl =>
      simp only [hurl] at h
      split at h
      · exact absurd h (by simp)
      · next token amount uid hpair =>
        split at h
        · exact absurd h (by simp)
        · next order hfetch =>
          split_ifs at h with huid hreceiver hmatch
          have hterms := And.intro hfetch
            (And.intro (not_not.mp huid) (And.intro (not_not.mp hreceiver) hmatch))
          rcases Option.or_eq_some_iff.mp hpair with hpair | ⟨-, hpair⟩
          · obtain ⟨happrove, hpresig⟩ := decodeApprovalAndPresignature_eq_some.mp hpair
            exact .inl ⟨baseUrl, token, amount, uid, order, hurl, happrove, hpresig, hterms⟩
          · obtain ⟨happrove, hpresig⟩ := decodeApprovalAndPresignature_eq_some.mp hpair
            exact .inr ⟨baseUrl, token, amount, uid, order, hurl, happrove, hpresig, hterms⟩
  · intro h
    -- one of the two readings decodes, and it is the order's
    obtain ⟨baseUrl, token, amount, uid, order, hurl, hpair, hfetch, huid, hreceiver, hsell,
        hamount⟩ : ∃ baseUrl token amount uid order, orderApiBaseUrl chainId = some baseUrl ∧
        (decodeApprovalAndPresignature E.abi first second).or
          (decodeApprovalAndPresignature E.abi second first) = some (token, amount, uid) ∧
        E.fetchOrder baseUrl uid = some order ∧ uid = E.computeOrderUid chainId order ∧
        order.effectiveReceiver = safe ∧ token = order.sellToken ∧
        amount = order.sellAmount := by
      rcases h with h | h
      · obtain ⟨baseUrl, token, amount, uid, order, hurl, happrove, hpresig, hterms⟩ := h
        refine ⟨baseUrl, token, amount, uid, order, hurl, ?_, hterms⟩
        rw [decodeApprovalAndPresignature_eq_some.mpr ⟨happrove, hpresig⟩, Option.some_or]
      · have hnone := h.decode.2
        obtain ⟨baseUrl, token, amount, uid, order, hurl, happrove, hpresig, hterms⟩ := h
        refine ⟨baseUrl, token, amount, uid, order, hurl, ?_, hterms⟩
        rw [hnone, Option.none_or]
        exact decodeApprovalAndPresignature_eq_some.mpr ⟨happrove, hpresig⟩
    simp [Services.checkPresignatureBatch, hurl, hpair, hfetch, ← huid, hreceiver, hsell, hamount]

/-- What the TWAP check affirms of a pair, read in either order. -/
theorem checkTwapBatch_secure_iff {safe : Address} {first second : SafeTransaction} :
    checkTwapBatch A safe [first, second] = .secure ↔
      TwapOrder A safe first second ∨ TwapOrder A safe second first := by
  constructor
  · intro h
    unfold checkTwapBatch at h
    simp only at h
    split at h
    · exact absurd h (by simp)
    · next token amount sell receiver total n hpair =>
      split_ifs at h with hreceiver hmatch
      simp only [not_or, not_and, not_not, gt_iff_lt, not_lt] at hreceiver hmatch
      obtain ⟨rfl, hamount⟩ := hmatch
      have hor : receiver = safe ∨ receiver = 0 := by
        by_cases hr : receiver = safe
        · exact .inl hr
        · exact .inr (hreceiver hr)
      rcases Option.or_eq_some_iff.mp hpair with hpair | ⟨-, hpair⟩
      · obtain ⟨happrove, htwap⟩ := decodeApprovalAndTwap_eq_some.mp hpair
        exact .inl ⟨token, amount, receiver, total, n, happrove, htwap, hor, hamount⟩
      · obtain ⟨happrove, htwap⟩ := decodeApprovalAndTwap_eq_some.mp hpair
        exact .inr ⟨token, amount, receiver, total, n, happrove, htwap, hor, hamount⟩
  · intro h
    obtain ⟨token, amount, receiver, total, n, hpair, hor, hamount⟩ :
        ∃ token amount receiver total n, (decodeApprovalAndTwap A first second).or
          (decodeApprovalAndTwap A second first) =
            some (token, amount, token, receiver, total, n) ∧
        (receiver = safe ∨ receiver = 0) ∧ amount.val ≤ maxApprovalForTwapTotal total n := by
      rcases h with ⟨token, amount, receiver, total, n, happrove, htwap, hterms⟩ |
        ⟨token, amount, receiver, total, n, happrove, htwap, hterms⟩
      · refine ⟨token, amount, receiver, total, n, ?_, hterms⟩
        rw [decodeApprovalAndTwap_eq_some.mpr ⟨happrove, htwap⟩, Option.some_or]
      · refine ⟨token, amount, receiver, total, n, ?_, hterms⟩
        have hnone : decodeApprovalAndTwap A first second = none := by
          simp [decodeApprovalAndTwap, twapOrderTerms_of_approval happrove]
        rw [hnone, Option.none_or]
        exact decodeApprovalAndTwap_eq_some.mpr ⟨happrove, htwap⟩
    have hreceiver : ¬ (receiver ≠ safe ∧ receiver ≠ 0) := by tauto
    have hle : ¬ (token ≠ token ∨ amount.val > maxApprovalForTwapTotal total n) := by
      simpa using hamount
    simp only [checkTwapBatch, hpair, if_neg hreceiver, if_neg hle]

/-- A batch of an approval of the relayer and an order that it pays for. -/
def Services.CowOrderBatch (E : Services) (tx : SafeTransaction) : Prop :=
  tx.chainId ∈ supportedChainIds ∧ ∃ first second, E.abi.subTransactions tx = [first, second] ∧
    (E.PresignedOrder tx.safe tx.chainId first second ∨
      E.PresignedOrder tx.safe tx.chainId second first ∨
      TwapOrder E.abi tx.safe first second ∨ TwapOrder E.abi tx.safe second first)

/-- The presignature check has no verdict on a pair with a TWAP order. -/
theorem checkPresignatureBatch_of_twapOrder {safe : Address} {chainId : U256}
    {first second : SafeTransaction}
    (h : TwapOrder E.abi safe first second ∨ TwapOrder E.abi safe second first) :
    E.checkPresignatureBatch safe chainId [first, second] = .abstain := by
  have hnone : decodeApprovalAndPresignature E.abi first second = none ∧
      decodeApprovalAndPresignature E.abi second first = none := by
    rcases h with ⟨_, _, _, _, _, happrove, htwap, -⟩ | ⟨_, _, _, _, _, happrove, htwap, -⟩
    all_goals
      have h1 := presignatureOrderUid_of_approval happrove
      have h2 := presignatureOrderUid_of_twap htwap
      simp [decodeApprovalAndPresignature, h1, h2]
  unfold Services.checkPresignatureBatch
  cases orderApiBaseUrl chainId with
  | none => rfl
  | some baseUrl => simp [hnone.1, hnone.2]

/-- A pair with an order in it is not a dangling approval. -/
theorem checkDanglingApproval_of_order {calls : List SafeTransaction} {c : SafeTransaction}
    (hc : c ∈ calls) (h : isPresignature A c = true ∨ isTwapCreate A c = true) :
    checkDanglingApproval A calls = .abstain := by
  unfold checkDanglingApproval
  split
  · rfl
  · rw [if_pos (List.any_eq_true.mpr ⟨c, hc, by simpa using h⟩)]

theorem checkDanglingApproval_ne_secure {calls : List SafeTransaction} :
    checkDanglingApproval A calls ≠ .secure := by
  unfold checkDanglingApproval
  split
  · simp
  · split <;> simp

theorem isPresignature_of_uid {uid : Bytes} (h : presignatureOrderUid A tx = some uid) :
    isPresignature A tx = true := by
  obtain ⟨hv, hto, hdec⟩ := presignatureOrderUid_eq_some.mp h
  simp [isPresignature, hv, hto, hdec]

theorem isTwapCreate_of_terms {terms : Address × Address × U256 × U256}
    (h : twapOrderTerms A tx = some terms) : isTwapCreate A tx = true := by
  obtain ⟨hv, hto, create, hdec, hhandler, hfactory⟩ := twapOrderTerms_some h
  simp [isTwapCreate, hv, hto, hdec, hhandler, hfactory]

/-- **What the CoW checker affirms**: a batch of two, an approval and its order. -/
theorem cowChecker_secure_iff : E.cowChecker tx = .secure ↔ E.CowOrderBatch tx := by
  constructor
  · intro h
    unfold Services.cowChecker at h
    split at h
    · exact absurd h (by simp)
    · next hchain =>
      refine ⟨not_not.mp hchain, ?_⟩
      simp only [Verdict.orElse_eq_secure, checkDanglingApproval_ne_secure, false_or] at h
      rcases h with ⟨-, h⟩ | ⟨-, h⟩
      · have hpair : ∃ first second, E.abi.subTransactions tx = [first, second] := by
          unfold Services.checkPresignatureBatch at h
          split at h
          · exact absurd h (by simp)
          · split at h
            · next first second heq => exact ⟨first, second, heq⟩
            · exact absurd h (by simp)
        obtain ⟨first, second, heq⟩ := hpair
        rw [heq, checkPresignatureBatch_secure_iff] at h
        exact ⟨first, second, heq, by tauto⟩
      · have hpair : ∃ first second, E.abi.subTransactions tx = [first, second] := by
          unfold checkTwapBatch at h
          split at h
          · next first second heq => exact ⟨first, second, heq⟩
          · exact absurd h (by simp)
        obtain ⟨first, second, heq⟩ := hpair
        rw [heq, checkTwapBatch_secure_iff] at h
        exact ⟨first, second, heq, by tauto⟩
  · rintro ⟨hchain, first, second, heq, h⟩
    unfold Services.cowChecker
    rw [if_neg (not_not.mpr hchain), heq]
    simp only [Verdict.orElse_eq_secure, checkPresignatureBatch_secure_iff,
      checkTwapBatch_secure_iff]
    have hdangling : checkDanglingApproval E.abi [first, second] = .abstain := by
      rcases h with ⟨_, _, _, _, _, -, -, h, -⟩ | ⟨_, _, _, _, _, -, -, h, -⟩ |
        ⟨_, _, _, _, _, -, h, -⟩ | ⟨_, _, _, _, _, -, h, -⟩
      · exact checkDanglingApproval_of_order (c := second) (by simp)
          (.inl (isPresignature_of_uid h))
      · exact checkDanglingApproval_of_order (c := first) (by simp)
          (.inl (isPresignature_of_uid h))
      · exact checkDanglingApproval_of_order (c := second) (by simp)
          (.inr (isTwapCreate_of_terms h))
      · exact checkDanglingApproval_of_order (c := first) (by simp)
          (.inr (isTwapCreate_of_terms h))
    rw [hdangling]
    by_cases htwap : TwapOrder E.abi tx.safe first second ∨ TwapOrder E.abi tx.safe second first
    · refine .inr ⟨?_, htwap⟩
      rw [checkPresignatureBatch_of_twapOrder htwap]
      rfl
    · exact .inl (.inr ⟨rfl, by tauto⟩)

/-- The CoW checker denies only transactions that approve the relayer. -/
theorem exists_approval_of_cowChecker_denies (h : (E.cowChecker tx).Denies) :
    ∃ c ∈ E.abi.subTransactions tx, ∃ approved,
      vaultRelayerApprovalAmount E.abi c = some approved := by
  unfold Services.cowChecker at h
  split at h
  · exact absurd h Verdict.not_denies_abstain
  · rcases Verdict.denies_orElse h with h | ⟨-, h⟩
    · rcases Verdict.denies_orElse h with h | ⟨-, h⟩
      · unfold checkDanglingApproval at h
        split at h
        · exact absurd h Verdict.not_denies_abstain
        · next hany =>
          obtain ⟨c, hc, happrove⟩ := List.any_eq_true.mp (not_not.mp hany)
          exact ⟨c, hc, Option.isSome_iff_exists.mp happrove⟩
      · unfold Services.checkPresignatureBatch at h
        split at h
        · exact absurd h Verdict.not_denies_abstain
        · split at h
          · next first second heq =>
            split at h
            · exact absurd h Verdict.not_denies_abstain
            · next hpair =>
              rw [heq]
              rcases Option.or_eq_some_iff.mp hpair with hpair | ⟨-, hpair⟩
              · exact ⟨first, by simp, _, (decodeApprovalAndPresignature_eq_some.mp hpair).1⟩
              · exact ⟨second, by simp, _, (decodeApprovalAndPresignature_eq_some.mp hpair).1⟩
          · exact absurd h Verdict.not_denies_abstain
    · unfold checkTwapBatch at h
      split at h
      · next first second heq =>
        split at h
        · exact absurd h Verdict.not_denies_abstain
        · next hpair =>
          rw [heq]
          rcases Option.or_eq_some_iff.mp hpair with hpair | ⟨-, hpair⟩
          · exact ⟨first, by simp, _, (decodeApprovalAndTwap_eq_some.mp hpair).1⟩
          · exact ⟨second, by simp, _, (decodeApprovalAndTwap_eq_some.mp hpair).1⟩
      · exact absurd h Verdict.not_denies_abstain

/-- The calls of a list that are not claims. -/
def unclaimed (A : Abi) (calls : List SafeTransaction) : List SafeTransaction :=
  calls.filter fun call => (claimAccount A call).isNone

/-- The loop over the claims stops at one for another account, and otherwise sets them aside. -/
theorem setAsideClaims_eq {safe : Address} {calls : List SafeTransaction} {claimed : Bool}
    {remaining : List SafeTransaction} :
    setAsideClaims A safe calls (claimed, remaining) =
      if ∀ call ∈ calls, ∀ account, claimAccount A call = some account → account = safe then
        some (claimed || calls.any fun call => (claimAccount A call).isSome,
          remaining ++ unclaimed A calls)
      else none := by
  induction calls generalizing claimed remaining with
  | nil => simp [setAsideClaims, unclaimed]
  | cons call calls ih =>
    rw [setAsideClaims]
    cases hclaim : claimAccount A call with
    | none => simp [ih, unclaimed, hclaim]
    | some account =>
      by_cases hown : account = safe
      · simp [ih, unclaimed, hclaim, hown]
      · simp [hclaim, hown]

/-- Claims for the Safe itself, and at most a stake with the approval that pays for it. -/
structure StakingFlow (A : Abi) (tx : SafeTransaction) : Prop where
  chain : tx.chainId = 1
  own : ∀ call ∈ A.subTransactions tx, ∀ account, claimAccount A call = some account →
    account = tx.safe
  rest : (unclaimed A (A.subTransactions tx) = [] ∧ A.subTransactions tx ≠ []) ∨
    (∃ call amount, unclaimed A (A.subTransactions tx) = [call] ∧
      stakeAmount A call = some amount) ∨
    ∃ first second approved staked, unclaimed A (A.subTransactions tx) = [first, second] ∧
      stakingApprovalAmount A first = some approved ∧ stakeAmount A second = some staked ∧
      approved ≤ staked

/-- **What the staking checker affirms.** -/
theorem stakingChecker_secure_iff : stakingChecker A tx = .secure ↔ StakingFlow A tx := by
  have hclaimed (hnil : unclaimed A (A.subTransactions tx) = []) :
      ((A.subTransactions tx).any fun call => (claimAccount A call).isSome) = true ↔
        A.subTransactions tx ≠ [] := by
    have hall : ∀ call ∈ A.subTransactions tx, (claimAccount A call).isSome = true := by
      intro call hcall
      have := List.filter_eq_nil_iff.mp hnil call hcall
      simpa [Option.isSome_iff_ne_none] using this
    rw [List.any_eq_true]
    constructor
    · rintro ⟨call, hcall, -⟩
      exact List.ne_nil_of_mem hcall
    · intro hne
      obtain ⟨call, hcall⟩ := List.exists_mem_of_ne_nil _ hne
      exact ⟨call, hcall, hall call hcall⟩
  unfold stakingChecker
  split
  · next hchain => exact ⟨fun h => absurd h (by simp), fun h => absurd h.chain hchain⟩
  next hchain =>
  rw [not_not] at hchain
  rw [setAsideClaims_eq, List.nil_append, Bool.false_or]
  by_cases hown : ∀ call ∈ A.subTransactions tx, ∀ account, claimAccount A call = some account →
      account = tx.safe
  · rw [if_pos hown]
    dsimp only
    split
    · next hnil =>
      have hiff := hclaimed hnil
      constructor
      · intro h
        split at h
        · next hany => exact ⟨hchain, hown, .inl ⟨hnil, hiff.mp hany⟩⟩
        · exact absurd h (by simp)
      · rintro ⟨-, -, ⟨-, hne⟩ | ⟨call, _, heq, -⟩ | ⟨first, second, _, _, heq, -⟩⟩
        · rw [if_pos (hiff.mpr hne)]
        · exact absurd (hnil.symm.trans heq) (by simp)
        · exact absurd (hnil.symm.trans heq) (by simp)
    · next call hone =>
      unfold checkLoneCall
      constructor
      · intro h
        split at h
        · next hstake =>
          obtain ⟨amount, hamount⟩ := Option.isSome_iff_exists.mp hstake
          exact ⟨hchain, hown, .inr (.inl ⟨call, amount, hone, hamount⟩)⟩
        · exact absurd h (by simp)
      · rintro ⟨-, -, ⟨hnil, -⟩ | ⟨call', amount, heq, hstake⟩ | ⟨first, second, _, _, heq, -⟩⟩
        · exact absurd (hone.symm.trans hnil) (by simp)
        · obtain rfl : call = call' := by simpa using hone.symm.trans heq
          rw [if_pos (by rw [hstake]; rfl)]
        · exact absurd (hone.symm.trans heq) (by simp)
    · next first second htwo =>
      unfold checkPair
      constructor
      · intro h
        split at h
        · next approved staked happrove hstake =>
          split at h
          · exact absurd h (by simp)
          · next hle =>
            exact ⟨hchain, hown, .inr (.inr ⟨first, second, approved, staked, htwo, happrove,
              hstake, not_lt.mp hle⟩)⟩
        · exact absurd h (by simp)
      · rintro ⟨-, -, ⟨hnil, -⟩ | ⟨call, _, heq, -⟩ |
          ⟨first', second', approved, staked, heq, happrove, hstake, hle⟩⟩
        · exact absurd (htwo.symm.trans hnil) (by simp)
        · exact absurd (htwo.symm.trans heq) (by simp)
        · obtain ⟨rfl, rfl⟩ : first = first' ∧ second = second' := by
            simpa using htwo.symm.trans heq
          simp only [happrove, hstake, gt_iff_lt]
          rw [if_neg (not_lt.mpr hle)]
    · next hnil hone htwo =>
      constructor
      · intro h
        exact absurd h (by simp)
      · rintro ⟨-, -, ⟨hnil', -⟩ | ⟨call, _, heq, -⟩ | ⟨first, second, _, _, heq, -⟩⟩
        · exact absurd hnil' hnil
        · exact absurd heq (hone call)
        · exact absurd heq (htwo first second)
  · rw [if_neg hown]
    exact ⟨fun h => absurd h (by simp), fun h => absurd h.own hown⟩

/-- The staking checker denies only transactions with a claim or an approval of the staking
contract. -/
theorem exists_call_of_stakingChecker_denies (h : (stakingChecker A tx).Denies) :
    ∃ c ∈ A.subTransactions tx, (∃ account, claimAccount A c = some account) ∨
      ∃ amount, stakingApprovalAmount A c = some amount := by
  unfold stakingChecker at h
  split at h
  · exact absurd h Verdict.not_denies_abstain
  rw [setAsideClaims_eq] at h
  split_ifs at h with hown
  · dsimp only at h
    split at h
    · split at h <;> simp at h
    · unfold checkLoneCall at h
      split at h <;> simp at h
    · next first second htwo =>
      unfold checkPair at h
      split at h
      · next approved staked happrove hstake =>
        have hmem : first ∈ unclaimed A (A.subTransactions tx) := by
          rw [List.nil_append] at htwo
          simp [htwo]
        exact ⟨first, (List.mem_filter.mp hmem).1, .inr ⟨approved, happrove⟩⟩
      · simp at h
    · simp at h
  · simp only [not_forall] at hown
    obtain ⟨call, hcall, account, hclaim, -⟩ := hown
    exact ⟨call, hcall, .inl ⟨account, hclaim⟩⟩

/-- The calls of a staking flow. -/
theorem StakingFlow.call (h : StakingFlow A tx) {c : SafeTransaction}
    (hc : c ∈ A.subTransactions tx) : (∃ account, claimAccount A c = some account) ∨
      (∃ amount, stakeAmount A c = some amount) ∨
      ∃ amount, stakingApprovalAmount A c = some amount := by
  by_cases hclaim : claimAccount A c = none
  · have hmem : c ∈ unclaimed A (A.subTransactions tx) :=
      List.mem_filter.mpr ⟨hc, by simp [hclaim]⟩
    rcases h.rest with ⟨hnil, -⟩ | ⟨call, amount, hone, hstake⟩ |
      ⟨first, second, approved, staked, htwo, happrove, hstake, -⟩
    · rw [hnil] at hmem
      exact absurd hmem (by simp)
    · rw [hone, List.mem_singleton] at hmem
      exact .inr (.inl ⟨amount, hmem ▸ hstake⟩)
    · rw [htwo, List.mem_pair] at hmem
      rcases hmem with rfl | rfl
      · exact .inr (.inr ⟨approved, happrove⟩)
      · exact .inr (.inl ⟨staked, hstake⟩)
  · exact .inl (Option.ne_none_iff_exists'.mp hclaim)

/-- The transaction pays or approves an account the Safe has dealt with on that token. -/
def Services.KnownRecipient (E : Services) (tx : SafeTransaction) (ctx : CheckContext) : Prop :=
  ∃ candidate kind, decodeTarget E.abi tx = some (candidate, kind) ∧
    tx.chainId.val = E.chainId.val ∧
    E.establishedRecipients tx.to tx.safe candidate ctx.block = some .exactMatch

/-- **What the address-poisoning checker affirms.** -/
theorem addressPoisoningChecker_secure_iff :
    E.addressPoisoningChecker tx ctx = .secure ↔ E.KnownRecipient tx ctx := by
  unfold Services.addressPoisoningChecker Services.KnownRecipient
  cases htarget : decodeTarget E.abi tx with
  | none => simp
  | some target =>
    obtain ⟨candidate, kind⟩ := target
    by_cases hchain : tx.chainId.val = E.chainId.val
    · simp only [hchain, ne_eq, not_true_eq_false, if_false]
      cases hlookup : E.establishedRecipients tx.to tx.safe candidate ctx.block with
      | none => simp [hlookup]
      | some lookup =>
        cases lookup with
        | exactMatch => simp [hlookup]
        | noExactMatch recipients complete =>
          simp only [Option.some.injEq, Prod.mk.injEq]
          constructor
          · intro h
            split_ifs at h
          · rintro ⟨_, _, ⟨rfl, rfl⟩, -, h⟩
            exact absurd (hlookup.symm.trans h) (by simp)
    · simp [hchain]

theorem addressPoisoningChecker_of_no_target (h : decodeTarget E.abi tx = none) :
    E.addressPoisoningChecker tx ctx = .abstain := by
  simp [Services.addressPoisoningChecker, h]

/-- The gas refund of the transaction: what it pays, in which token, and to whom. -/
def refundAmount (tx : SafeTransaction) : U256 :=
  U256.ofSaturated (tx.gasPrice.val * (U256.ofSaturated (tx.safeTxGas.val + tx.baseGas.val)).val)

/-- The history has a lookalike of the account that the refund is paid to, and the refund is
checked.  It is checked as a transaction of chain zero, so a provider of any other chain has
no opinion on it. -/
structure Services.PoisonedRefund (E : Services) (tx : SafeTransaction) (ctx : CheckContext) :
    Prop where
  chain : E.chainId = 0
  gasPrice : tx.gasPrice ≠ 0
  gasToken : tx.gasToken ≠ 0
  refundReceiver : tx.refundReceiver ≠ 0
  amount : refundAmount tx ≠ 0
  lookalike : ∃ recipients, E.establishedRecipients tx.gasToken tx.safe tx.refundReceiver
    ctx.block = some (.noExactMatch recipients true) ∧
      ∃ r ∈ recipients, isLookalike r tx.refundReceiver = true

theorem denyOrAbstain_denies {v : Verdict} : (denyOrAbstain v).Denies ↔ v.Denies := by
  cases v <;> simp [denyOrAbstain]

theorem refundChecker_ne_secure : E.refundChecker tx ctx ≠ .secure := by
  unfold Services.refundChecker
  split
  · simp
  · next refund _ => cases E.addressPoisoningChecker refund ctx <;> simp [denyOrAbstain]

/-- **What the refund checker denies.** -/
theorem refundChecker_denies_iff : (E.refundChecker tx ctx).Denies ↔ E.PoisonedRefund tx ctx := by
  unfold Services.refundChecker refundTransfer
  by_cases hzero : tx.gasPrice = 0 ∨ tx.gasToken = 0 ∨ tx.refundReceiver = 0
  · rw [if_pos hzero]
    exact ⟨fun h => absurd h Verdict.not_denies_abstain, fun h => absurd hzero
      (by simp [h.gasPrice, h.gasToken, h.refundReceiver])⟩
  rw [if_neg hzero]
  simp only [denyOrAbstain_denies, Services.addressPoisoningChecker, decodeTarget,
    Abi.transferCall_encode, SafeTransaction.default]
  simp only [not_or] at hzero
  by_cases hamount : refundAmount tx = 0
  · rw [refundAmount] at hamount
    simp only [hamount, ne_eq, not_true_eq_false, if_false]
    exact ⟨fun h => absurd h Verdict.not_denies_abstain, fun h => absurd hamount h.amount⟩
  · have hif := hamount
    rw [refundAmount] at hif
    simp only [ne_eq, not_true_eq_false, if_false, if_pos hif]
    by_cases hchain : E.chainId = 0
    · simp only [hchain, Fin.val_zero, not_true_eq_false, if_false]
      cases hlookup : E.establishedRecipients tx.gasToken tx.safe tx.refundReceiver ctx.block with
      | none =>
        refine ⟨fun h => absurd h Verdict.not_denies_abstain, fun h => ?_⟩
        obtain ⟨_, h, -⟩ := h.lookalike
        exact absurd (hlookup.symm.trans h) (by simp)
      | some lookup =>
        cases lookup with
        | exactMatch =>
          refine ⟨fun h => absurd h Verdict.not_denies_secure, fun h => ?_⟩
          obtain ⟨_, h, -⟩ := h.lookalike
          exact absurd (hlookup.symm.trans h) (by simp)
        | noExactMatch recipients complete =>
          constructor
          · intro h
            dsimp only at h
            by_cases hlook : ∃ r ∈ recipients, isLookalike r tx.refundReceiver = true
            · rw [if_neg (not_not.mpr hlook)] at h
              cases complete with
              | false => exact absurd h Verdict.not_denies_abstain
              | true => exact ⟨hchain, hzero.1, hzero.2.1, hzero.2.2, hamount,
                  ⟨recipients, hlookup, hlook⟩⟩
            · rw [if_pos hlook] at h
              exact absurd h Verdict.not_denies_abstain
          · intro h
            obtain ⟨recipients', heq, hlook⟩ := h.lookalike
            simp only [hlookup, Option.some.injEq, RecipientLookup.noExactMatch.injEq] at heq
            obtain ⟨rfl, rfl⟩ := heq
            dsimp only
            rw [if_neg (not_not.mpr hlook), if_neg (by decide)]
            exact Verdict.denies_insecure _
    · have hne : ¬ ((0 : U256).val = E.chainId.val) := fun h => hchain (Fin.ext h.symm)
      simp only [hne, not_false_eq_true, if_true]
      exact ⟨fun h => absurd h Verdict.not_denies_abstain, fun h => absurd h.chain hchain⟩

/-! ## 3. Calls without a token effect -/

/-- A plain call whose calldata is none of the calls the later checkers deny for. -/
structure Opaque (A : Abi) (tx : SafeTransaction) : Prop where
  operation : tx.operation = .call
  transfer : A.transferCall.abiDecode tx.data = none
  transferFrom : A.transferFromCall.abiDecode tx.data = none
  approve : A.approveCall.abiDecode tx.data = none
  setApprovalForAll : A.setApprovalForAllCall.abiDecode tx.data = none
  claim : A.claimCall.abiDecode tx.data = none

/-- The selectors of those calls. -/
def effectSelectors : List Selector :=
  [Selectors.transfer, Selectors.transferFrom, Selectors.approve, Selectors.setApprovalForAll,
    Selectors.claim]

theorem opaque_of_startsWith {s : Selector} (hop : tx.operation = .call)
    (hs : startsWith tx.data s = true) (hmem : s ∉ effectSelectors) : Opaque A tx := by
  simp only [effectSelectors, List.mem_cons, List.not_mem_nil, or_false, not_or] at hmem
  obtain ⟨h1, h2, h3, h4, h5⟩ := hmem
  exact ⟨hop, SolCall.abiDecode_eq_none hs h1, SolCall.abiDecode_eq_none hs h2,
    SolCall.abiDecode_eq_none hs h3, SolCall.abiDecode_eq_none hs h4,
    SolCall.abiDecode_eq_none hs h5⟩

theorem opaque_of_nil (hop : tx.operation = .call) (hdata : tx.data = []) : Opaque A tx := by
  constructor <;> simp [hop, hdata, SolCall.abiDecode_nil]

/-- An unlimited allowance is an approval. -/
theorem decodeTokenEffect_unlimited {data : Bytes} {effect : TargetEffect}
    (h : A.decodeTokenEffect data = some effect) (hun : effect.kind.unlimited = true) :
    A.approveCall.abiDecode data ≠ none ∨ A.setApprovalForAllCall.abiDecode data ≠ none := by
  by_contra hnone
  simp only [not_or, not_not] at hnone
  simp only [Abi.decodeTokenEffect, hnone.1, hnone.2, Option.map_none] at h
  cases h1 : A.transferCall.abiDecode data <;> cases h2 : A.transferFromCall.abiDecode data <;>
    cases h3 : A.safeTransferFrom0Call.abiDecode data <;>
    cases h4 : A.safeTransferFrom1Call.abiDecode data <;>
    cases h5 : A.safeTransferFromCall.abiDecode data <;>
    cases h6 : A.safeBatchTransferFromCall.abiDecode data <;>
    simp [h1, h2, h3, h4, h5, h6] at h <;> subst h <;>
    simp [EffectKind.unlimited] at hun

theorem Opaque.not_unlimited (h : Opaque A tx) : ¬ A.Unlimited tx := by
  rintro ⟨effect, heffect, hun⟩
  rw [decodeTargetEffects_single (decodeMultiSendCall_of_call h.operation)] at heffect
  have hmem : effect ∈ (if tx.value ≠ 0 then [⟨tx.to, .valueTransfer tx.value⟩] else []) ++
      (A.decodeTokenEffect tx.data).toList := by
    unfold Abi.decodeCall at heffect
    dsimp only at heffect
    split at heffect
    · exact List.mem_append_left _ heffect
    · exact heffect
  rcases List.mem_append.mp hmem with hvalue | htoken
  · split at hvalue
    · rw [List.mem_singleton.mp hvalue] at hun
      exact absurd hun (by simp [EffectKind.unlimited])
    · exact absurd hvalue (by simp)
  · rcases decodeTokenEffect_unlimited (Option.mem_toList.mp htoken) hun with hne | hne
    · exact hne h.approve
    · exact hne h.setApprovalForAll

theorem Opaque.cowChecker_not_denies (h : Opaque E.abi tx) : ¬ (E.cowChecker tx).Denies := by
  intro hdenies
  obtain ⟨c, hc, ⟨token, amount⟩, happrove⟩ := exists_approval_of_cowChecker_denies hdenies
  rw [subTransactions_of_call h.operation, List.mem_singleton] at hc
  subst hc
  exact absurd (h.approve.symm.trans (vaultRelayerApprovalAmount_eq_some.mp happrove).2.1)
    (by simp)

theorem Opaque.stakingChecker_not_denies (h : Opaque A tx) : ¬ (stakingChecker A tx).Denies := by
  intro hdenies
  obtain ⟨c, hc, ⟨account, hclaim⟩ | ⟨amount, happrove⟩⟩ :=
    exists_call_of_stakingChecker_denies hdenies
  all_goals
    rw [subTransactions_of_call h.operation, List.mem_singleton] at hc
    subst hc
  · exact absurd (h.claim.symm.trans (claimAccount_eq_some.mp hclaim).2.2) (by simp)
  · exact absurd (h.approve.symm.trans (stakingApprovalAmount_eq_some.mp happrove).2.2) (by simp)

theorem decodeTarget_of_delegatecall (h : tx.operation = .delegatecall) :
    decodeTarget A tx = none := by
  simp [decodeTarget, h]

theorem decodeTarget_of_none (h1 : A.transferCall.abiDecode tx.data = none)
    (h2 : A.transferFromCall.abiDecode tx.data = none)
    (h3 : A.approveCall.abiDecode tx.data = none) : decodeTarget A tx = none := by
  simp [decodeTarget, h1, h2, h3]

theorem addressPoisoningChecker_not_denies (h : decodeTarget E.abi tx = none) :
    ¬ (E.addressPoisoningChecker tx ctx).Denies := by
  rw [addressPoisoningChecker_of_no_target h]
  exact Verdict.not_denies_abstain

/-- A target is read from a plain call. -/
theorem operation_of_decodeTarget {target : Address × TargetKind}
    (h : decodeTarget A tx = some target) : tx.operation = .call := by
  by_contra hop
  simp [decodeTarget, hop] at h

end

end Engine

end Safenet
