/-
# Orders and the approvals for them

The CoW checker affirms two shapes of batches: an approval of the relayer together with a TWAP order,
whose terms are in the calldata, and one together with a presignature, whose order is fetched.  Here
both are said in plain arithmetic.  The bound on a TWAP's approval is computed with a checked product
and saturating sums, and is the bound over the integers none the less (`twap_bound_iff`): an approval
is a 256-bit number, so a sum that saturates is no bound at all.

An approval can be nothing else, so a pair of calls reads one way at most, and the order of the two
calls does not matter (`cowChecker_swap`).
-/
import Safenet.Engine.Patterns

namespace Safenet
namespace Engine

section
variable {A : Abi} {E : Services} {tx tx' approval twap presig first second : SafeTransaction}

/-! ## 1. A pair reads one way -/

/-- The pair is an approval of the relayer, and the creation of a TWAP order with these terms. -/
structure TwapPair (A : Abi) (approval twap : SafeTransaction) (token : Address) (amount : U256)
    (order : TwapData) : Prop where
  approval : vaultRelayerApprovalAmount A approval = some (token, amount)
  created : isTwapCreate A twap = true
  order : ∃ create, A.createWithContextCall.abiDecode twap.data = some create ∧
    A.twapData create.staticInput = some order

/-- The pair is an approval of the relayer, and the presignature of an order. -/
structure PresignaturePair (A : Abi) (approval presig : SafeTransaction) (token : Address)
    (amount : U256) (uid : Bytes) : Prop where
  approval : vaultRelayerApprovalAmount A approval = some (token, amount)
  presigned : presignatureOrderUid A presig = some uid

theorem isTwapCreate_iff {create : CreateWithContext}
    (h : A.createWithContextCall.abiDecode twap.data = some create) :
    isTwapCreate A twap = true ↔ valueless twap = true ∧ twap.to = composableCow ∧
      create.handler = twapHandler ∧ create.factory = currentBlockTimestampFactory := by
  simp [isTwapCreate, h, and_assoc]

theorem to_of_isTwapCreate (h : isTwapCreate A twap = true) : twap.to = composableCow := by
  simp only [isTwapCreate, Bool.and_eq_true, decide_eq_true_eq] at h
  exact h.1.2

/-- The terms of a created order are recognised when the total fits a word. -/
theorem TwapPair.terms {token : Address} {amount : U256} {order : TwapData}
    (h : TwapPair A approval twap token amount order)
    (terms : Address × Address × U256 × U256) :
    twapOrderTerms A twap = some terms ↔ ∃ hlt : order.partSellAmount.val * order.n.val < 2 ^ 256,
      terms = (order.sellToken, order.receiver, ⟨_, hlt⟩, order.n) := by
  obtain ⟨create, hdecode, hdata⟩ := h.order
  obtain ⟨hvalueless, hto, hhandler, hfactory⟩ := (isTwapCreate_iff hdecode).mp h.created
  have hcall : ¬ (¬ valueless twap ∨ twap.to ≠ composableCow) := by
    rw [not_or, not_not, not_not]
    exact ⟨hvalueless, hto⟩
  have hcreate : ¬ (create.handler ≠ twapHandler ∨ create.factory ≠ currentBlockTimestampFactory) := by
    rw [not_or, not_not, not_not]
    exact ⟨hhandler, hfactory⟩
  unfold twapOrderTerms
  rw [if_neg hcall]
  simp only [hdecode, Option.bind_eq_bind, Option.bind_some, if_neg hcreate, hdata]
  split
  · rename_i hlt
    rw [Option.some.injEq]
    exact ⟨fun heq => ⟨hlt, heq.symm⟩, fun ⟨_, heq⟩ => heq.symm⟩
  · rename_i hlt
    exact ⟨fun heq => absurd heq (by simp), fun ⟨hlt', _⟩ => absurd hlt' hlt⟩

/-- A pair with a TWAP order has the orders that its terms give. -/
theorem TwapPair.secure_iff {token : Address} {amount : U256} {order : TwapData} {safe : Address}
    (h : TwapPair A approval twap token amount order) :
    TwapOrder A safe approval twap ↔ order.partSellAmount.val * order.n.val < 2 ^ 256 ∧
      token = order.sellToken ∧ (order.receiver = safe ∨ order.receiver = 0) ∧
      amount.val ≤ order.partSellAmount.val * order.n.val + (order.n.val - 1) := by
  have hsat : ∀ m : Nat, amount.val ≤ min m (2 ^ 256 - 1) ↔ amount.val ≤ m := by
    intro m
    have hlt := amount.isLt
    omega
  constructor
  · rintro ⟨token', amount', receiver, total, n, happroval, hterms, hreceiver, hbound⟩
    rw [h.approval, Option.some.injEq, Prod.mk.injEq] at happroval
    obtain ⟨rfl, rfl⟩ := happroval
    obtain ⟨hlt, heq⟩ := (h.terms _).mp hterms
    obtain ⟨rfl, rfl, rfl, rfl⟩ := by simpa only [Prod.mk.injEq] using heq
    exact ⟨hlt, rfl, hreceiver, (hsat _).mp hbound⟩
  · rintro ⟨hlt, rfl, hreceiver, hbound⟩
    exact ⟨_, _, _, _, _, h.approval, (h.terms _).mpr ⟨hlt, rfl⟩, hreceiver, (hsat _).mpr hbound⟩

/-- A pair with a TWAP order has no other reading. -/
theorem TwapPair.unique {token : Address} {amount : U256} {order : TwapData}
    (h : TwapPair E.abi approval twap token amount order) (safe : Address) (chainId : U256) :
    ¬ E.PresignedOrder safe chainId approval twap ∧ ¬ E.PresignedOrder safe chainId twap approval ∧
      ¬ TwapOrder E.abi safe twap approval := by
  refine ⟨?_, ?_, ?_⟩
  · rintro ⟨_, _, _, uid, _, -, -, hpresig, -⟩
    have hto := (presignatureOrderUid_eq_some.mp hpresig).2.1
    rw [to_of_isTwapCreate h.created] at hto
    exact absurd hto (by decide)
  · rintro ⟨_, _, _, uid, _, -, -, hpresig, -⟩
    exact absurd ((presignatureOrderUid_of_approval h.approval).symm.trans hpresig) (by simp)
  · rintro ⟨_, _, _, _, _, -, hterms, -⟩
    exact absurd ((twapOrderTerms_of_approval h.approval).symm.trans hterms) (by simp)

/-- A pair with a presignature has no other reading. -/
theorem PresignaturePair.unique {token : Address} {amount : U256} {uid : Bytes}
    (h : PresignaturePair E.abi approval presig token amount uid) (safe : Address)
    (chainId : U256) :
    ¬ E.PresignedOrder safe chainId presig approval ∧ ¬ TwapOrder E.abi safe approval presig ∧
      ¬ TwapOrder E.abi safe presig approval := by
  refine ⟨?_, ?_, ?_⟩
  · rintro ⟨_, _, _, uid', _, -, -, hpresig, -⟩
    exact absurd ((presignatureOrderUid_of_approval h.approval).symm.trans hpresig) (by simp)
  · rintro ⟨_, _, _, _, _, -, hterms, -⟩
    exact absurd ((presignatureOrderUid_of_twap hterms).symm.trans h.presigned) (by simp)
  · rintro ⟨_, _, _, _, _, -, hterms, -⟩
    exact absurd ((twapOrderTerms_of_approval h.approval).symm.trans hterms) (by simp)

/-- The fetched order is the presigned one, pays the Safe, and is what is approved. -/
theorem PresignaturePair.secure_iff {token : Address} {amount : U256} {uid : Bytes} {safe : Address}
    {chainId : U256} (h : PresignaturePair E.abi approval presig token amount uid) :
    E.PresignedOrder safe chainId approval presig ↔ ∃ baseUrl order,
      orderApiBaseUrl chainId = some baseUrl ∧ E.fetchOrder baseUrl uid = some order ∧
      E.computeOrderUid chainId order = uid ∧ token = order.sellToken ∧ amount = order.sellAmount ∧
      order.effectiveReceiver = safe := by
  constructor
  · rintro ⟨baseUrl, token', amount', uid', order, hurl, happroval, hpresig, hfetch, huid, hreceiver,
      htoken, hamount⟩
    rw [h.approval, Option.some.injEq, Prod.mk.injEq] at happroval
    rw [h.presigned, Option.some.injEq] at hpresig
    obtain ⟨rfl, rfl⟩ := happroval
    obtain rfl := hpresig
    exact ⟨baseUrl, order, hurl, hfetch, huid.symm, htoken, hamount, hreceiver⟩
  · rintro ⟨baseUrl, order, hurl, hfetch, huid, htoken, hamount, hreceiver⟩
    exact ⟨baseUrl, token, amount, uid, order, hurl, h.approval, h.presigned, hfetch, huid.symm,
      hreceiver, htoken, hamount⟩

/-! ## 2. The order of the calls -/

/-- Two readings of which one at most exists may be tried in either order. -/
theorem or_comm_of_none {α : Type} {a b : Option α} (h : a = none ∨ b = none) : a.or b = b.or a := by
  rcases h with rfl | rfl
  · rw [Option.none_or, Option.or_none]
  · rw [Option.none_or, Option.or_none]

theorem decodeApprovalAndPresignature_none (first second : SafeTransaction) :
    decodeApprovalAndPresignature A first second = none ∨
      decodeApprovalAndPresignature A second first = none := by
  cases h : vaultRelayerApprovalAmount A first with
  | none => exact .inl (by simp [decodeApprovalAndPresignature, h])
  | some approved =>
    refine .inr ?_
    simp [decodeApprovalAndPresignature, presignatureOrderUid_of_approval h]

theorem decodeApprovalAndTwap_none (first second : SafeTransaction) :
    decodeApprovalAndTwap A first second = none ∨ decodeApprovalAndTwap A second first = none := by
  cases h : vaultRelayerApprovalAmount A first with
  | none => exact .inl (by simp [decodeApprovalAndTwap, h])
  | some approved =>
    refine .inr ?_
    simp [decodeApprovalAndTwap, twapOrderTerms_of_approval h]

/-- **Swapping the two calls of a batch changes no verdict.** -/
theorem cowChecker_swap (hsafe : tx'.safe = tx.safe) (hchain : tx'.chainId = tx.chainId)
    (htx : E.abi.subTransactions tx = [first, second])
    (htx' : E.abi.subTransactions tx' = [second, first]) : E.cowChecker tx' = E.cowChecker tx := by
  have hdangling : checkDanglingApproval E.abi [second, first] =
      checkDanglingApproval E.abi [first, second] := by
    have hany : ∀ p : SafeTransaction → Bool, [second, first].any p = [first, second].any p := by
      intro p
      simp only [List.any_cons, List.any_nil, Bool.or_false]
      exact Bool.or_comm _ _
    simp only [checkDanglingApproval, hany]
  have hpresig : E.checkPresignatureBatch tx.safe tx.chainId [second, first] =
      E.checkPresignatureBatch tx.safe tx.chainId [first, second] := by
    simp only [Services.checkPresignatureBatch,
      or_comm_of_none (decodeApprovalAndPresignature_none (A := E.abi) second first)]
  have htwap : checkTwapBatch E.abi tx.safe [second, first] =
      checkTwapBatch E.abi tx.safe [first, second] := by
    simp only [checkTwapBatch,
      or_comm_of_none (decodeApprovalAndTwap_none (A := E.abi) second first)]
  unfold Services.cowChecker
  rw [hsafe, hchain, htx, htx']
  dsimp only
  rw [hdangling, hpresig, htwap]

/-! ## 3. What the checker affirms -/

/-- Over the integers: at most the order's total, and less than one part more. -/
theorem twap_bound_iff (approved p n : Nat) (hn : 0 < n) :
    approved ≤ p * n + max n 1 - 1 ↔ approved / n ≤ p := by
  rw [max_eq_left hn, ← Nat.lt_succ_iff (n := p), Nat.div_lt_iff_lt_mul hn, Nat.succ_mul]
  omega

end

/-- What the checker affirms of batches of two, whatever the order API answers. -/
structure CowExact (E : Services) : Prop where
  /-- An approval and a TWAP order, in either order. -/
  twap : ∀ (tx first second approval twap : SafeTransaction) token amount order,
    tx.chainId ∈ supportedChainIds → E.abi.subTransactions tx = [first, second] →
    (approval, twap) = (first, second) ∨ (approval, twap) = (second, first) →
    TwapPair E.abi approval twap token amount order →
      (E.cowChecker tx = .secure ↔
        order.partSellAmount.val * order.n.val < 2 ^ 256 ∧ token = order.sellToken ∧
        (order.receiver = tx.safe ∨ order.receiver = 0) ∧
        amount.val ≤ order.partSellAmount.val * order.n.val + max order.n.val 1 - 1) ∧
      (0 < order.n.val →
        (amount.val ≤ order.partSellAmount.val * order.n.val + max order.n.val 1 - 1 ↔
          amount.val / order.n.val ≤ order.partSellAmount.val))
  /-- An approval and a presignature, in either order. -/
  presignature : ∀ (tx first second approval presig : SafeTransaction) token amount uid,
    tx.chainId ∈ supportedChainIds → E.abi.subTransactions tx = [first, second] →
    (approval, presig) = (first, second) ∨ (approval, presig) = (second, first) →
    PresignaturePair E.abi approval presig token amount uid →
      (E.cowChecker tx = .secure ↔ ∃ baseUrl order, orderApiBaseUrl tx.chainId = some baseUrl ∧
        E.fetchOrder baseUrl uid = some order ∧ E.computeOrderUid tx.chainId order = uid ∧
        token = order.sellToken ∧ amount = order.sellAmount ∧ order.effectiveReceiver = tx.safe)
  /-- Any two calls, in either order. -/
  swap : ∀ tx tx' first second : SafeTransaction, tx'.safe = tx.safe → tx'.chainId = tx.chainId →
    E.abi.subTransactions tx = [first, second] → E.abi.subTransactions tx' = [second, first] →
      E.cowChecker tx' = E.cowChecker tx

/-- What a batch of two is affirmed for, read from one of its calls to the other. -/
theorem cowChecker_pair_iff {E : Services} {tx first second a b : SafeTransaction}
    (hchain : tx.chainId ∈ supportedChainIds) (htx : E.abi.subTransactions tx = [first, second])
    (hpair : (a, b) = (first, second) ∨ (a, b) = (second, first)) :
    E.cowChecker tx = .secure ↔ E.PresignedOrder tx.safe tx.chainId a b ∨
      E.PresignedOrder tx.safe tx.chainId b a ∨ TwapOrder E.abi tx.safe a b ∨
      TwapOrder E.abi tx.safe b a := by
  rw [cowChecker_secure_iff, Services.CowOrderBatch, htx]
  simp only [List.cons.injEq, and_true, hchain, true_and]
  rcases hpair with heq | heq
  all_goals
    rw [Prod.mk.injEq] at heq
    obtain ⟨rfl, rfl⟩ := heq
    constructor
    · rintro ⟨f, s, ⟨rfl, rfl⟩, h⟩
      tauto
    · intro h
      exact ⟨_, _, ⟨rfl, rfl⟩, by tauto⟩

/-- **The CoW checker is exact** on an approval with an order. -/
theorem cow_exact (E : Services) : CowExact E := by
  refine ⟨?_, ?_, fun tx tx' first second hsafe hchain htx htx' =>
    cowChecker_swap hsafe hchain htx htx'⟩
  · intro tx first second approval twap token amount order hchain htx hpair h
    refine ⟨?_, twap_bound_iff _ _ _⟩
    obtain ⟨h1, h2, h3⟩ := h.unique tx.safe tx.chainId
    have hmax : order.partSellAmount.val * order.n.val + max order.n.val 1 - 1 =
        order.partSellAmount.val * order.n.val + (order.n.val - 1) := by omega
    rw [cowChecker_pair_iff hchain htx hpair, hmax, ← h.secure_iff]
    tauto
  · intro tx first second approval presig token amount uid hchain htx hpair h
    obtain ⟨h1, h2, h3⟩ := h.unique tx.safe tx.chainId
    rw [cowChecker_pair_iff hchain htx hpair, ← h.secure_iff]
    tauto

end Engine

end Safenet
