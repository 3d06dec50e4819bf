/-
# Denials in batches

Three checkers deny single calls and meet batches in three ways: the base checker decodes one
level (`Base.lean`), the excessive-approval checker flattens the batch into the effects its
calls have (`contracts/target_effects.rs`), and the blocklist checker looks at the
transaction's own target and nothing else.

A batch should be denied when one of its sub-calls alone would be.  The first two checkers
do that.  The third denies a batch for the MultiSend contract's sake only, and
`batching_iff` says exactly which batches it lets through.
-/
import Safenet.Engine.Base

namespace Safenet
namespace Engine

/-! ## 1. Target effects -/

/-- `EffectKind`. -/
inductive EffectKind where
  | valueTransfer (amount : U256)
  | erc20Approval (amount : U256)
  | operatorApproval (approved : Bool)
  | erc721Transfer (tokenId : U256)
  | erc1155Transfer (id amount : U256)
  | erc1155BatchTransfer (ids amounts : List U256)
  deriving DecidableEq

/-- `TargetEffect`. -/
structure TargetEffect where
  recipient : Address
  kind : EffectKind
  deriving DecidableEq

/-- The token effect `decode_call` reads from calldata: the first call of its chain that
decodes. -/
def Abi.decodeTokenEffect (A : Abi) (data : Bytes) : Option TargetEffect :=
  ((A.transferCall.abiDecode data).map fun (r, amount) => ⟨r, .valueTransfer amount⟩) <|>
  ((A.transferFromCall.abiDecode data).map fun (_, r, amount) => ⟨r, .valueTransfer amount⟩) <|>
  ((A.approveCall.abiDecode data).map fun (r, amount) => ⟨r, .erc20Approval amount⟩) <|>
  ((A.setApprovalForAllCall.abiDecode data).map fun (r, b) => ⟨r, .operatorApproval b⟩) <|>
  ((A.safeTransferFrom0Call.abiDecode data).map fun (r, id) => ⟨r, .erc721Transfer id⟩) <|>
  ((A.safeTransferFrom1Call.abiDecode data).map fun (r, id) => ⟨r, .erc721Transfer id⟩) <|>
  ((A.safeTransferFromCall.abiDecode data).map fun (r, id, amount) =>
    ⟨r, .erc1155Transfer id amount⟩) <|>
  ((A.safeBatchTransferFromCall.abiDecode data).map fun (r, ids, amounts) =>
    ⟨r, .erc1155BatchTransfer ids amounts⟩)

/-- `decode_call`: a native value transfer, and whatever token effect the calldata has. -/
def Abi.decodeCall (A : Abi) (tx : SafeTransaction) : List TargetEffect :=
  let effects := if tx.value ≠ 0 then [⟨tx.to, .valueTransfer tx.value⟩] else []
  if tx.data = [] then effects else effects ++ (A.decodeTokenEffect tx.data).toList

/-- `decode_target_effects`. -/
def Abi.decodeTargetEffects (A : Abi) (tx : SafeTransaction) : List TargetEffect :=
  match _h : A.decodeMultiSendCall tx with
  | some (subTxs, _) => subTxs.attach.flatMap fun sub => A.decodeTargetEffects sub.val
  | none => A.decodeCall tx
termination_by tx.data.length
decreasing_by exact data_lt_of_decodeMultiSendCall _h sub.property

theorem decodeTargetEffects_batch {A : Abi} {tx : SafeTransaction} {subs : List SafeTransaction}
    {allows : Bool} (h : A.decodeMultiSendCall tx = some (subs, allows)) :
    A.decodeTargetEffects tx = subs.flatMap A.decodeTargetEffects := by
  rw [Abi.decodeTargetEffects]
  split
  case h_1 heq =>
    rw [h, Option.some.injEq, Prod.mk.injEq] at heq
    rw [← heq.1]
    rw [← List.flatMap_map Subtype.val A.decodeTargetEffects, List.attach_map_subtype_val]
  case h_2 heq => exact absurd (h.symm.trans heq) (by simp)

theorem decodeTargetEffects_single {A : Abi} {tx : SafeTransaction}
    (h : A.decodeMultiSendCall tx = none) : A.decodeTargetEffects tx = A.decodeCall tx := by
  rw [Abi.decodeTargetEffects]
  split
  case h_1 heq => exact absurd (h.symm.trans heq) (by simp)
  case h_2 => rfl

/-! ## 2. The two other denying checkers -/

/-- `BlocklistChecker::check`. -/
def blocklistChecker (blocklist : Finset Address) (tx : SafeTransaction) : Verdict :=
  if tx.to ∈ blocklist then .insecure .R4_6KnownMaliciousTarget else .abstain

/-- The effect is a functionally unlimited allowance. -/
def EffectKind.unlimited : EffectKind → Bool
  | .erc20Approval amount => amount = Fin.last (2 ^ 256 - 1)
  | .operatorApproval approved => approved
  | _ => false

/-- `ExcessiveApprovalChecker::check`. -/
def excessiveApprovalChecker (A : Abi) (tx : SafeTransaction) : Verdict :=
  if (A.decodeTargetEffects tx).any fun effect => effect.kind.unlimited then
    .insecure .R4_5ExcessiveApproval
  else .abstain

theorem blocklistChecker_denies_iff {blocklist : Finset Address} {tx : SafeTransaction} :
    (blocklistChecker blocklist tx).Denies ↔ tx.to ∈ blocklist := by
  unfold blocklistChecker
  split <;> simp [*]

/-- Some effect of the transaction is an unlimited allowance. -/
def Abi.Unlimited (A : Abi) (tx : SafeTransaction) : Prop :=
  ∃ effect ∈ A.decodeTargetEffects tx, effect.kind.unlimited = true

theorem excessiveApprovalChecker_denies_iff {A : Abi} {tx : SafeTransaction} :
    (excessiveApprovalChecker A tx).Denies ↔ A.Unlimited tx := by
  unfold excessiveApprovalChecker Abi.Unlimited
  rw [← List.any_eq_true]
  split <;> simp [*]

/-! ## 3. Batches -/

/-- The checker denies every batch with a sub-call it would deny alone. -/
def DeniesBatches (A : Abi) (check : SafeTransaction → Verdict) (tx : SafeTransaction) : Prop :=
  ∀ subs allows, A.decodeMultiSendCall tx = some (subs, allows) →
    ∀ sub ∈ subs, (check sub).Denies → (check tx).Denies

/-- A batch passes the base checks only if each sub-call does. -/
theorem baseChecker_deniesBatches (A : Abi) (tx : SafeTransaction) :
    DeniesBatches A (baseChecker A) tx := by
  intro subs allows h sub hsub
  rw [baseChecker_denies_iff, baseChecker_denies_iff]
  refine mt fun hok => ?_
  obtain ⟨version, payload, b⟩ := decodeMultiSendCall_eq_some.mp h
  have hmulti : checkMultiSend A tx = true := by
    rcases (checkTransaction_of_delegatecall b.operation).mp hok with hdel | hmulti
    · rw [checkDelegateCalls_of_known (knownDeployment_eq_some b.known) rfl] at hdel
      exact absurd hdel (by decide)
    · exact hmulti
  rcases (checkMultiSend_iff h).mp hmulti sub hsub with hcalls | ⟨-, hdel⟩
  · have hop : sub.operation = .call := by
      by_contra hop
      simp [checkCalls, hop] at hcalls
    exact (checkTransaction_of_call hop).mpr hcalls
  · have hop : sub.operation = .delegatecall := by
      by_contra hop
      simp [checkDelegateCalls, hop] at hdel
    exact (checkTransaction_of_delegatecall hop).mpr (.inl hdel)

/-- The effects of a batch are those of its sub-calls, so an unlimited allowance in one of
them is one of the batch. -/
theorem excessiveApprovalChecker_deniesBatches (A : Abi) (tx : SafeTransaction) :
    DeniesBatches A (excessiveApprovalChecker A) tx := by
  intro subs allows h sub hsub
  rw [excessiveApprovalChecker_denies_iff, excessiveApprovalChecker_denies_iff]
  rintro ⟨effect, heffect, hun⟩
  refine ⟨effect, ?_, hun⟩
  rw [decodeTargetEffects_batch h]
  exact List.mem_flatMap.mpr ⟨sub, hsub, heffect⟩

/-- **Denials in batches.**  Of a batch, the base checker and the excessive-approval checker
deny whatever they deny a sub-call for.  The blocklist checker does so exactly when the
MultiSend deployment is itself listed, or no sub-call's target is. -/
theorem batching_iff {A : Abi} {blocklist : Finset Address} {tx : SafeTransaction}
    {subs : List SafeTransaction} {allows : Bool}
    (h : A.decodeMultiSendCall tx = some (subs, allows)) :
    (DeniesBatches A (baseChecker A) tx ∧ DeniesBatches A (blocklistChecker blocklist) tx ∧
        DeniesBatches A (excessiveApprovalChecker A) tx) ↔
      (tx.to ∈ blocklist ∨ ∀ sub ∈ subs, sub.to ∉ blocklist) := by
  constructor
  · rintro ⟨-, hblock, -⟩
    by_cases hto : tx.to ∈ blocklist
    · exact .inl hto
    · refine .inr fun sub hsub hlisted => hto ?_
      exact blocklistChecker_denies_iff.mp
        (hblock subs allows h sub hsub (blocklistChecker_denies_iff.mpr hlisted))
  · intro hcond
    refine ⟨baseChecker_deniesBatches A tx, ?_, excessiveApprovalChecker_deniesBatches A tx⟩
    intro subs' allows' h' sub hsub hdenied
    rw [h, Option.some.injEq, Prod.mk.injEq] at h'
    rw [← h'.1] at hsub
    rcases hcond with hto | hall
    · exact blocklistChecker_denies_iff.mpr hto
    · exact absurd (blocklistChecker_denies_iff.mp hdenied) (hall sub hsub)

/-- A batch that pays one account. -/
def paymentBatch : SafeTransaction :=
  batchOf 0x5afe ⟨0x218543288004CD07832472D464648173c77D7eB7, .v150Plus, true⟩
    [⟨.call, 0xbad, 1, []⟩]

theorem decodeMultiSendCall_paymentBatch :
    Abi.words.decodeMultiSendCall paymentBatch =
      some ([Call.subTransaction 0x5afe .v150Plus ⟨.call, 0xbad, 1, []⟩], true) :=
  decodeMultiSendCall_batchOf 0x5afe (.head _) _ (by simp [Call.pack])

theorem batching_iff_payment :
    (DeniesBatches Abi.words (baseChecker Abi.words) paymentBatch ∧
      DeniesBatches Abi.words (blocklistChecker {0xbad}) paymentBatch ∧
      DeniesBatches Abi.words (excessiveApprovalChecker Abi.words) paymentBatch) ↔
    (paymentBatch.to ∈ ({0xbad} : Finset Address) ∨
      ∀ sub ∈ [Call.subTransaction 0x5afe .v150Plus ⟨.call, 0xbad, 1, []⟩],
        sub.to ∉ ({0xbad} : Finset Address)) :=
  batching_iff decodeMultiSendCall_paymentBatch

/-- The blocklist checker lets the payment of a listed account through in a batch, and denies
it alone. -/
theorem payment_not_denied :
    ¬ (DeniesBatches Abi.words (baseChecker Abi.words) paymentBatch ∧
      DeniesBatches Abi.words (blocklistChecker {0xbad}) paymentBatch ∧
      DeniesBatches Abi.words (excessiveApprovalChecker Abi.words) paymentBatch) := by
  rintro ⟨-, hblock, -⟩
  have hdenied := hblock _ _ decodeMultiSendCall_paymentBatch _ (.head _)
    (blocklistChecker_denies_iff.mpr (by decide))
  exact absurd (blocklistChecker_denies_iff.mp hdenied) (by decide)

end Engine

end Safenet
