/-
# The base guarantees

`checkers/base.rs`: a Safe may call other contracts freely, may call itself only to
administrate its settings, and may delegatecall only the listed functions of the listed
contracts, or a MultiSend batch of such calls.

The check reads the decoded batch.  What the Safe really does is up to the deployed MultiSend
contract, which reads the packed bytes itself.  `Executes` flattens a transaction with the
contract's loop, batches in batches included, and `checkTransaction_sound` says that every
call it can reach from an accepted transaction is allowed.
-/
import Safenet.Engine.MultiSend

namespace Safenet
namespace Engine

/-! ## 1. Verdicts -/

/-- `RuleId`: the Charter rule a denial cites. -/
inductive RuleId where
  | R4_1SettingsChange
  | R4_2DelegatecallIntegrity
  | R4_6KnownMaliciousTarget
  | R4_5ExcessiveApproval
  | R4_3ValueTarget
  | R4_4AuthorizationTarget
  deriving DecidableEq

/-- `Verdict`. -/
inductive Verdict where
  | secure
  | insecure (rule : RuleId)
  | abstain
  deriving DecidableEq

/-- The verdict is a denial. -/
def Verdict.Denies (v : Verdict) : Prop := ∃ rule, v = .insecure rule

@[simp] theorem Verdict.denies_insecure (rule : RuleId) : (Verdict.insecure rule).Denies :=
  ⟨rule, rfl⟩

@[simp] theorem Verdict.not_denies_abstain : ¬ Verdict.abstain.Denies := by
  rintro ⟨rule, h⟩
  exact absurd h (by simp)

@[simp] theorem Verdict.not_denies_secure : ¬ Verdict.secure.Denies := by
  rintro ⟨rule, h⟩
  exact absurd h (by simp)

/-! ## 2. The allow lists -/

/-- `SUPPORTED_FALLBACK_HANDLERS`. -/
def supportedFallbackHandlers : List Address :=
  [0, 0x85a8ca358D388530ad0fB95D0cb89Dd44Fc242c3, 0x2f55e8b20D0B9FEFA187AA7d00B6Cbe563605bF5,
   0x3EfCBb83A4A7AfcB4F68D501E2c2203a38be77f4, 0xfd0732Dc9E303f09fCEf3a7388Ad10A83459Ec99,
   0xf48f2B2d2a534e402487b3ee7C18c33Aec0Fe5e4, 0x017062a1dE2FE6b99BE3d9d37841FeD19F573804]

/-- `SUPPORTED_GUARDS`. -/
def supportedGuards : List Address := [0]

/-- `SUPPORTED_MODULES`. -/
def supportedModules : List Address :=
  [0x691f59471Bfd2B7d639DCF74671a2d648ED1E331, 0x4Aa5Bf7D840aC607cb5BD3249e6Af6FC86C04897]

/-- `SUPPORTED_MODULE_GUARDS`. -/
def supportedModuleGuards : List Address := [0]

/-- `MIGRATION_CONTRACTS`. -/
def migrationContracts : List Address :=
  [0x6439e7ABD8Bb915A5263094784C5CF561c4172AC, 0x526643F69b81B008F46d95CD5ced5eC0edFFDaC6]

/-- `SIGN_MESSAGE_LIBS`. -/
def signMessageLibs : List Address :=
  [0xA65387F16B013cf2Af4605Ad8aA5ec25a2cbA3a2, 0x98FFBBF51bb33A056B08ddf711f289936AafF717,
   0xd53cd0aB83D845Ac265BE939c57F53AD838012c9, 0x4FfeF8222648872B3dE295Ba1e49110E61f5b5aa]

/-- `CREATE_CALL_CONTRACTS`. -/
def createCallContracts : List Address :=
  [0x7cbB62EaA69F79e6873cD1ecB2392971036cFAa4, 0xB19D6FFc2182150F8Eb585b79D4ABcd7C5640A9d,
   0x9b35Af71d77eaf8d7e40252370304687390A1A52, 0x2Ef5ECfbea521449E4De05EDB1ce63B75eDA90B4]

open Selectors

/-! ## 3. The checks -/

/-- `check_self_calls`. -/
def checkSelfCalls (A : Abi) (tx : SafeTransaction) : Bool :=
  if startsWith tx.data addOwnerWithThreshold then true
  else if startsWith tx.data removeOwner then true
  else if startsWith tx.data swapOwner then true
  else if startsWith tx.data changeThreshold then true
  else if startsWith tx.data disableModule then true
  else if startsWith tx.data A.setFallbackHandlerCall.selector then
    (A.setFallbackHandlerCall.abiDecode tx.data).any (· ∈ supportedFallbackHandlers)
  else if startsWith tx.data A.setGuardCall.selector then
    (A.setGuardCall.abiDecode tx.data).any (· ∈ supportedGuards)
  else if startsWith tx.data A.enableModuleCall.selector then
    (A.enableModuleCall.abiDecode tx.data).any (· ∈ supportedModules)
  else if startsWith tx.data A.setModuleGuardCall.selector then
    (A.setModuleGuardCall.abiDecode tx.data).any (· ∈ supportedModuleGuards)
  else false

/-- `check_calls`. -/
def checkCalls (A : Abi) (tx : SafeTransaction) : Bool :=
  if tx.operation ≠ .call then false
  else if tx.safe ≠ tx.to then true
  -- an empty self-call is the way a nonce is cancelled
  else if tx.data = [] then true
  else checkSelfCalls A tx

/-- `check_delegate_calls`. -/
def checkDelegateCalls (tx : SafeTransaction) : Bool :=
  if tx.operation ≠ .delegatecall then false
  else if tx.to ∈ migrationContracts then
    startsWith tx.data migrateSingleton || startsWith tx.data migrateWithFallbackHandler ||
      startsWith tx.data migrateL2Singleton || startsWith tx.data migrateL2WithFallbackHandler
  else if tx.to ∈ signMessageLibs then startsWith tx.data signMessage
  else if tx.to ∈ createCallContracts then
    startsWith tx.data performCreate || startsWith tx.data performCreate2
  else false

/-- `check_multi_send`. -/
def checkMultiSend (A : Abi) (tx : SafeTransaction) : Bool :=
  match A.decodeMultiSendCall tx with
  | none => false
  | some (subTxs, allowsDelegateCalls) =>
    subTxs.all fun subTx => checkCalls A subTx || (allowsDelegateCalls && checkDelegateCalls subTx)

/-- `check_settings_change`. -/
def checkSettingsChange (A : Abi) (tx : SafeTransaction) : Option (Except RuleId Unit) :=
  if tx.operation ≠ .call then none
  else some (if checkCalls A tx then .ok () else .error .R4_1SettingsChange)

/-- `check_delegatecall_integrity`. -/
def checkDelegatecallIntegrity (A : Abi) (tx : SafeTransaction) : Option (Except RuleId Unit) :=
  if tx.operation ≠ .delegatecall then none
  else some (if checkDelegateCalls tx || checkMultiSend A tx then .ok ()
    else .error .R4_2DelegatecallIntegrity)

/-- `check_transaction`. -/
def checkTransaction (A : Abi) (tx : SafeTransaction) : Except RuleId Unit :=
  ((checkSettingsChange A tx).or (checkDelegatecallIntegrity A tx)).getD
    (.error .R4_1SettingsChange)

/-- `BaseChecker::check`. -/
def baseChecker (A : Abi) (tx : SafeTransaction) : Verdict :=
  match checkTransaction A tx with
  | .ok () => .abstain
  | .error rule => .insecure rule

theorem checkTransaction_of_call {A : Abi} {tx : SafeTransaction} (h : tx.operation = .call) :
    checkTransaction A tx = .ok () ↔ checkCalls A tx = true := by
  simp [checkTransaction, checkSettingsChange, h]

theorem checkTransaction_of_delegatecall {A : Abi} {tx : SafeTransaction}
    (h : tx.operation = .delegatecall) :
    checkTransaction A tx = .ok () ↔
      checkDelegateCalls tx = true ∨ checkMultiSend A tx = true := by
  have hsettings : checkSettingsChange A tx = none := by simp [checkSettingsChange, h]
  simp only [checkTransaction, checkDelegatecallIntegrity, hsettings, h, ne_eq, not_true_eq_false,
    if_false, Option.none_or, Option.getD_some, ← Bool.or_eq_true]
  split <;> simp [*]

/-- What an accepted single call is: the two guarantees without the batches. -/
theorem checkCalls_or_checkDelegateCalls {A : Abi} {tx : SafeTransaction}
    (h : checkTransaction A tx = .ok ()) (hbatch : checkMultiSend A tx = false) :
    checkCalls A tx = true ∨ checkDelegateCalls tx = true := by
  cases hop : tx.operation with
  | call => exact .inl ((checkTransaction_of_call hop).mp h)
  | delegatecall =>
    rcases (checkTransaction_of_delegatecall hop).mp h with h | h
    · exact .inr h
    · rw [hbatch] at h
      exact absurd h (by decide)

theorem baseChecker_denies_iff {A : Abi} {tx : SafeTransaction} :
    (baseChecker A tx).Denies ↔ checkTransaction A tx ≠ .ok () := by
  unfold baseChecker
  split <;> simp [*]

/-- The base checker never affirms. -/
theorem baseChecker_ne_secure (A : Abi) (tx : SafeTransaction) : baseChecker A tx ≠ .secure := by
  unfold baseChecker
  split <;> simp

/-- The checks of a batch, sub-call by sub-call. -/
theorem checkMultiSend_iff {A : Abi} {tx : SafeTransaction} {subs : List SafeTransaction}
    {allows : Bool} (h : A.decodeMultiSendCall tx = some (subs, allows)) :
    checkMultiSend A tx = true ↔ ∀ sub ∈ subs,
      checkCalls A sub = true ∨ allows = true ∧ checkDelegateCalls sub = true := by
  simp [checkMultiSend, h]

/-- No deployment of MultiSend is on the delegatecall lists. -/
theorem checkDelegateCalls_of_known {tx : SafeTransaction} {d : Deployment}
    (hd : d ∈ deployments) (haddr : d.address = tx.to) : checkDelegateCalls tx = false := by
  have hlists : ∀ d ∈ deployments, d.address ∉ migrationContracts ∧
      d.address ∉ signMessageLibs ∧ d.address ∉ createCallContracts := by decide
  obtain ⟨h1, h2, h3⟩ := hlists d hd
  rw [haddr] at h1 h2 h3
  simp [checkDelegateCalls, h1, h2, h3]

/-! ## 4. What is allowed -/

/-- The functions a Safe may call on itself whatever their arguments. -/
def ownerFunctions : List Selector :=
  [addOwnerWithThreshold, removeOwner, swapOwner, changeThreshold, disableModule]

/-- The calls a Safe may make to itself: receiving value, managing its owners, and setting a
handler, a guard or a module that is supported. -/
inductive AdminCall (A : Abi) : Bytes → Prop
  | receive : AdminCall A []
  | owners {data : Bytes} {s : Selector} : s ∈ ownerFunctions → startsWith data s = true →
      AdminCall A data
  | fallbackHandler {data : Bytes} {handler : Address} :
      A.setFallbackHandlerCall.abiDecode data = some handler →
      handler ∈ supportedFallbackHandlers → AdminCall A data
  | guard {data : Bytes} {guard : Address} : A.setGuardCall.abiDecode data = some guard →
      guard ∈ supportedGuards → AdminCall A data
  | module {data : Bytes} {mod : Address} : A.enableModuleCall.abiDecode data = some mod →
      mod ∈ supportedModules → AdminCall A data
  | moduleGuard {data : Bytes} {guard : Address} :
      A.setModuleGuardCall.abiDecode data = some guard → guard ∈ supportedModuleGuards →
      AdminCall A data

/-- The contracts a Safe may delegatecall, with the functions it may call there. -/
def delegateAllowList : List (List Address × List Selector) :=
  [(migrationContracts, [migrateSingleton, migrateWithFallbackHandler, migrateL2Singleton,
      migrateL2WithFallbackHandler]),
   (signMessageLibs, [signMessage]),
   (createCallContracts, [performCreate, performCreate2])]

/-- A call the base guarantees allow the Safe. -/
structure Allowed (A : Abi) (safe : Address) (c : Call) : Prop where
  delegate : c.operation = .delegatecall → ∃ e ∈ delegateAllowList, c.to ∈ e.1 ∧
    ∃ s ∈ e.2, startsWith c.data s = true
  selfCall : c.operation = .call → c.to = safe → AdminCall A c.data
  notNested : c.operation = .delegatecall → ∀ d ∈ deployments, d.address ≠ c.to

theorem adminCall_of_checkSelfCalls {A : Abi} {tx : SafeTransaction}
    (h : checkSelfCalls A tx = true) : AdminCall A tx.data := by
  unfold checkSelfCalls at h
  split_ifs at h with h1 h2 h3 h4 h5
  · exact .owners (by simp [ownerFunctions]) h1
  · exact .owners (by simp [ownerFunctions]) h2
  · exact .owners (by simp [ownerFunctions]) h3
  · exact .owners (by simp [ownerFunctions]) h4
  · exact .owners (by simp [ownerFunctions]) h5
  all_goals
    obtain ⟨a, ha, hmem⟩ := (Option.any_eq_true _ _).mp h
    rw [decide_eq_true_eq] at hmem
  · exact .fallbackHandler ha hmem
  · exact .guard ha hmem
  · exact .module ha hmem
  · exact .moduleGuard ha hmem

theorem allowed_of_checkCalls {A : Abi} {tx : SafeTransaction} (h : checkCalls A tx = true) :
    Allowed A tx.safe (callOf tx) := by
  unfold checkCalls at h
  split_ifs at h with hop hself hdata
  all_goals rw [not_not] at hop
  · exact ⟨fun h => absurd (hop.symm.trans h) (by decide), fun _ hto => absurd hto.symm hself,
      fun h => absurd (hop.symm.trans h) (by decide)⟩
  · exact ⟨fun h => absurd (hop.symm.trans h) (by decide),
      fun _ _ => by rw [callOf, hdata]; exact .receive,
      fun h => absurd (hop.symm.trans h) (by decide)⟩
  · exact ⟨fun h => absurd (hop.symm.trans h) (by decide),
      fun _ _ => adminCall_of_checkSelfCalls h,
      fun h => absurd (hop.symm.trans h) (by decide)⟩

theorem allowed_of_checkDelegateCalls {A : Abi} {tx : SafeTransaction}
    (h : checkDelegateCalls tx = true) : Allowed A tx.safe (callOf tx) := by
  have hop : tx.operation = .delegatecall := by
    by_contra hop
    simp [checkDelegateCalls, hop] at h
  refine ⟨fun _ => ?_, fun hcall => absurd (hop.symm.trans hcall) (by decide),
    fun _ d hd haddr => ?_⟩
  · unfold checkDelegateCalls at h
    split_ifs at h with hne h1 h2 h3
    · exact ⟨_, .head _, h1, by simpa [callOf, or_assoc] using h⟩
    · exact ⟨_, .tail _ (.head _), h2, by simpa [callOf] using h⟩
    · exact ⟨_, .tail _ (.tail _ (.head _)), h3, by simpa [callOf] using h⟩
  · rw [checkDelegateCalls_of_known hd haddr] at h
    exact absurd h (by decide)

/-! ## 5. What the Safe executes -/

/-- The call is a delegatecall to a deployment of MultiSend, with a payload. -/
structure Sends (A : Abi) (c : Call) (d : Deployment) (payload : Bytes) : Prop where
  operation : c.operation = .delegatecall
  deployed : d ∈ deployments
  address : d.address = c.to
  data : A.multiSendCall.abiDecode c.data = some payload

/-- The calls `safe` makes for a call: the call itself, or, where it sends a payload to
MultiSend, the calls the contract's loop issues, and what these send in turn.  Every state of
the memory after the payload is one the contract may find. -/
inductive Executes (A : Abi) (safe : Address) : Call → Call → Prop
  | itself {c : Call} : (∀ d payload, ¬ Sends A c d payload) → Executes A safe c c
  | issued {c sub : Call} {d : Deployment} {payload : Bytes} (m : PayloadMemory payload) :
      Sends A c d payload → Issues d safe m.byte payload.length 0x20 sub → Executes A safe c sub
  | nested {c sub c' : Call} {d : Deployment} {payload : Bytes} (m : PayloadMemory payload) :
      Sends A c d payload → Issues d safe m.byte payload.length 0x20 sub →
      Executes A safe sub c' → Executes A safe c c'

/-- Memory that holds nothing after the payload. -/
def PayloadMemory.zeros (payload : Bytes) : PayloadMemory payload where
  byte i := payload.getD (i - 0x20) 0
  byte_payload k h := by
    rw [Nat.add_sub_cancel_left, List.getD_eq_getElem _ _ h]

/-- The Safe executes every sub-call of a batch the deployment does not revert on. -/
theorem Batch.executes {A : Abi} {tx sub : SafeTransaction} {version : MultiSendVersion}
    {allows : Bool} {payload : Bytes} {subs : List SafeTransaction}
    (b : Batch A tx version allows payload subs)
    (hallow : ∀ sub ∈ subs, sub.operation = .delegatecall → allows = true) (hsub : sub ∈ subs) :
    Executes A tx.safe (callOf tx) (callOf sub) := by
  have husize := A.multiSend_usize _ _
    ((if_pos (SolCall.startsWith_of_abiDecode b.data)).symm.trans b.data)
  refine .issued (d := ⟨tx.to, version, allows⟩) (PayloadMemory.zeros payload)
    ⟨b.operation, knownDeployment_eq_some b.known, rfl, b.data⟩ ?_
  exact (issues_iff (k := 0) _ husize b.subs hallow (Nat.zero_le _) _).mpr ⟨sub, hsub, rfl⟩

/-- An allowed call sends nothing to MultiSend, so the Safe executes just that call. -/
theorem Allowed.executes {A : Abi} {safe : Address} {c c' : Call} (h : Allowed A safe c)
    (he : Executes A safe c c') : c' = c := by
  cases he with
  | itself _ => rfl
  | issued m hs _ => exact absurd hs.address (h.notNested hs.operation _ hs.deployed)
  | nested m hs _ _ => exact absurd hs.address (h.notNested hs.operation _ hs.deployed)

/-- Each call the contract issues for an accepted batch is allowed. -/
theorem allowed_of_issues {A : Abi} {tx : SafeTransaction} {d : Deployment} {payload : Bytes}
    (h : checkTransaction A tx = .ok ()) (hs : Sends A (callOf tx) d payload)
    (m : PayloadMemory payload) {c : Call}
    (hc : Issues d tx.safe m.byte payload.length 0x20 c) : Allowed A tx.safe c := by
  have hmulti : checkMultiSend A tx = true := by
    rcases (checkTransaction_of_delegatecall hs.operation).mp h with h | h
    · rw [checkDelegateCalls_of_known hs.deployed hs.address] at h
      exact absurd h (by decide)
    · exact h
  have hknown : knownDeployment tx.to = some (d.version, d.allowsDelegateCalls) := by
    have haddr : d.address = tx.to := hs.address
    rw [← haddr]
    exact knownDeployment_of_mem hs.deployed
  -- the check passes on decoded batches only, so the payload decodes
  obtain ⟨subs, hsubs⟩ : ∃ subs, decodeMultiSend tx.safe d.version payload = some subs := by
    by_contra hnone
    rw [← Option.isSome_iff_exists, Option.not_isSome_iff_eq_none] at hnone
    have hdec : A.decodeMultiSendCall tx = none := by
      by_contra hsome
      obtain ⟨⟨subs, allows⟩, hdec⟩ := Option.ne_none_iff_exists'.mp hsome
      obtain ⟨version, payload', b⟩ := decodeMultiSendCall_eq_some.mp hdec
      have hv := hknown.symm.trans b.known
      have hp : payload = payload' := Option.some.inj (hs.data.symm.trans b.data)
      simp only [Option.some.injEq, Prod.mk.injEq] at hv
      have hb := b.subs
      rw [← hp, ← hv.1, hnone] at hb
      exact absurd hb (by simp)
    rw [checkMultiSend, hdec] at hmulti
    exact absurd hmulti (by simp)
  have hdec : A.decodeMultiSendCall tx = some (subs, d.allowsDelegateCalls) :=
    decodeMultiSendCall_eq_some.mpr ⟨_, _, hs.operation, hknown, hs.data, hsubs⟩
  have hall := (checkMultiSend_iff hdec).mp hmulti
  have hallow : ∀ sub ∈ subs, sub.operation = .delegatecall → d.allowsDelegateCalls = true := by
    intro sub hsub hop
    rcases hall sub hsub with hcalls | ⟨hallows, -⟩
    · simp [checkCalls, hop] at hcalls
    · exact hallows
  have husize := A.multiSend_usize _ _
    ((if_pos (SolCall.startsWith_of_abiDecode hs.data)).symm.trans hs.data)
  obtain ⟨sub, hsub, rfl⟩ := (issues_iff (k := 0) m husize hsubs hallow (by omega) c).mp hc
  rw [← safe_of_decodeMultiSendCall hdec hsub]
  rcases hall sub hsub with hcalls | ⟨-, hdel⟩
  · exact allowed_of_checkCalls hcalls
  · exact allowed_of_checkDelegateCalls hdel

/-- **Soundness of the base checks.**  Whatever the Safe executes for an accepted transaction
is allowed, batches and all: nothing the packed bytes hold is seen by the contract and not by
the check. -/
theorem checkTransaction_sound {A : Abi} {tx : SafeTransaction} {c : Call}
    (h : checkTransaction A tx = .ok ()) (hc : Executes A tx.safe (callOf tx) c) :
    Allowed A tx.safe c := by
  cases hc with
  | itself hnot =>
    have hbatch : checkMultiSend A tx = false := by
      by_contra hmulti
      rw [Bool.not_eq_false, checkMultiSend] at hmulti
      split at hmulti
      case h_1 => exact absurd hmulti (by decide)
      case h_2 heq =>
        obtain ⟨version, payload, b⟩ := decodeMultiSendCall_eq_some.mp heq
        exact hnot _ payload ⟨b.operation, knownDeployment_eq_some b.known, rfl, b.data⟩
    rcases checkCalls_or_checkDelegateCalls h hbatch with hcalls | hdel
    · exact allowed_of_checkCalls hcalls
    · exact allowed_of_checkDelegateCalls hdel
  | issued m hs hi => exact allowed_of_issues h hs m hi
  | nested m hs hi hsub =>
    have hallowed := allowed_of_issues h hs m hi
    rw [hallowed.executes hsub]
    exact hallowed

/-- A batch through MultiSend v1.5.0 that pays an account and swaps an owner: the swap is
addressed to zero, which the contract takes for the Safe. -/
theorem checkTransaction_sound_batch :
    Allowed Abi.words 0x5afe ⟨.call, 0x5afe, 0, beBytes 4 0xe318b52b⟩ := by
  have hd : (⟨0x218543288004CD07832472D464648173c77D7eB7, .v150Plus, true⟩ : Deployment) ∈
      deployments := .head _
  have hdec := decodeMultiSendCall_batchOf 0x5afe hd
    [⟨.call, 7, 1, []⟩, ⟨.call, 0, 0, beBytes 4 0xe318b52b⟩] (by simp [Call.pack])
  obtain ⟨version, payload, b⟩ := decodeMultiSendCall_eq_some.mp hdec
  refine @checkTransaction_sound _
    (batchOf 0x5afe ⟨0x218543288004CD07832472D464648173c77D7eB7, .v150Plus, true⟩
      [⟨.call, 7, 1, []⟩, ⟨.call, 0, 0, beBytes 4 0xe318b52b⟩]) _
    ((checkTransaction_of_delegatecall rfl).mpr (.inr ((checkMultiSend_iff hdec).mpr ?_)))
    (b.executes (fun _ _ _ => rfl) (.tail _ (.head _)))
  decide

end Engine

end Safenet
