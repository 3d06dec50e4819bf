/-
# What the owner can change, and when

The owner proposes a delay for withdrawals, or changes of the validators; anyone executes a proposal
once the time for it has come.  So in every run the delay in force is one that was proposed, and a
validator is registered or not by a proposal, each at least `CONFIG_TIME_DELAY` before (`Timelocked`).
Of a proposal of validators only the hash is stored: what is executed is what was proposed, if the hash
tells apart what is hashed in the run.
-/
import Safenet.Contracts.StakingLedger

namespace Safenet

/-- Whether a call is about the delay. -/
def StakingCall.touchesDelay : StakingCall → Bool
  | .proposeWithdrawDelay _ | .executeWithdrawDelayChange => true
  | _ => false

/-- Whether a call is about the validators. -/
def StakingCall.touchesValidators : StakingCall → Bool
  | .proposeValidators _ _ | .executeValidatorChanges _ _ _ => true
  | _ => false

/-- Whether a log changes the configuration. -/
def StakingLog.ofConfig : StakingLog → Bool
  | .withdrawDelayChanged .. | .validatorUpdated .. | .ownershipTransferred .. => true
  | _ => false

namespace Staking

variable {P : StakingParams} {env : StakingEnv} {s s' : Staking}

/-! ## 1. The encoding of a proposal -/

/-- Words are read back one by one. -/
theorem flatMap_words {α : Type} {f : α → Nat} (hf : ∀ x, f x < 2 ^ 256) (hinj : Function.Injective f)
    {xs ys : List α} {u v : Bytes} (hlen : xs.length = ys.length)
    (h : xs.flatMap (fun x => beBytes 32 (f x)) ++ u = ys.flatMap (fun y => beBytes 32 (f y)) ++ v) :
    xs = ys ∧ u = v := by
  induction xs generalizing ys with
  | nil =>
    obtain rfl := List.eq_nil_of_length_eq_zero hlen.symm
    exact ⟨rfl, h⟩
  | cons x xs ih =>
    obtain ⟨y, ys, rfl⟩ := List.exists_cons_of_length_eq_add_one hlen.symm
    rw [List.flatMap_cons, List.flatMap_cons, List.append_assoc, List.append_assoc] at h
    obtain ⟨hword, hrest⟩ := List.append_inj h (by simp)
    have hmod := beBytes_mod hword
    have h256 : 256 ^ 32 = 2 ^ 256 := by decide
    rw [h256, Nat.mod_eq_of_lt (hf x), Nat.mod_eq_of_lt (hf y)] at hmod
    obtain ⟨rfl, huv⟩ := ih (Nat.succ_injective hlen) hrest
    rw [hinj hmod]
    exact ⟨rfl, huv⟩

/-- **A proposal is encoded in one way**, when its arrays are no longer than calldata allows. -/
theorem encodeValidators_injective {validators validators' : List Address}
    {isRegistration isRegistration' : List Bool} {t t' : Nat} (hv : validators.length < 2 ^ 64)
    (hv' : validators'.length < 2 ^ 64) (hr : isRegistration.length < 2 ^ 64)
    (hr' : isRegistration'.length < 2 ^ 64) (ht : t < 2 ^ 256) (ht' : t' < 2 ^ 256)
    (h : encodeValidators validators isRegistration t = encodeValidators validators' isRegistration' t') :
    validators = validators' ∧ isRegistration = isRegistration' ∧ t = t' := by
  have hword : ∀ {n m : Nat}, n < 2 ^ 256 → m < 2 ^ 256 → beBytes 32 n = beBytes 32 m → n = m := by
    intro n m hn hm heq
    have hmod := beBytes_mod heq
    have h256 : 256 ^ 32 = 2 ^ 256 := by decide
    rwa [h256, Nat.mod_eq_of_lt hn, Nat.mod_eq_of_lt hm] at hmod
  simp only [encodeValidators, List.append_assoc] at h
  obtain ⟨-, h⟩ := List.append_inj h (by simp)
  obtain ⟨-, h⟩ := List.append_inj h (by simp)
  obtain ⟨htime, h⟩ := List.append_inj h (by simp)
  obtain ⟨hcount, h⟩ := List.append_inj h (by simp)
  obtain ⟨rfl, hflags⟩ := flatMap_words (fun a : Address => a.isLt.trans (by decide))
    Fin.val_injective (hword (hv.trans (by decide)) (hv'.trans (by decide)) hcount) h
  obtain ⟨hcount, hflags⟩ := List.append_inj hflags (by simp)
  have hbit : Function.Injective Bool.toNat := by decide
  obtain ⟨rfl, -⟩ := flatMap_words (u := []) (v := [])
    (fun b : Bool => (Bool.toNat_lt b).trans (by decide)) hbit
    (hword (hr.trans (by decide)) (hr'.trans (by decide)) hcount) (by simpa using hflags)
  exact ⟨rfl, rfl, hword ht ht' htime⟩

/-! ## 2. What a call does to the configuration -/

/-- The configuration stays. -/
structure SameConfig (s s' : Staking) : Prop where
  owner : s'.owner = s.owner
  delay : s'.withdrawDelay = s.withdrawDelay
  validators : s'.isValidator = s.isValidator
  pendingDelay : s'.pendingWithdrawDelayChange = s.pendingWithdrawDelayChange
  pendingValidators : s'.pendingValidatorChangeHash = s.pendingValidatorChangeHash

/-- What a call does to the configuration, and what it logs. -/
inductive ConfigStep (P : StakingParams) (env : StakingEnv) (s : Staking) :
    StakingCall → Staking → List StakingLog → Prop where
  | delayProposed {newDelay : Fin (2 ^ 128)} : env.sender = s.owner → 0 < newDelay.val →
      newDelay.val ≤ P.configTimeDelay.val →
      ConfigStep P env s (.proposeWithdrawDelay newDelay)
        { s with pendingWithdrawDelayChange :=
          ⟨newDelay.val, env.timestamp + P.configTimeDelay.val⟩ }
        [.withdrawDelayProposed s.withdrawDelay newDelay.val (env.timestamp + P.configTimeDelay.val)]
  | delayChanged : s.pendingWithdrawDelayChange.executableAt ≠ 0 →
      s.pendingWithdrawDelayChange.executableAt ≤ env.timestamp →
      ConfigStep P env s .executeWithdrawDelayChange
        { s with
          withdrawDelay := s.pendingWithdrawDelayChange.value
          pendingWithdrawDelayChange := ⟨0, 0⟩ }
        [.withdrawDelayChanged s.withdrawDelay s.pendingWithdrawDelayChange.value]
  | validatorsProposed {validators : List Address} {isRegistration : List Bool} :
      env.sender = s.owner → validators.length = isRegistration.length →
      env.timestamp + P.configTimeDelay.val < 2 ^ 256 →
      (∀ v ∈ validators, v ≠ 0 ∧ v ≠ P.address) →
      ConfigStep P env s (.proposeValidators validators isRegistration)
        { s with pendingValidatorChangeHash :=
          getValidatorsHash P validators isRegistration (env.timestamp + P.configTimeDelay.val) }
        [.validatorsProposed
          (getValidatorsHash P validators isRegistration (env.timestamp + P.configTimeDelay.val))
          validators isRegistration (env.timestamp + P.configTimeDelay.val)]
  | validatorsChanged {validators : List Address} {isRegistration : List Bool} {executableAt : U256} :
      s.pendingValidatorChangeHash ≠ 0 →
      s.pendingValidatorChangeHash = getValidatorsHash P validators isRegistration executableAt.val →
      executableAt.val ≤ env.timestamp →
      ConfigStep P env s (.executeValidatorChanges validators isRegistration executableAt)
        { s with
          isValidator := s.register (validators.zip isRegistration)
          pendingValidatorChangeHash := 0 }
        ((validators.zip isRegistration).map fun change => .validatorUpdated change.1 change.2)
  | owned {call : StakingCall} {newOwner : Address} : env.sender = s.owner →
      call = .transferOwnership newOwner ∨ call = .renounceOwnership →
      ConfigStep P env s call { s with owner := newOwner } [.ownershipTransferred s.owner newOwner]
  | other {call : StakingCall} {s' : Staking} {logs : List StakingLog} : s.SameConfig s' →
      call.touchesDelay = false → call.touchesValidators = false →
      (∀ log ∈ logs, log.ofConfig = false) → ConfigStep P env s call s' logs

theorem insertBetween_config (s : Staking) (a : Address) (id amount time p next : Nat) :
    s.SameConfig (s.insertBetween a id amount time p next) := by
  unfold insertBetween
  dsimp only
  split <;> split <;> exact ⟨rfl, rfl, rfl, rfl, rfl⟩

theorem removeHead_config (s : Staking) (a : Address) : s.SameConfig (s.removeHead a) := by
  unfold removeHead
  dsimp only
  split <;> exact ⟨rfl, rfl, rfl, rfl, rfl⟩

theorem insertSorted_config {a : Address} {id amount time : Nat}
    (h : s.insertSorted a id amount time = .ok s') : s.SameConfig s' := by
  unfold insertSorted at h
  split at h
  · obtain rfl := Except.ok.inj h
    exact ⟨rfl, rfl, rfl, rfl, rfl⟩
  · split at h
    · exact absurd h (by simp)
    · obtain rfl := Except.ok.inj h
      unfold insertFound
      dsimp only
      split
      · exact ⟨rfl, rfl, rfl, rfl, rfl⟩
      · split <;> exact ⟨rfl, rfl, rfl, rfl, rfl⟩

/-- **What a call does to the configuration.** -/
theorem exec_config {call : StakingCall} {o : Outcome} (h : s.exec P env call = .ok o) :
    ConfigStep P env s call o.1 o.2.1 := by
  cases call with
  | stake validator amount =>
    obtain ⟨-, rfl⟩ := stake_spec h
    exact .other ⟨rfl, rfl, rfl, rfl, rfl⟩ rfl rfl (by simp [StakingLog.ofConfig])
  | initiateWithdrawal validator amount =>
    have h : s.initiateWithdrawal env validator amount.val = .ok o := h
    simp only [initiateWithdrawal, Except.bind_eq_ok, Except.pure_eq_ok, beginWithdrawal_eq_ok] at h
    obtain ⟨_, ⟨-, rfl⟩, s', hs', rfl⟩ := h
    obtain ⟨howner, hdelay, hvalidators, hpending, hhash⟩ := insertSorted_config hs'
    exact .other ⟨howner, hdelay, hvalidators, hpending, hhash⟩ rfl rfl (by simp [StakingLog.ofConfig])
  | initiateWithdrawalAtPosition validator amount previousId =>
    have h : s.initiateWithdrawalAtPosition env validator amount.val previousId.val = .ok o := h
    simp only [initiateWithdrawalAtPosition, Except.bind_eq_ok, Except.pure_eq_ok,
      beginWithdrawal_eq_ok] at h
    obtain ⟨_, ⟨-, rfl⟩, nextId, -, rfl⟩ := h
    obtain ⟨howner, hdelay, hvalidators, hpending, hhash⟩ := insertBetween_config
      (s.releaseStake env.sender validator amount.val) env.sender s.nextWithdrawalId amount.val
      (s.claimableAt env) previousId.val nextId
    exact .other ⟨howner, hdelay, hvalidators, hpending, hhash⟩ rfl rfl (by simp [StakingLog.ofConfig])
  | claimWithdrawal =>
    have h : s.claimWithdrawal env = .ok o := h
    simp only [claimWithdrawal, Except.bind_eq_ok, Except.pure_eq_ok] at h
    obtain ⟨_, -, _, -, _, -, rfl⟩ := h
    obtain ⟨howner, hdelay, hvalidators, hpending, hhash⟩ := removeHead_config s env.sender
    exact .other ⟨howner, hdelay, hvalidators, hpending, hhash⟩ rfl rfl (by simp [StakingLog.ofConfig])
  | proposeWithdrawDelay newDelay =>
    have h : s.proposeWithdrawDelay P env newDelay.val = .ok o := h
    simp only [proposeWithdrawDelay, checkOwner, Except.bind_eq_ok, Except.pure_eq_ok, require_eq_ok,
      exists_const, checkedAdd_eq_ok] at h
    obtain ⟨howner, ⟨hne, hle⟩, _, ⟨rfl, -⟩, -, rfl⟩ := h
    exact .delayProposed howner (Nat.pos_of_ne_zero hne) hle
  | proposeValidators validators isRegistration =>
    have h : s.proposeValidators P env validators isRegistration = .ok o := h
    simp only [proposeValidators, checkOwner, Except.bind_eq_ok, Except.pure_eq_ok, require_eq_ok,
      exists_const, checkedAdd_eq_ok] at h
    obtain ⟨howner, -, hlength, _, ⟨rfl, hbound⟩, hvalid, rfl⟩ := h
    exact .validatorsProposed howner hlength hbound (by simpa using hvalid)
  | executeWithdrawDelayChange =>
    have h : s.executeWithdrawDelayChange env = .ok o := h
    simp only [executeWithdrawDelayChange, Except.bind_eq_ok, Except.pure_eq_ok, require_eq_ok,
      exists_const] at h
    obtain ⟨hne, htime, rfl⟩ := h
    exact .delayChanged hne htime
  | executeValidatorChanges validators isRegistration executableAt =>
    have h : s.executeValidatorChanges P env validators isRegistration executableAt.val = .ok o := h
    simp only [executeValidatorChanges, Except.bind_eq_ok, Except.pure_eq_ok, require_eq_ok,
      exists_const] at h
    obtain ⟨hne, hhash, -, htime, -, rfl⟩ := h
    exact .validatorsChanged hne hhash htime
  | recoverTokens token recipient =>
    have h : s.recoverTokens P env token recipient = .ok o := h
    have hsame : s.SameConfig s := ⟨rfl, rfl, rfl, rfl, rfl⟩
    unfold recoverTokens at h
    by_cases htoken : token = P.safeToken
    · simp only [htoken, if_true, Except.bind_eq_ok, Except.pure_eq_ok] at h
      obtain ⟨_, -, _, -, _, -, _, -, _, -, rfl⟩ := h
      exact .other hsame rfl rfl (by simp [StakingLog.ofConfig])
    · simp only [htoken, if_false, pure_bind, Except.bind_eq_ok, Except.pure_eq_ok] at h
      obtain ⟨_, -, _, -, _, -, rfl⟩ := h
      exact .other hsame rfl rfl (by simp [StakingLog.ofConfig])
  | transferOwnership newOwner =>
    have h : s.transferOwnership env newOwner = .ok o := h
    simp only [transferOwnership, checkOwner, Except.bind_eq_ok, Except.pure_eq_ok, require_eq_ok,
      exists_const] at h
    obtain ⟨howner, -, rfl⟩ := h
    exact .owned howner (.inl rfl)
  | renounceOwnership =>
    have h : s.renounceOwnership env = .ok o := h
    simp only [renounceOwnership, checkOwner, Except.bind_eq_ok, Except.pure_eq_ok, require_eq_ok,
      exists_const] at h
    obtain ⟨howner, rfl⟩ := h
    exact .owned howner (.inr rfl)

end Staking

/-! ## 3. The configuration, by what was logged -/

/-- What was logged. -/
def logsOf (receipts : List StakingReceipt) : List StakingLog := receipts.flatMap (·.logs)

/-- The owner, after some logs. -/
def ownerAfter (P : StakingParams) (receipts : List StakingReceipt) : Address :=
  (logsOf receipts).foldl (fun owner log =>
    match log with
    | .ownershipTransferred _ newOwner => newOwner
    | _ => owner) P.initialOwner

/-- The delay, after some logs. -/
def delayAfter (P : StakingParams) (receipts : List StakingReceipt) : Nat :=
  (logsOf receipts).foldl (fun delay log =>
    match log with
    | .withdrawDelayChanged _ newDelay => newDelay
    | _ => delay) P.initialWithdrawDelay.val

/-- Whether a validator is registered, after some logs. -/
def registeredAfter (receipts : List StakingReceipt) (v : Address) : Bool :=
  (logsOf receipts).foldl (fun registered log =>
    match log with
    | .validatorUpdated validator isRegistered => if validator = v then isRegistered else registered
    | _ => registered) false

theorem foldl_fixed {α β : Type} {f : β → α → β} {l : List α} {b : β} (h : ∀ x ∈ l, f b x = b) :
    l.foldl f b = b := by
  induction l with
  | nil => rfl
  | cons x l ih =>
    rw [List.foldl_cons, h x List.mem_cons_self]
    exact ih fun y hy => h y (List.mem_cons_of_mem _ hy)

section Concat

variable {P : StakingParams} {receipts : List StakingReceipt} {r : StakingReceipt} {v : Address}

theorem logsOf_concat : logsOf (receipts ++ [r]) = logsOf receipts ++ r.logs := by
  simp [logsOf]

/-- Logs that are not about the configuration. -/
theorem config_concat (P : StakingParams) (receipts : List StakingReceipt)
    (h : ∀ log ∈ r.logs, log.ofConfig = false) :
    ownerAfter P (receipts ++ [r]) = ownerAfter P receipts ∧
      delayAfter P (receipts ++ [r]) = delayAfter P receipts ∧
      ∀ v, registeredAfter (receipts ++ [r]) v = registeredAfter receipts v := by
  unfold ownerAfter delayAfter registeredAfter
  rw [logsOf_concat]
  refine ⟨?_, ?_, fun v => ?_⟩
  · rw [List.foldl_append]
    refine foldl_fixed fun log hlog => ?_
    have hfalse := h log hlog
    cases log <;> first | rfl | exact absurd hfalse (by simp [StakingLog.ofConfig])
  · rw [List.foldl_append]
    refine foldl_fixed fun log hlog => ?_
    have hfalse := h log hlog
    cases log <;> first | rfl | exact absurd hfalse (by simp [StakingLog.ofConfig])
  · rw [List.foldl_append]
    refine foldl_fixed fun log hlog => ?_
    have hfalse := h log hlog
    cases log <;> first | rfl | exact absurd hfalse (by simp [StakingLog.ofConfig])

end Concat

namespace Staking

variable {P : StakingParams} {env : StakingEnv} {s s' : Staking} {receipts : List StakingReceipt}
  {r : StakingReceipt}

/-- The changes of a proposal, at one validator. -/
theorem register_apply (s : Staking) (changes : List (Address × Bool)) (v : Address) :
    s.register changes v =
      (changes.map fun change => StakingLog.validatorUpdated change.1 change.2).foldl
        (fun registered log =>
          match log with
          | .validatorUpdated validator isRegistered =>
            if validator = v then isRegistered else registered
          | _ => registered) (s.isValidator v) := by
  unfold register
  generalize s.isValidator = registered
  induction changes generalizing registered with
  | nil => rfl
  | cons change changes ih =>
    rw [List.foldl_cons, ih, List.map_cons, List.foldl_cons]
    refine congrArg (fun b => List.foldl _ b _) ?_
    by_cases hv : change.1 = v
    · rw [← hv, Function.update_self]
      exact (if_pos rfl).symm
    · rw [Function.update_of_ne (Ne.symm hv)]
      exact (if_neg hv).symm

/-- The owner proposed a delay, and nobody proposed or executed one since. -/
def ProposedDelay (P : StakingParams) (receipts : List StakingReceipt) (proposal : ConfigProposal) :
    Prop :=
  ∃ past r rest newDelay, receipts = past ++ r :: rest ∧ r.tx.call = .proposeWithdrawDelay newDelay ∧
    r.tx.env.sender = ownerAfter P past ∧
    (0 < newDelay.val ∧ newDelay.val ≤ P.configTimeDelay.val) ∧
    proposal = ⟨newDelay.val, r.tx.env.timestamp + P.configTimeDelay.val⟩ ∧
    ∀ r' ∈ rest, r'.tx.call.touchesDelay = false

/-- The owner proposed validators, and nobody proposed or executed any since. -/
def ProposedValidators (P : StakingParams) (receipts : List StakingReceipt)
    (validators : List Address) (isRegistration : List Bool) (executableAt : Nat) : Prop :=
  ∃ past r rest, receipts = past ++ r :: rest ∧
    r.tx.call = .proposeValidators validators isRegistration ∧
    r.tx.env.sender = ownerAfter P past ∧
    executableAt = r.tx.env.timestamp + P.configTimeDelay.val ∧
    ∀ r' ∈ rest, r'.tx.call.touchesValidators = false

theorem ProposedDelay.concat {proposal : ConfigProposal} (h : ProposedDelay P receipts proposal)
    (hr : r.tx.call.touchesDelay = false) : ProposedDelay P (receipts ++ [r]) proposal := by
  obtain ⟨past, r', rest, newDelay, rfl, hcall, howner, hbounds, hproposal, hrest⟩ := h
  refine ⟨past, r', rest ++ [r], newDelay, by simp, hcall, howner, hbounds, hproposal, ?_⟩
  intro r'' hr''
  rcases List.mem_append.mp hr'' with hr'' | hr''
  · exact hrest r'' hr''
  · rwa [List.mem_singleton.mp hr'']

theorem ProposedValidators.concat {validators : List Address} {isRegistration : List Bool} {t : Nat}
    (h : ProposedValidators P receipts validators isRegistration t)
    (hr : r.tx.call.touchesValidators = false) :
    ProposedValidators P (receipts ++ [r]) validators isRegistration t := by
  obtain ⟨past, r', rest, rfl, hcall, howner, htime, hrest⟩ := h
  refine ⟨past, r', rest ++ [r], by simp, hcall, howner, htime, ?_⟩
  intro r'' hr''
  rcases List.mem_append.mp hr'' with hr'' | hr''
  · exact hrest r'' hr''
  · rwa [List.mem_singleton.mp hr'']

/-- The configuration agrees with the receipts, and what is pending was proposed. -/
structure Configured (P : StakingParams) (s : Staking) (receipts : List StakingReceipt) : Prop where
  owner : s.owner = ownerAfter P receipts
  delay : s.withdrawDelay = delayAfter P receipts
  bounds : 0 < s.withdrawDelay ∧ s.withdrawDelay ≤ P.configTimeDelay.val
  validators : ∀ v, s.isValidator v = registeredAfter receipts v
  pendingDelay : s.pendingWithdrawDelayChange.executableAt ≠ 0 →
    ProposedDelay P receipts s.pendingWithdrawDelayChange
  pendingValidators : s.pendingValidatorChangeHash ≠ 0 → ∃ validators isRegistration executableAt,
    ProposedValidators P receipts validators isRegistration executableAt ∧ executableAt < 2 ^ 256 ∧
      s.pendingValidatorChangeHash = getValidatorsHash P validators isRegistration executableAt

/-- A step that changes none of it, but for what is pending. -/
theorem Configured.keep (h : Configured P s receipts)
    (hsame : s'.owner = s.owner ∧ s'.withdrawDelay = s.withdrawDelay ∧ s'.isValidator = s.isValidator)
    (hlogs : ∀ log ∈ r.logs, log.ofConfig = false)
    (hdelay : s'.pendingWithdrawDelayChange.executableAt ≠ 0 →
      ProposedDelay P (receipts ++ [r]) s'.pendingWithdrawDelayChange)
    (hvalidators : s'.pendingValidatorChangeHash ≠ 0 → ∃ validators isRegistration executableAt,
      ProposedValidators P (receipts ++ [r]) validators isRegistration executableAt ∧
        executableAt < 2 ^ 256 ∧
          s'.pendingValidatorChangeHash = getValidatorsHash P validators isRegistration executableAt) :
    Configured P s' (receipts ++ [r]) := by
  obtain ⟨howner, hvalue, hregistered⟩ := hsame
  have hconcat := config_concat P receipts hlogs
  refine ⟨?_, ?_, ?_, fun v => ?_, hdelay, hvalidators⟩
  · rw [howner, hconcat.1]
    exact h.owner
  · rw [hvalue, hconcat.2.1]
    exact h.delay
  · rw [hvalue]
    exact h.bounds
  · rw [hregistered, hconcat.2.2]
    exact h.validators v

/-- What is pending stays so, after a call about something else. -/
theorem Configured.pendingDelay_concat (h : Configured P s receipts)
    (hr : r.tx.call.touchesDelay = false) (hne : s.pendingWithdrawDelayChange.executableAt ≠ 0) :
    ProposedDelay P (receipts ++ [r]) s.pendingWithdrawDelayChange :=
  (h.pendingDelay hne).concat hr

theorem Configured.pendingValidators_concat (h : Configured P s receipts)
    (hr : r.tx.call.touchesValidators = false) (hne : s.pendingValidatorChangeHash ≠ 0) :
    ∃ validators isRegistration executableAt,
      ProposedValidators P (receipts ++ [r]) validators isRegistration executableAt ∧
        executableAt < 2 ^ 256 ∧
          s.pendingValidatorChangeHash = getValidatorsHash P validators isRegistration executableAt := by
  obtain ⟨validators, isRegistration, t, hproposed, hhash⟩ := h.pendingValidators hne
  exact ⟨validators, isRegistration, t, hproposed.concat hr, hhash⟩

/-- **A step keeps the configuration.** -/
theorem Configured.step (h : Configured P s receipts) (hs : ConfigStep P env s r.tx.call s' r.logs)
    (henv : r.tx.env = env) : Configured P s' (receipts ++ [r]) := by
  obtain ⟨⟨env', call⟩, delay, logs, payments⟩ := r
  dsimp only at hs henv
  subst henv
  cases hs with
  | @delayProposed newDelay howner hpos hle =>
    refine h.keep ⟨rfl, rfl, rfl⟩ (by simp [StakingLog.ofConfig]) (fun _ => ?_)
      (h.pendingValidators_concat rfl)
    exact ⟨receipts, _, [], newDelay, rfl, rfl, howner.trans h.owner, ⟨hpos, hle⟩, rfl, by simp⟩
  | delayChanged hne htime =>
    obtain ⟨past, r', rest, newDelay, hreceipts, hcall, howner, hbounds, hproposal, hrest⟩ :=
      h.pendingDelay hne
    refine ⟨?_, ?_, ?_, fun v => ?_, fun hzero => absurd rfl hzero, h.pendingValidators_concat rfl⟩
    · rw [ownerAfter, logsOf_concat, List.foldl_append]
      exact h.owner
    · rw [delayAfter, logsOf_concat, List.foldl_append]
      rfl
    · rw [hproposal]
      exact hbounds
    · rw [registeredAfter, logsOf_concat, List.foldl_append]
      exact h.validators v
  | @validatorsProposed validators isRegistration howner hlength hbound hvalid =>
    refine h.keep ⟨rfl, rfl, rfl⟩ (by simp [StakingLog.ofConfig]) (h.pendingDelay_concat rfl)
      (fun _ => ?_)
    exact ⟨validators, isRegistration, _,
      ⟨receipts, _, [], rfl, rfl, howner.trans h.owner, rfl, by simp⟩, hbound, rfl⟩
  | @validatorsChanged validators isRegistration executableAt hne hhash htime =>
    have hlogs : ∀ {β : Type} (f : β → StakingLog → β) (b : β),
        (∀ b v r, f b (.validatorUpdated v r) = b) →
          ((validators.zip isRegistration).map fun change =>
            StakingLog.validatorUpdated change.1 change.2).foldl f b = b := by
      intro β f b hf
      refine foldl_fixed fun log hlog => ?_
      obtain ⟨change, -, rfl⟩ := List.mem_map.mp hlog
      exact hf b change.1 change.2
    refine ⟨?_, ?_, h.bounds, fun v => ?_, h.pendingDelay_concat rfl, fun hzero => absurd rfl hzero⟩
    · rw [ownerAfter, logsOf_concat, List.foldl_append, hlogs _ _ fun _ _ _ => rfl]
      exact h.owner
    · rw [delayAfter, logsOf_concat, List.foldl_append, hlogs _ _ fun _ _ _ => rfl]
      exact h.delay
    · rw [registeredAfter, logsOf_concat, List.foldl_append]
      dsimp only
      rw [register_apply, h.validators v]
      rfl
  | @owned _ newOwner howner hcall =>
    have htouches : call.touchesDelay = false ∧ call.touchesValidators = false := by
      rcases hcall with rfl | rfl <;> exact ⟨rfl, rfl⟩
    refine ⟨?_, ?_, h.bounds, fun v => ?_, h.pendingDelay_concat htouches.1,
      h.pendingValidators_concat htouches.2⟩
    · rw [ownerAfter, logsOf_concat, List.foldl_append]
      rfl
    · rw [delayAfter, logsOf_concat, List.foldl_append]
      exact h.delay
    · rw [registeredAfter, logsOf_concat, List.foldl_append]
      exact h.validators v
  | other hsame hdelay hvalidators hlogs =>
    refine h.keep ⟨hsame.owner, hsame.delay, hsame.validators⟩ hlogs ?_ ?_
    · rw [hsame.pendingDelay]
      exact h.pendingDelay_concat hdelay
    · rw [hsame.pendingValidators]
      exact h.pendingValidators_concat hvalidators

theorem construct_configured (h : construct P = .ok s) : Configured P s [] := by
  simp only [construct, Except.bind_eq_ok, Except.pure_eq_ok, require_eq_ok, exists_const] at h
  obtain ⟨-, -, hdelay, -, hle, rfl⟩ := h
  exact ⟨rfl, rfl, ⟨Nat.pos_of_ne_zero hdelay, hle⟩, fun _ => rfl, fun hne => absurd rfl hne,
    fun hne => absurd rfl hne⟩

/-- **Every run** keeps the configuration. -/
theorem run_configured (h : construct P = .ok s) (txs : List StakingTx) :
    Configured P (Reactive.runState (execTx P) s txs) (Reactive.runOutputs (execTx P) s txs) := by
  induction txs using List.reverseRecOn with
  | nil => exact construct_configured h
  | append_singleton txs tx ih =>
    rw [Reactive.runState_append, Reactive.runOutputs_append]
    simp only [Reactive.runState_cons, Reactive.runState_nil, Reactive.runOutputs, List.append_nil]
    rcases execTx_cases P (Reactive.runState (execTx P) s txs) tx with hrun | ⟨o, hexec, hrun⟩
    · rw [hrun, List.append_nil]
      exact ih
    · rw [hrun]
      exact ih.step (exec_config hexec) rfl

/-! ## 4. The time lock -/

/-- What is hashed by a call. -/
def preimages (P : StakingParams) (tx : StakingTx) : List Bytes :=
  match tx.call with
  | .proposeValidators validators isRegistration =>
    [encodeValidators validators isRegistration (tx.env.timestamp + P.configTimeDelay.val)]
  | .executeValidatorChanges validators isRegistration executableAt =>
    [encodeValidators validators isRegistration executableAt.val]
  | _ => []

/-- The arrays of a call are no longer than calldata allows. -/
def Sized (tx : StakingTx) : Prop :=
  match tx.call with
  | .proposeValidators validators isRegistration
  | .executeValidatorChanges validators isRegistration _ =>
    validators.length < 2 ^ 64 ∧ isRegistration.length < 2 ^ 64
  | _ => True

/-- No two things that are hashed have the same hash. -/
def Separates (P : StakingParams) (txs : List StakingTx) : Prop :=
  ∀ m ∈ txs.flatMap (preimages P), ∀ m' ∈ txs.flatMap (preimages P),
    P.keccak256 m = P.keccak256 m' → m = m'

/-- The configuration is what was logged, and its changes were proposed by the owner in time. -/
structure Timelocked (P : StakingParams) (s : Staking) (receipts : List StakingReceipt) : Prop where
  owner : s.owner = ownerAfter P receipts
  validators : ∀ v, s.isValidator v = registeredAfter receipts v
  delay : s.withdrawDelay = delayAfter P receipts
  /-- The delay of each call was in force, and within bounds. -/
  inForce : ∀ past r rest, receipts = past ++ r :: rest →
    r.delay = delayAfter P past ∧ 0 < r.delay ∧ r.delay ≤ P.configTimeDelay.val
  /-- A delay is changed to the one that was proposed last. -/
  delays : ∀ past r rest, receipts = past ++ r :: rest → ∀ old new,
    .withdrawDelayChanged old new ∈ r.logs → ∃ proposal, ProposedDelay P past proposal ∧
      proposal.value = new ∧ proposal.executableAt ≤ r.tx.env.timestamp
  /-- A validator is registered, or no longer, as was proposed last. -/
  registrations : ∀ past r rest, receipts = past ++ r :: rest → ∀ v registered,
    .validatorUpdated v registered ∈ r.logs → ∃ validators isRegistration executableAt,
      ProposedValidators P past validators isRegistration executableAt ∧
        (v, registered) ∈ validators.zip isRegistration ∧ executableAt ≤ r.tx.env.timestamp

/-- A delay is changed by executing its proposal. -/
theorem ConfigStep.delays {call : StakingCall} {logs : List StakingLog}
    (hs : ConfigStep P env s call s' logs) {old new : Nat}
    (hlog : .withdrawDelayChanged old new ∈ logs) :
    s.pendingWithdrawDelayChange.executableAt ≠ 0 ∧
      s.pendingWithdrawDelayChange.executableAt ≤ env.timestamp ∧
        s.pendingWithdrawDelayChange.value = new := by
  cases hs with
  | delayProposed _ _ _ => exact absurd hlog (by simp)
  | delayChanged hne htime =>
    obtain ⟨-, rfl⟩ := StakingLog.withdrawDelayChanged.inj (List.mem_singleton.mp hlog)
    exact ⟨hne, htime, rfl⟩
  | validatorsProposed _ _ _ _ => exact absurd hlog (by simp)
  | validatorsChanged _ _ _ => exact absurd hlog (by simp)
  | owned _ _ => exact absurd hlog (by simp)
  | other _ _ _ hlogs => exact absurd (hlogs _ hlog) (by simp [StakingLog.ofConfig])

/-- A validator is updated by executing a proposal. -/
theorem ConfigStep.registrations {call : StakingCall} {logs : List StakingLog}
    (hs : ConfigStep P env s call s' logs) {v : Address} {registered : Bool}
    (hlog : .validatorUpdated v registered ∈ logs) :
    ∃ (validators : List Address) (isRegistration : List Bool) (executableAt : U256),
      call = .executeValidatorChanges validators isRegistration executableAt ∧
        (v, registered) ∈ validators.zip isRegistration ∧ s.pendingValidatorChangeHash ≠ 0 ∧
          s.pendingValidatorChangeHash =
            getValidatorsHash P validators isRegistration executableAt.val ∧
              executableAt.val ≤ env.timestamp := by
  cases hs with
  | delayProposed _ _ _ => exact absurd hlog (by simp)
  | delayChanged _ _ => exact absurd hlog (by simp)
  | validatorsProposed _ _ _ _ => exact absurd hlog (by simp)
  | @validatorsChanged validators isRegistration executableAt hne hhash htime =>
    obtain ⟨change, hchange, hupdated⟩ := List.mem_map.mp hlog
    obtain ⟨rfl, rfl⟩ := StakingLog.validatorUpdated.inj hupdated
    exact ⟨validators, isRegistration, executableAt, rfl, hchange, hne, hhash, htime⟩
  | owned _ _ => exact absurd hlog (by simp)
  | other _ _ _ hlogs => exact absurd (hlogs _ hlog) (by simp [StakingLog.ofConfig])

/-- A receipt is of a call of the run. -/
theorem receipt_mem {txs : List StakingTx} (hr : r ∈ Reactive.runOutputs (execTx P) s txs) :
    r.tx ∈ txs := by
  obtain ⟨past, tx, rest, rfl, hsaid⟩ := Reactive.mem_runOutputs (execTx P) hr
  rcases execTx_cases P (Reactive.runState (execTx P) s past) tx with hrun | ⟨o, -, hrun⟩
  · rw [hrun] at hsaid
    exact absurd hsaid List.not_mem_nil
  · rw [hrun] at hsaid
    rw [List.mem_singleton.mp hsaid]
    exact List.mem_append_right _ List.mem_cons_self

/-- **The time lock**, in every run whose proposals the hash tells apart. -/
theorem staking_timelocked (P : StakingParams) (s : Staking) (h : construct P = .ok s)
    (txs : List StakingTx) (hsized : ∀ tx ∈ txs, Sized tx) (hseparates : Separates P txs) :
    Timelocked P (Reactive.runState (execTx P) s txs) (Reactive.runOutputs (execTx P) s txs) := by
  have hconfigured := run_configured h txs
  refine ⟨hconfigured.owner, hconfigured.validators, hconfigured.delay, ?_, ?_, ?_⟩
  · intro past r rest hr
    obtain ⟨before, rfl, hdelay, -⟩ := receipt_exec hr
    have hbefore := run_configured h before
    rw [hdelay]
    exact ⟨hbefore.delay, hbefore.bounds⟩
  · intro past r rest hr old new hlog
    obtain ⟨before, rfl, -, s', hexec⟩ := receipt_exec hr
    obtain ⟨hne, htime, hvalue⟩ := (exec_config hexec).delays hlog
    exact ⟨_, (run_configured h before).pendingDelay hne, hvalue, htime⟩
  · intro past r rest hr v registered hlog
    have hmem : ∀ r' ∈ past ++ r :: rest, r'.tx ∈ txs := fun r' hr' => receipt_mem (hr ▸ hr')
    obtain ⟨before, rfl, -, s', hexec⟩ := receipt_exec hr
    obtain ⟨validators, isRegistration, executableAt, hcall, hchange, hne, hhash, htime⟩ :=
      (exec_config hexec).registrations hlog
    obtain ⟨validators', isRegistration', t, hproposed, hbound, hhash'⟩ :=
      (run_configured h before).pendingValidators hne
    obtain ⟨past', r', rest', hpast, hcall', howner, htime', hrest⟩ := hproposed
    have hr : r.tx ∈ txs := hmem r (List.mem_append_right _ List.mem_cons_self)
    have hr' : r'.tx ∈ txs := hmem r' (by simp [hpast])
    -- what is executed has the hash of what was proposed
    have hm : encodeValidators validators isRegistration executableAt.val ∈
        txs.flatMap (preimages P) := List.mem_flatMap.mpr ⟨r.tx, hr, by simp [preimages, hcall]⟩
    have hm' : encodeValidators validators' isRegistration' t ∈ txs.flatMap (preimages P) :=
      List.mem_flatMap.mpr ⟨r'.tx, hr', by simp [preimages, hcall', htime']⟩
    have hsize := hsized r.tx hr
    have hsize' := hsized r'.tx hr'
    rw [Sized, hcall] at hsize
    rw [Sized, hcall'] at hsize'
    obtain ⟨rfl, rfl, rfl⟩ := encodeValidators_injective hsize.1 hsize'.1 hsize.2 hsize'.2
      executableAt.isLt hbound (hseparates _ hm _ hm' (hhash.symm.trans hhash'))
    exact ⟨validators, isRegistration, _, ⟨past', r', rest', hpast, hcall', howner, htime',
      hrest⟩, hchange, htime⟩

theorem staking_timelocked_toy : ∃ s, construct toyStaking = .ok s ∧
    Timelocked toyStaking (Reactive.runState (execTx toyStaking) s toyStakes)
      (Reactive.runOutputs (execTx toyStaking) s toyStakes) := by
  refine ⟨_, rfl, staking_timelocked toyStaking _ rfl toyStakes ?_ ?_⟩
  · simp [toyStakes, Sized]
  · intro m hm m' hm' _
    have hsame : ∀ m ∈ toyStakes.flatMap (preimages toyStaking), m = encodeValidators [2] [true] 20 := by
      simp [toyStakes, preimages, toyStaking]
    rw [hsame m hm, hsame m' hm']

end Staking

end Safenet
