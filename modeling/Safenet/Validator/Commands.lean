/-
# What one message makes the validator say

The commands of a transition, handler by handler.  Most of them are PLAIN: key-generation
calls, nonce preprocessing, retries and fallbacks, whose emission no later property depends on.
The five that carry signing secrets outward, or delete them, each have one origin:

* `revealNonceCommitments`, the effect -- a `Sign` log over a rollover, or an approving oracle
  result;
* `revealNonceCommitments`, the action -- the resume of that effect;
* `useNonce` -- the revealed nonces that complete a round;
* `signShare` -- the resume of that effect;
* `reconcileGroupSecrets` -- a block.

`Emits` is this list and `emits_applyTransition` says that it is complete.
-/
import Safenet.Validator.Sessions

namespace Safenet

open Frost

variable {E : Crates}

/-- The oracle whose result a packet waits for: a transaction's. -/
def Packet.oracle? : Packet → Option Address
  | .transaction _ oracle _ _ => some oracle
  | .epochRollover .. => none

/-! ## 1. Plain commands -/

/-- Whether a command neither uses a signing nonce nor reconciles the secrets. -/
def plain : Command Action (Effect E) → Bool
  | .action (.revealNonceCommitments ..) => false
  | .action (.signShare ..) => false
  | .action _ => true
  | .effect (.revealNonceCommitments ..) => false
  | .effect (.useNonce ..) => false
  | .effect (.reconcileGroupSecrets _) => false
  | .effect _ => true

/-- The group whose key generation a command joins. -/
def commitsTo : Command Action (Effect E) → Option B256
  | .action (.keyGenAndCommit participants count threshold context _ _ _) =>
    some (groupId E.keccak256 participants count threshold context)
  | _ => none

/-- Whether a plain command joins no key generation. -/
def routine (c : Command Action (Effect E)) : Bool := plain c && (commitsTo c).isNone

/-- Every command of a list is plain. -/
def AllPlain (commands : Commands E) : Prop := ∀ c ∈ commands, plain c = true

@[simp] theorem allPlain_nil : AllPlain ([] : Commands E) := by
  intro c h
  exact absurd h (by simp)

@[simp] theorem allPlain_cons {c : Command Action (Effect E)} {cs : Commands E} :
    AllPlain (c :: cs) ↔ plain c = true ∧ AllPlain cs := by
  simp [AllPlain]

@[simp] theorem allPlain_append {a b : Commands E} :
    AllPlain (a ++ b) ↔ AllPlain a ∧ AllPlain b := by
  simp only [AllPlain, List.mem_append, or_imp, forall_and]

/-- Every command of a list is routine. -/
def AllRoutine (commands : Commands E) : Prop := ∀ c ∈ commands, routine c = true

@[simp] theorem allRoutine_nil : AllRoutine ([] : Commands E) := by
  intro c h
  exact absurd h (by simp)

@[simp] theorem allRoutine_cons {c : Command Action (Effect E)} {cs : Commands E} :
    AllRoutine (c :: cs) ↔ routine c = true ∧ AllRoutine cs := by
  simp [AllRoutine]

@[simp] theorem allRoutine_append {a b : Commands E} :
    AllRoutine (a ++ b) ↔ AllRoutine a ∧ AllRoutine b := by
  simp only [AllRoutine, List.mem_append, or_imp, forall_and]

theorem AllRoutine.plain {cs : Commands E} (h : AllRoutine cs) : AllPlain cs := by
  intro c hc
  exact (Bool.and_eq_true_iff.mp (h c hc)).1

/-- Routine commands join no key generation. -/
theorem AllRoutine.commitsTo {cs : Commands E} (h : AllRoutine cs) :
    cs.filterMap Safenet.commitsTo = [] := by
  rw [List.filterMap_eq_nil_iff]
  intro c hc
  exact Option.isNone_iff_eq_none.mp (Bool.and_eq_true_iff.mp (h c hc)).2

namespace Transition

variable (T : Transition E)

theorem startKeyGen_routine (s : State E) (e : EpochId) (p : ParticipantSet) (d : Option Nat) :
    AllRoutine (T.startKeyGen s e p d).2 := by
  unfold startKeyGen
  split <;> simp [routine, plain, commitsTo]

theorem restartKeyGenExcluding_routine (s : State E) (e : EpochId) (x : Finset Address)
    (d : Option Nat) : AllRoutine (T.restartKeyGenExcluding s e x d).2 := by
  unfold restartKeyGenExcluding
  dsimp only
  split
  · exact T.startKeyGen_routine _ _ _ _
  · exact allRoutine_nil

theorem handleGenesisKeyGen_routine (s : State E) (gid : B256) :
    AllRoutine (T.handleGenesisKeyGen s gid).2 := by
  unfold handleGenesisKeyGen
  split
  · split
    · exact T.startKeyGen_routine _ _ _ _
    · exact allRoutine_nil
  · exact allRoutine_nil

theorem finalizeKeyGenCommitments_routine (e : EpochId) (g : Group) (x : Option (Secrets E))
    (cs : BTreeMap Address (VerifiedCommitment E)) (d : Option Nat) :
    AllRoutine (finalizeKeyGenCommitments e g x cs d).2 := by
  unfold finalizeKeyGenCommitments
  dsimp only
  split
  · rename_i participation commands h
    split at h
    · obtain ⟨r, -, hr⟩ := Except.map_eq_ok.mp h
      simp only [Prod.mk.injEq] at hr
      rw [← hr.2]
      simp [routine, plain, commitsTo]
    · obtain ⟨r, -, hr⟩ := Except.map_eq_ok.mp h
      simp only [Prod.mk.injEq] at hr
      rw [← hr.2]
      exact allRoutine_nil
  · exact allRoutine_nil

theorem handleKeyGenSetup_plain (s : State E) (gid : B256) (x : Secrets E) :
    AllPlain (T.handleKeyGenSetup s gid x).2 := by
  unfold handleKeyGenSetup
  split
  · rename_i c hr
    split
    · rename_i poap hs
      split
      · have hcommit : AllPlain (if (c.commitments[T.account]?).isSome then ([] : Commands E)
            else [.action (.keyGenAndCommit c.group.root c.group.count c.group.threshold
              c.group.context poap (x.commitment E) c.deadline)]) := by
          split <;> simp [plain]
        dsimp only
        split
        · exact hcommit
        · exact allPlain_append.mpr ⟨hcommit, (finalizeKeyGenCommitments_routine _ _ _ _ _).plain⟩
      · exact allPlain_nil
    · exact allPlain_nil
  · exact allPlain_nil

theorem handleKeyGenCommitted_routine (s : State E) (block : Nat) (gid : B256) (p : Address)
    (k : KeyGenCommitment) : AllRoutine (T.handleKeyGenCommitted s block gid p k).2 := by
  unfold handleKeyGenCommitted
  split
  · split
    · dsimp only
      split
      · exact allRoutine_nil
      · split
        · exact allRoutine_nil
        · exact finalizeKeyGenCommitments_routine _ _ _ _ _
        · exact finalizeKeyGenCommitments_routine _ _ _ _ _
    · exact allRoutine_nil
  · exact allRoutine_nil

theorem confirmKeyGen_routine {e : EpochId} {g : Group} {ss : SharingState E}
    {sh : BTreeMap Address (VerifiedShare E)} {d : Option ConfirmationDeadlines}
    {r : KeyGenConfirmation E × Commands E} (h : T.confirmKeyGen e g ss sh d = .ok r) :
    AllRoutine r.2 := by
  obtain ⟨k, -, rfl⟩ := Except.map_eq_ok.mp h
  simp [routine, plain, commitsTo]

theorem registerShare_routine (c : CollectingShares E) (block : Nat) (p : Address)
    (k : KeyGenSecretShare) : AllRoutine (T.registerShare c block p k).2 := by
  unfold registerShare
  split
  · exact allRoutine_nil
  · dsimp only
    split
    · exact allRoutine_nil
    · split
      · exact allRoutine_nil
      · simp [routine, plain, commitsTo]

theorem handleKeyGenSecretShared_routine (s : State E) (block : Nat) (gid : B256) (p : Address)
    (k : KeyGenSecretShare) : AllRoutine (T.handleKeyGenSecretShared s block gid p k).2 := by
  unfold handleKeyGenSecretShared
  split
  · split
    · dsimp only
      have hreg := fun c => T.registerShare_routine c block p k
      split
      · exact hreg _
      · split
        · split
          · split
            · exact allRoutine_append.mpr ⟨hreg _, T.confirmKeyGen_routine ‹_›⟩
            · exact allRoutine_nil
          · exact hreg _
        · exact hreg _
    · exact allRoutine_nil
  · exact allRoutine_nil

theorem finalizeKeyGen_routine (s : State E) (e : EpochId) (g : Group) (k : Option (KeyShare E)) :
    AllRoutine (finalizeKeyGen s e g k).2 := by
  unfold finalizeKeyGen
  split <;> simp [routine, plain, commitsTo]

theorem handleKeyGenConfirmed_routine (s : State E) (block : Nat) (gid : B256) (p : Address) :
    AllRoutine (T.handleKeyGenConfirmed s block gid p).2 := by
  unfold handleKeyGenConfirmed
  split
  · split
    · dsimp only
      split
      · exact allRoutine_nil
      · split
        · unfold completeGenesis
          dsimp only
          split
          · exact finalizeKeyGen_routine _ _ _ _
          · exact allRoutine_append.mpr ⟨finalizeKeyGen_routine _ _ _ _, T.startKeyGen_routine _ _ _ _⟩
        · exact allRoutine_nil
    · exact allRoutine_nil
  · exact allRoutine_nil

theorem handleEpochStaged_routine (s : State E) (p : Nat) (gid : B256) :
    AllRoutine (handleEpochStaged s p gid).2 := by
  unfold handleEpochStaged
  split
  · split
    · exact allRoutine_append.mpr ⟨finalizeKeyGen_routine _ _ _ _, allRoutine_nil⟩
    · exact allRoutine_nil
  · exact allRoutine_nil
  · exact allRoutine_nil

theorem handleKeyGenComplained_routine (s : State E) (block : Nat) (gid : B256) (p a : Address) :
    AllRoutine (T.handleKeyGenComplained s block gid p a).2 := by
  unfold handleKeyGenComplained
  split
  · exact allRoutine_nil
  · dsimp only
    split
    · exact T.restartKeyGenExcluding_routine _ _ _ _
    · unfold complaintResponse
      split
      · split
        · split <;> simp [routine, plain, commitsTo]
        · exact allRoutine_nil
      · exact allRoutine_nil

theorem confirmAfterResponse_routine (s : State E) : AllRoutine (T.confirmAfterResponse s).2 := by
  unfold confirmAfterResponse
  split
  · split
    · split
      · split
        · exact T.confirmKeyGen_routine ‹_›
        · exact allRoutine_nil
      · exact allRoutine_nil
    · exact allRoutine_nil
  · exact allRoutine_nil

theorem handleKeyGenComplaintResponded_routine (s : State E) (block : Nat) (gid : B256)
    (p a : Address) (x : U256) :
    AllRoutine (T.handleKeyGenComplaintResponded s block gid p a x).2 := by
  unfold handleKeyGenComplaintResponded
  split
  · exact allRoutine_nil
  · split
    · exact allRoutine_nil
    · split
      · exact allRoutine_nil
      · split
        · exact T.confirmAfterResponse_routine _
        · exact T.restartKeyGenExcluding_routine _ _ _ _

theorem handlePreprocess_commands (s : State E) (gid : B256) (p : Address) (chunk : Nat)
    (r : B256) : (T.handlePreprocess s gid p chunk r).2 = [] := by
  unfold handlePreprocess
  split
  · rfl
  · split <;> rfl

theorem handleTransactionProposed_commands (s : State E) (block : Nat) (o : Address) (e : Nat)
    (d : Bytes) (tx : SafeTransaction) : (T.handleTransactionProposed s block o e d tx).2 = [] := by
  unfold handleTransactionProposed
  dsimp only
  split
  · rfl
  · split
    · rfl
    · split <;> rfl

theorem handleSignShared_commands (s : State E) (sid root : B256) (p : Address) :
    (handleSignShared s sid root p).2 = [] := by
  unfold handleSignShared
  split
  · rfl
  · split <;> rfl

theorem handleSignCompleted_commands (s : State E) (block : Nat) (sid : B256) :
    (T.handleSignCompleted s block sid).2 = [] := by
  unfold handleSignCompleted
  split
  · rfl
  · split <;> rfl

theorem handleNonceTree_routine (s : State E) (gid r : B256) :
    AllRoutine (handleNonceTree s gid r).2 := by
  unfold handleNonceTree
  split <;> simp [routine, plain, commitsTo]

/-! ## 2. The block -/

theorem timeoutSession_routine (block : Nat) (m : B256) (x : SigningState E) :
    AllRoutine ((T.timeoutSession block m x).actions.map Command.action : Commands E) := by
  have hrestart : ∀ (d : Nat) (k : KeyShare E) (g sid : B256) (ss : Finset Address) (p : Packet)
      (l : Option Address), AllRoutine
        ((T.restartSigningCeremony d m k g sid ss p l).actions.map Command.action : Commands E) := by
    intro d k g sid ss p l
    unfold restartSigningCeremony
    split
    · exact allRoutine_nil
    · dsimp only
      split <;> simp [routine, plain, commitsTo]
  unfold timeoutSession
  dsimp only
  split
  · exact allRoutine_nil
  · split
    · split
      · exact allRoutine_nil
      · split <;> simp [routine, plain, commitsTo]
    · exact allRoutine_nil
    · exact hrestart _ _ _ _ _ _ _
    · exact hrestart _ _ _ _ _ _ _
    · rename_i w _
      cases w.packet <;> simp [routine, plain, commitsTo, Packet.attestationAction]

theorem handleSigningTimeouts_routine (s : State E) (block : Nat) :
    AllRoutine (T.handleSigningTimeouts s block).2 := by
  intro c hc
  simp only [handleSigningTimeouts, List.mem_flatMap, List.mem_map] at hc
  obtain ⟨t, ⟨e, -, rfl⟩, a, ha, rfl⟩ := hc
  exact T.timeoutSession_routine block e.1 e.2 _ (List.mem_map_of_mem ha)

theorem handleRolloverNewBlock_routine (s : State E) (block : Nat) :
    AllRoutine (T.handleRolloverNewBlock s block).2 := by
  unfold handleRolloverNewBlock
  split
  · exact allRoutine_nil
  · dsimp only
    split
    · exact allRoutine_nil
    · split
      · exact T.startKeyGen_routine _ _ _ _
      · exact allRoutine_nil

theorem handleKeyGenTimeouts_routine (s : State E) (block : Nat) :
    AllRoutine (T.handleKeyGenTimeouts s block).2 := by
  unfold handleKeyGenTimeouts
  split
  · exact allRoutine_nil
  · split
    · exact allRoutine_nil
    · exact T.restartKeyGenExcluding_routine _ _ _ _

theorem handleNonceTopup_routine (s : State E) : AllRoutine (handleNonceTopup s).2 := by
  unfold handleNonceTopup
  split
  · exact allRoutine_nil
  · split
    · exact allRoutine_nil
    · split <;> simp [routine, plain, commitsTo]

/-! ## 3. The whole transition -/

/-- What a message makes the validator say in state `s`. -/
inductive Emits (s : State E) : Msg E → Command Action (Effect E) → Prop where
  | plain {msg : Msg E} {c : Command Action (Effect E)} : plain c = true → Emits s msg c
  /-- A requested rollover reveals at once. -/
  | request {log : EventLog Event} {gid m sid : B256} {q : Nat} {n : NonceIndex}
      {w : WaitingForRequest E} :
      log.data = .sign gid m sid q → s.signing[m]? = some (.waitingForRequest w) →
      w.packet.oracle? = none →
      Emits s (.event log) (.effect (.revealNonceCommitments sid m n.root n.offset))
  /-- An approved transaction reveals. -/
  | approval {log : EventLog Event} {m : B256} {w : WaitingForOracle E} :
      log.data = .oracleResult m true → s.signing[m]? = some (.waitingForOracle w) →
      log.address = w.oracle →
      Emits s (.event log)
        (.effect (.revealNonceCommitments w.signatureId m w.nonce.root w.nonce.offset))
  /-- Fetched nonce commitments are published. -/
  | reveal {sid m : B256} {n : SignNonces} {proof : List B256} {c : CollectNonceCommitments E} :
      s.signing[m]? = some (.collectNonceCommitments c) → c.signatureId = sid →
      Emits s (.resume (.nonceCommitments sid m n proof))
        (.action (.revealNonceCommitments sid n proof c.deadline))
  /-- The last reveal of a round burns the nonce. -/
  | useNonce {log : EventLog Event} {sid m : B256} {p : Address} {n : SignNonces}
      {c : CollectNonceCommitments E} :
      log.data = .signRevealedNonces sid p n → s.signatureIdToMessage[sid]? = some m →
      s.signing[m]? = some (.collectNonceCommitments c) →
      Emits s (.event log) (.effect (.useNonce m c.nonce.root c.nonce.offset))
  /-- The burned nonce signs. -/
  | signShare {m : B256} {n : Nonces E} {c : CollectSigningShares E} {r : ShareSubmission} :
      s.signing[m]? = some (.collectSigningShares c) →
      signatureShare E c.keyShare n c.revealed m = .ok r →
      Emits s (.resume (.nonce m n)) (.action (.signShare c.signatureId r.selection r.share r.proof
        (c.packet.attestationCallback E.keccak256 T.config.consensus) c.deadline))
  /-- A block reconciles the secrets with the groups its own state retains. -/
  | reconcile {block : Nat} :
      Emits s (.newBlock block) (.effect (.reconcileGroupSecrets
        (retainedGroups (T.applyBlock s block).1.epochs (T.applyBlock s block).1.rollover)))

variable {T}

theorem Emits.of_allRoutine {s : State E} {msg : Msg E} {cs : Commands E}
    {c : Command Action (Effect E)} (h : AllRoutine cs) (hc : c ∈ cs) : T.Emits s msg c :=
  .plain (h.plain c hc)

theorem Emits.of_allPlain {s : State E} {msg : Msg E} {cs : Commands E}
    {c : Command Action (Effect E)} (h : AllPlain cs) (hc : c ∈ cs) : T.Emits s msg c :=
  .plain (h c hc)

theorem emits_handleSign {s : State E} {log : EventLog Event} {gid m sid : B256} {q : Nat}
    {c : Command Action (Effect E)} (hd : log.data = .sign gid m sid q)
    (hc : c ∈ (T.handleSign s log.block gid m sid q).2) : T.Emits s (.event log) c := by
  rw [handleSign_eq] at hc
  dsimp only at hc
  split at hc
  · rename_i nonce w hn hs
    split at hc
    · unfold openRequest at hc
      split at hc
      · exact absurd hc (by simp)
      · rename_i hp
        rw [List.mem_singleton] at hc
        rw [hc]
        exact .request hd hs (by rw [hp]; rfl)
    · exact absurd hc (by simp)
  · exact absurd hc (by simp)
  · exact absurd hc (by simp)

theorem emits_handleOracleResult {s : State E} {log : EventLog Event} {m : B256} {b : Bool}
    {c : Command Action (Effect E)} (hd : log.data = .oracleResult m b)
    (hc : c ∈ (T.handleOracleResult s log.block log.address m b).2) : T.Emits s (.event log) c := by
  unfold handleOracleResult at hc
  split at hc
  · rename_i w hs
    split at hc
    · rename_i ho
      split at hc
      · rename_i hb
        rw [List.mem_singleton] at hc
        rw [hc]
        exact .approval (hb ▸ hd) hs ho.symm
      · exact absurd hc (by simp)
    · exact absurd hc (by simp)
  · exact absurd hc (by simp)

theorem emits_handleSignRevealedNonces {s : State E} {log : EventLog Event} {sid : B256}
    {p : Address} {n : SignNonces} {c : Command Action (Effect E)}
    (hd : log.data = .signRevealedNonces sid p n)
    (hc : c ∈ (T.handleSignRevealedNonces s log.block sid p n).2) : T.Emits s (.event log) c := by
  unfold handleSignRevealedNonces at hc
  split at hc
  · exact absurd hc (by simp)
  · rename_i m hi
    split at hc
    · rename_i w hs
      dsimp only at hc
      split at hc
      · exact absurd hc (by simp)
      · rw [List.mem_singleton] at hc
        rw [hc, (registerReveal_frame w p n).2.2]
        exact .useNonce hd hi hs
    · exact absurd hc (by simp)

theorem emits_applyResume {s : State E} {r : Resume E} {c : Command Action (Effect E)}
    (hc : c ∈ (T.applyResume s r).2) : T.Emits s (.resume r) c := by
  cases r with
  | noop => exact absurd hc (by simp [applyResume])
  | setup gid x => exact .of_allPlain (T.handleKeyGenSetup_plain s gid x) hc
  | nonceTree gid r => exact .of_allRoutine (handleNonceTree_routine s gid r) hc
  | nonceCommitments sid m n proof =>
    simp only [applyResume, handleNonceCommitments] at hc
    split at hc
    · rename_i w hs
      split at hc
      · rename_i hsid
        rw [List.mem_singleton] at hc
        rw [hc]
        exact .reveal hs hsid
      · exact absurd hc (by simp)
    · exact absurd hc (by simp)
  | nonce m n =>
    simp only [applyResume, handleNonces] at hc
    split at hc
    · rename_i w hs
      split at hc
      · rename_i r hr
        rw [List.mem_singleton] at hc
        rw [hc]
        exact .signShare hs hr
      · exact absurd hc (by simp)
    · exact absurd hc (by simp)

theorem emits_applyBlock {s : State E} {block : Nat} {c : Command Action (Effect E)}
    (hc : c ∈ (T.applyBlock s block).2) : T.Emits s (.newBlock block) c := by
  simp only [applyBlock, List.mem_append] at hc
  rcases hc with (((hc | hc) | hc) | hc) | hc
  · exact .of_allRoutine (T.handleRolloverNewBlock_routine _ _) hc
  · exact .of_allRoutine (T.handleKeyGenTimeouts_routine _ _) hc
  · exact .of_allRoutine (T.handleSigningTimeouts_routine _ _) hc
  · exact .of_allRoutine (handleNonceTopup_routine _) hc
  · simp only [handleGroupReconciliation, List.mem_singleton] at hc
    rw [hc]
    exact .reconcile

/-- **The list is complete.** -/
theorem emits_applyTransition {s : State E} {msg : Msg E} {c : Command Action (Effect E)}
    (hc : c ∈ (T.applyTransition s msg).2) : T.Emits s msg c := by
  cases msg with
  | newBlock block => exact emits_applyBlock hc
  | resume r => exact emits_applyResume hc
  | event log =>
    obtain ⟨block, index, address, data⟩ := log
    cases data with
    | keyGen gid => exact .of_allRoutine (T.handleGenesisKeyGen_routine _ _) hc
    | keyGenCommitted gid p k => exact .of_allRoutine (T.handleKeyGenCommitted_routine _ _ _ _ _) hc
    | keyGenSecretShared gid p k =>
      exact .of_allRoutine (T.handleKeyGenSecretShared_routine _ _ _ _ _) hc
    | keyGenConfirmed gid p => exact .of_allRoutine (T.handleKeyGenConfirmed_routine _ _ _ _) hc
    | keyGenComplained gid p a x =>
      exact .of_allRoutine (T.handleKeyGenComplained_routine _ _ _ _ _) hc
    | keyGenComplaintResponded gid p a x =>
      exact .of_allRoutine (T.handleKeyGenComplaintResponded_routine _ _ _ _ _ _) hc
    | preprocess gid p chunk r =>
      simp only [applyTransition, applyEvent, handlePreprocess_commands] at hc
      exact absurd hc (by simp)
    | sign gid message sid q => exact emits_handleSign rfl hc
    | signRevealedNonces sid p n => exact emits_handleSignRevealedNonces rfl hc
    | signShared sid root p =>
      simp only [applyTransition, applyEvent, handleSignShared_commands] at hc
      exact absurd hc (by simp)
    | signCompleted sid =>
      simp only [applyTransition, applyEvent, handleSignCompleted_commands] at hc
      exact absurd hc (by simp)
    | epochStaged p gid sid => exact .of_allRoutine (handleEpochStaged_routine _ _ _) hc
    | transactionProposed o e d tx =>
      simp only [applyTransition, applyEvent, handleTransactionProposed_commands] at hc
      exact absurd hc (by simp)
    | transactionAttested h o e oh sid => exact absurd hc (by
        simp [applyTransition, applyEvent, handleTransactionAttested, handleSignAttested])
    | oracleResult m b => exact emits_handleOracleResult rfl hc
    | unhandled => exact absurd hc (by simp [applyTransition, applyEvent])

/-! ## 4. Joining a key generation -/

theorem handleSign_commitsTo (s : State E) (block : Nat) (gid m sid : B256) (q : Nat) :
    (T.handleSign s block gid m sid q).2.filterMap commitsTo = [] := by
  rw [handleSign_eq]
  dsimp only
  split
  · split
    · unfold openRequest
      split <;> rfl
    · rfl
  · rfl
  · rfl

theorem handleOracleResult_commitsTo (s : State E) (block : Nat) (o : Address) (m : B256)
    (b : Bool) : (T.handleOracleResult s block o m b).2.filterMap commitsTo = [] := by
  unfold handleOracleResult
  split
  · split
    · split <;> rfl
    · rfl
  · rfl

theorem handleSignRevealedNonces_commitsTo (s : State E) (block : Nat) (sid : B256) (p : Address)
    (n : SignNonces) :
    (T.handleSignRevealedNonces s block sid p n).2.filterMap commitsTo = [] := by
  unfold handleSignRevealedNonces
  split
  · rfl
  · split
    · dsimp only
      split <;> rfl
    · rfl

/-- A key generation is joined once our secrets are sampled, by one call. -/
theorem handleKeyGenSetup_commitsTo (s : State E) (gid : B256) (x : Secrets E) :
    (T.handleKeyGenSetup s gid x).2.filterMap commitsTo = [] ∨
      ∃ c poap, s.rollover = .collectingCommitments c ∧ c.secrets = .participating poap none ∧
        gid = c.group.id ∧ (T.handleKeyGenSetup s gid x).2.filterMap commitsTo =
          [groupId E.keccak256 c.group.root c.group.count c.group.threshold c.group.context] := by
  unfold handleKeyGenSetup
  split
  · rename_i c hr
    split
    · rename_i poap hs
      split
      · rename_i hgid
        have hfinal := fun d => (finalizeKeyGenCommitments_routine c.nextEpoch c.group (some x)
          c.commitments d).commitsTo
        dsimp only
        split
        · split
          · exact .inl rfl
          · exact .inr ⟨c, poap, hr, hs, hgid, rfl⟩
        · split
          · exact .inl (hfinal _)
          · refine .inr ⟨c, poap, hr, hs, hgid, ?_⟩
            rw [List.filterMap_append, hfinal, List.append_nil]
            rfl
      · exact .inl rfl
    · exact .inl rfl
  · exact .inl rfl

theorem applyEvent_commitsTo (s : State E) (log : EventLog Event) :
    (T.applyEvent s log).2.filterMap commitsTo = [] := by
  obtain ⟨block, index, address, data⟩ := log
  cases data with
  | keyGen gid => exact (T.handleGenesisKeyGen_routine _ _).commitsTo
  | keyGenCommitted gid p k => exact (T.handleKeyGenCommitted_routine _ _ _ _ _).commitsTo
  | keyGenSecretShared gid p k => exact (T.handleKeyGenSecretShared_routine _ _ _ _ _).commitsTo
  | keyGenConfirmed gid p => exact (T.handleKeyGenConfirmed_routine _ _ _ _).commitsTo
  | keyGenComplained gid p a x => exact (T.handleKeyGenComplained_routine _ _ _ _ _).commitsTo
  | keyGenComplaintResponded gid p a x =>
    exact (T.handleKeyGenComplaintResponded_routine _ _ _ _ _ _).commitsTo
  | preprocess gid p chunk r =>
    rw [applyEvent, handlePreprocess_commands]
    rfl
  | sign gid message sid q => exact handleSign_commitsTo _ _ _ _ _ _
  | signRevealedNonces sid p n => exact handleSignRevealedNonces_commitsTo _ _ _ _ _
  | signShared sid root p =>
    rw [applyEvent, handleSignShared_commands]
    rfl
  | signCompleted sid =>
    rw [applyEvent, handleSignCompleted_commands]
    rfl
  | epochStaged p gid sid => exact (handleEpochStaged_routine _ _ _).commitsTo
  | transactionProposed o e d tx =>
    rw [applyEvent, handleTransactionProposed_commands]
    rfl
  | transactionAttested h o e oh sid => rfl
  | oracleResult m b => exact handleOracleResult_commitsTo _ _ _ _ _
  | unhandled => rfl

/-- **Only the resume of the setup joins a key generation**, that of the round underway. -/
theorem applyTransition_commitsTo (s : State E) (msg : Msg E) :
    (T.applyTransition s msg).2.filterMap commitsTo = [] ∨
      ∃ c poap x, s.rollover = .collectingCommitments c ∧ c.secrets = .participating poap none ∧
        msg = .resume (.setup c.group.id x) ∧ (T.applyTransition s msg).2.filterMap commitsTo =
          [groupId E.keccak256 c.group.root c.group.count c.group.threshold c.group.context] := by
  cases msg with
  | newBlock block =>
    left
    simp only [applyTransition, applyBlock, List.filterMap_append, handleGroupReconciliation]
    rw [(T.handleRolloverNewBlock_routine _ _).commitsTo,
      (T.handleKeyGenTimeouts_routine _ _).commitsTo,
      (T.handleSigningTimeouts_routine _ _).commitsTo, (handleNonceTopup_routine _).commitsTo]
    rfl
  | resume r =>
    cases r with
    | noop => exact .inl rfl
    | setup gid x =>
      rcases handleKeyGenSetup_commitsTo (T := T) s gid x with h | ⟨c, poap, hr, hs, rfl, h⟩
      · exact .inl h
      · exact .inr ⟨c, poap, x, hr, hs, rfl, h⟩
    | nonceTree gid r => exact .inl (handleNonceTree_routine s gid r).commitsTo
    | nonceCommitments sid m n proof =>
      left
      simp only [applyTransition, applyResume, handleNonceCommitments]
      split
      · split <;> rfl
      · rfl
    | nonce m n =>
      left
      simp only [applyTransition, applyResume, handleNonces]
      split
      · split <;> rfl
      · rfl
  | event log => exact .inl (applyEvent_commitsTo s log)

end Transition

end Safenet
