/-
# What the transaction queue deletes

A queued transaction should leave the table for one of two reasons only: it expired before it was
assigned a nonce, or the account has used the nonce, at a block that no reorg reaches.

A run of the queue is taken along the chain: at each step there is a canonical chain, here the number
of transactions the account has made up to each block.  A mark in the table goes back to the step that
made it (`Explained`), and is right as long as the chain still has what it had then at that block.

While the process runs, a block that is replaced is announced before it counts as safe, and the mark
is cleared.  When the process starts the table is pruned up to the safe block first, and only the
marks above are cleared.  A block that was replaced while the process was down, and is below the safe
block by then, keeps its marks, and the rows are deleted (`offlineRun`).
-/
import Safenet.Core.Transactions

namespace Safenet

/-! ## 1. Runs along the chain -/

/-- The block status of a step. -/
def QueueStep.status {T : Type} : QueueStep T → Option BlockStatus
  | .updateBlockStatus _ status => some status
  | _ => none

/-- Whether the process starts. -/
def QueueStep.isRestart {T : Type} : QueueStep T → Bool
  | .restart _ => true
  | _ => false

/-- A step, and the account's nonce at each block of the chain at the time. -/
structure Moment (T : Type) where
  step : QueueStep T
  chain : Nat → Nat

/-- The block status the queue knows after a step. -/
def Moment.nextStatus {T : Type} (last : Option BlockStatus) (m : Moment T) : Option BlockStatus :=
  match m.step with
  | .queue _ _ => last
  | .updateBlockStatus _ status => some status
  | .restart _ => none

/-- The last block status since the process started. -/
def lastStatus {T : Type} (moments : List (Moment T)) : Option BlockStatus :=
  moments.foldl Moment.nextStatus none

/-- The queue after a run. -/
def runQueue {T : Type} (config : TxConfig) (moments : List (Moment T)) : TransactionQueue T :=
  Reactive.runState TransactionQueue.step (.create config []) (moments.map (·.step))

/-- Whether marks of a block are cleared at a status. -/
def Clears (previous : Option BlockStatus) (status : BlockStatus) (block : Nat) : Prop :=
  (TransactionQueue.invalidated previous status).any (· ≤ block)

/-- Some status of a stretch of the run clears the marks of a block. -/
def ClearedIn {T : Type} (past moments : List (Moment T)) (block : Nat) : Prop :=
  ∃ before m after status, moments = before ++ m :: after ∧ m.step.status = some status ∧
    Clears (lastStatus (past ++ before)) status block

/-- What the node and the block watcher see to: the node answers by the chain, on which the nonce only
grows; a safe block is never replaced; and while the process runs, a block that is replaced after it
was the latest is uncled before it counts as safe. -/
structure ChainContract {T : Type} (moments : List (Moment T)) : Prop where
  honest : ∀ m ∈ moments, ∀ env status nonce, m.step = .updateBlockStatus env status →
    env.transactionCount (some status.latest) = .ok nonce → nonce = m.chain status.latest
  monotone : ∀ m ∈ moments, Monotone m.chain
  ordered : ∀ m ∈ moments, ∀ status, m.step.status = some status → status.safe ≤ status.latest
  final : ∀ past m between m' rest, moments = past ++ m :: (between ++ m' :: rest) →
    ∀ status, m.step.status = some status → ∀ block ≤ status.safe, m'.chain block = m.chain block
  announced : ∀ past m between m' rest, moments = past ++ m :: (between ++ m' :: rest) →
    (∀ x ∈ between, x.step.isRestart = false) →
    ∀ status status', m.step.status = some status → m'.step.status = some status' →
      status.latest ≤ status'.safe → m'.chain status.latest = m.chain status.latest ∨
        ∃ x ∈ between, ∃ s, x.step.status = some s ∧ s.latest < status.latest

/-- When the process starts, no block that was the latest once and is now safe has been replaced by
one with fewer of the account's transactions up to it, short of a mark that was cleared since. -/
def KeptOffline {T : Type} (moments : List (Moment T)) : Prop :=
  ∀ past m between m' rest, moments = past ++ m :: (between ++ m' :: rest) →
    lastStatus (past ++ m :: between) = none →
    ∀ status status', m.step.status = some status → m'.step.status = some status' →
      status.latest ≤ status'.safe → m.chain status.latest ≤ m'.chain status.latest ∨
        ClearedIn (past ++ [m]) between status.latest

/-- A row is deleted only as it should be: it expired, and was assigned no nonce, or the nonce has been
used at the safe block. -/
def LosesNothing {T : Type} (config : TxConfig) (moments : List (Moment T)) : Prop :=
  ∀ past m rest, moments = past ++ m :: rest →
    ∀ row ∈ (runQueue config past).storage,
      (∀ row' ∈ (runQueue config (past ++ [m])).storage, row'.id ≠ row.id) →
      ∃ status, m.step.status = some status ∧
        ((row.nonce = none ∧ row.expiresAt.any (· ≤ status.safe)) ∨
          ∃ nonce, row.nonce = some nonce ∧ nonce < m.chain status.safe)

/-! ## 2. Marks and deletions of an operation -/

section

variable {T : Type} {s : TransactionStorage T}

/-- A mark goes back to one on the same row, that was not cleared, or is set by the operation. -/
theorem StorageOp.marked (ho : s.Ordered) {op : StorageOp T} {row' : TxRow T} {block : Nat}
    (hrow : row' ∈ op.apply s) (hmark : row'.executedAt = some block) :
    (∃ row ∈ s, row.executedAt = some block ∧ (row.nonce.isSome → row'.nonce = row.nonce) ∧
        ∀ b, op = .unmarkExecuted b → block < b) ∨
      ∃ nonce, op = .markExecuted block nonce ∧ row'.nonce.any (· < nonce) := by
  cases op with
  | enqueue transactions =>
    refine .inl ⟨row', ?_, hmark, fun _ => rfl, fun b hb => absurd hb (by simp)⟩
    refine TransactionStorage.enqueue_induction (s := s)
      (P := fun s' => row' ∈ s' → row' ∈ s) id (fun s' t ih h => ?_) transactions hrow
    rcases List.mem_append.mp h with h | h
    · exact ih h
    · obtain rfl := List.mem_singleton.mp h
      exact absurd hmark (by simp)
  | allocate nonce b =>
    refine .inl ?_
    rw [StorageOp.apply] at hrow
    split at hrow
    · rename_i picked hpicked
      obtain ⟨row, hmem, rfl⟩ := List.mem_map.mp hrow
      refine ⟨row, hmem, ?_, fun hsome => ?_, fun b hb => absurd hb (by simp)⟩
      · split at hmark <;> exact hmark
      · split
        · -- the picked row had no nonce
          rename_i hid
          obtain ⟨hp, hqueued, -⟩ := TransactionStorage.candidate_oldest ho hpicked
          have heq : row = picked := ho.eq_of_id hmem hp hid
          rw [heq] at hsome
          simp only [TransactionStorage.isQueued, Bool.and_eq_true, Option.isNone_iff_eq_none] at hqueued
          rw [hqueued.1] at hsome
          exact absurd hsome (by simp)
        · rfl
    · exact ⟨row', hrow, hmark, fun _ => rfl, fun b hb => absurd hb (by simp)⟩
  | recordSubmission b nonce fees =>
    obtain ⟨row, hmem, rfl⟩ := List.mem_map.mp hrow
    refine .inl ⟨row, hmem, ?_, fun _ => ?_, fun b hb => absurd hb (by simp)⟩
    · split at hmark <;> exact hmark
    · split <;> rfl
  | markExecuted b nonce =>
    obtain ⟨row, hmem, rfl⟩ := List.mem_map.mp hrow
    split at hmark
    · rename_i hset
      obtain rfl := Option.some.inj hmark
      rw [if_pos hset]
      exact .inr ⟨nonce, rfl, (Bool.and_eq_true_iff.mp hset).1⟩
    · rename_i hset
      rw [if_neg hset]
      exact .inl ⟨row, hmem, hmark, fun _ => rfl, fun b hb => absurd hb (by simp)⟩
  | prune safe =>
    exact .inl ⟨row', (List.mem_filter.mp hrow).1, hmark, fun _ => rfl, fun b hb => absurd hb (by simp)⟩
  | unmarkExecuted b =>
    obtain ⟨row, hmem, rfl⟩ := List.mem_map.mp hrow
    split at hmark
    · exact absurd hmark (by simp)
    · rename_i hkept
      rw [if_neg hkept]
      refine .inl ⟨row, hmem, hmark, fun _ => rfl, fun b' hb => ?_⟩
      obtain rfl := StorageOp.unmarkExecuted.inj hb
      simpa [hmark] using hkept

/-- A mark after some operations. -/
theorem marked_replay (ho : s.Ordered) {ops : List (StorageOp T)} {row' : TxRow T} {block : Nat}
    (hrow : row' ∈ replay s ops) (hmark : row'.executedAt = some block) :
    (∃ row ∈ s, row.executedAt = some block ∧ (row.nonce.isSome → row'.nonce = row.nonce) ∧
        ∀ b, .unmarkExecuted b ∈ ops → block < b) ∨
      ∃ nonce, .markExecuted block nonce ∈ ops ∧ row'.nonce.any (· < nonce) := by
  induction ops using List.reverseRecOn generalizing row' with
  | nil => exact .inl ⟨row', hrow, hmark, fun _ => rfl, by simp⟩
  | append_singleton ops op ih =>
    rw [replay_append] at hrow
    rcases StorageOp.marked (ho.replay ops) hrow hmark with
      ⟨row, hmem, hmark, hnonce, hkept⟩ | ⟨nonce, rfl, hlt⟩
    · rcases ih hmem hmark with ⟨row₀, hmem₀, hmark₀, hnonce₀, hkept₀⟩ | ⟨nonce, hop, hlt⟩
      · refine .inl ⟨row₀, hmem₀, hmark₀, fun hsome => ?_, fun b hb => ?_⟩
        · have h := hnonce₀ hsome
          rw [hnonce (by rw [h]; exact hsome), h]
        · rcases List.mem_append.mp hb with hb | hb
          · exact hkept₀ b hb
          · exact hkept b (List.mem_singleton.mp hb).symm
      · refine .inr ⟨nonce, List.mem_append_left _ hop, ?_⟩
        have hsome : row.nonce.isSome := by
          cases hn : row.nonce with
          | none => simp [hn] at hlt
          | some n => rfl
        rw [hnonce hsome]
        exact hlt
    · exact .inr ⟨nonce, by simp, hlt⟩

/-- Only pruning deletes a row. -/
theorem StorageOp.keeps {op : StorageOp T} (h : ∀ safe, op ≠ .prune safe) {row : TxRow T}
    (hrow : row ∈ s) : ∃ row' ∈ op.apply s, row'.id = row.id := by
  have hmap : ∀ f : TxRow T → TxRow T, (∀ row, (f row).id = row.id) →
      ∃ row' ∈ s.map f, row'.id = row.id := fun f hf => ⟨f row, List.mem_map_of_mem hrow, hf row⟩
  cases op with
  | enqueue transactions =>
    exact TransactionStorage.enqueue_induction (P := fun s' => ∃ row' ∈ s', row'.id = row.id)
      ⟨row, hrow, rfl⟩ (fun s' t ⟨row', h, hid⟩ => ⟨row', List.mem_append_left _ h, hid⟩) transactions
  | allocate nonce block =>
    rw [StorageOp.apply]
    split
    · exact hmap _ fun row => by split <;> rfl
    · exact ⟨row, hrow, rfl⟩
  | recordSubmission block nonce fees => exact hmap _ fun row => by split <;> rfl
  | markExecuted block nonce => exact hmap _ fun row => by split <;> rfl
  | prune safe => exact absurd rfl (h safe)
  | unmarkExecuted block => exact hmap _ fun row => by split <;> rfl

theorem keeps_replay {ops : List (StorageOp T)} (h : ∀ op ∈ ops, ∀ safe, op ≠ .prune safe)
    {row : TxRow T} (hrow : row ∈ s) : ∃ row' ∈ replay s ops, row'.id = row.id := by
  induction ops generalizing s row with
  | nil => exact ⟨row, hrow, rfl⟩
  | cons op ops ih =>
    obtain ⟨row', hrow', hid⟩ := StorageOp.keeps (h op List.mem_cons_self) hrow
    obtain ⟨row'', hrow'', hid'⟩ := ih (fun op' hop => h op' (List.mem_cons_of_mem _ hop)) hrow'
    exact ⟨row'', hrow'', hid'.trans hid⟩

end

/-! ## 3. Marks and deletions of a step -/

namespace TransactionQueue

variable {T : Type} {q : TransactionQueue T} {s : QueueStep T}

/-- Marks that a status clears are below a block that both statuses know. -/
theorem Clears.spec {previous : Option BlockStatus} {status : BlockStatus} {block : Nat}
    (h : Clears previous status block) : ∃ b, invalidated previous status = some b ∧ b ≤ block ∧
      (previous = none ∧ status.safe < block ∨ status.latest < block) ∧ previous ≠ some status := by
  unfold Clears at h
  cases hb : invalidated previous status with
  | none => simp [hb] at h
  | some b =>
    simp only [hb, Option.any_some, decide_eq_true_eq] at h
    refine ⟨b, rfl, h, ?_, fun hsame => ?_⟩
    · unfold invalidated at hb
      split at hb
      · obtain ⟨-, rfl⟩ : _ ∧ status.safe + 1 = b := by simpa [checkedSucc] using hb
        exact .inl ⟨rfl, h⟩
      · obtain ⟨-, -, rfl⟩ : _ ∧ _ ∧ status.latest + 1 = b := by simpa [checkedSucc] using hb
        exact .inr h
    · simp [invalidated, hsame] at hb

theorem pruneStorage_result {previous : Option BlockStatus} {status : BlockStatus}
    (h : status.safe < 2 ^ 63) (q : TransactionQueue T) :
    (pruneStorage previous status).result q = .ok () := by
  have hsafe : toI64 status.safe = .ok status.safe := if_pos h
  unfold pruneStorage
  split
  · rw [hsafe]
    rfl
  · rfl

/-- The marks are cleared when the status says so. -/
theorem cleared_op (env : TxEnv T) {status : BlockStatus} {block : Nat}
    (h : Clears q.blockStatus status block) (hblock : block < 2 ^ 63)
    (hsafe : status.safe ≤ status.latest) :
    ∃ b ≤ block, .unmarkExecuted b ∈ (updateBlockStatus env status).log q := by
  obtain ⟨b, hb, hle, hbound, hne⟩ := Clears.spec h
  refine ⟨b, hle, ?_⟩
  obtain ⟨-, hsilent, hok, -⟩ := invalidateCaches_spec env (A := fun _ => True) q.blockStatus status
    { q with blockStatus := some status }
  have hrun : (updateBlockStatus env status).log q =
      (reconcile env q.blockStatus status).log { q with blockStatus := some status } := by
    rw [Logged.log, updateBlockStatus_changed env hne]
    rfl
  have hunmark : ∀ q' : TransactionQueue T,
      (unmarkExecuted q.blockStatus status).log q' = [.unmarkExecuted b] ∧
        (unmarkExecuted q.blockStatus status).result q' = .ok () := by
    intro q'
    have hb' : toI64 b = .ok b := if_pos (hle.trans_lt hblock)
    unfold unmarkExecuted
    rw [hb]
    simp only [hb']
    exact ⟨rfl, rfl⟩
  rw [hrun, reconcile, Logged.log_bind hok, hsilent,
    Logged.log_bind (pruneStorage_result (by omega) _), Logged.log_bind (hunmark _).2, (hunmark _).1]
  simp

/-- **A mark after a step** is one from before that the step does not clear, or is new, and the nonce
is below what the node answered for the block. -/
theorem marked_step (ho : q.storage.Ordered) {row' : TxRow T} {block : Nat}
    (hrow : row' ∈ (q.step s).1.storage) (hmark : row'.executedAt = some block) :
    (∃ row ∈ q.storage, row.executedAt = some block ∧ (row.nonce.isSome → row'.nonce = row.nonce) ∧
        (block < 2 ^ 63 → ∀ status, s.status = some status → status.safe ≤ status.latest →
          ¬Clears q.blockStatus status block)) ∨
      ∃ env status nonce, s = .updateBlockStatus env status ∧ status.latest = block ∧
        block < 2 ^ 63 ∧ env.transactionCount (some block) = .ok nonce ∧
        row'.nonce.any (· < nonce) := by
  rw [step_replay] at hrow
  rcases marked_replay ho hrow hmark with ⟨row, hmem, hmark, hnonce, hkept⟩ | ⟨nonce, hop, hlt⟩
  · refine .inl ⟨row, hmem, hmark, hnonce, fun hblock status hs hsafe hclears => ?_⟩
    cases s with
    | queue env transactions => exact absurd hs (by simp [QueueStep.status])
    | restart config => exact absurd hs (by simp [QueueStep.status])
    | updateBlockStatus env status' =>
      obtain rfl := Option.some.inj hs
      obtain ⟨b, hle, hb⟩ := cleared_op env hclears hblock hsafe
      exact absurd (hkept b hb) (by omega)
  · cases s with
    | queue env transactions =>
      exact absurd ((queue_writes env transactions q).ops _ hop) (by simp [StorageOp.isSubmission])
    | restart config => exact absurd hop (by simp [step])
    | updateBlockStatus env status =>
      obtain ⟨-, -, pruned, rest, hlog, hpruned, hrest⟩ := updateBlockStatus_wrote env status q
      refine .inr ⟨env, status, nonce, rfl, ?_⟩
      have hmem : .markExecuted block nonce ∈ pruned ++ rest := hlog ▸ hop
      rcases List.mem_append.mp hmem with hmem | hmem
      · rcases hpruned with rfl | rfl <;> exact absurd hmem (by simp)
      · rcases hrest _ hmem with h | ⟨b, h⟩ | ⟨n, h, -, hbound, hanswer⟩
        · exact absurd h (by simp [StorageOp.isSubmission])
        · exact absurd h (by simp)
        · obtain ⟨rfl, rfl⟩ := StorageOp.markExecuted.inj h
          exact ⟨rfl, hbound, hanswer, hlt⟩

/-- **What a step deletes** is pruned by it up to the safe block. -/
theorem deleted_step {row : TxRow T} (hrow : row ∈ q.storage)
    (hgone : ∀ row' ∈ (q.step s).1.storage, row'.id ≠ row.id) :
    ∃ status, s.status = some status ∧ (row.executedAt.any (· ≤ status.safe) ∨
      (row.nonce = none ∧ row.expiresAt.any (· ≤ status.safe))) := by
  rw [step_replay] at hgone
  have hkept : ∀ s' : TransactionStorage T, row ∈ s' → ∀ ops : List (StorageOp T),
      (∀ op ∈ ops, ∀ safe, op ≠ .prune safe) → ¬∀ row' ∈ replay s' ops, row'.id ≠ row.id := by
    intro s' hmem ops hops h
    obtain ⟨row', hrow', hid⟩ := keeps_replay hops hmem
    exact h row' hrow' hid
  cases s with
  | queue env transactions =>
    refine absurd hgone (hkept _ hrow _ fun op hop safe h => ?_)
    have := (queue_writes env transactions q).ops op hop
    simp [h, StorageOp.isSubmission] at this
  | restart config => exact absurd rfl (hgone row hrow)
  | updateBlockStatus env status =>
    obtain ⟨-, -, pruned, rest, hlog, hpruned, hrest⟩ := updateBlockStatus_wrote env status q
    have hops : ∀ op ∈ rest, ∀ safe, op ≠ .prune safe := by
      rintro op hop safe rfl
      rcases hrest _ hop with h | ⟨b, h⟩ | ⟨n, h, -⟩
      · exact absurd h (by simp [StorageOp.isSubmission])
      · exact absurd h (by simp)
      · exact absurd h (by simp)
    have hgone' : ∀ row' ∈ replay (replay q.storage pruned) rest, row'.id ≠ row.id := by
      rw [← replay_append, ← hlog]
      exact hgone
    refine ⟨status, rfl, ?_⟩
    by_contra hcon
    refine hkept _ ?_ rest hops hgone'
    rcases hpruned with rfl | rfl
    · exact hrow
    · refine List.mem_filter.mpr ⟨hrow, ?_⟩
      obtain ⟨hexecuted, hexpired⟩ := not_or.mp hcon
      cases hnonce : row.nonce with
      | none =>
        have hexpired : ¬row.expiresAt.any (· ≤ status.safe) = true := fun h => hexpired ⟨hnonce, h⟩
        simpa [hexecuted] using hexpired
      | some n => simp [hexecuted]

end TransactionQueue

/-! ## 4. Runs -/

section

open TransactionQueue

variable {T : Type} {config : TxConfig} {past moments : List (Moment T)} {block nonce : Nat}

theorem lastStatus_concat (past : List (Moment T)) (m : Moment T) :
    lastStatus (past ++ [m]) = m.nextStatus (lastStatus past) := by
  rw [lastStatus, List.foldl_append]
  rfl

theorem runQueue_concat (config : TxConfig) (past : List (Moment T)) (m : Moment T) :
    runQueue config (past ++ [m]) = ((runQueue config past).step m.step).1 := by
  rw [runQueue, List.map_append, Reactive.runState_append]
  rfl

/-- The queue knows the last status, and its table is in order. -/
theorem runQueue_spec (config : TxConfig) (past : List (Moment T)) :
    (runQueue config past).blockStatus = lastStatus past ∧ (runQueue config past).storage.Ordered := by
  induction past using List.reverseRecOn with
  | nil => exact ⟨rfl, .nil⟩
  | append_singleton past m ih =>
    rw [runQueue_concat, lastStatus_concat]
    refine ⟨?_, step_replay _ _ ▸ ih.2.replay _⟩
    unfold Moment.nextStatus
    cases m.step with
    | queue env transactions =>
      exact (queue_writes env transactions _).blockStatus.trans ih.1
    | updateBlockStatus env status => exact (updateBlockStatus_wrote env status _).2.1
    | restart config => rfl

/-- Where a mark of a block on a row with a nonce comes from: a step at which the block was the latest,
and the account's nonce there was larger.  It has not been cleared since. -/
def Explained (past : List (Moment T)) (block nonce : Nat) : Prop :=
  ∃ before m between status, past = before ++ m :: between ∧ m.step.status = some status ∧
    status.latest = block ∧ block < 2 ^ 63 ∧ nonce < m.chain block ∧
    ¬ClearedIn (before ++ [m]) between block

theorem ClearedIn.concat {between : List (Moment T)} {m : Moment T}
    (h : ClearedIn past (between ++ [m]) block) : ClearedIn past between block ∨
      ∃ status, m.step.status = some status ∧ Clears (lastStatus (past ++ between)) status block := by
  obtain ⟨before, x, after, status, hsplit, hstatus, hclears⟩ := h
  rcases List.eq_nil_or_concat after with rfl | ⟨after, y, rfl⟩
  · obtain ⟨rfl, hx⟩ := List.append_inj' hsplit rfl
    obtain rfl := List.singleton_inj.mp hx
    exact .inr ⟨status, hstatus, hclears⟩
  · rw [List.concat_eq_append, ← List.cons_append, ← List.append_assoc] at hsplit
    obtain ⟨rfl, -⟩ := List.append_inj' hsplit rfl
    exact .inl ⟨before, x, after, status, rfl, hstatus, hclears⟩

/-- **Every mark is explained.** -/
theorem marks_explained (hc : ChainContract (past ++ moments)) :
    ∀ row ∈ (runQueue config past).storage, ∀ block, row.executedAt = some block →
      ∃ nonce, row.nonce = some nonce ∧ Explained past block nonce := by
  induction past using List.reverseRecOn generalizing moments with
  | nil => exact fun row hrow => absurd hrow (by simp [runQueue, TransactionQueue.create])
  | append_singleton past m ih =>
    intro row' hrow' block hmark
    obtain ⟨hstatus, hordered⟩ := runQueue_spec config past
    rw [runQueue_concat] at hrow'
    have hm : m ∈ past ++ [m] ++ moments := by simp
    rcases marked_step hordered hrow' hmark with
      ⟨row, hmem, hmark, hsame, hkept⟩ | ⟨env, status, n, hs, rfl, hbound, hanswer, hlt⟩
    · rw [List.append_assoc] at hc
      obtain ⟨nonce, hnonce, before, m₀, between, status, rfl, hs₀, hlatest, hbound, hlt, hclear⟩ :=
        ih hc row hmem block hmark
      refine ⟨nonce, (hsame (by rw [hnonce]; rfl)).trans hnonce, before, m₀, between ++ [m], status,
        by simp, hs₀, hlatest, hbound, hlt, fun h => ?_⟩
      rcases h.concat with h | ⟨status', hs', hclears⟩
      · exact hclear h
      · rw [List.append_assoc, List.singleton_append, ← hstatus] at hclears
        exact hkept hbound status' hs' (hc.ordered m (by simp) status' hs') hclears
    · cases hnonce : row'.nonce with
      | none => simp [hnonce] at hlt
      | some k =>
        have hn := hc.honest m hm env status n hs hanswer
        simp only [hnonce, Option.any_some, decide_eq_true_eq] at hlt
        refine ⟨k, rfl, past, m, [], status, rfl, by rw [hs]; rfl, rfl, hbound, hn ▸ hlt, ?_⟩
        rintro ⟨before, x, after, _, hsplit, -⟩
        exact absurd hsplit (by simp)

/-- What a status of the same session announced is cleared when the latest block first falls below. -/
theorem clearedIn_of_announced {between : List (Moment T)} {p : BlockStatus}
    (hp : lastStatus past = some p) (hle : block ≤ p.latest) (hblock : block < 2 ^ 63)
    (hsession : ∀ x ∈ between, x.step.isRestart = false)
    (h : ∃ x ∈ between, ∃ s, x.step.status = some s ∧ s.latest < block) :
    ClearedIn past between block := by
  induction between generalizing past p with
  | nil => exact absurd h (by simp)
  | cons y between ih =>
    have hnext := lastStatus_concat past y
    have hlift : ClearedIn (past ++ [y]) between block → ClearedIn past (y :: between) block := by
      rintro ⟨before, x, after, status, rfl, hs, hclears⟩
      refine ⟨y :: before, x, after, status, rfl, hs, ?_⟩
      rwa [List.append_assoc, List.singleton_append] at hclears
    have hrest := fun x hx => hsession x (List.mem_cons_of_mem y hx)
    have hlater : (∀ s, y.step.status = some s → ¬s.latest < block) →
        ∃ x ∈ between, ∃ s, x.step.status = some s ∧ s.latest < block := by
      intro hy
      obtain ⟨x, hx, s, hs, hlt⟩ := h
      rcases List.mem_cons.mp hx with rfl | hx
      · exact absurd hlt (hy s hs)
      · exact ⟨x, hx, s, hs, hlt⟩
    cases hstep : y.step with
    | queue env transactions =>
      rw [Moment.nextStatus, hstep, hp] at hnext
      refine hlift (ih hnext hle hrest (hlater fun s hs => ?_))
      exact absurd hs (by simp [hstep, QueueStep.status])
    | restart config =>
      exact absurd (hsession y List.mem_cons_self) (by simp [hstep, QueueStep.isRestart])
    | updateBlockStatus env s =>
      rw [Moment.nextStatus, hstep] at hnext
      by_cases hlt : s.latest < block
      · refine ⟨[], y, between, s, rfl, by rw [hstep]; rfl, ?_⟩
        have hfall : s.latest < p.latest := hlt.trans_le hle
        have hmax : s.latest < u64Max := by
          have : (2 : Nat) ^ 63 < u64Max := by decide
          omega
        simp only [List.append_nil, hp, Clears, invalidated, if_pos hfall, checkedSucc, if_pos hmax,
          Option.any_some, decide_eq_true_eq]
        exact hlt
      · refine hlift (ih hnext (not_lt.mp hlt) hrest (hlater fun s' hs' => ?_))
        rw [hstep] at hs'
        exact Option.some.inj hs' ▸ hlt

/-- A stretch after which a status is known, and in which the process starts, has a first status after
the last start. -/
theorem exists_first_status {between : List (Moment T)} {p : BlockStatus}
    (hp : lastStatus (past ++ between) = some p)
    (hrestart : ¬∀ x ∈ between, x.step.isRestart = false) :
    ∃ before x after status, between = before ++ x :: after ∧ x.step.status = some status ∧
      lastStatus (past ++ before) = none := by
  induction between using List.reverseRecOn generalizing p with
  | nil => exact absurd (by simp) hrestart
  | append_singleton between y ih =>
    rw [← List.append_assoc, lastStatus_concat] at hp
    have hbetween : y.step.isRestart = false → ¬∀ x ∈ between, x.step.isRestart = false := by
      intro hy h
      refine hrestart fun x hx => ?_
      rcases List.mem_append.mp hx with hx | hx
      · exact h x hx
      · exact List.mem_singleton.mp hx ▸ hy
    have hlift : (∃ before x after status, between = before ++ x :: after ∧
          x.step.status = some status ∧ lastStatus (past ++ before) = none) →
        ∃ before x after status, between ++ [y] = before ++ x :: after ∧
          x.step.status = some status ∧ lastStatus (past ++ before) = none := by
      rintro ⟨before, x, after, status, rfl, hs, hnone⟩
      exact ⟨before, x, after ++ [y], status, by simp, hs, hnone⟩
    cases hstep : y.step with
    | queue env transactions =>
      rw [Moment.nextStatus, hstep] at hp
      exact hlift (ih hp (hbetween (by rw [hstep]; rfl)))
    | restart config =>
      rw [Moment.nextStatus, hstep] at hp
      exact absurd hp (by simp)
    | updateBlockStatus env status =>
      cases hlast : lastStatus (past ++ between) with
      | none => exact ⟨between, y, [], status, rfl, by rw [hstep]; rfl, hlast⟩
      | some p' => exact hlift (ih hlast (hbetween (by rw [hstep]; rfl)))

/-- **What is explained by the chain as it was holds of the chain once the block is safe.** -/
theorem Explained.used {m : Moment T} {rest : List (Moment T)} (hc : ChainContract (past ++ m :: rest))
    (hkept : KeptOffline (past ++ m :: rest)) (h : Explained past block nonce) {status : BlockStatus}
    (hstatus : m.step.status = some status) (hsafe : block ≤ status.safe) :
    nonce < m.chain status.safe := by
  obtain ⟨before, m₀, between, s₀, rfl, hs₀, rfl, hbound, hlt, hclear⟩ := h
  refine lt_of_lt_of_le ?_ (hc.monotone m (by simp) hsafe)
  have hsplit : before ++ m₀ :: between ++ m :: rest = before ++ m₀ :: (between ++ m :: rest) := by simp
  have hlast : lastStatus (before ++ [m₀]) = some s₀ := by
    rw [lastStatus_concat, Moment.nextStatus]
    cases hstep : m₀.step <;> simp_all [QueueStep.status]
  cases hprevious : lastStatus (before ++ m₀ :: between) with
  | none =>
    rcases hkept before m₀ between m rest hsplit hprevious s₀ status hs₀ hstatus hsafe with h | h
    · exact hlt.trans_le h
    · exact absurd h hclear
  | some p =>
    by_cases hsession : ∀ x ∈ between, x.step.isRestart = false
    · rcases hc.announced before m₀ between m rest hsplit hsession s₀ status hs₀ hstatus hsafe with h | h
      · exact h ▸ hlt
      · exact absurd (clearedIn_of_announced hlast le_rfl hbound hsession h) hclear
    · -- the process started in between: the first status after that did not clear the mark either
      have happend : before ++ m₀ :: between = before ++ [m₀] ++ between := by simp
      rw [happend] at hprevious
      obtain ⟨l, x, l', s, rfl, hs, hnone⟩ := exists_first_status hprevious hsession
      have hnot : ¬Clears none s s₀.latest := by
        intro h
        refine hclear ⟨l, x, l', s, rfl, hs, ?_⟩
        rw [hnone]
        exact h
      have hbelow : s₀.latest ≤ s.safe := by
        by_contra hcon
        have hmax : s.safe < u64Max := by
          have : (2 : Nat) ^ 63 < u64Max := by decide
          omega
        refine hnot ?_
        simp only [Clears, invalidated, checkedSucc, if_pos hmax, Option.any_some, decide_eq_true_eq]
        omega
      have hstart : lastStatus (before ++ m₀ :: l) = none := by
        rw [← hnone]
        simp
      have hthen : before ++ m₀ :: (l ++ x :: l') ++ m :: rest =
          before ++ m₀ :: (l ++ x :: (l' ++ m :: rest)) := by simp
      have hnow : before ++ m₀ :: (l ++ x :: l') ++ m :: rest =
          (before ++ m₀ :: l) ++ x :: (l' ++ m :: rest) := by simp
      rw [hc.final (before ++ m₀ :: l) x l' m rest hnow s hs _ hbelow]
      rcases hkept before m₀ l x (l' ++ m :: rest) hthen hstart s₀ s hs₀ hs hbelow with h | h
      · exact hlt.trans_le h
      · refine absurd ?_ hclear
        obtain ⟨b, y, a, st, rfl, hy, hcl⟩ := h
        exact ⟨b, y, a ++ x :: l', st, by simp, hy, hcl⟩

/-- **The queue loses nothing**, in a run in which no block that was the latest once is replaced while
the process is down, and is safe when it starts. -/
theorem loses_nothing (config : TxConfig) (moments : List (Moment T)) (hc : ChainContract moments)
    (hkept : KeptOffline moments) : LosesNothing config moments := by
  intro past m rest hmoments row hrow hgone
  subst hmoments
  rw [runQueue_concat] at hgone
  obtain ⟨status, hstatus, h⟩ := deleted_step hrow hgone
  refine ⟨status, hstatus, ?_⟩
  rcases h with hexecuted | hexpired
  · cases hmark : row.executedAt with
    | none => simp [hmark] at hexecuted
    | some block =>
      simp only [hmark, Option.any_some, decide_eq_true_eq] at hexecuted
      obtain ⟨nonce, hnonce, hexplained⟩ := marks_explained hc row hrow block hmark
      exact .inr ⟨nonce, hnonce, hexplained.used hc hkept hstatus hexecuted⟩
  · exact .inl hexpired

/-- A chain on which the account's eighth transaction is in block 100. -/
def includedChain (block : Nat) : Nat := if block < 100 then 7 else 8

theorem includedChain_monotone : Monotone includedChain := by
  intro a b hab
  unfold includedChain
  split <;> split <;> omega

/-- A transaction is queued with the nonce 7, and included.  Then the process starts again, ten blocks
later, along the chain as it is by then. -/
def restartedRun (count : Nat) (chain : Nat → Nat) : List (Moment Unit) :=
  [⟨.updateBlockStatus (toyEnv (.ok 7)) ⟨99, 94⟩, includedChain⟩,
    ⟨.queue (toyEnv (.ok 7)) [((), none)], includedChain⟩,
    ⟨.updateBlockStatus (toyEnv (.ok 8)) ⟨100, 95⟩, includedChain⟩,
    ⟨.restart ⟨16, 2⟩, chain⟩,
    ⟨.updateBlockStatus (toyEnv (.ok count)) ⟨110, 105⟩, chain⟩]

/-- Both ways to split a list with a first element. -/
theorem forall_split_cons {α : Type} {a : α} {l : List α} {R : List α → α → List α → Prop} :
    (∀ b m r, a :: l = b ++ m :: r → R b m r) ↔
      R [] a l ∧ ∀ b m r, l = b ++ m :: r → R (a :: b) m r := by
  constructor
  · intro h
    exact ⟨h [] a l rfl, fun b m r hl => h (a :: b) m r (by rw [hl]; rfl)⟩
  · rintro ⟨hnil, hcons⟩ b m r hl
    cases b with
    | nil =>
      obtain ⟨rfl, rfl⟩ := List.cons.inj hl
      exact hnil
    | cons c b =>
      obtain ⟨rfl, htail⟩ := List.cons.inj hl
      exact hcons b m r htail

/-- The chain of such a run is as it should be when it agrees with the earlier one up to the last safe
block of that, and the node answers by it. -/
theorem restartedRun_contract {chain : Nat → Nat} (hmono : Monotone chain)
    (hagree : ∀ block ≤ 95, chain block = includedChain block) :
    ChainContract (restartedRun (chain 110) chain) where
  honest := by
    intro m hm env status nonce hs hanswer
    simp only [restartedRun, List.mem_cons, List.not_mem_nil, or_false] at hm
    rcases hm with rfl | rfl | rfl | rfl | rfl <;> cases hs <;>
      exact (Except.ok.inj hanswer).symm
  monotone := by
    intro m hm
    simp only [restartedRun, List.mem_cons, List.not_mem_nil, or_false] at hm
    rcases hm with rfl | rfl | rfl | rfl | rfl
    · exact includedChain_monotone
    · exact includedChain_monotone
    · exact includedChain_monotone
    · exact hmono
    · exact hmono
  ordered := by
    intro m hm status hs
    simp only [restartedRun, List.mem_cons, List.not_mem_nil, or_false] at hm
    rcases hm with rfl | rfl | rfl | rfl | rfl <;> cases hs <;> decide
  final := by
    have h : ∀ past m tail, restartedRun (chain 110) chain = past ++ m :: tail →
        ∀ between m' rest, tail = between ++ m' :: rest → ∀ status, m.step.status = some status →
          ∀ block ≤ status.safe, m'.chain block = m.chain block := by
      simp only [restartedRun, forall_split_cons, List.nil_eq_append_iff, reduceCtorEq, and_false,
        QueueStep.status, Option.some.injEq, forall_eq', IsEmpty.forall_iff, implies_true, and_true,
        true_and]
      exact ⟨⟨fun b hb => hagree b (by omega), fun b hb => hagree b (by omega)⟩, hagree, hagree⟩
    exact fun past m between m' rest hsplit => h past m _ hsplit between m' rest rfl
  announced := by
    have h : ∀ past m tail, restartedRun (chain 110) chain = past ++ m :: tail →
        ∀ between m' rest, tail = between ++ m' :: rest → (∀ x ∈ between, x.step.isRestart = false) →
          ∀ status status', m.step.status = some status → m'.step.status = some status' →
            status.latest ≤ status'.safe → m'.chain status.latest = m.chain status.latest ∨
              ∃ x ∈ between, ∃ s, x.step.status = some s ∧ s.latest < status.latest := by
      simp [restartedRun, forall_split_cons, QueueStep.status, QueueStep.isRestart]
    exact fun past m between m' rest hsplit => h past m _ hsplit between m' rest rfl

/-- The transaction stays included, and is deleted. -/
theorem loses_nothing_included :
    LosesNothing ⟨16, 2⟩ (restartedRun 8 includedChain) ∧
      (runQueue ⟨16, 2⟩ (restartedRun 8 includedChain)).storage = [] := by
  refine ⟨loses_nothing _ _ (restartedRun_contract includedChain_monotone fun _ _ => rfl) ?_, by
    decide +kernel⟩
  intro past m between m' rest hsplit _ status status' _ _ _
  have hchain : ∀ x ∈ restartedRun 8 includedChain, x.chain = includedChain := by
    simp [restartedRun]
  rw [hchain m (by rw [hsplit]; simp), hchain m' (by rw [hsplit]; simp)]
  exact .inl le_rfl

/-- The transaction is reorged out while the process is down. -/
def offlineRun : List (Moment Unit) := restartedRun 7 fun _ => 7

/-- It is deleted, although the account's nonce is the transaction's. -/
theorem offline_reorg_loses :
    ChainContract offlineRun ∧ ¬LosesNothing ⟨16, 2⟩ offlineRun := by
  refine ⟨restartedRun_contract (fun _ _ _ => le_rfl) fun block hblock => ?_, fun h => ?_⟩
  · exact (if_pos (by omega)).symm
  · obtain ⟨status, hstatus, hcases⟩ := h (offlineRun.take 4) ⟨.updateBlockStatus (toyEnv (.ok 7))
      ⟨110, 105⟩, fun _ => 7⟩ [] rfl ⟨1, (), some ⟨10, 1⟩, none, some 7, some 99, some 100⟩
      (by decide +kernel) (by decide +kernel)
    simp at hcases

end

end Safenet
