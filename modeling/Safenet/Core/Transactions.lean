/-
# The transaction queue

`tx`: the transactions a service has queued, in a SQL table, and what becomes of them.  A row gets a
nonce when it is submitted, is marked as executed when the account moved past the nonce, and is
deleted when that is final; a reorg clears the mark again.

The table is a list of rows by id, and a call of the storage an operation on it.  The queue is a
program that logs its operations, so that the table of a run is the one its log leaves.

Two things go wrong, each in one place.

* SQLite does not fail at the end of its integers, but goes on with a real number, which is its own
  successor.  Two rows then get the same nonce (`sqlSucc`).
* On startup the table is pruned up to the safe block before any mark is cleared, and only marks
  above it are.  A mark that a reorg made stale while the process was down counts as final.
-/
import Safenet.Core.BlockWatcher
import Safenet.Lib.Logged

namespace Safenet

/-! ## 1. The storage -/

/-- EIP-1559 fees. -/
structure Fees where
  maxFeePerGas : Nat
  maxPriorityFeePerGas : Nat
  deriving DecidableEq

/-- A row of the table, by the columns; the fees are part of the request. -/
structure TxRow (T : Type) where
  id : Nat
  request : T
  fees : Option Fees
  expiresAt : Option Nat
  nonce : Option Nat
  submittedAt : Option Nat
  executedAt : Option Nat
  deriving DecidableEq

/-- The table, by id. -/
abbrev TransactionStorage (T : Type) : Type := List (TxRow T)

/-- The errors of the queue and its storage. -/
inductive TxError where
  | overflow
  | nonceNotFound (nonce : Nat)
  | serialization
  | rpc
  | signing
  deriving DecidableEq

/-- A transaction with its nonce, and the fees it was last submitted with. -/
structure AllocatedTransaction (T : Type) where
  nonce : Nat
  transaction : T
  fees : Option Fees

/-- `i64::try_from`. -/
def toI64 (n : Nat) : Except TxError Nat := if n < 2 ^ 63 then .ok n else .error .overflow

/-- `nonce + 1` in SQL: past the largest integer it is the real number `2 ^ 63`, as is what follows. -/
def sqlSucc (nonce : Nat) : Nat := if nonce < 2 ^ 63 - 1 then nonce + 1 else 2 ^ 63

namespace TransactionStorage

variable {T : Type} (s : TransactionStorage T)

/-- Insert a row.  Its id is above all others. -/
def insert (transaction : T × Option Nat) : TransactionStorage T :=
  s ++ [{
    id := (s.map (·.id)).foldr max 0 + 1
    request := transaction.1
    fees := none
    expiresAt := transaction.2
    nonce := none
    submittedAt := none
    executedAt := none }]

/-- Whether a row is queued at a block: neither assigned a nonce nor expired. -/
def isQueued (block : Nat) (row : TxRow T) : Bool :=
  row.nonce.isNone && row.expiresAt.all (block < ·)

/-- The oldest queued row. -/
def candidate (block : Nat) : Option (TxRow T) := s.find? (isQueued block)

/-- The nonces. -/
def nonces : List Nat := s.filterMap (·.nonce)

/-- The first free nonce from a given one on. -/
def freeNonce (nonce : Nat) : Nat := max nonce ((s.nonces.max?.map sqlSucc).getD 0)

/-- Whether a row is in flight. -/
def isInFlight (row : TxRow T) : Bool := row.nonce.isSome && row.executedAt.isNone

/-- `count_in_flight`. -/
def countInFlight : Nat := s.countP isInFlight

/-- `count_outstanding`. -/
def countOutstanding (block : Nat) : Nat :=
  s.countP fun row => row.executedAt.isNone && (row.nonce.isSome || row.expiresAt.all (block < ·))

/-- The rows due for another submission, by nonce. -/
def staleRows (submittedBefore : Option Nat) : List (TxRow T) :=
  (s.filter fun row => isInFlight row &&
      row.submittedAt.all fun submitted => submittedBefore.any (submitted ≤ ·)).insertionSort
    fun a b => a.nonce.getD 0 ≤ b.nonce.getD 0

end TransactionStorage

/-- The operations of the storage that write. -/
inductive StorageOp (T : Type) where
  | enqueue (transactions : List (T × Option Nat))
  | allocate (nonce block : Nat)
  | recordSubmission (block : Option Nat) (nonce : Nat) (fees : Fees)
  | markExecuted (block nonce : Nat)
  | prune (safe : Nat)
  | unmarkExecuted (block : Nat)

/-- What an operation does to the table. -/
def StorageOp.apply {T : Type} (s : TransactionStorage T) : StorageOp T → TransactionStorage T
  | .enqueue transactions => transactions.foldl TransactionStorage.insert s
  | .allocate nonce block =>
    match s.candidate block with
    | some picked => s.map fun row =>
        if row.id = picked.id then { row with nonce := some (s.freeNonce nonce) } else row
    | none => s
  | .recordSubmission block nonce fees => s.map fun row =>
      if row.nonce = some nonce then { row with submittedAt := block, fees := some fees } else row
  | .markExecuted block nonce => s.map fun row =>
      if row.nonce.any (· < nonce) && row.executedAt.isNone then { row with executedAt := some block }
      else row
  | .prune safe => s.filter fun row => !row.executedAt.any (· ≤ safe) &&
      !(row.nonce.isNone && row.expiresAt.any (· ≤ safe))
  | .unmarkExecuted block => s.map fun row =>
      if row.executedAt.any (block ≤ ·) then { row with executedAt := none } else row

/-- The table after some operations. -/
def replay {T : Type} (s : TransactionStorage T) (ops : List (StorageOp T)) : TransactionStorage T :=
  ops.foldl StorageOp.apply s

/-! ## 2. The queue -/

/-- The configuration of the queue. -/
structure TxConfig where
  maxInFlightTransactions : Nat
  blocksBeforeResubmit : Nat

/-- The queue. -/
structure TransactionQueue (T : Type) where
  storage : TransactionStorage T
  config : TxConfig
  blockStatus : Option BlockStatus
  nonceCache : Option Nat
  feeCache : Option Fees

/-- A transaction as it is signed and sent. -/
structure SignedTransaction (T : Type) where
  nonce : Nat
  transaction : T
  fees : Fees

/-- What the node makes of a transaction. -/
inductive SendResult where
  | accepted
  | underpriced
  | failed

/-- What the node and the signer answer: the account's nonce at a block, or at the latest, the
estimate of the fees with the cap applied, whether a transaction is signed, and what becomes of it. -/
structure TxEnv (T : Type) where
  transactionCount : Option Nat → Except Unit Nat
  estimateFees : Except Unit Fees
  sign : SignedTransaction T → Bool
  send : SignedTransaction T → SendResult

/-- A fresh fee, raised to at least a tenth above the previous one. -/
def bumpFee (fresh previous : Nat) : Nat :=
  max fresh (min (2 ^ 128 - 1) (previous + (previous + 9) / 10))

/-- `bump`. -/
def bumpFees (fresh : Fees) : Option Fees → Fees
  | none => fresh
  | some previous =>
    ⟨bumpFee fresh.maxFeePerGas previous.maxFeePerGas,
      bumpFee fresh.maxPriorityFeePerGas previous.maxPriorityFeePerGas⟩

/-- A program on the queue. -/
abbrev QueueM (T α : Type) : Type := Logged (TransactionQueue T) (StorageOp T) TxError α

namespace TransactionQueue

variable {T : Type}

/-- Create a queue on a table. -/
def create (config : TxConfig) (storage : TransactionStorage T) : TransactionQueue T :=
  ⟨storage, config, none, none, none⟩

/-- A write. -/
def write (op : StorageOp T) : QueueM T Unit :=
  Logged.perform (fun q => { q with storage := op.apply q.storage }) op

/-- The account's nonce at the latest block, cached. -/
def nonce (env : TxEnv T) : QueueM T Nat := do
  let q ← Logged.get
  match q.nonceCache, env.transactionCount (q.blockStatus.map (·.latest)) with
  | some nonce, _ => return nonce
  | none, .error _ => Logged.throw .rpc
  | none, .ok nonce => do
    Logged.modify fun q => { q with nonceCache := some nonce }
    return nonce

/-- The fee estimate, cached. -/
def fees (env : TxEnv T) : QueueM T Fees := do
  let q ← Logged.get
  match q.feeCache, env.estimateFees with
  | some fees, _ => return fees
  | none, .error _ => Logged.throw .rpc
  | none, .ok fees => do
    Logged.modify fun q => { q with feeCache := some fees }
    return fees

/-- A row as it is read back.  A real number is no nonce. -/
def decodeRow (row : TxRow T) (nonce : Nat) : Except TxError (AllocatedTransaction T) :=
  if nonce < 2 ^ 63 then .ok ⟨nonce, row.request, row.fees⟩ else .error .serialization

/-- `next_transaction`.  The nonce is assigned before the row is read back. -/
def nextTransaction (nonce block : Nat) : QueueM T (Option (AllocatedTransaction T)) := do
  let nonce ← Logged.lift (toI64 nonce)
  let block ← Logged.lift (toI64 block)
  let q ← Logged.get
  write (.allocate nonce block)
  match q.storage.candidate block with
  | none => return none
  | some row => do
    let transaction ← Logged.lift (decodeRow row (q.storage.freeNonce nonce))
    return some transaction

/-- `record_submission`. -/
def recordSubmission (block : Option Nat) (nonce : Nat) (fees : Fees) : QueueM T Unit := do
  let block ← Logged.lift (block.mapM toI64)
  let nonce ← Logged.lift (toI64 nonce)
  let q ← Logged.get
  write (.recordSubmission block nonce fees)
  if nonce ∈ q.storage.nonces then return () else Logged.throw (.nonceNotFound nonce)

/-- `submit_transaction`. -/
def submitTransaction (env : TxEnv T) (block : Nat) (transaction : AllocatedTransaction T) :
    QueueM T Unit := do
  let estimate ← fees env
  let signed : SignedTransaction T :=
    ⟨transaction.nonce, transaction.transaction, bumpFees estimate transaction.fees⟩
  match env.sign signed, env.send signed with
  | false, _ => Logged.throw .signing
  | true, .accepted => recordSubmission (some block) signed.nonce signed.fees
  | true, .underpriced => recordSubmission none signed.nonce signed.fees
  | true, .failed => return ()

/-- The loop of `submit_pending`. -/
def submitUpTo (env : TxEnv T) (block : Nat) : Nat → QueueM T Unit
  | 0 => return ()
  | n + 1 => do
    let count ← nonce env
    let next ← nextTransaction count block
    match next with
    | none => return ()
    | some transaction => do
      submitTransaction env block transaction
      submitUpTo env block n

/-- `submit_pending`. -/
def submitPending (env : TxEnv T) (block : Nat) : QueueM T Unit := do
  let q ← Logged.get
  submitUpTo env block (q.config.maxInFlightTransactions - q.storage.countInFlight)

/-- `resubmit_stale`. -/
def resubmitStale (env : TxEnv T) (block : Nat) : QueueM T Unit := do
  let q ← Logged.get
  let submittedBefore ← Logged.lift <|
    (if q.config.blocksBeforeResubmit ≤ block then some (block - q.config.blocksBeforeResubmit)
      else none).mapM toI64
  let stale ← Logged.lift <|
    (q.storage.staleRows submittedBefore).mapM fun row => decodeRow row (row.nonce.getD 0)
  stale.forM (submitTransaction env block)

/-- `enqueue`: all of a batch, or none. -/
def enqueue (transactions : List (T × Option Nat)) : QueueM T Unit := do
  let _ ← Logged.lift (transactions.mapM fun transaction => transaction.2.mapM toI64)
  write (.enqueue transactions)

/-- `queue`. -/
def queue (env : TxEnv T) (transactions : List (T × Option Nat)) : QueueM T Unit := do
  enqueue transactions
  let q ← Logged.get
  match q.blockStatus with
  | some status => submitPending env status.latest
  | none => return ()

/-- From which block on the marks of executed transactions are cleared: above the safe block on
startup, above the latest one after a reorg. -/
def invalidated (previous : Option BlockStatus) (status : BlockStatus) : Option Nat :=
  match previous with
  | none => checkedSucc status.safe
  | some previous => if status.latest < previous.latest then checkedSucc status.latest else none

/-- Drop the caches when the latest block is another one. -/
def invalidateCaches (previous : Option BlockStatus) (status : BlockStatus) : QueueM T Unit :=
  if previous.all (·.latest ≠ status.latest) then
    Logged.modify fun q => { q with nonceCache := none, feeCache := none }
  else return ()

/-- Prune when the safe block is another one. -/
def pruneStorage (previous : Option BlockStatus) (status : BlockStatus) : QueueM T Unit :=
  if previous.all (·.safe ≠ status.safe) then do
    let safe ← Logged.lift (toI64 status.safe)
    write (.prune safe)
  else return ()

/-- Clear the marks that may be stale. -/
def unmarkExecuted (previous : Option BlockStatus) (status : BlockStatus) : QueueM T Unit :=
  match invalidated previous status with
  | some block => do
    let block ← Logged.lift (toI64 block)
    write (.unmarkExecuted block)
  | none => return ()

/-- What is done when there is a new latest block and something is outstanding. -/
def submitOutstanding (env : TxEnv T) (latest : Nat) : QueueM T Unit := do
  let count ← nonce env
  let block ← Logged.lift (toI64 latest)
  let count ← Logged.lift (toI64 count)
  write (.markExecuted block count)
  resubmitStale env latest
  submitPending env latest

/-- The rest of `update_block_status`, when there is a new latest block. -/
def submitNew (env : TxEnv T) (previous : Option BlockStatus) (status : BlockStatus) :
    QueueM T Unit :=
  if previous.all (·.latest < status.latest) then do
    let block ← Logged.lift (toI64 status.latest)
    let q ← Logged.get
    if 0 < q.storage.countOutstanding block then submitOutstanding env status.latest else return ()
  else return ()

/-- What a change of the block status makes necessary. -/
def reconcile (env : TxEnv T) (previous : Option BlockStatus) (status : BlockStatus) :
    QueueM T Unit := do
  invalidateCaches previous status
  pruneStorage previous status
  unmarkExecuted previous status
  submitNew env previous status

/-- `update_block_status`. -/
def updateBlockStatus (env : TxEnv T) (status : BlockStatus) : QueueM T Unit := do
  let q ← Logged.get
  if q.blockStatus = some status then return ()
  else do
    Logged.modify fun q => { q with blockStatus := some status }
    reconcile env q.blockStatus status

end TransactionQueue

/-- What happens to a queue: transactions are queued, the block status changes, or the process
starts again. -/
inductive QueueStep (T : Type) where
  | queue (env : TxEnv T) (transactions : List (T × Option Nat))
  | updateBlockStatus (env : TxEnv T) (status : BlockStatus)
  | restart (config : TxConfig)

/-- A step, and the writes it makes. -/
def TransactionQueue.step {T : Type} (q : TransactionQueue T) :
    QueueStep T → TransactionQueue T × List (StorageOp T)
  | .queue env transactions => ((queue env transactions).after q, (queue env transactions).log q)
  | .updateBlockStatus env status =>
    ((updateBlockStatus env status).after q, (updateBlockStatus env status).log q)
  | .restart config => (create config q.storage, [])

/-! ## 3. What a step writes -/

/-- The writes of a submission. -/
def StorageOp.isSubmission {T : Type} : StorageOp T → Bool
  | .enqueue _ | .allocate _ _ | .recordSubmission _ _ _ => true
  | _ => false

theorem replay_append {T : Type} (s : TransactionStorage T) (ops ops' : List (StorageOp T)) :
    replay s (ops ++ ops') = replay (replay s ops) ops' := List.foldl_append

namespace TransactionQueue

variable {T α : Type} {A : StorageOp T → Prop} {env : TxEnv T}

/-- The cached nonce is what the node answers for the latest block. -/
def Fresh (env : TxEnv T) (q : TransactionQueue T) : Prop :=
  ∀ nonce, q.nonceCache = some nonce → env.transactionCount (q.blockStatus.map (·.latest)) = .ok nonce

/-- The table is what the log leaves, and the log is of some operations only. -/
structure Wrote (env : TxEnv T) (A : StorageOp T → Prop) (q : TransactionQueue T)
    (log : List (StorageOp T)) (q' : TransactionQueue T) : Prop where
  storage : q'.storage = replay q.storage log
  config : q'.config = q.config
  blockStatus : q'.blockStatus = q.blockStatus
  fresh : q.Fresh env → q'.Fresh env
  ops : ∀ op ∈ log, A op

/-- A program that writes so. -/
abbrev Writes (env : TxEnv T) (A : StorageOp T → Prop) (m : QueueM T α) : Prop :=
  Logged.Satisfies (Wrote env A) m

theorem wrote_composes : Logged.Composes (Wrote env A) where
  refl := fun _ => ⟨rfl, rfl, rfl, id, by simp⟩
  trans := by
    intro q q' q'' l l' h h'
    refine ⟨?_, h'.config.trans h.config, h'.blockStatus.trans h.blockStatus, h'.fresh ∘ h.fresh, ?_⟩
    · rw [h'.storage, h.storage, replay_append]
    · intro op hop
      exact (List.mem_append.mp hop).elim (h.ops op) (h'.ops op)

theorem Writes.write {op : StorageOp T} (h : A op) : Writes env A (write op) :=
  Logged.Satisfies.perform fun _ => ⟨rfl, rfl, rfl, id, fun _ hop => List.mem_singleton.mp hop ▸ h⟩

theorem Writes.pure (a : α) : Writes env A (Pure.pure a : QueueM T α) :=
  Logged.Satisfies.pure wrote_composes a

theorem Writes.get : Writes env A (Logged.get : QueueM T (TransactionQueue T)) :=
  Logged.Satisfies.get wrote_composes

theorem Writes.throw (e : TxError) : Writes env A (Logged.throw e : QueueM T α) :=
  Logged.Satisfies.throw wrote_composes e

theorem Writes.lift (result : Except TxError α) : Writes env A (Logged.lift result : QueueM T α) :=
  Logged.Satisfies.lift wrote_composes result

theorem Writes.bind {β : Type} {m : QueueM T α} {f : α → QueueM T β} (hm : Writes env A m)
    (hf : ∀ a, Writes env A (f a)) : Writes env A (m >>= f) :=
  Logged.Satisfies.bind wrote_composes hm hf

/-- The nonce is what the node answers, and is cached as such. -/
theorem nonce_writes : Writes env A (nonce env) := by
  intro q
  cases hc : q.nonceCache with
  | some n =>
    simp only [nonce, Logged.log, Logged.after, Logged.get, Bind.bind, Pure.pure, hc]
    exact wrote_composes.refl q
  | none =>
    cases hcount : env.transactionCount (q.blockStatus.map (·.latest)) with
    | error e =>
      simp only [nonce, Logged.log, Logged.after, Logged.get, Logged.throw, Bind.bind, hc, hcount]
      exact wrote_composes.refl q
    | ok n =>
      simp only [nonce, Logged.log, Logged.after, Logged.get, Logged.modify, Bind.bind, Pure.pure, hc,
        hcount]
      exact ⟨rfl, rfl, rfl, fun _ m hm => Option.some.inj hm ▸ hcount, by simp⟩

theorem nonce_result {q : TransactionQueue T} (hq : q.Fresh env) {n : Nat}
    (h : (nonce env).result q = .ok n) :
    env.transactionCount (q.blockStatus.map (·.latest)) = .ok n := by
  cases hc : q.nonceCache with
  | some n' =>
    simp only [nonce, Logged.result, Logged.get, Bind.bind, Pure.pure, hc, Except.ok.injEq] at h
    exact h ▸ hq n' hc
  | none =>
    cases hcount : env.transactionCount (q.blockStatus.map (·.latest)) with
    | error e =>
      simp [nonce, Logged.result, Logged.get, Logged.throw, Bind.bind, hc, hcount] at h
    | ok n' =>
      simp only [nonce, Logged.result, Logged.get, Logged.modify, Bind.bind, Pure.pure, hc, hcount,
        Except.ok.injEq] at h
      rw [h]

theorem fees_writes : Writes env A (fees env) := by
  refine .bind .get fun q => ?_
  split
  · exact .pure _
  · exact .throw _
  · exact .bind (Logged.Satisfies.modify fun q => ⟨rfl, rfl, rfl, id, by simp⟩) fun _ => .pure _

theorem nextTransaction_writes (h : ∀ n b, A (.allocate n b)) (count block : Nat) :
    Writes env A (nextTransaction (T := T) count block) := by
  refine .bind (.lift _) fun n => .bind (.lift _) fun b => .bind .get fun q =>
    .bind (.write (h n b)) fun _ => ?_
  split
  · exact .pure _
  · exact .bind (.lift _) fun _ => .pure _

theorem recordSubmission_writes (h : ∀ b n f, A (.recordSubmission b n f)) (block : Option Nat)
    (count : Nat) (fees : Fees) : Writes env A (recordSubmission (T := T) block count fees) := by
  refine .bind (.lift _) fun b => .bind (.lift _) fun n => .bind .get fun q =>
    .bind (.write (h b n fees)) fun _ => ?_
  split
  · exact .pure _
  · exact .throw _

theorem submitTransaction_writes (h : ∀ b n f, A (.recordSubmission b n f)) (block : Nat)
    (transaction : AllocatedTransaction T) :
    Writes env A (submitTransaction env block transaction) := by
  refine .bind fees_writes fun estimate => ?_
  dsimp only
  split
  · exact .throw _
  · exact recordSubmission_writes h _ _ _
  · exact recordSubmission_writes h _ _ _
  · exact .pure _

/-- Submitting only allocates, and records what it submitted. -/
theorem submitUpTo_writes (h : ∀ op : StorageOp T, op.isSubmission = true → A op) (block n : Nat) :
    Writes env A (submitUpTo env block n) := by
  induction n with
  | zero => exact .pure _
  | succ n ih =>
    refine .bind nonce_writes fun count => .bind (nextTransaction_writes (fun _ _ => h _ rfl) _ _)
      fun next => ?_
    cases next with
    | none => exact .pure _
    | some transaction =>
      exact .bind (submitTransaction_writes (fun _ _ _ => h _ rfl) _ _) fun _ => ih

theorem submitPending_writes (env : TxEnv T) (h : ∀ op : StorageOp T, op.isSubmission = true → A op) (block : Nat) :
    Writes env A (submitPending env block) :=
  .bind .get fun _ => submitUpTo_writes h _ _

theorem resubmitStale_writes (h : ∀ op : StorageOp T, op.isSubmission = true → A op) (block : Nat) :
    Writes env A (resubmitStale env block) := by
  refine .bind .get fun q => .bind (.lift _) fun before => .bind (.lift _) fun stale => ?_
  exact Logged.Satisfies.forM wrote_composes fun _ _ =>
    submitTransaction_writes (fun _ _ _ => h _ rfl) _ _

variable (env) in
/-- Queueing only enqueues and submits. -/
theorem queue_writes (transactions : List (T × Option Nat)) :
    Writes env (fun op => op.isSubmission = true) (queue env transactions) := by
  refine .bind (.bind (.lift _) fun _ => .write rfl) fun _ => .bind .get fun q => ?_
  split
  · exact submitPending_writes env (fun _ h => h) _
  · exact .pure _

/-- Whether the latest block is a new one. -/
def isNew (previous : Option BlockStatus) (status : BlockStatus) : Bool :=
  previous.all (·.latest < status.latest)

/-- The writes of a change of the block status, after the table is pruned. -/
def StatusOp (env : TxEnv T) (previous : Option BlockStatus) (status : BlockStatus)
    (op : StorageOp T) : Prop :=
  op.isSubmission = true ∨ (∃ block, op = .unmarkExecuted block) ∨
    ∃ nonce, op = .markExecuted status.latest nonce ∧ isNew previous status = true ∧
      status.latest < 2 ^ 63 ∧ env.transactionCount (some status.latest) = .ok nonce

theorem toI64_eq_ok {n m : Nat} : toI64 n = .ok m ↔ n = m ∧ n < 2 ^ 63 := by
  unfold toI64
  split
  · rename_i h
    simp only [Except.ok.injEq, h, and_true]
  · rename_i h
    simp only [reduceCtorEq, h, and_false]

/-- A result that is lifted. -/
theorem writes_lift {q : TransactionQueue T} {result : Except TxError α} {f : α → QueueM T Unit}
    (h : ∀ a, result = .ok a → Wrote env A q ((f a).log q) ((f a).after q)) :
    Wrote env A q ((Logged.lift result >>= f).log q) ((Logged.lift result >>= f).after q) :=
  wrote_composes.bind_at (wrote_composes.refl q) fun a ha => h a ha

/-- **Marks are those of the node's answer for the latest block.** -/
theorem submitOutstanding_wrote {previous : Option BlockStatus} {status : BlockStatus}
    {q : TransactionQueue T} (hnew : isNew previous status = true)
    (hstatus : q.blockStatus = some status) (hq : q.Fresh env) :
    Wrote env (StatusOp env previous status) q ((submitOutstanding env status.latest).log q)
      ((submitOutstanding env status.latest).after q) := by
  refine wrote_composes.bind_at (nonce_writes q) fun count hcount => ?_
  have hanswer := nonce_result hq hcount
  rw [hstatus] at hanswer
  refine writes_lift fun block hblock => writes_lift fun count' hcount' => ?_
  obtain ⟨rfl, hlt⟩ := toI64_eq_ok.mp hblock
  obtain ⟨rfl, -⟩ := toI64_eq_ok.mp hcount'
  exact Writes.bind (.write (.inr (.inr ⟨count, rfl, hnew, hlt, hanswer⟩))) (fun _ =>
    .bind (resubmitStale_writes (fun _ h => .inl h) _) fun _ =>
      submitPending_writes env (fun _ h => .inl h) _) _

theorem unmarkExecuted_writes (env : TxEnv T) (previous : Option BlockStatus) (status : BlockStatus) :
    Writes env (StatusOp env previous status) (unmarkExecuted (T := T) previous status) := by
  unfold unmarkExecuted
  split
  · exact .bind (.lift _) fun block => .write (.inr (.inl ⟨block, rfl⟩))
  · exact .pure _

theorem submitNew_wrote {previous : Option BlockStatus} {status : BlockStatus}
    {q : TransactionQueue T} (hstatus : q.blockStatus = some status)
    (hq : isNew previous status = true → q.Fresh env) :
    Wrote env (StatusOp env previous status) q ((submitNew env previous status).log q)
      ((submitNew env previous status).after q) := by
  unfold submitNew
  split
  · rename_i hnew
    refine writes_lift fun block hblock => ?_
    refine wrote_composes.bind_at (Writes.get q) fun q' hq' => ?_
    split
    · exact submitOutstanding_wrote hnew hstatus (hq hnew)
    · exact Writes.pure () _
  · exact Writes.pure () q

/-- The caches are dropped when there is a new latest block, and nothing else is touched. -/
theorem invalidateCaches_spec (env : TxEnv T) {A : StorageOp T → Prop} (previous : Option BlockStatus)
    (status : BlockStatus) (q : TransactionQueue T) :
    Wrote env A q [] ((invalidateCaches previous status).after q) ∧
      (invalidateCaches previous status).log q = [] ∧
      (invalidateCaches previous status).result q = .ok () ∧
      (isNew previous status = true → ((invalidateCaches previous status).after q).Fresh env) := by
  unfold invalidateCaches
  split
  · exact ⟨⟨rfl, rfl, rfl, fun _ n hn => absurd hn (by simp [Logged.after, Logged.modify]), by simp⟩,
      rfl, rfl, fun _ n hn => absurd hn (by simp [Logged.after, Logged.modify])⟩
  · rename_i hsame
    refine ⟨wrote_composes.refl q, rfl, rfl, fun hnew => absurd ?_ hsame⟩
    cases previous with
    | none => rfl
    | some previous =>
      simp only [isNew, Option.all_some, decide_eq_true_eq] at hnew ⊢
      exact hnew.ne

/-- Pruning is up to the safe block. -/
theorem pruneStorage_spec (env : TxEnv T) {A : StorageOp T → Prop} (previous : Option BlockStatus)
    {status : BlockStatus} (hA : A (.prune status.safe)) :
    Writes env A (pruneStorage (T := T) previous status) := by
  unfold pruneStorage
  split
  · intro q
    refine writes_lift fun safe hsafe => ?_
    obtain ⟨rfl, -⟩ := toI64_eq_ok.mp hsafe
    exact Writes.write hA _
  · exact .pure _

theorem pruneStorage_log (previous : Option BlockStatus) (status : BlockStatus)
    (q : TransactionQueue T) :
    (pruneStorage previous status).log q = [] ∨
      (pruneStorage previous status).log q = [.prune status.safe] := by
  unfold pruneStorage
  split
  · cases h : toI64 status.safe with
    | error e => exact .inl rfl
    | ok safe =>
      obtain ⟨rfl, -⟩ := toI64_eq_ok.mp h
      exact .inr rfl
  · exact .inl rfl

/-- What a change of the block status makes necessary: the table is pruned, or not, and then the marks
are set, with what else there is. -/
theorem reconcile_wrote (env : TxEnv T) (previous : Option BlockStatus) {status : BlockStatus}
    {q : TransactionQueue T} (hstatus : q.blockStatus = some status) :
    (Wrote env (fun _ => True) q ((reconcile env previous status).log q)
      ((reconcile env previous status).after q)) ∧
    ∃ pruned rest, (reconcile env previous status).log q = pruned ++ rest ∧
      (pruned = [] ∨ pruned = [.prune status.safe]) ∧
      ∀ op ∈ rest, StatusOp env previous status op := by
  obtain ⟨hcaches, hsilent, hok, hfresh⟩ := invalidateCaches_spec env (A := StatusOp env previous status)
    previous status q
  have hprune : Writes env (fun _ => True) (pruneStorage (T := T) previous status) :=
    pruneStorage_spec env previous trivial
  have hprune := hprune ((invalidateCaches previous status).after q)
  have hrest : Wrote env (StatusOp env previous status)
      ((pruneStorage previous status).after ((invalidateCaches previous status).after q))
      (Logged.log (do
        unmarkExecuted previous status
        submitNew env previous status)
        ((pruneStorage previous status).after ((invalidateCaches previous status).after q)))
      (Logged.after (do
        unmarkExecuted previous status
        submitNew env previous status)
        ((pruneStorage previous status).after ((invalidateCaches previous status).after q))) := by
    have hunmark := unmarkExecuted_writes env previous status
      ((pruneStorage previous status).after ((invalidateCaches previous status).after q))
    refine wrote_composes.bind_at hunmark fun _ _ => submitNew_wrote ?_ fun hnew => ?_
    · rw [hunmark.blockStatus, hprune.blockStatus, hcaches.blockStatus, hstatus]
    · exact hunmark.fresh (hprune.fresh (hfresh hnew))
  constructor
  · refine wrote_composes.bind_at ?_ fun _ _ => wrote_composes.bind_at hprune fun _ _ => ?_
    · rw [hsilent]
      exact ⟨hcaches.storage, hcaches.config, hcaches.blockStatus, hcaches.fresh, by simp⟩
    · exact ⟨hrest.storage, hrest.config, hrest.blockStatus, hrest.fresh, fun _ _ => trivial⟩
  · have hlog : (reconcile env previous status).log q = (Logged.log (do
        pruneStorage previous status
        unmarkExecuted previous status
        submitNew env previous status) ((invalidateCaches previous status).after q)) := by
      rw [reconcile, Logged.log_bind hok, hsilent, List.nil_append]
    rw [hlog]
    rcases Logged.log_bind_cases (pruneStorage previous status) (fun _ => do
        unmarkExecuted previous status
        submitNew env previous status) ((invalidateCaches previous status).after q)
      with h | ⟨_, -, h⟩
    · exact ⟨_, [], h.trans (List.append_nil _).symm, pruneStorage_log previous status _, by simp⟩
    · exact ⟨_, _, h, pruneStorage_log previous status _, hrest.ops⟩

theorem updateBlockStatus_changed (env : TxEnv T) {status : BlockStatus} {q : TransactionQueue T}
    (h : q.blockStatus ≠ some status) : updateBlockStatus env status q =
      reconcile env q.blockStatus status { q with blockStatus := some status } :=
  (Logged.get_bind _ q).trans (congrFun (if_neg h) q)

/-- **The writes of a change of the block status.** -/
theorem updateBlockStatus_wrote (env : TxEnv T) (status : BlockStatus) (q : TransactionQueue T) :
    ((updateBlockStatus env status).after q).storage =
        replay q.storage ((updateBlockStatus env status).log q) ∧
      ((updateBlockStatus env status).after q).blockStatus = some status ∧
      ∃ pruned rest, (updateBlockStatus env status).log q = pruned ++ rest ∧
        (pruned = [] ∨ pruned = [.prune status.safe]) ∧
        ∀ op ∈ rest, StatusOp env q.blockStatus status op := by
  by_cases h : q.blockStatus = some status
  · have hrun : updateBlockStatus env status q = (q, [], .ok ()) :=
      (Logged.get_bind _ q).trans (congrFun (if_pos h) q)
    simp only [Logged.after, Logged.log, hrun]
    exact ⟨rfl, h, [], [], rfl, .inl rfl, by simp⟩
  · have hrun := updateBlockStatus_changed env h
    have hsome : ({ q with blockStatus := some status } : TransactionQueue T).blockStatus = some status := rfl
    obtain ⟨hwrote, hops⟩ := reconcile_wrote env q.blockStatus hsome
    simp only [Logged.after, Logged.log, hrun] at hwrote hops ⊢
    exact ⟨hwrote.storage, hwrote.blockStatus, hops⟩

end TransactionQueue

/-! ## 4. Nonces -/

namespace TransactionStorage

variable {T : Type} {s : TransactionStorage T}

/-- Rows are in the order of their ids. -/
def Ordered (s : TransactionStorage T) : Prop := s.Pairwise fun a b => a.id < b.id

/-- No two rows carry the same nonce. -/
def NoncesDistinct (s : TransactionStorage T) : Prop :=
  s.Pairwise fun a b => ∀ n, a.nonce = some n → b.nonce ≠ some n

theorem le_foldr_max {l : List Nat} {n : Nat} (h : n ∈ l) : n ≤ l.foldr max 0 := by
  induction l with
  | nil => exact absurd h (by simp)
  | cons m l ih =>
    rw [List.foldr_cons]
    rcases List.mem_cons.mp h with rfl | h
    · exact le_max_left _ _
    · exact (ih h).trans (le_max_right _ _)

theorem Ordered.insert (h : Ordered s) (transaction : T × Option Nat) :
    Ordered (s.insert transaction) := by
  refine List.pairwise_append.mpr ⟨h, by simp, fun a ha b hb => ?_⟩
  obtain rfl := List.mem_singleton.mp hb
  exact Nat.lt_succ_of_le (le_foldr_max (List.mem_map_of_mem ha))

theorem NoncesDistinct.insert (h : NoncesDistinct s) (transaction : T × Option Nat) :
    NoncesDistinct (s.insert transaction) := by
  refine List.pairwise_append.mpr ⟨h, by simp, fun a _ b hb n _ => ?_⟩
  obtain rfl := List.mem_singleton.mp hb
  simp

/-- What every insertion keeps, a batch keeps. -/
theorem enqueue_induction {P : TransactionStorage T → Prop} (h : P s)
    (hinsert : ∀ s t, P s → P (s.insert t)) (transactions : List (T × Option Nat)) :
    P ((StorageOp.enqueue transactions).apply s) := by
  rw [StorageOp.apply]
  induction transactions generalizing s with
  | nil => exact h
  | cons t ts ih => exact ih (hinsert s t h)

/-- An update of rows that keeps the ids. -/
theorem Ordered.map (h : Ordered s) {f : TxRow T → TxRow T} (hf : ∀ row, (f row).id = row.id) :
    Ordered (s.map f) := by
  refine List.pairwise_map.mpr (h.imp ?_)
  intro a b hab
  rw [hf, hf]
  exact hab

/-- Every operation keeps the order. -/
theorem Ordered.apply (h : Ordered s) (op : StorageOp T) : Ordered (op.apply s) := by
  cases op with
  | enqueue transactions => exact enqueue_induction h (fun _ t hs => hs.insert t) transactions
  | allocate nonce block =>
    rw [StorageOp.apply]
    split
    · exact h.map fun row => by split <;> rfl
    · exact h
  | recordSubmission block nonce fees => exact h.map fun row => by split <;> rfl
  | markExecuted block nonce => exact h.map fun row => by split <;> rfl
  | prune safe => exact h.filter _
  | unmarkExecuted block => exact h.map fun row => by split <;> rfl

/-- A row is the only one with its id. -/
theorem Ordered.eq_of_id (h : Ordered s) {a b : TxRow T} (ha : a ∈ s) (hb : b ∈ s) (hid : a.id = b.id) :
    a = b := by
  induction s with
  | nil => exact absurd ha (by simp)
  | cons c s ih =>
    obtain ⟨hc, hs⟩ := List.pairwise_cons.mp h
    rcases List.mem_cons.mp ha with rfl | ha'
    · rcases List.mem_cons.mp hb with rfl | hb'
      · rfl
      · exact absurd (hc b hb') (by omega)
    · rcases List.mem_cons.mp hb with rfl | hb'
      · exact absurd (hc a ha') (by omega)
      · exact ih hs ha' hb'

theorem Ordered.replay (h : Ordered s) (ops : List (StorageOp T)) : Ordered (Safenet.replay s ops) := by
  induction ops generalizing s with
  | nil => exact h
  | cons op ops ih => exact ih (h.apply op)

/-- An update of rows that keeps the nonces. -/
theorem NoncesDistinct.map (h : NoncesDistinct s) {f : TxRow T → TxRow T}
    (hf : ∀ row, (f row).nonce = row.nonce) : NoncesDistinct (s.map f) := by
  refine List.pairwise_map.mpr (h.imp ?_)
  intro a b hab
  rw [hf, hf]
  exact hab

theorem mem_nonces {n : Nat} : n ∈ s.nonces ↔ ∃ row ∈ s, row.nonce = some n := List.mem_filterMap

/-- The candidate is the oldest queued row. -/
theorem candidate_oldest (h : Ordered s) {block : Nat} {row : TxRow T}
    (hrow : s.candidate block = some row) :
    row ∈ s ∧ isQueued block row = true ∧ ∀ r ∈ s, isQueued block r = true → row.id ≤ r.id := by
  obtain ⟨hqueued, before, after, hs, hbefore⟩ := List.find?_eq_some_iff_append.mp hrow
  refine ⟨by rw [hs]; simp, hqueued, fun r hr hq => ?_⟩
  rw [hs] at hr h
  rcases List.mem_append.mp hr with hr | hr
  · exact absurd hq (by simpa using hbefore r hr)
  · rcases List.mem_cons.mp hr with rfl | hr
    · exact le_rfl
    · exact (List.rel_of_pairwise_cons (List.pairwise_append.mp h).2.1 hr).le

/-- Below the end of the integers the first free nonce is above all others. -/
theorem freeNonce_eq (h : ∀ n ∈ s.nonces, n < 2 ^ 63 - 1) (nonce : Nat) :
    s.freeNonce nonce = max nonce ((s.nonces.max?.map (· + 1)).getD 0) := by
  unfold freeNonce
  cases hmax : s.nonces.max? with
  | none => rfl
  | some m =>
    have hm := h m (List.max?_mem hmax)
    simp only [Option.map_some, Option.getD_some, sqlSucc, if_pos hm]

theorem lt_freeNonce (h : ∀ n ∈ s.nonces, n < 2 ^ 63 - 1) (nonce : Nat) :
    ∀ n ∈ s.nonces, n < s.freeNonce nonce := by
  intro n hn
  rw [freeNonce_eq h]
  cases hmax : s.nonces.max? with
  | none =>
    rw [List.max?_eq_none_iff.mp hmax] at hn
    exact absurd hn (by simp)
  | some m =>
    have hle : n ≤ m := (List.max?_eq_some_iff.mp hmax).2 n hn
    simp only [Option.map_some, Option.getD_some]
    omega

/-- No allocation happens at the end of the integers. -/
def NotExhausted (s : TransactionStorage T) (op : StorageOp T) : Prop :=
  ∀ nonce block, op = .allocate nonce block → s.candidate block ≠ none →
    ∀ n ∈ s.nonces, n < 2 ^ 63 - 1

/-- **Every operation keeps the nonces distinct**, short of the end of the integers. -/
theorem NoncesDistinct.apply (ho : Ordered s) (h : NoncesDistinct s) {op : StorageOp T}
    (hop : NotExhausted s op) : NoncesDistinct (op.apply s) := by
  cases op with
  | enqueue transactions => exact enqueue_induction h (fun _ t hs => hs.insert t) transactions
  | allocate nonce block =>
    rw [StorageOp.apply]
    split
    · rename_i picked hpicked
      have hlt := lt_freeNonce (hop nonce block rfl (by simp [hpicked])) nonce
      refine List.pairwise_map.mpr ((ho.and h).imp_of_mem ?_)
      rintro a b ha hb ⟨hid, hne⟩ n hn hn'
      split at hn
      · rename_i haid
        split at hn'
        · rename_i hbid
          omega
        · obtain rfl := Option.some.inj hn
          exact absurd (hlt _ (mem_nonces.mpr ⟨b, hb, hn'⟩)) (lt_irrefl _)
      · split at hn'
        · obtain rfl := Option.some.inj hn'
          exact absurd (hlt _ (mem_nonces.mpr ⟨a, ha, hn⟩)) (lt_irrefl _)
        · exact hne n hn hn'
    · exact h
  | recordSubmission block nonce fees => exact h.map fun row => by split <;> rfl
  | markExecuted block nonce => exact h.map fun row => by split <;> rfl
  | prune safe => exact h.filter _
  | unmarkExecuted block => exact h.map fun row => by split <;> rfl

end TransactionStorage

namespace TransactionQueue

open TransactionStorage

variable {T : Type} {env : TxEnv T}

/-- A step leaves the table that its writes do. -/
theorem step_replay (q : TransactionQueue T) (s : QueueStep T) :
    (q.step s).1.storage = replay q.storage (q.step s).2 := by
  cases s with
  | queue env transactions => exact (queue_writes env transactions q).storage
  | updateBlockStatus env status => exact (updateBlockStatus_wrote env status q).1
  | restart config => rfl

/-- A node that answers with one nonce, and accepts all. -/
def toyEnv (count : Except Unit Nat) : TxEnv Unit where
  transactionCount _ := count
  estimateFees := .ok ⟨10, 1⟩
  sign _ := true
  send _ := .accepted

end TransactionQueue

end Safenet
