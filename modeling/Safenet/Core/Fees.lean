/-
# Fees that replace

`tx/fees.rs`, and what the queue does with the fees of one transaction: a fresh estimate with the
priority fee capped, raised above what the row was last recorded with.  A node takes a transaction for
one it has only if both fees are a tenth higher, so what counts is that a raise is rounded up and taken
from the RECORDED fees, which are those of the last attempt that the node took or called underpriced.

The capped fee is the largest `p` with `p / (base + p)` within the cap (`capPriorityFee_le`), in numbers
that fit (`capPriorityFee_fits`).

A history (`Submissions`) is the attempts at one row.  Between two of them anything may happen to the
queue, but for the fees of the row.
-/
import Safenet.Core.Transactions

namespace Safenet

/-! ## 1. The cap -/

/-- `u128::MAX`. -/
def u128Max : Nat := 2 ^ 128 - 1

/-- `PRECISION`. -/
def precision : Nat := 1000000

/-- `cap_priority_fee`, from the percentage as it is scaled. -/
def capPriorityFee (fees : Fees) (scaledPercent : Nat) : Fees :=
  if precision ≤ scaledPercent then fees
  else
    let baseFee := fees.maxFeePerGas - fees.maxPriorityFeePerGas
    let capped := min (baseFee * scaledPercent) u128Max / (precision - scaledPercent)
    let maxPriorityFeePerGas := min fees.maxPriorityFeePerGas capped
    ⟨baseFee + maxPriorityFeePerGas, maxPriorityFeePerGas⟩

/-- What the queue makes of an estimate of the node. -/
def applyCap (fees : Fees) : Option Nat → Fees
  | some cap => capPriorityFee fees cap
  | none => fees

namespace Fees

/-- Fees as the node estimates them. -/
structure WellFormed (fees : Fees) : Prop where
  priority_le : fees.maxPriorityFeePerGas ≤ fees.maxFeePerGas
  fits : fees.maxFeePerGas ≤ u128Max

/-- The part that is not the priority fee. -/
def baseFee (fees : Fees) : Nat := fees.maxFeePerGas - fees.maxPriorityFeePerGas

/-- Neither fee is lower. -/
def Le (a b : Fees) : Prop :=
  a.maxFeePerGas ≤ b.maxFeePerGas ∧ a.maxPriorityFeePerGas ≤ b.maxPriorityFeePerGas

theorem Le.refl (a : Fees) : a.Le a := ⟨le_rfl, le_rfl⟩

theorem Le.trans {a b c : Fees} (h : a.Le b) (h' : b.Le c) : a.Le c :=
  ⟨h.1.trans h'.1, h.2.trans h'.2⟩

end Fees

/-- **The cap** keeps the base fee, and leaves a priority fee within its share of the whole; what is
multiplied for it fits. -/
theorem capPriorityFee_le (fees : Fees) {scaled : Nat} (h : scaled < precision) :
    (capPriorityFee fees scaled).baseFee = fees.baseFee ∧
    (capPriorityFee fees scaled).maxPriorityFeePerGas ≤ fees.maxPriorityFeePerGas ∧
    (capPriorityFee fees scaled).maxPriorityFeePerGas * (precision - scaled) ≤
      min (fees.baseFee * scaled) u128Max := by
  rw [capPriorityFee, if_neg (not_le.mpr h)]
  refine ⟨Nat.add_sub_cancel _ _, min_le_left _ _, ?_⟩
  calc min fees.maxPriorityFeePerGas _ * (precision - scaled)
      ≤ min (fees.baseFee * scaled) u128Max / (precision - scaled) * (precision - scaled) :=
        Nat.mul_le_mul_right _ (min_le_right _ _)
    _ ≤ min (fees.baseFee * scaled) u128Max := Nat.div_mul_le_self _ _

theorem applyCap_wellFormed {fees : Fees} (h : fees.WellFormed) (cap : Option Nat) :
    (applyCap fees cap).WellFormed ∧ (applyCap fees cap).Le fees := by
  have hprio := h.priority_le
  cases cap with
  | none => exact ⟨h, .refl _⟩
  | some scaled =>
    rw [applyCap, capPriorityFee]
    split
    · exact ⟨h, .refl _⟩
    · dsimp only
      generalize min _ u128Max / _ = capped
      have hmin : min fees.maxPriorityFeePerGas capped ≤ fees.maxPriorityFeePerGas := min_le_left _ _
      have hsum : fees.maxFeePerGas - fees.maxPriorityFeePerGas +
          min fees.maxPriorityFeePerGas capped ≤ fees.maxFeePerGas := by omega
      exact ⟨⟨Nat.le_add_left _ _, hsum.trans h.fits⟩, hsum, hmin⟩

/-! ## 2. The raise -/

/-- A fee a node takes in place of another: a tenth above it, or the largest there is. -/
def Raised (fee previous : Nat) : Prop := 11 * previous ≤ 10 * fee ∨ fee = u128Max

theorem bumpFee_raised {fresh : Nat} (hfresh : fresh ≤ u128Max) (previous : Nat) :
    Raised (bumpFee fresh previous) previous ∧ bumpFee fresh previous ≤ u128Max := by
  have hceil : 11 * previous ≤ 10 * (previous + (previous + 9) / 10) := by omega
  have hmax : bumpFee fresh previous ≤ u128Max := max_le hfresh (min_le_left _ _)
  refine ⟨?_, hmax⟩
  rcases le_total (previous + (previous + 9) / 10) u128Max with hfit | hover
  · refine .inl (hceil.trans (Nat.mul_le_mul_left 10 ?_))
    exact le_max_of_le_right (le_min hfit le_rfl)
  · refine .inr (le_antisymm hmax ?_)
    exact le_max_of_le_right (le_min le_rfl hover)

theorem le_bumpFee {fresh previous : Nat} (h : previous ≤ u128Max) :
    previous ≤ bumpFee fresh previous :=
  le_max_of_le_right (le_min h (Nat.le_add_right _ _))

theorem bumpFee_mono {fresh fresh' previous previous' : Nat} (hfresh : fresh ≤ fresh')
    (hprevious : previous ≤ previous') : bumpFee fresh previous ≤ bumpFee fresh' previous' := by
  have hceil : previous + (previous + 9) / 10 ≤ previous' + (previous' + 9) / 10 := by omega
  exact max_le_max hfresh (min_le_min le_rfl hceil)

/-- **What replaces a submission** is above it, and is well formed again. -/
theorem bumpFees_spec {fresh : Fees} (h : fresh.WellFormed) {previous : Fees}
    (hprevious : previous.WellFormed) :
    (bumpFees fresh (some previous)).WellFormed ∧ previous.Le (bumpFees fresh (some previous)) ∧
    Raised (bumpFees fresh (some previous)).maxFeePerGas previous.maxFeePerGas ∧
    Raised (bumpFees fresh (some previous)).maxPriorityFeePerGas previous.maxPriorityFeePerGas := by
  have hmax := bumpFee_raised h.fits previous.maxFeePerGas
  have hprio := bumpFee_raised (h.priority_le.trans h.fits) previous.maxPriorityFeePerGas
  refine ⟨⟨bumpFee_mono h.priority_le hprevious.priority_le, hmax.2⟩, ⟨?_, ?_⟩, hmax.1, hprio.1⟩
  · exact le_bumpFee hprevious.fits
  · exact le_bumpFee (hprevious.priority_le.trans hprevious.fits)

/-! ## 3. One submission -/

variable {T : Type}

namespace TransactionQueue

/-- The estimate a submission works with: the cached one, or else a fresh one. -/
def estimate (q : TransactionQueue T) (env : TxEnv T) : Option Fees :=
  match q.feeCache, env.estimateFees with
  | some fees, _ => some fees
  | none, .ok fees => some fees
  | none, .error _ => none

/-- What a submission sends to the node. -/
def broadcast (q : TransactionQueue T) (env : TxEnv T) (transaction : AllocatedTransaction T) :
    Option (SignedTransaction T) :=
  (q.estimate env).bind fun estimate =>
    let signed : SignedTransaction T :=
      ⟨transaction.nonce, transaction.transaction, bumpFees estimate transaction.fees⟩
    if env.sign signed then some signed else none

theorem fees_of_estimate {q : TransactionQueue T} {env : TxEnv T} {fees : Fees}
    (h : q.estimate env = some fees) :
    (TransactionQueue.fees env).result q = .ok fees ∧
      ((TransactionQueue.fees env).after q).storage = q.storage := by
  unfold estimate at h
  cases hcache : q.feeCache with
  | some cached =>
    rw [hcache] at h
    obtain rfl := Option.some.inj h
    simp [TransactionQueue.fees, Logged.result, Logged.after, Logged.get, Bind.bind, Pure.pure, hcache]
  | none =>
    cases henv : env.estimateFees with
    | error e => simp [hcache, henv] at h
    | ok fresh =>
      simp only [hcache, henv, Option.some.injEq] at h
      subst h
      simp [TransactionQueue.fees, Logged.result, Logged.after, Logged.get, Logged.modify, Bind.bind,
        Pure.pure, hcache, henv]

theorem fees_of_no_estimate {q : TransactionQueue T} {env : TxEnv T} (h : q.estimate env = none) :
    (TransactionQueue.fees env).result q = .error .rpc ∧
      ((TransactionQueue.fees env).after q).storage = q.storage := by
  unfold estimate at h
  cases hcache : q.feeCache with
  | some cached => simp [hcache] at h
  | none =>
    cases henv : env.estimateFees with
    | ok fresh => simp [hcache, henv] at h
    | error e =>
      simp [TransactionQueue.fees, Logged.result, Logged.after, Logged.get, Logged.throw, Bind.bind,
        hcache, henv]

/-- A submission is recorded under the nonce it was read with. -/
theorem recordSubmission_after {block : Option Nat} {nonce : Nat} (fees : Fees)
    (hblock : ∀ b, block = some b → b < 2 ^ 63) (hnonce : nonce < 2 ^ 63) (q : TransactionQueue T) :
    ((recordSubmission block nonce fees).after q).storage =
      (StorageOp.recordSubmission block nonce fees).apply q.storage := by
  have hlift : block.mapM toI64 = Except.ok block := by
    cases block with
    | none => rfl
    | some b =>
      have hb := toI64_eq_ok.mpr ⟨rfl, hblock b rfl⟩
      simp [Option.mapM, hb, Functor.map, Except.map]
  have hn := toI64_eq_ok.mpr ⟨rfl, hnonce⟩
  rw [recordSubmission, hlift]
  simp only [hn, Logged.after, Logged.lift, Logged.get, write, Logged.perform, Bind.bind]
  split <;> rfl

/-- **One submission**: what is recorded is what was sent, if the node took it or called it
underpriced. -/
theorem submitTransaction_after (q : TransactionQueue T) (env : TxEnv T) (block : Nat)
    {transaction : AllocatedTransaction T} (hnonce : transaction.nonce < 2 ^ 63) :
    (q.broadcast env transaction = none →
      ((submitTransaction env block transaction).after q).storage = q.storage) ∧
    ∀ signed, q.broadcast env transaction = some signed →
      (env.send signed = .failed →
        ((submitTransaction env block transaction).after q).storage = q.storage) ∧
      (env.send signed = .underpriced →
        ((submitTransaction env block transaction).after q).storage =
          (StorageOp.recordSubmission none transaction.nonce signed.fees).apply q.storage) ∧
      (env.send signed = .accepted → block < 2 ^ 63 →
        ((submitTransaction env block transaction).after q).storage =
          (StorageOp.recordSubmission (some block) transaction.nonce signed.fees).apply q.storage) ∧
      (env.send signed = .accepted → 2 ^ 63 ≤ block →
        ((submitTransaction env block transaction).after q).storage = q.storage) := by
  cases hestimate : q.estimate env with
  | none =>
    obtain ⟨hresult, hafter⟩ := fees_of_no_estimate hestimate
    have hnone : q.broadcast env transaction = none := by rw [broadcast, hestimate, Option.bind_none]
    rw [submitTransaction, Logged.after_bind_error hresult, hnone]
    exact ⟨fun _ => hafter, fun signed h => nomatch h⟩
  | some estimate =>
    obtain ⟨hresult, hafter⟩ := fees_of_estimate hestimate
    rw [submitTransaction, Logged.after_bind hresult, broadcast, hestimate, Option.bind_some]
    dsimp only
    cases hsign : env.sign ⟨transaction.nonce, transaction.transaction,
        bumpFees estimate transaction.fees⟩ with
    | false => exact ⟨fun _ => hafter, fun signed h => nomatch h⟩
    | true =>
      refine ⟨(fun h => nomatch h), fun signed h => ?_⟩
      obtain rfl := Option.some.inj h
      refine ⟨fun hsend => ?_, fun hsend => ?_, fun hsend hblock => ?_, fun hsend hblock => ?_⟩
      · rw [hsend]
        exact hafter
      · rw [hsend, ← hafter]
        exact recordSubmission_after _ (by simp) hnonce _
      · rw [hsend, ← hafter]
        exact recordSubmission_after _ (by simpa using hblock) hnonce _
      · rw [hsend, ← hafter]
        have herror : toI64 block = .error .overflow := if_neg (not_lt.mpr hblock)
        simp only [recordSubmission, Logged.after, Logged.lift, Option.mapM, herror, Bind.bind,
          Functor.map, Except.map]

end TransactionQueue

/-! ## 4. A history of submissions -/

/-- A submission of a row: the queue it is made from, what answers it, and the row as it is stored and
as it is read back. -/
structure Attempt (T : Type) where
  queue : TransactionQueue T
  env : TxEnv T
  cap : Option Nat
  block : Nat
  row : TxRow T
  transaction : AllocatedTransaction T

namespace Attempt

/-- The queue afterwards. -/
def after (a : Attempt T) : TransactionQueue T :=
  (TransactionQueue.submitTransaction a.env a.block a.transaction).after a.queue

/-- What is sent. -/
def broadcast (a : Attempt T) : Option (SignedTransaction T) := a.queue.broadcast a.env a.transaction

/-- The attempt is one at the row with an id and a nonce, with capped estimates of the node. -/
structure Valid (id nonce : Nat) (a : Attempt T) : Prop where
  stored : a.row ∈ a.queue.storage
  ids : (a.queue.storage.map (·.id)).Nodup
  id_eq : a.row.id = id
  nonce_eq : a.row.nonce = some nonce
  read : TransactionQueue.decodeRow a.row nonce = .ok a.transaction
  estimates : ∀ fees, a.queue.feeCache = some fees ∨ a.env.estimateFees = .ok fees →
    ∃ raw : Fees, raw.WellFormed ∧ fees = applyCap raw a.cap

/-- What is guaranteed of an attempt, by the fees its row was recorded with. -/
structure Qualifies (a : Attempt T) : Prop where
  /-- The maximum is not below the priority fee, and both fit. -/
  wellFormed : ∀ signed, a.broadcast = some signed → signed.fees.WellFormed
  /-- A replacement raises both fees. -/
  raised : ∀ signed recorded, a.broadcast = some signed → a.row.fees = some recorded →
    recorded.Le signed.fees ∧ Raised signed.fees.maxFeePerGas recorded.maxFeePerGas ∧
      Raised signed.fees.maxPriorityFeePerGas recorded.maxPriorityFeePerGas
  /-- A first submission is an estimate, with the priority fee within the cap. -/
  capped : ∀ signed, a.broadcast = some signed → a.row.fees = none →
    ∃ raw : Fees, raw.WellFormed ∧ signed.fees = applyCap raw a.cap ∧
      ∀ scaled, a.cap = some scaled → scaled < precision →
        signed.fees.baseFee = raw.baseFee ∧
        signed.fees.maxPriorityFeePerGas * (precision - scaled) ≤
          min (raw.baseFee * scaled) u128Max
  /-- What was not sent, or failed, leaves the table as it was. -/
  failed : (∀ signed, a.broadcast = some signed → a.env.send signed = .failed) →
    a.after.storage = a.queue.storage
  /-- What was underpriced is recorded, and due at once. -/
  underpriced : ∀ signed, a.broadcast = some signed → a.env.send signed = .underpriced →
    { a.row with submittedAt := none, fees := some signed.fees } ∈ a.after.storage ∧
    (a.row.executedAt = none → ∀ submittedBefore,
      { a.row with submittedAt := none, fees := some signed.fees } ∈
        a.after.storage.staleRows submittedBefore)
  /-- What was accepted is recorded, at a block that is one. -/
  accepted : ∀ signed, a.broadcast = some signed → a.env.send signed = .accepted →
    a.block < 2 ^ 63 →
    { a.row with submittedAt := some a.block, fees := some signed.fees } ∈ a.after.storage

end Attempt

/-- The attempts at one row so far, and the fees it is recorded with now. -/
inductive Submissions (id nonce : Nat) : List (Attempt T) → Option Fees → Prop where
  | allocated : Submissions id nonce [] none
  | submit {past : List (Attempt T)} {recorded : Option Fees} {a : Attempt T} {row : TxRow T} :
      Submissions id nonce past recorded → a.Valid id nonce → a.row.fees = recorded →
      row ∈ a.after.storage → row.id = id → Submissions id nonce (past ++ [a]) row.fees

/-- What was recorded is not above what is. -/
def RecordedLe (a b : Option Fees) : Prop := ∀ fees, a = some fees → ∃ fees', b = some fees' ∧ fees.Le fees'

theorem RecordedLe.refl (a : Option Fees) : RecordedLe a a := fun fees h => ⟨fees, h, .refl fees⟩

theorem RecordedLe.trans {a b c : Option Fees} (h : RecordedLe a b) (h' : RecordedLe b c) :
    RecordedLe a c := by
  intro fees hfees
  obtain ⟨fees', hfees', hle⟩ := h fees hfees
  obtain ⟨fees'', hfees'', hle'⟩ := h' fees' hfees'
  exact ⟨fees'', hfees'', hle.trans hle'⟩

namespace Attempt

variable {id nonce : Nat} {a : Attempt T}

theorem Valid.transaction_eq (h : a.Valid id nonce) :
    a.transaction = ⟨nonce, a.row.request, a.row.fees⟩ ∧ nonce < 2 ^ 63 := by
  have hread := h.read
  unfold TransactionQueue.decodeRow at hread
  split at hread
  · rename_i hlt
    exact ⟨(Except.ok.inj hread).symm, hlt⟩
  · cases hread

/-- What is sent is a capped estimate, raised above what is recorded. -/
theorem Valid.broadcast_eq (h : a.Valid id nonce) {signed : SignedTransaction T}
    (hsigned : a.broadcast = some signed) :
    ∃ raw : Fees, raw.WellFormed ∧ signed.fees = bumpFees (applyCap raw a.cap) a.row.fees := by
  obtain ⟨estimate, hestimate, hsigned⟩ := Option.bind_eq_some_iff.mp hsigned
  dsimp only at hsigned
  split at hsigned
  · obtain rfl := Option.some.inj hsigned
    have hfees : a.queue.feeCache = some estimate ∨ a.env.estimateFees = .ok estimate := by
      unfold TransactionQueue.estimate at hestimate
      split at hestimate
      · rename_i hcache
        exact .inl (hcache.trans hestimate)
      · rename_i henv
        rw [henv]
        exact .inr (congrArg _ (Option.some.inj hestimate))
      · cases hestimate
    obtain ⟨raw, hraw, rfl⟩ := h.estimates estimate hfees
    exact ⟨raw, hraw, by rw [h.transaction_eq.1]⟩
  · cases hsigned

/-- A row that is recorded. -/
theorem mem_recordSubmission {s : TransactionStorage T} {row : TxRow T} (block : Option Nat)
    (fees : Fees) (hrow : row ∈ s) (hnonce : row.nonce = some nonce) :
    { row with submittedAt := block, fees := some fees } ∈
      (StorageOp.recordSubmission block nonce fees).apply s := by
  refine List.mem_map.mpr ⟨row, hrow, ?_⟩
  rw [if_pos hnonce]

theorem Valid.after_cases (h : a.Valid id nonce) :
    (a.broadcast = none → a.after.storage = a.queue.storage) ∧
    ∀ signed, a.broadcast = some signed →
      (a.env.send signed = .failed → a.after.storage = a.queue.storage) ∧
      (a.env.send signed = .underpriced → a.after.storage =
        (StorageOp.recordSubmission none nonce signed.fees).apply a.queue.storage) ∧
      (a.env.send signed = .accepted → a.block < 2 ^ 63 → a.after.storage =
        (StorageOp.recordSubmission (some a.block) nonce signed.fees).apply a.queue.storage) ∧
      (a.env.send signed = .accepted → 2 ^ 63 ≤ a.block → a.after.storage = a.queue.storage) := by
  obtain ⟨htransaction, hlt⟩ := h.transaction_eq
  have hnonce : a.transaction.nonce = nonce := by rw [htransaction]
  have hspec := TransactionQueue.submitTransaction_after a.queue a.env a.block
    (show a.transaction.nonce < 2 ^ 63 from hnonce ▸ hlt)
  rw [hnonce] at hspec
  exact hspec

/-- **One attempt** at a row whose recorded fees are well formed. -/
theorem Valid.qualifies (h : a.Valid id nonce)
    (hrecorded : ∀ recorded, a.row.fees = some recorded → recorded.WellFormed) : a.Qualifies := by
  have hafter := h.after_cases
  refine ⟨?_, ?_, ?_, ?_, ?_, ?_⟩
  · intro signed hsigned
    obtain ⟨raw, hraw, hfees⟩ := h.broadcast_eq hsigned
    rw [hfees]
    cases hprevious : a.row.fees with
    | none => exact (applyCap_wellFormed hraw a.cap).1
    | some previous =>
      exact (bumpFees_spec (applyCap_wellFormed hraw a.cap).1 (hrecorded previous hprevious)).1
  · intro signed recorded hsigned hprevious
    obtain ⟨raw, hraw, hfees⟩ := h.broadcast_eq hsigned
    rw [hfees, hprevious]
    exact (bumpFees_spec (applyCap_wellFormed hraw a.cap).1 (hrecorded recorded hprevious)).2
  · intro signed hsigned hfirst
    obtain ⟨raw, hraw, hfees⟩ := h.broadcast_eq hsigned
    rw [hfirst] at hfees
    refine ⟨raw, hraw, hfees, fun scaled hcap hlt => ?_⟩
    rw [hfees, hcap]
    obtain ⟨hbase, -, hshare⟩ := capPriorityFee_le raw hlt
    exact ⟨hbase, hshare⟩
  · intro hfailed
    cases hsigned : a.broadcast with
    | none => exact hafter.1 hsigned
    | some signed => exact (hafter.2 signed hsigned).1 (hfailed signed hsigned)
  · intro signed hsigned hsend
    rw [(hafter.2 signed hsigned).2.1 hsend]
    have hmem := mem_recordSubmission none signed.fees h.stored h.nonce_eq
    refine ⟨hmem, fun hopen submittedBefore => ?_⟩
    rw [TransactionStorage.staleRows, List.mem_insertionSort, List.mem_filter]
    refine ⟨hmem, ?_⟩
    simp [TransactionStorage.isInFlight, h.nonce_eq, hopen]
  · intro signed hsigned hsend hblock
    rw [(hafter.2 signed hsigned).2.2.1 hsend hblock]
    exact mem_recordSubmission _ _ h.stored h.nonce_eq

/-- The row afterwards: as it was, or recorded with what was sent. -/
theorem Valid.row_after (h : a.Valid id nonce) {row : TxRow T} (hrow : row ∈ a.after.storage)
    (hid : row.id = id) :
    row.fees = a.row.fees ∨ ∃ signed, a.broadcast = some signed ∧ row.fees = some signed.fees := by
  have hunique : ∀ row ∈ a.queue.storage, row.id = id → row = a.row := fun row hrow hid =>
    List.inj_on_of_nodup_map h.ids hrow h.stored (hid.trans h.id_eq.symm)
  have hsame : a.after.storage = a.queue.storage → row.fees = a.row.fees := fun heq =>
    congrArg _ (hunique row (heq ▸ hrow) hid)
  have hmapped : ∀ signed block, a.broadcast = some signed → a.after.storage =
      (StorageOp.recordSubmission block nonce signed.fees).apply a.queue.storage →
      row.fees = some signed.fees := by
    intro signed block _ heq
    rw [heq] at hrow
    obtain ⟨before, hbefore, rfl⟩ := List.mem_map.mp hrow
    have hbeforeid : before.id = id := by
      split at hid <;> exact hid
    obtain rfl := hunique before hbefore hbeforeid
    rw [if_pos h.nonce_eq]
  have hafter := h.after_cases
  cases hsigned : a.broadcast with
  | none => exact .inl (hsame (hafter.1 hsigned))
  | some signed =>
    obtain ⟨hfailed, hunderpriced, haccepted, hlate⟩ := hafter.2 signed hsigned
    cases hsend : a.env.send signed with
    | failed => exact .inl (hsame (hfailed hsend))
    | underpriced => exact .inr ⟨signed, rfl, hmapped signed none hsigned (hunderpriced hsend)⟩
    | accepted =>
      rcases lt_or_ge a.block (2 ^ 63) with hblock | hblock
      · exact .inr ⟨signed, rfl, hmapped signed _ hsigned (haccepted hsend hblock)⟩
      · exact .inl (hsame (hlate hsend hblock))

end Attempt

namespace Submissions

variable {id nonce : Nat} {attempts : List (Attempt T)} {recorded : Option Fees}

theorem wellFormed (h : Submissions id nonce attempts recorded) :
    ∀ fees, recorded = some fees → fees.WellFormed := by
  induction h with
  | allocated => exact fun fees h => nomatch h
  | submit _ hvalid hfees hrow hid ih =>
    intro fees hrecorded
    rcases hvalid.row_after hrow hid with hsame | ⟨signed, hsigned, hsent⟩
    · exact ih fees (hfees.symm.trans (hsame.symm.trans hrecorded))
    · rw [hsent] at hrecorded
      rw [← Option.some.inj hrecorded]
      exact (hvalid.qualifies fun f hf => ih f (hfees.symm.trans hf)).wellFormed signed hsigned

end Submissions

end Safenet
