/-
# The watcher and the state machine, aligned

Two components have to agree on what the next update is, and on how far back snapshots go: after a
start, in a warp, after a reorg, after a prune, and after a start on a node that has seen another
chain.  `handles` is when they do, exactly, for one update; `start_aligned` is where a process that
starts has them stand.

* `Queued` -- what the block watcher has queued continues from the block the machine waits for;
* `Filled` -- from the oldest snapshot on, there is one of each block that may be reorged;
* `Aligned` -- where the watcher and the machine stand, together.
-/
import Safenet.Core.Driver

namespace Safenet

/-! ## 1. The watcher and the machine, aligned -/

namespace SnapshotStore

variable {S : Type} {store store' : SnapshotStore S} {number safe : Nat}

/-- The blocks that a snapshot is stored of. -/
def blocks (store : SnapshotStore S) : Set Nat := { n | n ∈ store }

theorem blocks_commit {state : S} (h : store.commit number state = .ok store') :
    store'.blocks = insert number store.blocks :=
  Set.ext (mem_commit h)

theorem blocks_prune (h : store.prune safe = .ok store') :
    store'.blocks = { n ∈ store.blocks | safe ≤ n ∨ ∀ m ∈ store.blocks, m ≤ n } :=
  Set.ext (mem_prune h)

end SnapshotStore

/-- What is queued continues from the block that is waited for, if one is, up to the pending block;
a warp goes up to the safe block. -/
def Queued (pending safe : Nat) : Option Nat → List BlockUpdate → Prop
  | next, [] => ∀ n, next = some n → n = pending
  | next, .new number _ _ :: queue =>
    (∀ n, next = some n → n = number) ∧ Queued pending safe (some (number + 1)) queue
  | next, .warp first last :: queue =>
    (∀ n, next = some n → n = first) ∧ first ≤ last ∧ last = safe ∧
      Queued pending safe (some (last + 1)) queue
  | _, .uncle _ :: _ => False

/-- There are snapshots of blocks below the next one, and from the oldest on one of each block that
may be reorged. -/
structure Filled (stored : Set Nat) (safe next : Nat) : Prop where
  below : ∀ n ∈ stored, n < next
  filled : ∀ m ∈ stored, ∀ n, m ≤ n → safe ≤ n → n < next → n ∈ stored

/-- The machine waits for the next block, and that is what the block watcher goes on with; or the
node has not come to the oldest snapshot. -/
def Waits (stored : Set Nat) (b : BlockWatcher) (next : Nat) : Prop :=
  (Queued b.pending b.safe.number (some next) b.queue ∧ Filled stored b.safe.number next) ∨
    (b.queue = [] ∧ stored.Nonempty ∧ ∀ n ∈ stored, b.pending ≤ n ∧ n < next)

/-- Where the watcher and the machine stand, together. -/
inductive Aligned {Event : Type} (stored : Set Nat) (w : Watcher Event) : Status → Prop where
  | initialized (step : w.events.step.expects = .block) (fresh : stored = ∅)
      (queue : Queued w.blocks.pending w.blocks.safe.number none w.blocks.queue) :
      Aligned stored w .initialized
  | pending (next : Nat) (step : w.events.step.expects = .block)
      (waits : Waits stored w.blocks next) : Aligned stored w (.blockPending next)
  | events (number : Nat) (step : w.events.step.expects = .logsOf number)
      (queue : Queued w.blocks.pending w.blocks.safe.number (some (number + 1)) w.blocks.queue)
      (filled : Filled stored w.blocks.safe.number number) : Aligned stored w (.blockEvents number)
  | warp (first last : Nat) (step : w.events.step.expects = .pages first last) (range : first ≤ last)
      (queue : Queued w.blocks.pending w.blocks.safe.number (some (last + 1)) w.blocks.queue)
      (safe : last = w.blocks.safe.number)
      (filled : Filled stored w.blocks.safe.number first) : Aligned stored w (.warpEvents first last)

/-- As they stand when the process starts: the blocks after the oldest snapshot are rolled back. -/
structure Rollback {Event : Type} (stored : Set Nat) (w : Watcher Event) (next : Nat) : Prop where
  step : w.events.step.expects = .block
  uncle : ∃ number queue, w.blocks.queue = .uncle number :: queue ∧ 0 < number ∧ number < next ∧
    number - 1 ∈ stored ∧
    Waits { n ∈ stored | n < number } { w.blocks with queue } number

/-- The watcher goes below the oldest snapshot: to a block that is not above any, or to the uncle of
one where none is stored. -/
def GoesBelow {Event : Type} (stored : Set Nat) : WatcherUpdate Event → Prop
  | .block (.uncle number) => ∀ n ∈ stored, number ≤ n
  | .block (.new number _ _) => stored.Nonempty ∧ ∀ n ∈ stored, number ≤ n
  | _ => False

/-! ### What is queued -/

namespace Queued

variable {pending safe next : Nat} {queue : List BlockUpdate}

/-- It ends at the pending block. -/
theorem le (h : Queued pending safe (some next) queue) : next ≤ pending := by
  induction queue generalizing next with
  | nil => exact (h next rfl).le
  | cons u queue ih =>
    cases u with
    | new n k b =>
      have := ih h.2
      have := h.1 next rfl
      omega
    | warp f l =>
      obtain ⟨hfirst, hle, -, hrest⟩ := h
      have := ih hrest
      have := hfirst next rfl
      omega
    | uncle n => exact h.elim

/-- A machine that waits for no block takes any. -/
theorem fresh (h : Queued pending safe (some next) queue) : Queued pending safe none queue := by
  cases queue with
  | nil => exact fun n hn => absurd hn (by simp)
  | cons u queue =>
    cases u with
    | new n k b => exact ⟨fun n hn => absurd hn (by simp), h.2⟩
    | warp f l => exact ⟨fun n hn => absurd hn (by simp), h.2⟩
    | uncle n => exact h.elim

/-- Linked blocks are queued. -/
theorem of_linked (safe : Nat) {number : Nat} {hash : B256} {bs : List BlockHeader}
    (h : LinkedFrom number hash bs) :
    Queued (number + bs.length + 1) safe (some (number + 1)) (bs.map BlockHeader.update) := by
  induction bs generalizing number hash with
  | nil => exact fun n hn => (Option.some.inj hn).symm
  | cons b bs ih =>
    obtain ⟨hn, -, hbs⟩ := h
    have hrest := ih hbs
    rw [List.map_cons, List.length_cons, BlockHeader.update]
    refine ⟨fun n hnext => (Option.some.inj hnext).symm.trans hn.symm, ?_⟩
    rw [hn] at hrest ⊢
    rwa [show number + (bs.length + 1) + 1 = number + 1 + bs.length + 1 by omega]

/-- **What a new watcher queues** from a block on: the recent blocks from there, after a warp if it
is below them. -/
theorem of_start {number : Nat} {hash : B256} {bs : List BlockHeader} (h : LinkedFrom number hash bs)
    {start : Nat} (hstart : start ≤ number + bs.length + 1) :
    Queued (number + bs.length + 1) number (some start)
      ((if start ≤ number then [.warp start number] else []) ++
        (bs.filter (fun b => decide (start ≤ b.number))).map BlockHeader.update) := by
  rw [h.filter_le]
  by_cases hle : start ≤ number
  · rw [if_pos hle, show start - (number + 1) = 0 by omega, List.drop_zero]
    exact ⟨fun n hn => (Option.some.inj hn).symm, hle, rfl, of_linked _ h⟩
  · rw [if_neg hle, List.nil_append]
    obtain ⟨i, rfl⟩ : ∃ i, start = number + 1 + i := ⟨start - (number + 1), by omega⟩
    have hdrop : LinkedFrom (number + i) (tipHash hash (bs.take i)) (bs.drop i) := by
      rw [← List.take_append_drop i bs] at h
      have hrest := (LinkedFrom.append.mp h).2
      rwa [List.length_take, Nat.min_eq_left (by omega)] at hrest
    have hqueued := of_linked number hdrop
    rw [List.length_drop] at hqueued
    rw [Nat.add_sub_cancel_left, show number + 1 + i = number + i + 1 by omega]
    rwa [show number + i + (bs.length - i) + 1 = number + bs.length + 1 by omega] at hqueued

end Queued

/-! ### The snapshots from the oldest on -/

namespace Filled

variable {stored : Set Nat} {safe next : Nat}

theorem mono {safe' : Nat} (h : Filled stored safe next) (hle : safe ≤ safe') :
    Filled stored safe' next :=
  ⟨h.below, fun m hm n hmn hsafe hn => h.filled m hm n hmn (hle.trans hsafe) hn⟩

/-- The logs up to a block are processed. -/
theorem insert {last : Nat} (h : Filled stored safe next) (hle : next ≤ last)
    (hsafe : last = next ∨ last ≤ safe) : Filled (insert last stored) safe (last + 1) := by
  constructor
  · rintro n (rfl | hn)
    · exact Nat.lt_succ_self _
    · exact (h.below n hn).trans_le (hle.trans (Nat.le_succ _))
  · rintro m hm n hmn hsn hn
    by_cases heq : n = last
    · exact .inl heq
    · rcases hm with rfl | hm
      · omega
      · exact .inr (h.filled m hm n hmn hsn (by omega))

/-- The blocks from an uncle on are rolled back. -/
theorem uncle {number : Nat} (h : Filled stored safe next) (hle : number ≤ next) :
    Filled { n ∈ stored | n < number } safe number :=
  ⟨fun _ hn => hn.2, fun m hm n hmn hsafe hn =>
    ⟨h.filled m hm.1 n hmn hsafe (hn.trans_le hle), hn⟩⟩

/-- A prune leaves those that may be reorged. -/
theorem prune (h : Filled stored safe next) :
    Filled { n ∈ stored | safe ≤ n ∨ ∀ m ∈ stored, m ≤ n } safe next :=
  ⟨fun n hn => h.below n hn.1, fun m hm n hmn hsafe hn =>
    ⟨h.filled m hm.1 n hmn hsafe hn, .inl hsafe⟩⟩

/-- If any is stored below a block that may be reorged, the one of its parent is. -/
theorem parent {number : Nat} (h : Filled stored safe next) (hle : number ≤ next)
    (hsafe : safe < number) : number - 1 ∈ stored ↔ ¬∀ n ∈ stored, number ≤ n := by
  constructor
  · intro hmem hall
    have := hall _ hmem
    omega
  · intro hall
    push Not at hall
    obtain ⟨m, hm, hlt⟩ := hall
    exact h.filled m hm (number - 1) (by omega) (by omega) (by omega)

end Filled

/-! ### The machine -/

section Machine

variable {S Event Resume Action Effect : Type} {apply : TransitionFn S Event Resume Action Effect}
  {M : StateMachine S} {state : S} {status : Status} {w w' : Watcher Event}

theorem handleUpdate_ok (hin : M.inner = some (state, status)) {u : Update Event} {state' : S}
    {status' : Status} {snapshots : SnapshotStore S} {commands : List (Command Action Effect)}
    (h : tryUpdate apply M.snapshots state status u = .ok (state', status', snapshots, commands)) :
    M.handleUpdate apply u = (⟨some (state', status'), snapshots⟩, .ok commands) := by
  simp only [StateMachine.handleUpdate, hin, h]

theorem handleUpdate_error (hin : M.inner = some (state, status)) {u : Update Event} {e : StateError}
    (h : tryUpdate apply M.snapshots state status u = .error e) :
    M.handleUpdate apply u = (⟨none, M.snapshots⟩, .error e) := by
  simp only [StateMachine.handleUpdate, hin, h]

/-- The machine takes an update, and is aligned with the watcher again. -/
def Takes (apply : TransitionFn S Event Resume Action Effect) (M : StateMachine S)
    (w' : Watcher Event) (u : WatcherUpdate Event) : Prop :=
  ∃ state status snapshots commands,
    M.handleUpdate apply u.update = (⟨some (state, status), snapshots⟩, .ok commands) ∧
      Aligned snapshots.blocks w' status ∧ ∀ n ∈ snapshots, n ∈ M.snapshots ∨ n + 1 < 2 ^ 63

/-- It does not. -/
def Refuses (apply : TransitionFn S Event Resume Action Effect) (M : StateMachine S)
    (u : WatcherUpdate Event) : Prop :=
  ∃ e, M.handleUpdate apply u.update = (⟨none, M.snapshots⟩, .error e)

/-- **A reorg that is above the oldest snapshot** is rolled back to the snapshot before it. -/
theorem takes_uncle (hin : M.inner = some (state, status)) {number : Nat}
    (haccepts : status.acceptsUncle number = true) (hpos : 0 < number) (hlt : number < 2 ^ 63)
    (hmem : number - 1 ∈ M.snapshots) (hstep : w'.events.step.expects = .block)
    (hwaits : Waits { n ∈ M.snapshots.blocks | n < number } w'.blocks number) :
    Takes apply M w' (.block (.uncle number)) := by
  obtain ⟨kept, restored, hreorg, -, hkept⟩ := SnapshotStore.reorg_ok hpos hlt hmem
  have htry : tryUpdate apply M.snapshots state status (.uncle number : Update Event) =
      .ok (restored, .blockPending number, kept, []) := by
    simp only [tryUpdate, haccepts, if_true, hreorg]
    rfl
  refine ⟨_, _, _, _, handleUpdate_ok hin htry, .pending number hstep ?_, fun n hn => ?_⟩
  · rwa [show kept.blocks = { n ∈ M.snapshots.blocks | n < number } from Set.ext hkept]
  · exact .inl ((hkept n).mp hn).1

/-- One that is not cannot be. -/
theorem refuses_uncle (hin : M.inner = some (state, status)) {number : Nat} (hpos : 0 < number)
    (h : ∀ n ∈ M.snapshots, number ≤ n) :
    Refuses apply M (.block (.uncle number) : WatcherUpdate Event) := by
  have hmem : number - 1 ∉ M.snapshots := fun hmem => absurd (h _ hmem) (by omega)
  obtain ⟨e, he⟩ := SnapshotStore.reorg_error hmem
  have htry : ∃ e, tryUpdate apply M.snapshots state status (.uncle number : Update Event) =
      .error e := by
    simp only [tryUpdate]
    split
    · exact ⟨e, by rw [he]; rfl⟩
    · exact ⟨_, rfl⟩
  obtain ⟨e, htry⟩ := htry
  exact ⟨e, handleUpdate_error hin htry⟩

/-- **A new block** that is waited for. -/
theorem takes_new (hin : M.inner = some (state, status)) {number : Nat} {hash : B256} {bloom : Bloom}
    (hstatus : status = .initialized ∨ status = .blockPending number)
    (h : Aligned M.snapshots.blocks w' (.blockEvents number)) :
    Takes apply M w' (.block (.new number hash bloom)) := by
  have htry : tryUpdate apply M.snapshots state status (.new number : Update Event) =
      .ok ((apply state (.newBlock number)).1, .blockEvents number, M.snapshots,
        (apply state (.newBlock number)).2) := by
    simp only [tryUpdate, if_pos hstatus]
    rfl
  exact ⟨_, _, _, _, handleUpdate_ok hin htry, h, fun n hn => .inl hn⟩

/-- **A warp** that is waited for. -/
theorem takes_warp (hin : M.inner = some (state, status)) {first last : Nat} (hle : first ≤ last)
    (hstatus : status = .initialized ∨ status = .blockPending first)
    (h : Aligned M.snapshots.blocks w' (.warpEvents first last)) :
    Takes apply M w' (.block (.warp first last)) := by
  have htry : tryUpdate apply M.snapshots state status (.warp first last : Update Event) =
      .ok (state, .warpEvents first last, M.snapshots, []) := by
    simp only [tryUpdate, if_pos hstatus, blockRange, if_pos hle]
    rfl
  exact ⟨_, _, _, _, handleUpdate_ok hin htry, h, fun n hn => .inl hn⟩

/-- **Logs** that are called for are processed, and a snapshot is stored. -/
theorem takes_logs (status' : Status) (hin : M.inner = some (state, status))
    {update : EventUpdate Event} (haccepts : status.acceptsLogs update.first update.last = true)
    (hordered : logsInOrder update.first update.last update.logs = true)
    (hstatus : status.afterLogs update.last = .ok status') (hlt : update.last + 1 < 2 ^ 63)
    (h : Aligned (insert update.last M.snapshots.blocks) w' status') :
    Takes apply M w' (.logs update) := by
  obtain ⟨snapshots, hcommit⟩ : ∃ snapshots, M.snapshots.commit update.last
      (applyLogs apply state update.logs).1 = .ok snapshots :=
    ⟨_, by simp only [SnapshotStore.commit, i64Block, if_pos (show update.last < 2 ^ 63 by omega)]; rfl⟩
  have htry : tryUpdate apply M.snapshots state status
      (.logs update.first update.last update.logs) =
      .ok ((applyLogs apply state update.logs).1, status', snapshots,
        (applyLogs apply state update.logs).2) := by
    simp only [tryUpdate, haccepts, hordered, Bool.and_self, if_true, hstatus, bind, Except.bind,
      hcommit]
    rfl
  refine ⟨_, _, _, _, handleUpdate_ok hin htry, ?_, fun n hn => ?_⟩
  · rwa [SnapshotStore.blocks_commit hcommit]
  · rcases (SnapshotStore.mem_commit hcommit n).mp hn with rfl | hn
    · exact .inr hlt
    · exact .inl hn

/-- A new block that is not the one waited for. -/
theorem refuses_new (hin : M.inner = some (state, status)) {number : Nat} {hash : B256} {bloom : Bloom}
    (hstatus : ¬(status = .initialized ∨ status = .blockPending number)) :
    Refuses apply M (.block (.new number hash bloom) : WatcherUpdate Event) := by
  have htry : tryUpdate apply M.snapshots state status (.new number : Update Event) =
      .error .badUpdate := by
    simp only [tryUpdate, if_neg hstatus]
    rfl
  exact ⟨_, handleUpdate_error hin htry⟩

/-- What is expected of an update that was. -/
theorem Expects.of_accept {expects : Expects} {update : EventUpdate Event} {expects' : Expects}
    (h : expects.accept (.logs update) = some expects') :
    (∃ number, expects = .logsOf number ∧ update.first = number ∧ update.last = number ∧
        expects' = .block) ∨
      ∃ first last, expects = .pages first last ∧ update.first = first ∧ first ≤ update.last ∧
        update.last ≤ last ∧
        expects' = if update.last = last then .block else .pages (update.last + 1) last := by
  cases expects with
  | block => exact absurd h (by simp [Expects.accept])
  | pages first last =>
    simp only [Expects.accept] at h
    split at h
    · rename_i hrange
      exact .inr ⟨first, last, rfl, hrange.1, hrange.2.1, hrange.2.2, (Option.some.inj h).symm⟩
    · exact absurd h (by simp)
  | logsOf number =>
    simp only [Expects.accept] at h
    split at h
    · rename_i hrange
      exact .inl ⟨number, rfl, hrange.1, hrange.2, (Option.some.inj h).symm⟩
    · exact absurd h (by simp)

/-- The logs of the block, or of the next page. -/
theorem takes_fetched (hin : M.inner = some (state, status))
    (h : Aligned M.snapshots.blocks w status) (hbound : w.blocks.pending < 2 ^ 63)
    {update : EventUpdate Event} (hblocks : w'.blocks = w.blocks)
    (hstep : w.events.step.expects.accept (.logs update) = some w'.events.step.expects)
    (hordered : logsInOrder update.first update.last update.logs = true) :
    Takes apply M w' (.logs update) := by
  have hnext : ∀ n, n + 1 < 2 ^ 63 → nextBlock n = .ok (n + 1) := by
    intro n hn
    have hmax : n < u64Max := by unfold u64Max; omega
    rw [nextBlock, if_pos hmax]
  rcases Expects.of_accept hstep with ⟨number, hs, hf, hl, hs'⟩ | ⟨first, last, hs, hf, hle, hle', hs'⟩
  · cases h with
    | initialized step => exact absurd (step.symm.trans hs) (by simp)
    | pending next step => exact absurd (step.symm.trans hs) (by simp)
    | warp f l step => exact absurd (step.symm.trans hs) (by simp)
    | events n step queue filled =>
      obtain rfl : n = number := Expects.logsOf.inj (step.symm.trans hs)
      have hle := queue.le
      refine takes_logs (.blockPending (n + 1)) hin ?_ hordered ?_ (by omega) ?_
      · simp [Status.acceptsLogs, isNextInRange, hf, hl]
      · simp only [Status.afterLogs, hl, hnext n (by omega)]
        rfl
      · refine .pending (n + 1) hs' (.inl ?_)
        rw [hblocks, hl]
        exact ⟨queue, filled.insert le_rfl (.inl rfl)⟩
  · cases h with
    | initialized step => exact absurd (step.symm.trans hs) (by simp)
    | pending next step => exact absurd (step.symm.trans hs) (by simp)
    | events n step => exact absurd (step.symm.trans hs) (by simp)
    | warp f l step range queue safe filled =>
      obtain ⟨rfl, rfl⟩ := Expects.pages.inj (step.symm.trans hs)
      have hpending := queue.le
      have haccepts : (Status.warpEvents f l).acceptsLogs update.first update.last = true := by
        simp [Status.acceptsLogs, isNextInRange, hf, hle, hle']
      have hfilled : Filled (insert update.last M.snapshots.blocks) w.blocks.safe.number
          (update.last + 1) := filled.insert hle (.inr (safe ▸ hle'))
      by_cases hlast : update.last = l
      · refine takes_logs (.blockPending (update.last + 1)) hin haccepts hordered ?_
          (by omega) ?_
        · simp only [Status.afterLogs, hnext _ (show update.last + 1 < 2 ^ 63 by omega), bind,
            Except.bind, if_neg (show ¬update.last < l by omega)]
          rfl
        · rw [if_pos hlast] at hs'
          refine .pending _ hs' (.inl ?_)
          rw [hblocks]
          exact ⟨hlast ▸ queue, hfilled⟩
      · have hlt : update.last < l := lt_of_le_of_ne hle' hlast
        refine takes_logs (.warpEvents (update.last + 1) l) hin haccepts hordered ?_
          (by omega) ?_
        · simp only [Status.afterLogs, hnext _ (show update.last + 1 < 2 ^ 63 by omega), bind,
            Except.bind, if_pos hlt, blockRange, if_pos (show update.last + 1 ≤ l by omega)]
          rfl
        · rw [if_neg hlast] at hs'
          refine .warp _ l hs' (by omega) ?_ ?_ ?_
          · rw [hblocks]
            exact queue
          · rw [hblocks]
            exact safe
          · rw [hblocks]
            exact hfilled

variable (apply) in
/-- A block of the machine's own kind that was queued. -/
theorem takes_queued (hin : M.inner = some (state, status)) {update : BlockUpdate} {next : Option Nat}
    {queue : List BlockUpdate} (hstatus : ∀ n, (∀ m, next = some m → m = n) →
      status = .initialized ∨ status = .blockPending n)
    (hqueue : Queued w.blocks.pending w.blocks.safe.number next (update :: queue))
    (hfilled : ∀ n, (∀ m, next = some m → m = n) → Filled M.snapshots.blocks w.blocks.safe.number n)
    (hblocks : w'.blocks = { w.blocks with queue })
    (hstep : Expects.block.accept (.block update : WatcherUpdate Event) =
      some w'.events.step.expects) :
    Takes apply M w' (.block update) ∧ ∀ number, update ≠ .uncle number := by
  have hpending : w'.blocks.pending = w.blocks.pending := by rw [hblocks]
  have hsafe : w'.blocks.safe = w.blocks.safe := by rw [hblocks]
  have hrest : w'.blocks.queue = queue := by rw [hblocks]
  cases update with
  | uncle n => exact hqueue.elim
  | new n hash bloom =>
    obtain ⟨hnext, hq⟩ := hqueue
    refine ⟨takes_new hin (hstatus n hnext) (.events n (Option.some.inj hstep).symm ?_ ?_), by simp⟩
    · rw [hpending, hsafe, hrest]
      exact hq
    · rw [hsafe]
      exact hfilled n hnext
  | warp f l =>
    obtain ⟨hnext, hle, hl, hq⟩ := hqueue
    refine ⟨takes_warp hin hle (hstatus f hnext)
      (.warp f l (Option.some.inj hstep).symm hle ?_ ?_ ?_), by simp⟩
    · rw [hpending, hsafe, hrest]
      exact hq
    · rw [hsafe]
      exact hl
    · rw [hsafe]
      exact hfilled f hnext

/-- An uncle of a block that may be reorged. -/
theorem uncle_handled (hin : M.inner = some (state, status)) {number next : Nat}
    (haccepts : status.acceptsUncle number = true) (hlt : number < 2 ^ 63)
    (hsafe : w.blocks.safe.number < number) (hle : number ≤ next)
    (hfilled : Filled M.snapshots.blocks w.blocks.safe.number next)
    (hpending : w'.blocks.pending = number) (hqueue : w'.blocks.queue = [])
    (hsame : w'.blocks.safe = w.blocks.safe) (hstep : w'.events.step.expects = .block) :
    (¬GoesBelow M.snapshots.blocks (.block (.uncle number) : WatcherUpdate Event) ∧
        Takes apply M w' (.block (.uncle number))) ∨
      (GoesBelow M.snapshots.blocks (.block (.uncle number) : WatcherUpdate Event) ∧
        Refuses apply M (.block (.uncle number) : WatcherUpdate Event)) := by
  by_cases hbelow : ∀ n ∈ M.snapshots.blocks, number ≤ n
  · exact .inr ⟨hbelow, refuses_uncle hin (by omega) hbelow⟩
  · refine .inl ⟨hbelow, takes_uncle hin haccepts (by omega) hlt ((hfilled.parent hle hsafe).mpr hbelow)
      hstep (.inl ?_)⟩
    rw [hpending, hqueue, hsame]
    exact ⟨fun n hn => (Option.some.inj hn).symm, hfilled.uncle hle⟩

variable (apply) in
/-- **An update is handled** by a machine that is aligned: it is taken, unless it goes below the
oldest snapshot. -/
theorem handles (hin : M.inner = some (state, status)) (hbound : w.blocks.pending < 2 ^ 63)
    (hstored : ∀ n ∈ M.snapshots, n + 1 < 2 ^ 63)
    (h : Aligned M.snapshots.blocks w status ∨
      ∃ next, status = .blockPending next ∧ Rollback M.snapshots.blocks w next)
    {u : WatcherUpdate Event} (hy : Watcher.Yields w w' [u]) :
    (¬GoesBelow M.snapshots.blocks u ∧ Takes apply M w' u) ∨
      (GoesBelow M.snapshots.blocks u ∧ Refuses apply M u) := by
  rcases h with h | ⟨next, rfl, hstep, number, queue, hq, hpos, hlt, hmem, hwaits⟩
  · cases hy with
    | logs update blocks step ordered =>
      exact .inl ⟨fun hbelow => hbelow.elim, takes_fetched hin h hbound blocks step ordered⟩
    | queued update queue idle first blocks step =>
      have hnot : ∀ stored : Set Nat, (∀ number, update ≠ .uncle number) →
          (∀ number hash bloom, update = .new number hash bloom → stored.Nonempty →
            ∃ n ∈ stored, n < number) → ¬GoesBelow stored (.block update : WatcherUpdate Event) := by
        intro stored huncle hnew hbelow
        cases update with
        | warp f l => exact hbelow
        | uncle n => exact huncle n rfl
        | new n hash bloom =>
          obtain ⟨m, hm, hlt⟩ := hnew n hash bloom rfl hbelow.1
          exact absurd (hbelow.2 m hm) (not_le.mpr hlt)
      cases h with
      | initialized hs hfresh hqueue =>
        rw [first] at hqueue
        obtain ⟨htakes, huncle⟩ := takes_queued apply hin (fun n _ => .inl rfl) hqueue
          (fun n _ => ⟨by simp [hfresh], by simp [hfresh]⟩) blocks step
        exact .inl ⟨hnot _ huncle fun n k b _ hne => absurd hne (by simp [hfresh]), htakes⟩
      | pending next hs hwaits =>
        rcases hwaits with ⟨hqueue, hfilled⟩ | ⟨hempty, -⟩
        · rw [first] at hqueue
          obtain ⟨htakes, huncle⟩ := takes_queued apply hin
            (fun n hn => .inr (by rw [hn next rfl])) hqueue (fun n hn => hn next rfl ▸ hfilled) blocks
            step
          refine .inl ⟨hnot _ huncle fun n k b hu hne => ?_, htakes⟩
          obtain ⟨m, hm⟩ := hne
          subst hu
          exact ⟨m, hm, hqueue.1 next rfl ▸ hfilled.below m hm⟩
        · exact absurd (hempty.symm.trans first) (by simp)
      | events n hs => exact absurd (hs.symm.trans idle) (by simp)
      | warp f l hs => exact absurd (hs.symm.trans idle) (by simp)
    | uncled number idle first above last pending queue safe step =>
      cases h with
      | initialized hs hfresh =>
        have hnone : ∀ n ∈ M.snapshots.blocks, number ≤ n := by simp [hfresh]
        exact .inr ⟨hnone, refuses_uncle hin (by omega) hnone⟩
      | pending next hs hwaits =>
        rcases hwaits with ⟨hqueue, hfilled⟩ | ⟨-, -, hbehind⟩
        · rw [first] at hqueue
          have hnext : next = w.blocks.pending := hqueue next rfl
          exact uncle_handled hin (decide_eq_true (by omega)) (by omega) above (by omega) hfilled
            pending queue safe step
        · have hall : ∀ n ∈ M.snapshots.blocks, number ≤ n := by
            intro n hn
            have := (hbehind n hn).1
            omega
          exact .inr ⟨hall, refuses_uncle hin (by omega) hall⟩
      | events n hs => exact absurd (hs.symm.trans idle) (by simp)
      | warp f l hs => exact absurd (hs.symm.trans idle) (by simp)
    | recorded hash bloom idle first pending queue safe step =>
      have hqueue' : ∀ n, n = w.blocks.pending →
          Queued w'.blocks.pending w'.blocks.safe.number (some (n + 1)) w'.blocks.queue := by
        rintro n rfl
        rw [queue, pending]
        exact fun m hm => (Option.some.inj hm).symm
      cases h with
      | initialized hs hfresh =>
        refine .inl ⟨fun hbelow => ?_, takes_new hin (.inl rfl) (.events _ step (hqueue' _ rfl) ?_)⟩
        · exact absurd hbelow.1 (by simp [hfresh])
        · exact ⟨by simp [hfresh], by simp [hfresh]⟩
      | pending next hs hwaits =>
        rcases hwaits with ⟨hqueue, hfilled⟩ | ⟨-, hne, hbehind⟩
        · rw [first] at hqueue
          obtain rfl : next = w.blocks.pending := hqueue next rfl
          refine .inl ⟨fun hbelow => ?_, takes_new hin (.inr rfl)
            (.events _ step (hqueue' _ rfl) (hfilled.mono safe))⟩
          obtain ⟨m, hm⟩ := hbelow.1
          exact absurd (hbelow.2 m hm) (not_le.mpr (hfilled.below m hm))
        · refine .inr ⟨⟨hne, fun n hn => (hbehind n hn).1⟩, refuses_new hin ?_⟩
          obtain ⟨m, hm⟩ := hne
          have hlt := (hbehind m hm).1.trans_lt (hbehind m hm).2
          rintro (heq | heq)
          · exact absurd heq (by simp)
          · exact absurd (Status.blockPending.inj heq) hlt.ne'
      | events n hs => exact absurd (hs.symm.trans idle) (by simp)
      | warp f l hs => exact absurd (hs.symm.trans idle) (by simp)
    | revalidated number fetching above pending queue safe step =>
      cases h with
      | initialized hs => exact absurd (hs.symm.trans fetching) (by simp)
      | pending next hs => exact absurd (hs.symm.trans fetching) (by simp)
      | warp f l hs => exact absurd (hs.symm.trans fetching) (by simp)
      | events n hs hqueue hfilled =>
        obtain rfl : n = number := Expects.logsOf.inj (hs.symm.trans fetching)
        have hle := hqueue.le
        exact uncle_handled hin (decide_eq_true le_rfl) (by omega) above le_rfl hfilled pending queue
          safe step
  · -- the update is the uncle that was queued first
    cases hy with
    | logs update blocks step => exact absurd step (by rw [hstep]; simp [Expects.accept])
    | queued update rest idle first blocks step =>
      obtain ⟨rfl, rfl⟩ := List.cons.inj (hq.symm.trans first)
      have hle := hstored _ hmem
      refine .inl ⟨fun hbelow => ?_, takes_uncle hin (decide_eq_true hlt) hpos (by omega)
        hmem (Option.some.inj step).symm (blocks ▸ hwaits)⟩
      have := hbelow _ hmem
      omega
    | uncled n idle first => exact absurd (hq.symm.trans first) (by simp)
    | recorded hash bloom idle first => exact absurd (hq.symm.trans first) (by simp)
    | revalidated n fetching => exact absurd (hstep.symm.trans fetching) (by simp)

/-- A prune leaves the machine aligned. -/
theorem Aligned.prune {stored : Set Nat} (h : Aligned stored w status)
    (htip : stored.Nonempty → ∃ n ∈ stored, ∀ m ∈ stored, m ≤ n) :
    Aligned { n ∈ stored | w.blocks.safe.number ≤ n ∨ ∀ m ∈ stored, m ≤ n } w status := by
  cases h with
  | initialized step fresh queue =>
    refine .initialized step ?_ queue
    subst fresh
    simp
  | pending next step waits =>
    refine .pending next step ?_
    rcases waits with ⟨queue, filled⟩ | ⟨hempty, hne, hbehind⟩
    · exact .inl ⟨queue, filled.prune⟩
    · obtain ⟨n, hn, hmax⟩ := htip hne
      exact .inr ⟨hempty, ⟨n, hn, .inr hmax⟩, fun m hm => hbehind m hm.1⟩
  | events number step queue filled => exact .events number step queue filled.prune
  | warp first last step range queue safe filled =>
    exact .warp first last step range queue safe filled.prune

/-- Nothing was returned. -/
theorem Aligned.nothing {stored : Set Nat} (h : Aligned stored w status)
    (hblocks : w'.blocks = w.blocks) (hstep : w'.events.step.expects = w.events.step.expects) :
    Aligned stored w' status := by
  cases h with
  | initialized step fresh queue =>
    exact .initialized (hstep.trans step) fresh (by rwa [hblocks])
  | pending next step waits => exact .pending next (hstep.trans step) (by rwa [hblocks])
  | events number step queue filled =>
    exact .events number (hstep.trans step) (by rwa [hblocks]) (by rwa [hblocks])
  | warp first last step range queue safe filled =>
    exact .warp first last (hstep.trans step) range (by rwa [hblocks]) (by rwa [hblocks])
      (by rwa [hblocks])

theorem Rollback.nothing {stored : Set Nat} {next : Nat} (h : Rollback stored w next)
    (hblocks : w'.blocks = w.blocks) (hstep : w'.events.step.expects = w.events.step.expects) :
    Rollback stored w' next := by
  obtain ⟨step, huncle⟩ := h
  exact ⟨hstep.trans step, by rwa [hblocks]⟩

end Machine

/-! ## 2. Starts -/

/-- What a completed scan leaves: the recent blocks above the safe one, all of which the node
answered with. -/
theorem Initializing.finish_recent {config : BlockConfig} {indexed : Option BlockStatus} {s : Scan}
    {answered : List BlockHeader} {blocks : BlockWatcher} (hs : s.Consistent config answered)
    (hfinish : finish config indexed s = .ready blocks) :
    blocks.queue = initialUpdates config indexed blocks.safe.number ++
        (blocks.recent.filter (isUnprocessed config indexed)).map BlockHeader.update ∧
      ∀ b ∈ blocks.recent, b ∈ answered := by
  unfold Initializing.finish at hfinish
  split at hfinish
  · rename_i safe recent hr
    obtain rfl := Initialized.ready.inj hfinish
    obtain ⟨hsafe, -, -⟩ := hs.linked safe recent hr
    exact ⟨by rw [hsafe], fun b hb => hs.known b (by rw [hr]; exact List.mem_cons_of_mem _ hb)⟩
  · exact absurd hfinish (by simp)

/-- The pending block follows one that was answered. -/
theorem Initializing.finish_pending {config : BlockConfig} {indexed : Option BlockStatus} {s : Scan}
    {answered : List BlockHeader} {blocks : BlockWatcher} (hs : s.Consistent config answered)
    (hdone : s.latest < s.number) (hfinish : finish config indexed s = .ready blocks) :
    ∃ b ∈ answered, blocks.pending = b.number + 1 := by
  unfold Initializing.finish at hfinish
  split at hfinish
  · rename_i safe recent hr
    obtain rfl := Initialized.ready.inj hfinish
    obtain ⟨hsafe, hlinked, -⟩ := hs.linked safe recent hr
    have hnumber := hs.number
    have hbound := hs.bound
    rw [hr, List.length_cons] at hnumber
    rcases List.eq_nil_or_concat' recent with rfl | ⟨before, last, rfl⟩
    · refine ⟨safe, hs.known safe (by rw [hr]; exact List.mem_cons_self), ?_⟩
      rw [List.length_nil] at hnumber
      dsimp only
      omega
    · refine ⟨last, hs.known last (by rw [hr]; simp), ?_⟩
      obtain ⟨-, hn, -⟩ := LinkedFrom.concat.mp hlinked
      rw [List.length_append, List.length_singleton] at hnumber
      dsimp only
      omega
  · exact absurd hfinish (by simp)

/-- No block is queued before the recent ones. -/
theorem initialUpdates_noNew {config : BlockConfig} {indexed : Option BlockStatus}
    {safe number : Nat} {hash : B256} {bloom : Bloom} :
    .new number hash bloom ∉ initialUpdates config indexed safe := by
  intro h
  unfold initialUpdates at h
  split at h
  · split at h
    · rcases List.mem_append.mp h with h | h
      · split at h <;> exact absurd h (by simp)
      · split at h <;> exact absurd h (by simp)
    · exact absurd h (by simp)
  · split at h
    · split at h <;> exact absurd h (by simp)
    · exact absurd h (by simp)

/-- What a resumed watcher queues after the rollback goes on from the oldest snapshot. -/
theorem waits_oldest {b : BlockWatcher} (hb : b.Consistent) {stored : Set Nat} {oldest : Nat}
    (hmem : oldest ∈ stored) (honly : ∀ n ∈ stored, n = oldest) :
    Waits stored
      { b with queue := (if oldest + 1 ≤ b.safe.number then [.warp (oldest + 1) b.safe.number] else []) ++
        (b.recent.filter fun x => decide (oldest + 1 ≤ x.number)).map BlockHeader.update }
      (oldest + 1) := by
  have hpending := hb.pending
  by_cases hle : oldest + 1 ≤ b.pending
  · rw [hpending] at hle
    refine .inl ⟨?_, ?_⟩
    · have hqueued := Queued.of_start hb.linked hle
      rwa [← hpending] at hqueued
    · constructor
      · intro n hn
        rw [honly n hn]
        exact Nat.lt_succ_self _
      · intro m hm n hmn _ hlt
        obtain rfl := honly m hm
        obtain rfl : n = m := by omega
        exact hmem
  · have hempty : (b.recent.filter fun x => decide (oldest + 1 ≤ x.number)) = [] := by
      rw [hb.linked.filter_le, List.drop_eq_nil_iff]
      omega
    refine .inr ⟨?_, ⟨oldest, hmem⟩, fun n hn => ?_⟩
    · dsimp only
      rw [hempty, if_neg (by omega)]
      rfl
    · rw [honly n hn]
      exact ⟨by dsimp only; omega, Nat.lt_succ_self _⟩

/-- **A process that starts is aligned**, or has the blocks after the oldest snapshot to roll back. -/
theorem start_aligned {Event S : Type} {init : S} {config : BlockConfig} {store : SnapshotStore S}
    {b : BlockWatcher} {events : EventWatcher Event} (hb : b.Consistent)
    (hidle : events.step.expects = .block) (hbound : ∀ n ∈ store, n + 1 < 2 ^ 63)
    (hqueue : b.queue = initialUpdates config store.status b.safe.number ++
      (b.recent.filter (isUnprocessed config store.status)).map BlockHeader.update) :
    ∃ state status, (StateMachine.withInit init store).inner = some (state, status) ∧
      (Aligned store.blocks ⟨b, events⟩ status ∨
        ∃ next, status = .blockPending next ∧ Rollback store.blocks ⟨b, events⟩ next) := by
  have hpending := hb.pending
  have hsucc : ∀ n ∈ store, nextBlock n = .ok (n + 1) ∧ checkedSucc n = some (n + 1) := by
    intro n hn
    have hlt := hbound n hn
    have hmax : n < u64Max := by unfold u64Max; omega
    exact ⟨by rw [nextBlock, if_pos hmax], by rw [checkedSucc, if_pos hmax]⟩
  rcases store.status_cases with
    ⟨hstatus, hcurrent, hempty⟩ | ⟨⟨oldest, s⟩, ⟨latest, s'⟩, hstatus, holdest, hcurrent⟩
  · -- nothing is stored
    refine ⟨init, .initialized, by simp only [StateMachine.withInit, hcurrent], .inl
      (.initialized hidle (Set.eq_empty_of_forall_notMem hempty) ?_)⟩
    rw [hqueue, hstatus, hpending]
    cases hstart : config.startBlock with
    | none =>
      have hall : b.recent.filter (isUnprocessed config none) = b.recent :=
        List.filter_eq_self.mpr fun x _ => by simp only [isUnprocessed, hstart, Option.all_none]
      rw [hall]
      simp only [initialUpdates, hstart, List.nil_append]
      exact (Queued.of_linked _ hb.linked).fresh
    | some startBlock =>
      have hfun : isUnprocessed config none = fun x => decide (startBlock ≤ x.number) := by
        funext x
        simp only [isUnprocessed, hstart, Option.all_some]
      rw [hfun]
      simp only [initialUpdates, hstart]
      by_cases hle : startBlock ≤ b.safe.number + b.recent.length + 1
      · exact (Queued.of_start hb.linked hle).fresh
      · rw [hb.linked.filter_le, List.drop_eq_nil_iff.mpr (by omega), if_neg (by omega)]
        exact fun n hn => absurd hn (by simp)
  · obtain ⟨hget, hmin⟩ := SnapshotStore.oldest_mem holdest
    obtain ⟨hget', hmax⟩ := SnapshotStore.current_mem hcurrent
    have hmem : oldest ∈ store := SnapshotStore.mem_iff.mpr ⟨s, hget⟩
    have hmem' : latest ∈ store := SnapshotStore.mem_iff.mpr ⟨s', hget'⟩
    have hfun : isUnprocessed config (some ⟨latest, oldest⟩) = fun x => decide (oldest + 1 ≤ x.number) := by
      funext x
      simp only [isUnprocessed, (hsucc oldest hmem).2, Option.any_some]
    rw [hstatus, hfun] at hqueue
    simp only [initialUpdates, (hsucc oldest hmem).2, List.append_assoc] at hqueue
    refine ⟨s', .blockPending (latest + 1), ?_, ?_⟩
    · simp only [StateMachine.withInit, hcurrent, (hsucc latest hmem').1]
      rfl
    · by_cases hle : oldest + 1 ≤ latest
      · rw [if_pos hle, List.singleton_append] at hqueue
        refine .inr ⟨_, rfl, hidle, oldest + 1, _, hqueue, Nat.succ_pos _, by omega, hmem, ?_⟩
        exact waits_oldest hb ⟨hmem, Nat.lt_succ_self _⟩ fun n hn =>
          Nat.le_antisymm (Nat.le_of_lt_succ hn.2) (hmin n hn.1)
      · obtain rfl : latest = oldest := by
          have := hmax oldest hmem
          omega
        rw [if_neg hle, List.nil_append] at hqueue
        have hwaits := waits_oldest hb hmem fun n hn => Nat.le_antisymm (hmax n hn) (hmin n hn)
        rw [← hqueue] at hwaits
        exact .inl (.pending _ hidle hwaits)

end Safenet
