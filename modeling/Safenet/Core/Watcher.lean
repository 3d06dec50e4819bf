/-
# The watcher, and cancelling it

`index/mod.rs`: the block watcher and the event watcher together.  Each update of the first is
handed to the second, whose logs are fetched before the first is asked again.  `Driver::next_input`
polls `Watcher::next` beside the running effects, and drops the future when an effect resumes first.

A future is written by the places where it waits (`Awaiting`), and what it does from one to the
next is one step: Rust runs it without interruption.  What is dropped is then only the place, and
the watchers are left as they were at the last step.  Every place but one is reached without a
change to the watchers.  The one is the wait for a revalidation, before which the failed fetch was
counted; dropping the future there is as if the revalidation had failed, and been tried again later.

Hence `cancellation_safe`: a run with cancellations delivers what one without does, when the node
answers as before, or not at all.  The watchers stay in step (`Expects`): after a block come its
logs, or its uncle, and after a warp come its pages.
-/
import Safenet.Core.EventWatcher

namespace Safenet

/-! ## 1. The watcher -/

/-- What the node would answer now. -/
structure NodeView where
  getLogs : GetLogs
  getBlock : BlockId → BlockAnswer

/-- An update of the watcher. -/
inductive WatcherUpdate (Event : Type) where
  | block (update : BlockUpdate)
  | logs (update : EventUpdate Event)

/-- An error of the watcher. -/
inductive WatcherError where
  | blocks (error : BlockError)
  | events (error : EventError)
  deriving DecidableEq

/-- The watcher. -/
structure Watcher (Event : Type) where
  blocks : BlockWatcher
  events : EventWatcher Event

/-- Where `next` waits. -/
inductive Awaiting where
  | logs
  | revalidation (error : EventError)
  | block

/-- What a poll of `next` comes to. -/
inductive Polled (Event : Type) where
  | pending (place : Awaiting)
  | done (result : Except WatcherError (WatcherUpdate Event))

namespace Watcher

variable {Event : Type} (bloomBits : Bytes → Bloom) (w : Watcher Event)

/-- Hand an update of the block watcher to the event watcher. -/
def handOver : BlockWatcher × NextBlock → Watcher Event × Polled Event
  | (blocks, .waiting) => ({ w with blocks }, .pending .block)
  | (blocks, .failed error) => ({ w with blocks }, .done (.error (.blocks error)))
  | (blocks, .update update) =>
    match w.events.onBlockUpdate update with
    | .ok events => ({ blocks, events }, .done (.ok (.block update)))
    | .error error => ({ w with blocks }, .done (.error (.events error)))

/-- `next` from where the event watcher is drained, up to its next await.  The node is not asked
when an update is queued. -/
def advance : Watcher Event × Polled Event :=
  match w.blocks.queue with
  | [] => (w, .pending .block)
  | _ :: _ => w.handOver (w.blocks.next (.ok none))

/-- `next` up to its first await. -/
def start : Watcher Event × Polled Event :=
  match w.events.step with
  | .idle => w.advance
  | _ => (w, .pending .logs)

/-- The fetch of the logs failed.  If they were not found, the last block is revalidated; the node
is not asked when no block can be. -/
def fetchFailed (error : EventError) : Watcher Event × Polled Event :=
  if error = .rpc .resourceNotFound ∧ w.blocks.emitted ≠ [] then (w, .pending (.revalidation error))
  else (w, .done (.error (.events error)))

/-- `next` from one await to the next. -/
def resume (node : NodeView) : Awaiting → Watcher Event × Polled Event
  | .logs =>
    match w.events.next bloomBits node.getLogs with
    | (events, .ok (some update)) => ({ w with events }, .done (.ok (.logs update)))
    | (events, .ok none) => { w with events }.advance
    | (events, .error error) => { w with events }.fetchFailed error
  | .revalidation error =>
    let last := (w.blocks.emitted.getLast?.map (·.number)).getD 0
    match w.blocks.revalidate (node.getBlock (.number last)) with
    | (blocks, .ok (some invalidated)) =>
      match w.events.onBlockInvalidated invalidated.hash with
      | .ok events => { blocks, events : Watcher Event }.advance
      | .error error => ({ w with blocks }, .done (.error (.events error)))
    | (blocks, .ok none) => ({ w with blocks }, .done (.error (.events error)))
    | (blocks, .error error) => ({ w with blocks }, .done (.error (.blocks error)))
  | .block => w.handOver (w.blocks.next (node.getBlock (.number w.blocks.pending)))

end Watcher

/-! ## 2. The driver's loop -/

/-- Where the update future of `next_input` is: not polled yet, waiting in `next`, waiting before it
tries again, or returned with an error for good. -/
inductive Place where
  | start
  | awaiting (place : Awaiting)
  | retrying
  | stopped

/-- The watcher and the future. -/
structure Loop (Event : Type) where
  watcher : Watcher Event
  place : Place

/-- The future is polled, or dropped and made anew. -/
inductive Move where
  | poll (node : NodeView)
  | cancel

/-- What `next` returned. -/
abbrev Outcome (Event : Type) : Type := Except WatcherError (WatcherUpdate Event)

/-- Whether an error ends the loop. -/
def WatcherError.isFatal : WatcherError → Bool
  | .blocks (.exceededMaxReorgDepth _) => true
  | _ => false

namespace Loop

variable {Event : Type} (bloomBits : Bytes → Bloom) (l : Loop Event)

/-- What follows a poll of `next`.  An update is returned, and the next call starts afresh. -/
def polled : Watcher Event × Polled Event → Loop Event × List (Outcome Event)
  | (w, .pending place) => (⟨w, .awaiting place⟩, [])
  | (w, .done (.ok update)) => (⟨w, .start⟩, [.ok update])
  | (w, .done (.error error)) =>
    (⟨w, if error.isFatal then .stopped else .retrying⟩, [.error error])

/-- A poll of the update future. -/
def poll (node : NodeView) : Loop Event × List (Outcome Event) :=
  match l.place with
  | .start => polled l.watcher.start
  | .awaiting place => polled (l.watcher.resume bloomBits node place)
  | .retrying => (⟨l.watcher, .start⟩, [])
  | .stopped => (l, [])

/-- A move. -/
def move : Move → Loop Event × List (Outcome Event)
  | .poll node => l.poll bloomBits node
  | .cancel =>
    match l.place with
    | .stopped => (l, [])
    | _ => (⟨l.watcher, .start⟩, [])

end Loop

/-- The updates among some outcomes. -/
def watcherUpdates {Event : Type} (outcomes : List (Outcome Event)) : List (WatcherUpdate Event) :=
  outcomes.filterMap (·.toOption)

/-! ## 3. Without cancellation -/

/-- The errors of a caller that is out of step. -/
def EventError.isUnexpected : EventError → Bool
  | .unexpectedBlockUpdate | .unexpectedBlockInvalidation => true
  | _ => false

/-- A node that cannot be reached. -/
def unavailable : NodeView := ⟨fun _ => .error .other, fun _ => .error .other⟩

namespace Loop

variable {Event : Type} (bloomBits : Bytes → Bloom) (l : Loop Event)

/-- The polls that do without cancellation what one move does.  Until its first await is over the
future need not be polled, so that there is nothing to cancel. -/
def uncancelled : Move → List NodeView
  | .poll node =>
    match l.place with
    | .start =>
      match l.watcher.start.2 with
      | .pending _ => []
      | .done _ => [node]
    | .awaiting .logs => [node, node]
    | .awaiting .block =>
      match (l.watcher.resume bloomBits node .block).2 with
      | .pending _ => []
      | .done _ => [node, node]
    | .awaiting (.revalidation _) => [node]
    | .retrying => [node]
    | .stopped => []
  | .cancel =>
    match l.place with
    | .awaiting (.revalidation _) => [unavailable, unavailable]
    | .retrying => [unavailable]
    | _ => []

/-- The polls that do without cancellation what some moves do. -/
def withoutCancel (l : Loop Event) : List Move → List NodeView
  | [] => []
  | m :: ms => l.uncancelled bloomBits m ++ withoutCancel (l.move bloomBits m).1 ms

/-- The loop when the future is not polled before its first await is over. -/
def lazily : Loop Event :=
  match l.place with
  | .awaiting .logs | .awaiting .block => ⟨l.watcher, .start⟩
  | _ => l

/-- The future waits where the watchers make it wait. -/
def Fits : Prop :=
  match l.place with
  | .awaiting .logs => l.watcher.events.step ≠ .idle
  | .awaiting (.revalidation error) => error.isUnexpected = false ∧ l.watcher.blocks.emitted ≠ [] ∧
    ∃ number hash bloom retries, l.watcher.events.step = .block number hash bloom retries
  | .awaiting .block => l.watcher.events.step = .idle ∧ l.watcher.blocks.queue = []
  | _ => True

end Loop

/-! ## 4. The watchers in step -/

/-- What the updates so far call for. -/
inductive Expects where
  | block
  | pages (first last : Nat)
  | logsOf (number : Nat)
  deriving DecidableEq

/-- The next update, if it is one of those called for: after a warp its pages, in order and without
gaps, after a new block its logs, or its uncle. -/
def Expects.accept {Event : Type} : Expects → WatcherUpdate Event → Option Expects
  | .block, .block (.warp first last) => some (.pages first last)
  | .block, .block (.uncle _) => some .block
  | .block, .block (.new number _ _) => some (.logsOf number)
  | .pages first last, .logs update =>
    if update.first = first ∧ first ≤ update.last ∧ update.last ≤ last then
      some (if update.last = last then .block else .pages (update.last + 1) last)
    else none
  | .logsOf number, .logs update =>
    if update.first = number ∧ update.last = number then some .block else none
  | .logsOf number, .block (.uncle uncle) => if uncle = number then some .block else none
  | _, _ => none

/-- All updates are ones called for. -/
def Expects.acceptAll {Event : Type} (expects : Expects) : List (WatcherUpdate Event) → Option Expects
  | [] => some expects
  | u :: us => (expects.accept u).bind fun expects => expects.acceptAll us

/-- What the step of the event watcher calls for. -/
def EventStep.expects : EventStep → Expects
  | .idle => .block
  | .warping first last _ => .pages first last
  | .block number _ _ _ => .logsOf number

/-- The block updates. -/
def blockUpdates {Event : Type} (updates : List (WatcherUpdate Event)) : List BlockUpdate :=
  updates.filterMap fun
    | .block update => some update
    | .logs _ => none

namespace Watcher

variable {Event : Type}

/-- **The watchers are in step.**  Nothing can be revalidated while a warp is fetched, and a block
whose logs are fetched is the last one emitted, if that can be reorged at all. -/
structure InStep (answered : List BlockHeader) (chain : List Delivered) (w : Watcher Event) :
    Prop where
  consistent : w.blocks.Consistent
  follows : w.blocks.Follows answered chain
  warps : ∀ past first last rest, w.blocks.queue = past ++ .warp first last :: rest →
    first ≤ last ∧ { w.blocks with queue := rest }.emitted = []
  page : ∀ first last pageSize, w.events.step = .warping first last pageSize →
    first ≤ last ∧ w.blocks.emitted = []
  last : ∀ number hash bloom retries, w.events.step = .block number hash bloom retries →
    ∀ b, w.blocks.emitted.getLast? = some b → b.number = number ∧ b.hash = hash

end Watcher

/-! ### What is emitted -/

namespace BlockWatcher

variable {answered : List BlockHeader} {chain : List Delivered} {w : BlockWatcher}

/-- A queued block that is emitted is the last one that is. -/
theorem emitted_queued {number : Nat} {hash : B256} {bloom : Bloom} {rest : List BlockUpdate}
    (hw : w.Consistent) (hf : w.Follows answered chain)
    (hq : w.queue = .new number hash bloom :: rest) :
    ∃ b, { w with queue := rest }.emitted.getLast? = some b ∧ b.number = number ∧ b.hash = hash := by
  obtain ⟨ahead, before, after, chain', hs⟩ := hf
  have hqueue := hs.queue.symm.trans hq
  cases ahead with
  | cons u ahead =>
    rw [List.cons_append, List.cons.injEq] at hqueue
    exact absurd hqueue.1 (hs.noNew u List.mem_cons_self _ _ _)
  | nil =>
    cases after with
    | nil => exact absurd hqueue (by simp)
    | cons b after =>
      rw [List.nil_append, List.map_cons, List.cons.injEq] at hqueue
      obtain ⟨hb, rfl⟩ := hqueue
      obtain ⟨rfl, rfl, -⟩ : b.number = number ∧ b.hash = hash ∧ b.logsBloom = bloom := by
        simpa [BlockHeader.update] using hb
      refine ⟨b, ?_, rfl, rfl⟩
      have hrecent : w.recent = (before ++ [b]) ++ after := by rw [hs.recent]; simp
      have hemitted : { w with queue := after.map BlockHeader.update }.emitted = before ++ [b] := by
        cases after with
        | nil => exact hrecent.trans (List.append_nil _)
        | cons c after =>
          have hlinked := hw.linked
          rw [hrecent] at hlinked
          have hdrop := hlinked.rdropWhile_lt
          rw [← hrecent] at hdrop
          exact hdrop
      rw [hemitted, List.getLast?_concat]

/-- So is a block that is recorded, if any is kept. -/
theorem emitted_recorded {block : BlockHeader} (hq : w.queue = []) :
    (w.record block).queue = [] ∧
      ∀ b, (w.record block).emitted.getLast? = some b → b = block := by
  by_cases hle : w.recent.length + 1 ≤ w.config.maxReorgDepth
  · rw [record_of_le hle]
    refine ⟨hq, fun b hb => ?_⟩
    simp only [emitted, hq, List.getLast?_concat] at hb
    exact (Option.some.inj hb).symm
  · obtain ⟨evicted, recent, he⟩ : ∃ evicted recent, w.recent ++ [block] = evicted :: recent :=
      List.exists_cons_of_ne_nil (by simp)
    rw [record_of_lt (by omega) he]
    refine ⟨hq, fun b hb => ?_⟩
    simp only [emitted, hq] at hb
    have hlast : (w.recent ++ [block]).getLast? = some b := by
      rw [he, List.getLast?_cons, hb]
      rfl
    rw [List.getLast?_concat] at hlast
    exact (Option.some.inj hlast).symm

/-- **What is emitted last** after a new block. -/
theorem next_emitted {answer : BlockAnswer} {number : Nat} {hash : B256} {bloom : Bloom}
    (hw : w.Consistent) (hf : w.Follows answered chain)
    (h : (w.next answer).2 = .update (.new number hash bloom)) :
    ∀ b, (w.next answer).1.emitted.getLast? = some b → b.number = number ∧ b.hash = hash := by
  intro b hb
  cases hq : w.queue with
  | cons u rest =>
    simp only [next, hq, NextBlock.update.injEq] at h hb
    obtain ⟨c, hc, hn, hh⟩ := emitted_queued hw hf (hq.trans (by rw [h]))
    obtain rfl := Option.some.inj (hb.symm.trans hc)
    exact ⟨hn, hh⟩
  | nil =>
    simp only [next, hq] at h hb
    rcases answer with e | block | block
    · exact absurd h (by simp [onBlock])
    · exact absurd h (by simp [onBlock])
    · have hrecord : (w.onBlock (.ok (some block))).1 = w.record block ∧
          block.update = .new number hash bloom := by
        simp only [onBlock] at h ⊢
        split at h
        · split at h
          · exact absurd h (by simp)
          · rename_i hp
            rw [if_neg hp]
            exact ⟨rfl, NextBlock.update.inj h⟩
        · split at h
          · exact absurd h (by simp)
          · rename_i hp
            rw [if_neg hp]
            exact ⟨rfl, NextBlock.update.inj h⟩
      rw [hrecord.1] at hb
      obtain rfl := (emitted_recorded hq).2 b hb
      have hupdate := hrecord.2
      simp only [BlockHeader.update, BlockUpdate.new.injEq] at hupdate
      exact ⟨hupdate.1, hupdate.2.1⟩

/-- A block that is not queued leaves nothing queued. -/
theorem next_queue (answer : BlockAnswer) : (w.next answer).1.queue = w.queue.tail := by
  have hrecord : ∀ block, (w.record block).queue = w.queue := by
    intro block
    unfold record
    dsimp only
    split
    · split <;> rfl
    · rfl
  cases hq : w.queue with
  | cons u rest => simp only [next, hq, List.tail_cons]
  | nil =>
    simp only [next, hq, List.tail_nil]
    rcases answer with e | block | block
    · exact hq
    · exact hq
    · simp only [onBlock]
      split <;> split
      · exact hq
      · exact (hrecord block).trans hq
      · exact hq
      · exact (hrecord block).trans hq

/-- A warp was queued. -/
theorem next_warp {answer : BlockAnswer} {first last : Nat}
    (h : (w.next answer).2 = .update (.warp first last)) :
    ∃ rest, w.queue = .warp first last :: rest ∧ (w.next answer).1 = { w with queue := rest } := by
  cases hq : w.queue with
  | cons u rest =>
    simp only [next, hq, NextBlock.update.injEq] at h ⊢
    exact ⟨rest, by rw [h], rfl⟩
  | nil =>
    simp only [next, hq] at h
    rcases answer with e | block | block
    · exact absurd h (by simp [onBlock])
    · exact absurd h (by simp [onBlock])
    · simp only [onBlock] at h
      split at h <;> split at h <;> exact absurd h (by simp [BlockHeader.update])

/-- Waiting changes nothing. -/
theorem next_waiting {answer : BlockAnswer} (h : (w.next answer).2 = .waiting) :
    (w.next answer).1 = w := by
  unfold next at h ⊢
  split
  · rename_i hq
    rw [hq] at h
    exact absurd h (by simp)
  · rename_i hq
    rw [hq] at h
    rcases answer with e | block | block
    · rfl
    · rfl
    · simp only [onBlock] at h
      split at h <;> split at h <;> exact absurd h (by simp)

/-- What a revalidation comes to: nothing changes, or the last block and its children are dropped and
its uncle is next. -/
theorem revalidate_cases {last : BlockHeader} (hlast : w.emitted.getLast? = some last)
    (answer : BlockAnswer) :
    (∃ e, w.revalidate answer = (w, .error e)) ∨ w.revalidate answer = (w, .ok none) ∨
      w.revalidate answer = ({ w with
        recent := w.emitted.dropLast
        pending := last.number
        queue := [.uncle last.number] }, .ok (some ⟨last.number, last.hash⟩)) := by
  simp only [revalidate, hlast]
  rcases answer with e | current
  · exact .inl ⟨.rpc e, rfl⟩
  · refine .inr ?_
    dsimp only
    split
    · exact .inl rfl
    · exact .inr rfl

end BlockWatcher

/-! ### What is fetched -/

theorem decodeAndSort_expected {Event : Type} {E : Events Event} {logs : List Log} {e : EventError}
    (h : decodeAndSort E logs = .error e) : e.isUnexpected = false := by
  rcases Except.bind_eq_error.mp h with h | ⟨events, -, h⟩
  · obtain ⟨log, -, h⟩ := Except.mapM_eq_error h
    split at h
    · exact absurd h (by simp)
    · exact Except.error.inj h ▸ rfl
  · exact absurd h (by simp [pure, Except.pure])

namespace EventWatcher

variable {Event : Type} {bloomBits : Bytes → Bloom} {w : EventWatcher Event} {getLogs : GetLogs}

theorem query_expected {blocks : BlockFilter} {topics : List B256} {e : EventError}
    (h : w.query getLogs blocks topics = .error e) : e.isUnexpected = false := by
  unfold query checkLogsLimit at h
  split at h
  · split at h
    · exact Except.error.inj h ▸ rfl
    · exact absurd h (by simp)
  · exact Except.error.inj h ▸ rfl

/-- A fetch does not fail with such an error. -/
theorem fetchLogs_expected {fetch : Fetch} {e : EventError}
    (h : w.fetchLogs bloomBits getLogs fetch = .error e) : e.isUnexpected = false := by
  cases fetch with
  | singleQuery blocks =>
    rcases Except.bind_eq_error.mp h with h | ⟨logs, -, h⟩
    · exact query_expected h
    · exact decodeAndSort_expected h
  | multipleQueries blocks =>
    rcases Except.bind_eq_error.mp h with h | ⟨logs, -, h⟩
    · obtain ⟨topic, -, h⟩ := Except.mapM_eq_error h
      unfold queryTopic at h
      split at h
      · exact absurd h (by simp)
      · rename_i error hquery
        split at h
        · exact absurd h (by simp)
        · exact Except.error.inj h ▸ query_expected hquery
    · exact decodeAndSort_expected h
  | clientFiltered blockHash logsBloom =>
    simp only [fetchLogs] at h
    split at h
    · exact Except.error.inj h ▸ rfl
    · split at h
      · exact Except.error.inj h ▸ rfl
      · exact decodeAndSort_expected h

/-- **What one fetch comes to**: logs that are called for, or an error that leaves what is to be
fetched as it was. -/
theorem next_cases (hstep : w.step ≠ .idle)
    (hpage : ∀ first last pageSize, w.step = .warping first last pageSize → first ≤ last) :
    (∃ update, (w.next bloomBits getLogs).2 = .ok (some update) ∧
      w.step.expects.accept (.logs update) = some (w.next bloomBits getLogs).1.step.expects ∧
      ((w.next bloomBits getLogs).1.step = .idle ∨
        ∃ first last pageSize first' pageSize', w.step = .warping first last pageSize ∧
          (w.next bloomBits getLogs).1.step = .warping first' last pageSize' ∧ first' ≤ last)) ∨
    ∃ error, (w.next bloomBits getLogs).2 = .error error ∧ error.isUnexpected = false ∧
      ((∃ number hash bloom retries, w.step = .block number hash bloom retries ∧
        (w.next bloomBits getLogs).1.step = .block number hash bloom (retries + 1)) ∨
      ∃ first last pageSize, w.step = .warping first last pageSize ∧
        (w.next bloomBits getLogs).1.step = .warping first last pageSize.halve) := by
  cases hs : w.step with
  | idle => exact absurd hs hstep
  | warping first last pageSize =>
    have hle := hpage first last pageSize hs
    simp only [next, hs, warp]
    split
    · generalize hquery : min last (first + (pageSize.val - 1)) = queryLast
      have hrange : first ≤ queryLast ∧ queryLast ≤ last := by omega
      refine .inl ⟨_, rfl, ?_, ?_⟩
      · simp only [EventStep.expects, Expects.accept, true_and, if_pos hrange]
        split <;> rfl
      · by_cases hlast : queryLast = last
        · exact .inl (if_pos hlast)
        · exact .inr ⟨first, last, pageSize, queryLast + 1, _, rfl, if_neg hlast, by omega⟩
    · rename_i error herror
      exact .inr ⟨error, rfl, fetchLogs_expected herror, .inr ⟨first, last, pageSize, rfl, rfl⟩⟩
  | block number hash bloom retries =>
    simp only [next, hs, block]
    split
    · refine .inl ⟨_, rfl, ?_, .inl rfl⟩
      simp [EventStep.expects, Expects.accept]
    · rename_i error herror
      exact .inr ⟨error, rfl, fetchLogs_expected herror,
        .inl ⟨number, hash, bloom, retries, rfl, rfl⟩⟩

end EventWatcher

/-! ## 5. One step -/

/-- The updates of a poll. -/
def Polled.updates {Event : Type} : Polled Event → List (WatcherUpdate Event)
  | .done (.ok update) => [update]
  | _ => []

namespace Watcher

variable {Event : Type} {bloomBits : Bytes → Bloom} {answered : List BlockHeader}
  {chain : List Delivered} {w : Watcher Event}

/-- What one step of `next` comes to, from watchers in step. -/
structure Advances (answered : List BlockHeader) (chain : List Delivered) (w : Watcher Event)
    (r : Watcher Event × Polled Event) : Prop where
  inStep : ∃ chain', deliverAll chain (blockUpdates r.2.updates) = some chain' ∧
    r.1.InStep answered chain'
  accepts : w.events.step.expects.acceptAll r.2.updates = some r.1.events.step.expects
  fits : ∀ place, r.2 = .pending place → Loop.Fits ⟨r.1, .awaiting place⟩
  expected : ∀ e, r.2 = .done (.error (.events e)) → e.isUnexpected = false

/-- **The next block update** is handed over. -/
theorem handOver_advances {answer : BlockAnswer} (h : w.InStep answered chain)
    (hidle : w.events.step = .idle)
    (hanswer : w.blocks.queue = [] → ∀ b, answer = .ok (some b) →
      b.number = w.blocks.pending ∧ b ∈ answered) :
    Advances answered chain w (w.handOver (w.blocks.next answer)) := by
  obtain ⟨hw', chain', hdeliver, hf'⟩ := BlockWatcher.next_follows h.consistent h.follows hanswer
  have hqueue := BlockWatcher.next_queue (w := w.blocks) answer
  have hwarp := fun first last => @BlockWatcher.next_warp w.blocks answer first last
  have hlast := fun number hash bloom =>
    @BlockWatcher.next_emitted _ _ _ answer number hash bloom h.consistent h.follows
  have hwarps : ∀ past first last rest, (w.blocks.next answer).1.queue =
      past ++ .warp first last :: rest →
      first ≤ last ∧ { (w.blocks.next answer).1 with queue := rest }.emitted = [] := by
    intro past first last rest hr
    cases hq : w.blocks.queue with
    | nil =>
      rw [hqueue, hq] at hr
      exact absurd hr (by simp)
    | cons u queue =>
      simp only [BlockWatcher.next, hq] at hr ⊢
      exact h.warps (u :: past) first last rest (by rw [hq, hr]; rfl)
  have hwaiting : (w.blocks.next answer).2 = .waiting → (w.blocks.next answer).1.queue = [] := by
    intro hn
    cases hq : w.blocks.queue with
    | nil => rw [hqueue, hq]; rfl
    | cons u queue => exact absurd hn (by simp [BlockWatcher.next, hq])
  generalize w.blocks.next answer = r at *
  obtain ⟨blocks, outcome⟩ := r
  have hsame : InStep answered chain' { w with blocks } :=
    ⟨hw', hf', hwarps, fun f l p hs => absurd (hidle.symm.trans hs) (by simp),
      fun n h b r hs => absurd (hidle.symm.trans hs) (by simp)⟩
  cases outcome with
  | waiting =>
    refine ⟨⟨chain', hdeliver, hsame⟩, rfl, fun place hp => ?_, fun e he => ?_⟩
    · obtain rfl : .block = place := Polled.pending.inj hp
      exact ⟨hidle, hwaiting rfl⟩
    · exact absurd he (by simp [handOver])
  | failed error =>
    refine ⟨⟨chain', hdeliver, hsame⟩, rfl, fun place hp => ?_, fun e he => ?_⟩
    · exact absurd hp (by simp [handOver])
    · exact absurd he (by simp [handOver])
  | update u =>
    simp only [handOver, EventWatcher.onBlockUpdate, hidle]
    refine ⟨⟨chain', hdeliver, hw', hf', hwarps, ?_, ?_⟩, ?_, fun place hp => ?_, fun e he => ?_⟩
    · intro first last pageSize hs
      cases u with
      | warp f l =>
        obtain ⟨rfl, rfl, -⟩ : f = first ∧ l = last ∧ w.events.config.blockPageSize = pageSize := by
          simpa using hs
        obtain ⟨rest, hq, hblocks⟩ := hwarp f l rfl
        obtain ⟨hle, hemitted⟩ := h.warps [] f l rest hq
        rw [show blocks = _ from hblocks]
        exact ⟨hle, hemitted⟩
      | uncle n => exact absurd hs (by simp)
      | new n hash bloom => exact absurd hs (by simp)
    · intro number hash bloom retries hs
      cases u with
      | warp f l => exact absurd hs (by simp)
      | uncle n => exact absurd hs (by simp)
      | new n k b =>
        obtain ⟨rfl, rfl, rfl, -⟩ : n = number ∧ k = hash ∧ b = bloom ∧ 0 = retries := by
          simpa using hs
        exact hlast n k b rfl
    · rw [hidle]
      cases u <;> rfl
    · exact absurd hp (by simp)
    · exact absurd he (by simp)

/-- From where the event watcher is drained. -/
theorem advance_advances (h : w.InStep answered chain) (hidle : w.events.step = .idle) :
    Advances answered chain w w.advance := by
  cases hq : w.blocks.queue with
  | nil =>
    simp only [advance, hq]
    refine ⟨⟨chain, rfl, h⟩, rfl, fun place hp => ?_, fun e he => absurd he (by simp)⟩
    obtain rfl : .block = place := Polled.pending.inj hp
    exact ⟨hidle, hq⟩
  | cons u queue =>
    simp only [advance, hq]
    exact handOver_advances h hidle fun hnil => absurd (hq.symm.trans hnil) (by simp)

/-- To the first await. -/
theorem start_advances (h : w.InStep answered chain) : Advances answered chain w w.start := by
  unfold start
  split
  · rename_i hidle
    exact advance_advances h hidle
  · rename_i hstep
    refine ⟨⟨chain, rfl, h⟩, rfl, fun place hp => ?_, fun e he => absurd he (by simp)⟩
    obtain rfl : .logs = place := Polled.pending.inj hp
    exact hstep

/-- The fetched logs, or what follows if they were not found. -/
theorem logs_advances {node : NodeView} (h : w.InStep answered chain)
    (hstep : w.events.step ≠ .idle) :
    Advances answered chain w (w.resume bloomBits node .logs) := by
  have hcases := @EventWatcher.next_cases _ bloomBits _ node.getLogs hstep
    fun first last pageSize hs => (h.page first last pageSize hs).1
  have hwarping := h.page
  have hlast := h.last
  simp only [resume]
  generalize w.events.next bloomBits node.getLogs = r at *
  obtain ⟨events, result⟩ := r
  rcases hcases with ⟨update, hresult, haccept, hnew⟩ | ⟨error, hresult, hexpected, hnew⟩
  · obtain rfl : result = .ok (some update) := hresult
    refine ⟨⟨chain, rfl, h.consistent, h.follows, h.warps, ?_, ?_⟩, ?_, fun place hp => ?_,
      fun e he => ?_⟩
    · intro first last pageSize hs
      rcases hnew with hnew | ⟨f, l, p, f', p', hw, hnew, hle⟩
      · exact absurd (hs.symm.trans hnew) (by simp)
      · obtain ⟨rfl, rfl, -⟩ := EventStep.warping.inj (hs.symm.trans hnew)
        exact ⟨hle, (hwarping _ _ _ hw).2⟩
    · intro number hash bloom retries hs
      rcases hnew with hnew | ⟨f, l, p, f', p', -, hnew, -⟩
      · exact absurd (hs.symm.trans hnew) (by simp)
      · exact absurd (hs.symm.trans hnew) (by simp)
    · simp only [Polled.updates, Expects.acceptAll, haccept, Option.bind_some]
    · exact absurd hp (by simp)
    · exact absurd he (by simp)
  · obtain rfl : result = .error error := hresult
    have hsame : InStep answered chain { w with events } := by
      refine ⟨h.consistent, h.follows, h.warps, ?_, ?_⟩
      · intro first last pageSize hs
        rcases hnew with ⟨n, k, b, r, -, hnew⟩ | ⟨f, l, p, hw, hnew⟩
        · exact absurd (hs.symm.trans hnew) (by simp)
        · obtain ⟨rfl, rfl, -⟩ := EventStep.warping.inj (hs.symm.trans hnew)
          exact hwarping _ _ _ hw
      · intro number hash bloom retries hs
        rcases hnew with ⟨n, k, b, r, hw, hnew⟩ | ⟨f, l, p, -, hnew⟩
        · obtain ⟨rfl, rfl, -, -⟩ := EventStep.block.inj (hs.symm.trans hnew)
          exact hlast _ _ _ _ hw
        · exact absurd (hs.symm.trans hnew) (by simp)
    have hexpects : w.events.step.expects = events.step.expects := by
      rcases hnew with ⟨n, k, b, r, hw, hnew⟩ | ⟨f, l, p, hw, hnew⟩
      · rw [hw, show events.step = _ from hnew]
        rfl
      · rw [hw, show events.step = _ from hnew]
        rfl
    simp only [fetchFailed]
    split
    · rename_i hcond
      refine ⟨⟨chain, rfl, hsame⟩, congrArg some hexpects, fun place hp => ?_, fun e he => ?_⟩
      · obtain rfl : .revalidation error = place := Polled.pending.inj hp
        refine ⟨hexpected, hcond.2, ?_⟩
        rcases hnew with ⟨n, k, b, r, -, hnew⟩ | ⟨f, l, p, hw, -⟩
        · exact ⟨n, k, b, r + 1, hnew⟩
        · exact absurd (hwarping f l p hw).2 hcond.2
      · exact absurd he (by simp)
    · refine ⟨⟨chain, rfl, hsame⟩, congrArg some hexpects, fun place hp => ?_, fun e he => ?_⟩
      · exact absurd hp (by simp)
      · simp only [Polled.done.injEq, Except.error.injEq, WatcherError.events.injEq] at he
        exact he ▸ hexpected

/-- **The revalidated block.**  If it is not canonical any more its uncle is the next update. -/
theorem revalidation_advances {node : NodeView} {error : EventError} (h : w.InStep answered chain)
    (hfits : Loop.Fits ⟨w, .awaiting (.revalidation error)⟩) :
    Advances answered chain w (w.resume bloomBits node (.revalidation error)) := by
  obtain ⟨hexpected, hne, number, hash, bloom, retries, hstep⟩ := hfits
  obtain ⟨last, hlast⟩ : ∃ last, w.blocks.emitted.getLast? = some last :=
    ⟨_, List.getLast?_eq_some_getLast hne⟩
  obtain ⟨rfl, rfl⟩ := h.last number hash bloom retries hstep last hlast
  have hstep : w.events.step = .block last.number last.hash bloom retries := hstep
  obtain ⟨hw', hf'⟩ := BlockWatcher.revalidate_follows (node.getBlock (.number last.number))
    h.consistent h.follows
  simp only [resume, hlast, Option.map_some, Option.getD_some]
  rcases BlockWatcher.revalidate_cases hlast (node.getBlock (.number last.number)) with
    ⟨e, hr⟩ | hr | hr
  · rw [hr]
    refine ⟨⟨chain, rfl, h⟩, rfl, fun place hp => absurd hp (by simp), fun e he => ?_⟩
    exact absurd he (by simp)
  · rw [hr]
    refine ⟨⟨chain, rfl, h⟩, rfl, fun place hp => absurd hp (by simp), fun e he => ?_⟩
    simp only [Polled.done.injEq, Except.error.injEq, WatcherError.events.injEq] at he
    exact he ▸ hexpected
  · rw [hr] at hw' hf' ⊢
    have hinvalidated : w.events.onBlockInvalidated last.hash = .ok { w.events with step := .idle } := by
      simp only [EventWatcher.onBlockInvalidated, hstep, if_true]
    have hstep' : w.events.step.expects = .logsOf last.number := by rw [hstep]; rfl
    simp only [hinvalidated]
    have hadvance := @advance_advances _ answered chain
      (⟨{ w.blocks with
        recent := w.blocks.emitted.dropLast
        pending := last.number
        queue := [.uncle last.number] }, { w.events with step := .idle }⟩)
      ⟨hw', hf', fun past f l rest hq => ?_, fun f l p hs => absurd hs (by simp),
        fun n k b r hs => absurd hs (by simp)⟩ rfl
    · refine ⟨hadvance.inStep, ?_, hadvance.fits, hadvance.expected⟩
      rw [hstep']
      simp [advance, handOver, BlockWatcher.next, EventWatcher.onBlockUpdate, Polled.updates,
        Expects.acceptAll, Expects.accept, EventStep.expects]
    · cases past with
      | nil => exact absurd hq (by simp)
      | cons u past => exact absurd hq (by simp)

/-- **A poll that is answered**, wherever `next` waits. -/
theorem resume_advances {node : NodeView} {place : Awaiting} (h : w.InStep answered chain)
    (hfits : Loop.Fits ⟨w, .awaiting place⟩)
    (hnode : place = .block → ∀ b, node.getBlock (.number w.blocks.pending) = .ok (some b) →
      b.number = w.blocks.pending ∧ b ∈ answered) :
    Advances answered chain w (w.resume bloomBits node place) := by
  cases place with
  | logs => exact logs_advances h hfits
  | revalidation error => exact revalidation_advances h hfits
  | block => exact handOver_advances h hfits.1 fun _ => hnode rfl

theorem InStep.mono {more : List BlockHeader} (h : w.InStep answered chain) :
    w.InStep (answered ++ more) chain :=
  ⟨h.consistent, h.follows.mono, h.warps, h.page, h.last⟩

end Watcher

/-! ## 6. Runs -/

/-- The node answers a request by number with a block of that number. -/
def NodeView.Honest (node : NodeView) : Prop :=
  ∀ n b, node.getBlock (.number n) = .ok (some b) → b.number = n

namespace Loop

variable {Event : Type} {bloomBits : Bytes → Bloom} {answered : List BlockHeader}
  {chain : List Delivered} {l : Loop Event}

/-- The pending block, if a poll is answered with it. -/
def moveBlocks (l : Loop Event) : Move → List BlockHeader
  | .poll node =>
    match l.place with
    | .awaiting .block => (node.getBlock (.number l.watcher.blocks.pending)).toOption.join.toList
    | _ => []
  | .cancel => []

/-- What `next` comes to is what the loop goes on with. -/
theorem polled_advances {r : Watcher Event × Polled Event}
    (h : Watcher.Advances answered chain l.watcher r) :
    (∃ chain', deliverAll chain (blockUpdates (watcherUpdates (polled r).2)) = some chain' ∧
        (polled r).1.watcher.InStep answered chain') ∧
      (polled r).1.Fits ∧
      l.watcher.events.step.expects.acceptAll (watcherUpdates (polled r).2) =
        some (polled r).1.watcher.events.step.expects ∧
      ∀ e, .error (.events e) ∈ (polled r).2 → e.isUnexpected = false := by
  obtain ⟨w, outcome⟩ := r
  rcases outcome with place | ⟨e | u⟩
  · exact ⟨h.inStep, h.fits place rfl, h.accepts, fun e he => absurd he (by simp [polled])⟩
  · refine ⟨h.inStep, ?_, h.accepts, fun e' he => h.expected e' ?_⟩
    · simp only [polled]
      split
      · trivial
      · trivial
    · simp only [polled, List.mem_singleton, Except.error.injEq] at he
      rw [← he]
  · exact ⟨h.inStep, trivial, h.accepts, fun e he => absurd he (by simp [polled])⟩

variable (bloomBits) in
/-- **One move** keeps the watchers in step. -/
theorem move_inStep {m : Move} (h : l.watcher.InStep answered chain) (hfits : l.Fits)
    (hm : ∀ node, m = .poll node → node.Honest) :
    (∃ chain', deliverAll chain (blockUpdates (watcherUpdates (l.move bloomBits m).2)) = some chain' ∧
        (l.move bloomBits m).1.watcher.InStep (answered ++ l.moveBlocks m) chain') ∧
      (l.move bloomBits m).1.Fits ∧
      l.watcher.events.step.expects.acceptAll (watcherUpdates (l.move bloomBits m).2) =
        some (l.move bloomBits m).1.watcher.events.step.expects ∧
      ∀ e, .error (.events e) ∈ (l.move bloomBits m).2 → e.isUnexpected = false := by
  have hstay : ∀ place, (place = .start ∨ place = .stopped) →
      (∃ chain', deliverAll chain (blockUpdates (watcherUpdates ([] : List (Outcome Event)))) = some chain' ∧
        l.watcher.InStep (answered ++ l.moveBlocks m) chain') ∧
      (⟨l.watcher, place⟩ : Loop Event).Fits ∧
      l.watcher.events.step.expects.acceptAll (watcherUpdates ([] : List (Outcome Event))) =
        some l.watcher.events.step.expects ∧
      ∀ e, (.error (.events e) : Outcome Event) ∈ [] → e.isUnexpected = false := by
    rintro place (rfl | rfl)
    · exact ⟨⟨chain, rfl, h.mono⟩, trivial, rfl, fun e he => absurd he (by simp)⟩
    · exact ⟨⟨chain, rfl, h.mono⟩, trivial, rfl, fun e he => absurd he (by simp)⟩
  obtain ⟨w, place⟩ := l
  cases m with
  | cancel =>
    cases place with
    | stopped => exact hstay _ (.inr rfl)
    | start => exact hstay _ (.inl rfl)
    | awaiting place => exact hstay _ (.inl rfl)
    | retrying => exact hstay _ (.inl rfl)
  | poll node =>
    cases place with
    | stopped => exact hstay _ (.inr rfl)
    | retrying => exact hstay _ (.inl rfl)
    | start => exact polled_advances (l := ⟨w, .start⟩) (Watcher.start_advances h.mono)
    | awaiting place =>
      refine polled_advances (l := ⟨w, .awaiting place⟩)
        (Watcher.resume_advances h.mono hfits fun hplace b hb => ⟨hm node rfl _ b hb, ?_⟩)
      subst hplace
      refine List.mem_append_right _ ?_
      simp only [moveBlocks, hb]
      exact List.mem_singleton_self b

/-- The pending blocks that some moves are answered with. -/
def runBlocks (bloomBits : Bytes → Bloom) (l : Loop Event) : List Move → List BlockHeader
  | [] => []
  | m :: ms => l.moveBlocks m ++ runBlocks bloomBits (l.move bloomBits m).1 ms

theorem deliverAll_blockUpdates {us vs : List (WatcherUpdate Event)} {chain' : List Delivered}
    (h : deliverAll chain (blockUpdates us) = some chain') :
    deliverAll chain (blockUpdates (us ++ vs)) = deliverAll chain' (blockUpdates vs) := by
  rw [blockUpdates, List.filterMap_append, deliverAll_append]
  rw [blockUpdates] at h
  rw [h]
  rfl

theorem acceptAll_append {expects expects' : Expects} {us vs : List (WatcherUpdate Event)}
    (h : expects.acceptAll us = some expects') :
    expects.acceptAll (us ++ vs) = expects'.acceptAll vs := by
  induction us generalizing expects with
  | nil => rw [Option.some.inj h]; rfl
  | cons u us ih =>
    obtain ⟨mid, hu, hus⟩ := Option.bind_eq_some_iff.mp h
    rw [List.cons_append, Expects.acceptAll, hu]
    exact ih hus

variable (bloomBits) in
/-- **Every run** keeps the watchers in step. -/
theorem run_inStep {ms : List Move} (h : l.watcher.InStep answered chain) (hfits : l.Fits)
    (hms : ∀ node, .poll node ∈ ms → node.Honest) :
    let l' := Reactive.runState (move bloomBits) l ms
    let outcomes := Reactive.runOutputs (move bloomBits) l ms
    (∃ chain', deliverAll chain (blockUpdates (watcherUpdates outcomes)) = some chain' ∧
        l'.watcher.InStep (answered ++ l.runBlocks bloomBits ms) chain') ∧
      l'.Fits ∧
      l.watcher.events.step.expects.acceptAll (watcherUpdates outcomes) =
        some l'.watcher.events.step.expects ∧
      ∀ e, .error (.events e) ∈ outcomes → e.isUnexpected = false := by
  induction ms generalizing l answered chain with
  | nil =>
    exact ⟨⟨chain, rfl, h.mono⟩, hfits, rfl, fun e he => absurd he (by simp [Reactive.runOutputs])⟩
  | cons m ms ih =>
    obtain ⟨⟨chain', hdeliver, h'⟩, hfits', haccept, hexpected⟩ := move_inStep bloomBits
      h hfits fun node hm => hms node (hm ▸ List.mem_cons_self)
    obtain ⟨⟨chain'', hdeliver', h''⟩, hfits'', haccept', hexpected'⟩ :=
      ih h' hfits' fun node hm => hms node (List.mem_cons_of_mem _ hm)
    simp only [Reactive.runState_cons, Reactive.runOutputs, watcherUpdates, List.filterMap_append,
      runBlocks]
    refine ⟨⟨chain'', ?_, ?_⟩, hfits'', ?_, fun e he => ?_⟩
    · exact (deliverAll_blockUpdates hdeliver).trans hdeliver'
    · rw [← List.append_assoc]
      exact h''
    · exact (acceptAll_append haccept).trans haccept'
    · rcases List.mem_append.mp he with he | he
      · exact hexpected e he
      · exact hexpected' e he

end Loop

/-! ### Erasing the cancellations -/

namespace Watcher

variable {Event : Type} {bloomBits : Bytes → Bloom} {w : Watcher Event}

/-- The first await is reached without a change. -/
theorem start_pending {place : Awaiting} (h : w.start.2 = .pending place) :
    w.start = (w, .pending place) ∧ (place = .logs ∨ place = .block) := by
  unfold start at h ⊢
  split at h
  · rename_i hstep
    cases hq : w.blocks.queue with
    | nil =>
      simp only [advance, hq] at h ⊢
      obtain rfl := Polled.pending.inj h
      exact ⟨rfl, .inr rfl⟩
    | cons u queue =>
      simp only [advance, hq, BlockWatcher.next, handOver, EventWatcher.onBlockUpdate, hstep] at h
      exact absurd h (by simp)
  · obtain rfl := Polled.pending.inj h
    exact ⟨rfl, .inl rfl⟩

/-- A block that is not there yet changes nothing. -/
theorem block_pending {node : NodeView} {place : Awaiting}
    (h : (w.resume bloomBits node .block).2 = .pending place) :
    w.resume bloomBits node .block = (w, .pending .block) := by
  simp only [resume] at h ⊢
  have hw := @BlockWatcher.next_waiting w.blocks (node.getBlock (.number w.blocks.pending))
  generalize w.blocks.next (node.getBlock (.number w.blocks.pending)) = r at *
  obtain ⟨blocks, outcome⟩ := r
  cases outcome with
  | waiting =>
    obtain rfl : blocks = w.blocks := hw rfl
    rfl
  | failed error => exact absurd h (by simp [handOver])
  | update u =>
    simp only [handOver] at h
    split at h <;> exact absurd h (by simp)

/-- After the logs the future returns, or waits for a revalidation. -/
theorem logs_pending {node : NodeView} {place : Awaiting} (hstep : w.events.step ≠ .idle)
    (h : (w.resume bloomBits node .logs).2 = .pending place) : ∃ error, place = .revalidation error := by
  have hmap : ∀ result : Except EventError (EventUpdate Event), result.map some ≠ .ok none := by
    intro result
    cases result <;> simp [Except.map]
  have hsome : ∀ events, w.events.next bloomBits node.getLogs ≠ (events, .ok none) := by
    intro events heq
    simp only [EventWatcher.next] at heq
    split at heq
    · rename_i hidle
      exact hstep hidle
    · exact hmap _ (Prod.mk.inj heq).2
    · exact hmap _ (Prod.mk.inj heq).2
  simp only [resume] at h
  split at h
  · exact absurd h (by simp)
  · rename_i events heq
    exact absurd heq (hsome events)
  · rename_i error heq
    simp only [fetchFailed] at h
    split at h
    · exact ⟨error, (Polled.pending.inj h).symm⟩
    · exact absurd h (by simp)

/-- After a revalidation it returns. -/
theorem revalidation_done {node : NodeView} {error : EventError} {place : Awaiting}
    (hne : w.blocks.emitted ≠ []) : (w.resume bloomBits node (.revalidation error)).2 ≠ .pending place := by
  obtain ⟨last, hlast⟩ : ∃ last, w.blocks.emitted.getLast? = some last :=
    ⟨_, List.getLast?_eq_some_getLast hne⟩
  simp only [resume, hlast, Option.map_some, Option.getD_some]
  rcases BlockWatcher.revalidate_cases hlast (node.getBlock (.number last.number)) with
    ⟨e, hr⟩ | hr | hr
  · simp [hr]
  · simp [hr]
  · simp only [hr]
    split
    · simp only [advance, BlockWatcher.next, handOver]
      split <;> simp
    · simp

end Watcher

namespace Loop

variable {Event : Type} {bloomBits : Bytes → Bloom} {l : Loop Event}

/-- What does not wait for logs or a block is not lazy. -/
theorem lazily_polled {r : Watcher Event × Polled Event}
    (h : ∀ place, r.2 = .pending place → ∃ error, place = .revalidation error) :
    (polled r).1.lazily = (polled r).1 := by
  obtain ⟨w, outcome⟩ := r
  rcases outcome with place | ⟨e | u⟩
  · obtain ⟨error, rfl⟩ := h place rfl
    rfl
  · by_cases hfatal : e.isFatal = true
    · simp only [polled, lazily, if_pos hfatal]
    · simp only [polled, lazily, if_neg hfatal]
  · rfl

variable (bloomBits) in
/-- **One move, and the polls that do without cancellation what it does.** -/
theorem uncancelled_simulates {m : Move} (hfits : l.Fits) :
    Reactive.runState (poll bloomBits) l.lazily (l.uncancelled bloomBits m) =
        (l.move bloomBits m).1.lazily ∧
      watcherUpdates (Reactive.runOutputs (poll bloomBits) l.lazily (l.uncancelled bloomBits m)) =
        watcherUpdates (l.move bloomBits m).2 := by
  obtain ⟨w, place⟩ := l
  have hone : ∀ r : Watcher Event × Polled Event,
      watcherUpdates ((polled r).2 ++ []) = watcherUpdates (polled r).2 := fun r => by rw [List.append_nil]
  cases m with
  | cancel =>
    cases place with
    | start => exact ⟨rfl, rfl⟩
    | stopped => exact ⟨rfl, rfl⟩
    | retrying => exact ⟨rfl, rfl⟩
    | awaiting place =>
      cases place with
      | logs => exact ⟨rfl, rfl⟩
      | block => exact ⟨rfl, rfl⟩
      | revalidation error =>
        -- the revalidation fails, and `next` is called again
        obtain ⟨last, hlast⟩ : ∃ last, w.blocks.emitted.getLast? = some last :=
          ⟨_, List.getLast?_eq_some_getLast hfits.2.1⟩
        have hresume : w.resume bloomBits unavailable (.revalidation error) =
            (w, .done (.error (.blocks (.rpc .other)))) := by
          simp only [Watcher.resume, BlockWatcher.revalidate, hlast, unavailable]
        simp only [uncancelled, lazily, Reactive.runState_cons, Reactive.runOutputs, poll, hresume]
        exact ⟨rfl, rfl⟩
  | poll node =>
    cases place with
    | stopped => exact ⟨rfl, rfl⟩
    | retrying => exact ⟨rfl, rfl⟩
    | start =>
      cases hs : w.start.2 with
      | pending place =>
        obtain ⟨hstart, hplace⟩ := Watcher.start_pending hs
        simp only [uncancelled, move, poll, hstart, polled]
        rcases hplace with rfl | rfl
        · exact ⟨rfl, rfl⟩
        · exact ⟨rfl, rfl⟩
      | done result =>
        have hlazy := lazily_polled (r := w.start) fun place hp => absurd (hs.symm.trans hp) (by simp)
        simp only [uncancelled, hs, move, poll, lazily]
        exact ⟨hlazy.symm, hone _⟩
    | awaiting place =>
      cases place with
      | revalidation error =>
        have hlazy := lazily_polled (r := w.resume bloomBits node (.revalidation error))
          fun place hp => absurd hp (Watcher.revalidation_done hfits.2.1)
        exact ⟨hlazy.symm, hone _⟩
      | logs =>
        have hstep : w.events.step ≠ .idle := hfits
        have hstart : w.start = (w, .pending .logs) := by
          unfold Watcher.start
          split
          · rename_i hidle
            exact absurd hidle hstep
          · rfl
        have hlazy := lazily_polled (r := w.resume bloomBits node .logs)
          fun place hp => Watcher.logs_pending hstep hp
        simp only [uncancelled, lazily, Reactive.runState_cons, Reactive.runOutputs, poll, hstart]
        exact ⟨hlazy.symm, hone _⟩
      | block =>
        obtain ⟨hidle, hq⟩ : w.events.step = .idle ∧ w.blocks.queue = [] := hfits
        have hstart : w.start = (w, .pending .block) := by
          simp only [Watcher.start, hidle, Watcher.advance, hq]
        cases hr : (w.resume bloomBits node .block).2 with
        | pending place =>
          have hsame := Watcher.block_pending hr
          simp only [uncancelled, move, poll, hsame]
          exact ⟨rfl, rfl⟩
        | done result =>
          have hlazy := lazily_polled (r := w.resume bloomBits node .block)
            fun place hp => absurd (hr.symm.trans hp) (by simp)
          simp only [uncancelled, hr, lazily, Reactive.runState_cons, Reactive.runOutputs, poll, hstart]
          exact ⟨hlazy.symm, hone _⟩

variable (bloomBits) in
/-- **Every run**, and the polls that do without cancellation what it does. -/
theorem withoutCancel_simulates {ms : List Move} (h : l.watcher.InStep answered chain)
    (hfits : l.Fits) (hms : ∀ node, .poll node ∈ ms → node.Honest) :
    Reactive.runState (poll bloomBits) l.lazily (l.withoutCancel bloomBits ms) =
        (Reactive.runState (move bloomBits) l ms).lazily ∧
      watcherUpdates (Reactive.runOutputs (poll bloomBits) l.lazily (l.withoutCancel bloomBits ms)) =
        watcherUpdates (Reactive.runOutputs (move bloomBits) l ms) := by
  induction ms generalizing l answered chain with
  | nil => exact ⟨rfl, rfl⟩
  | cons m ms ih =>
    obtain ⟨⟨chain', -, h'⟩, hfits', -⟩ := move_inStep bloomBits
      h hfits fun node hm => hms node (hm ▸ List.mem_cons_self)
    obtain ⟨hstate, houtputs⟩ := uncancelled_simulates bloomBits hfits
    obtain ⟨hstate', houtputs'⟩ := ih h' hfits' fun node hm => hms node (List.mem_cons_of_mem _ hm)
    rw [withoutCancel, Reactive.runState_append, Reactive.runOutputs_append, hstate]
    simp only [watcherUpdates, List.filterMap_append, Reactive.runState_cons, Reactive.runOutputs] at *
    exact ⟨hstate', by rw [houtputs, houtputs']⟩

theorem mem_uncancelled {m : Move} {node : NodeView} (h : node ∈ l.uncancelled bloomBits m) :
    m = .poll node ∨ node = unavailable := by
  have hnone : node ∉ ([] : List NodeView) := by simp
  have hone : ∀ node', node ∈ [node'] → node = node' := fun _ => List.mem_singleton.mp
  have htwo : ∀ node', node ∈ [node', node'] → node = node' := by simp
  cases m with
  | poll node' =>
    refine .inl (congrArg Move.poll (Eq.symm ?_))
    simp only [uncancelled] at h
    split at h
    · split at h
      · exact absurd h hnone
      · exact hone _ h
    · exact htwo _ h
    · split at h
      · exact absurd h hnone
      · exact htwo _ h
    · exact hone _ h
    · exact hone _ h
    · exact absurd h hnone
  | cancel =>
    refine .inr ?_
    simp only [uncancelled] at h
    split at h
    · exact htwo _ h
    · exact hone _ h
    · exact absurd h hnone

/-- They are answered as in the run, or not at all. -/
theorem mem_withoutCancel {ms : List Move} {node : NodeView}
    (h : node ∈ l.withoutCancel bloomBits ms) : .poll node ∈ ms ∨ node = unavailable := by
  induction ms generalizing l with
  | nil => exact absurd h (by simp [withoutCancel])
  | cons m ms ih =>
    rcases List.mem_append.mp h with h | h
    · rcases mem_uncancelled h with rfl | h
      · exact .inl List.mem_cons_self
      · exact .inr h
    · rcases ih h with h | h
      · exact .inl (List.mem_cons_of_mem _ h)
      · exact .inr h

theorem lazily_watcher (l : Loop Event) : l.lazily.watcher = l.watcher := by
  unfold lazily
  split <;> rfl

end Loop

/-! ### From the start -/

/-- A warp that is queued at first is the last before the recent blocks, none of which it leaves out. -/
theorem initial_warp (config : BlockConfig) (indexed : Option BlockStatus) (safe : Nat) :
    (∀ first last, .warp first last ∉ initialUpdates config indexed safe) ∨
      ∃ before start, initialUpdates config indexed safe = before ++ [.warp start safe] ∧
        (∀ first last, .warp first last ∉ before) ∧ start ≤ safe ∧
        ∀ b, safe < b.number → isUnprocessed config indexed b = true := by
  have huncle : ∀ (p : Prop) [Decidable p] n first last,
      BlockUpdate.warp first last ∉ if p then [BlockUpdate.uncle n] else [] := by
    intro p _ n first last
    split <;> simp
  cases indexed with
  | some indexed =>
    cases hu : checkedSucc indexed.safe with
    | none => exact .inl (by simp [initialUpdates, hu])
    | some uncle =>
      simp only [initialUpdates, isUnprocessed, hu, Option.any_some, decide_eq_true_eq]
      by_cases hle : uncle ≤ safe
      · exact .inr ⟨_, uncle, by rw [if_pos hle], huncle _ _, hle, fun b hb => by omega⟩
      · rw [if_neg hle, List.append_nil]
        exact .inl (huncle _ _)
  | none =>
    cases hs : config.startBlock with
    | none => exact .inl (by simp [initialUpdates, hs])
    | some startBlock =>
      simp only [initialUpdates, isUnprocessed, hs, Option.all_some, decide_eq_true_eq]
      by_cases hle : startBlock ≤ safe
      · exact .inr ⟨[], startBlock, by rw [if_pos hle]; rfl, by simp, hle, fun b hb => by omega⟩
      · exact .inl (by simp [if_neg hle])

/-- A warp that is queued at first ends at the safe block, and the recent blocks follow it. -/
theorem Initializing.finish_warp {config : BlockConfig} {indexed : Option BlockStatus} {s : Scan}
    {answered : List BlockHeader} {blocks : BlockWatcher} (hs : s.Consistent config answered)
    (hfinish : finish config indexed s = .ready blocks) {past rest : List BlockUpdate}
    {first last : Nat} (hq : blocks.queue = past ++ .warp first last :: rest) :
    first ≤ last ∧ blocks.safe.number = last ∧ rest = blocks.recent.map BlockHeader.update := by
  unfold Initializing.finish at hfinish
  split at hfinish
  · rename_i safe recent hr
    obtain rfl := Initialized.ready.inj hfinish
    obtain ⟨hsafe, hlinked, -⟩ := hs.linked safe recent hr
    have hnews : ∀ first last, .warp first last ∉
        (recent.filter (isUnprocessed config indexed)).map BlockHeader.update := by
      simp [BlockHeader.update]
    have hq : initialUpdates config indexed s.safe ++
        (recent.filter (isUnprocessed config indexed)).map BlockHeader.update =
          past ++ .warp first last :: rest := hq
    have hmem : .warp first last ∈ initialUpdates config indexed s.safe ++
        (recent.filter (isUnprocessed config indexed)).map BlockHeader.update := by
      rw [hq]
      simp
    rcases initial_warp config indexed s.safe with hnone | ⟨before, start, hinitial, hbefore, hle, hall⟩
    · rcases List.mem_append.mp hmem with h | h
      · exact absurd h (hnone _ _)
      · exact absurd h (hnews _ _)
    · rw [hinitial] at hmem hq
      have hsame : BlockUpdate.warp first last = .warp start s.safe := by
        rcases List.mem_append.mp hmem with h | h
        · rcases List.mem_append.mp h with h | h
          · exact absurd h (hbefore _ _)
          · exact List.mem_singleton.mp h
        · exact absurd h (hnews _ _)
      obtain ⟨rfl, rfl⟩ := BlockUpdate.warp.inj hsame
      rw [List.append_assoc, List.singleton_append] at hq
      obtain ⟨-, -, rfl⟩ := (List.append_cons_inj_of_notMem (hbefore _ _) (hnews _ _)).mp hq
      refine ⟨hle, hsafe, ?_⟩
      rw [List.filter_eq_self.mpr fun b hb => hall b (hsafe ▸ hlinked.gt b hb)]
  · exact absurd hfinish (by simp)

/-- **A new watcher is in step.** -/
theorem Watcher.inStep_create {Event : Type} {config : BlockConfig} {indexed : Option BlockStatus}
    {answers : List BlockAnswer} {blocks : BlockWatcher}
    (hready : Initializing.latest.run config indexed answers = .ready blocks)
    (hinit : Initializing.latest.Honest config indexed answers) (econfig : EventConfig)
    (addresses : List Address) (events : Events Event) :
    InStep (answeredBlocks answers) [] ⟨blocks, .create econfig addresses events⟩ := by
  obtain ⟨s, hs, hdone, hfinish⟩ := Initializing.run_finish (i := .latest) trivial hinit
    (fun b hb => mem_answeredBlocks.mpr hb) hready
  obtain ⟨hw, hf, -⟩ := Initializing.finish_ready hs hdone hfinish
  refine ⟨hw, hf, ?_, fun f l p hstep => absurd hstep (by simp [EventWatcher.create]),
    fun n k b r hstep => absurd hstep (by simp [EventWatcher.create])⟩
  intro past first last rest hq
  obtain ⟨hle, -, rfl⟩ := Initializing.finish_warp hs hfinish hq
  have hlinked := hw.linked
  refine ⟨hle, ?_⟩
  cases hrecent : blocks.recent with
  | nil => simp [BlockWatcher.emitted, hrecent]
  | cons b bs =>
    rw [hrecent] at hlinked
    simp only [BlockWatcher.emitted, hrecent, List.map_cons, BlockHeader.update]
    exact hlinked.rdropWhile_nil

namespace Loop

variable {Event : Type} {bloomBits : Bytes → Bloom}

/-- **The watcher can be cancelled.**  Whatever the node answers, and wherever the future is dropped,
the updates are those of a run without a cancellation that is answered the same, or not at all, and
the watchers end up the same.  Each update is one called for: no block, uncle, page or log is lost,
repeated or out of order.  The block updates make up a contiguous and hash-linked chain, and the
event watcher is never handed anything it does not expect. -/
theorem cancellation_safe {config : BlockConfig} {indexed : Option BlockStatus}
    {answers : List BlockAnswer} {blocks : BlockWatcher}
    (hready : Initializing.latest.run config indexed answers = .ready blocks)
    (hinit : Initializing.latest.Honest config indexed answers) (econfig : EventConfig)
    (addresses : List Address) (events : Events Event) {ms : List Move}
    (hms : ∀ node, .poll node ∈ ms → node.Honest) :
    let l : Loop Event := ⟨⟨blocks, .create econfig addresses events⟩, .start⟩
    let l' := Reactive.runState (move bloomBits) l ms
    let outcomes := Reactive.runOutputs (move bloomBits) l ms
    let views := l.withoutCancel bloomBits ms
    (watcherUpdates (Reactive.runOutputs (poll bloomBits) l views) = watcherUpdates outcomes ∧
        (Reactive.runState (poll bloomBits) l views).watcher = l'.watcher ∧
        ∀ node ∈ views, .poll node ∈ ms ∨ node = unavailable) ∧
      Expects.block.acceptAll (watcherUpdates outcomes) = some l'.watcher.events.step.expects ∧
      (∃ chain, deliverAll [] (blockUpdates (watcherUpdates outcomes)) = some chain ∧
        Canonical (answeredBlocks answers ++ l.runBlocks bloomBits ms) chain) ∧
      ∀ e, .error (.events e) ∈ outcomes → e.isUnexpected = false := by
  intro l l' outcomes views
  have h : l.watcher.InStep (answeredBlocks answers) [] :=
    Watcher.inStep_create hready hinit econfig addresses events
  obtain ⟨⟨chain, hdeliver, h'⟩, -, haccept, hexpected⟩ :=
    run_inStep bloomBits h trivial hms
  obtain ⟨hstate, houtputs⟩ := withoutCancel_simulates bloomBits h trivial hms
  refine ⟨⟨houtputs, ?_, fun node => mem_withoutCancel⟩, haccept, ⟨chain, hdeliver, ?_⟩, hexpected⟩
  · have hwatcher := congrArg watcher hstate
    rw [lazily_watcher] at hwatcher
    exact hwatcher
  · obtain ⟨ahead, before, after, chain', hs⟩ := h'.follows
    exact hs.delivered

/-- A node with one block, and no logs of it, or none that it would find. -/
def toyNode (found : Bool) (block : BlockHeader) : NodeView where
  getLogs _ := if found then .ok [] else .error .resourceNotFound
  getBlock
    | .latest => .ok (some block)
    | .number n => .ok (if block.number = n then some block else none)

/-- The future is dropped once at each await; the first block turns out to be uncled. -/
def toyMoves : List Move :=
  let gone : Move := .poll (toyNode false (BlockWatcher.toyBlock 1 21 10))
  let found : Move := .poll (toyNode true (BlockWatcher.toyBlock 1 21 10))
  [gone, gone, .cancel, gone, gone, .cancel, gone, gone, gone, found, .cancel, found, found, found, found]

theorem toyNode_honest {found : Bool} {block : BlockHeader} : (toyNode found block).Honest := by
  intro n b h
  have hite := Except.ok.inj h
  split at hite
  · rename_i hn
    exact Option.some.inj hite ▸ hn
  · exact absurd hite (by simp)

/-- The run with the cancellations and the one without. -/
theorem cancellation_safe_uncled :
    let l : Loop Nat := ⟨⟨BlockWatcher.toyWatcher,
      .create ⟨⟨100, by decide⟩, ⟨3, by decide⟩, false, none, []⟩ [1] (watcherEvents [])⟩, .start⟩
    let outcomes := Reactive.runOutputs (move fun _ => 0) l toyMoves
    let views := l.withoutCancel (fun _ => 0) toyMoves
    blockUpdates (watcherUpdates outcomes) = [.new 1 11 0, .uncle 1, .new 1 21 0] ∧
      watcherUpdates (Reactive.runOutputs (poll fun _ => 0) l views) = watcherUpdates outcomes := by
  have hready : Initializing.latest.run ⟨2, none⟩ none BlockWatcher.toyAnswers =
      .ready BlockWatcher.toyWatcher := by rfl
  have hms : ∀ node, .poll node ∈ toyMoves → node.Honest := by
    intro node h
    simp only [toyMoves, List.mem_cons, Move.poll.injEq, reduceCtorEq, List.not_mem_nil, false_or,
      or_false, or_self] at h
    rcases h with rfl | rfl | rfl | rfl | rfl | rfl | rfl | rfl | rfl | rfl | rfl | rfl
    all_goals exact toyNode_honest
  exact ⟨by decide +kernel,
    (cancellation_safe hready BlockWatcher.toy_honest _ _ _ hms).1.1⟩

end Loop

end Safenet
