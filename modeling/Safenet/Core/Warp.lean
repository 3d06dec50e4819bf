/-
# Warping, page by page

How the event watcher goes through a range of blocks that the block watcher warped over.  A page that
cannot be fetched is halved and tried again, and a page that is fetched moves on, with the configured
size again.

Three automata meet here, and the pages have to suit all of them: the event watcher emits them
(`pages_tile`), the state machine takes each as the next part of the range it was told of
(`pages_accepted`), and the block watcher goes on behind the range once the event watcher is idle
(`warp_run`), with the block after it and no other.
-/
import Safenet.Core.Watcher

namespace Safenet

/-! ## 1. The arithmetic of a page -/

/-- `NonZeroU64::new`. -/
def NonZero.new (n : Nat) : Option NonZero := if h : 0 < n then some ⟨n, h⟩ else none

/-- `u64::div_ceil`. -/
def divCeil (n d : Nat) : Nat := n / d + if n % d = 0 then 0 else 1

namespace EventWatcher

variable {Event : Type} (bloomBits : Bytes → Bloom) (w : EventWatcher Event) (getLogs : GetLogs)

/-- `warp`, with 64-bit block numbers; `none` is an overflow, or a page size of zero. -/
def warpU64 (first last : Nat) (pageSize : NonZero) :
    Option (EventWatcher Event × Except EventError (EventUpdate Event)) :=
  let queryLast := min last (satAdd first (pageSize.val - 1))
  let blocks := .range first queryLast
  let fetch : Fetch := if 1 < pageSize.val then .singleQuery blocks else .multipleQueries blocks
  match w.fetchLogs bloomBits getLogs fetch with
  | .ok logs =>
    if queryLast = last then some ({ w with step := .idle }, .ok ⟨first, queryLast, logs⟩)
    else (checkedSucc queryLast).map fun next =>
      ({ w with step := .warping next last w.config.blockPageSize }, .ok ⟨first, queryLast, logs⟩)
  | .error error => (NonZero.new (divCeil pageSize.val 2)).map fun pageSize =>
      ({ w with step := .warping first last pageSize }, .error error)

theorem new_halve (pageSize : NonZero) : NonZero.new (divCeil pageSize.val 2) = some pageSize.halve := by
  have hceil : divCeil pageSize.val 2 = (pageSize.val + 1) / 2 := by
    unfold divCeil
    split <;> omega
  rw [hceil]
  exact dif_pos pageSize.halve.property

/-- **No overflow**, and no page of no blocks. -/
theorem warpU64_eq {first last : Nat} (hlast : last ≤ u64Max) (pageSize : NonZero) :
    w.warpU64 bloomBits getLogs first last pageSize =
      some (w.warp bloomBits getLogs first last pageSize) := by
  have hquery : min last (satAdd first (pageSize.val - 1)) = min last (first + (pageSize.val - 1)) := by
    unfold satAdd
    omega
  rw [warpU64, warp, hquery]
  dsimp only
  generalize w.fetchLogs bloomBits getLogs _ = result
  cases result with
  | error error =>
    rw [new_halve]
    rfl
  | ok logs =>
    dsimp only
    by_cases hdone : min last (first + (pageSize.val - 1)) = last
    · rw [if_pos hdone, if_pos hdone]
    · have hsucc : checkedSucc (min last (first + (pageSize.val - 1))) =
          some (min last (first + (pageSize.val - 1)) + 1) := if_pos (by omega)
      rw [if_neg hdone, if_neg hdone, hsucc, Option.map_some]

/-! ## 2. The pages of a range -/

/-- One call of `next`, and the page it emits, if it does. -/
def fetchPage : EventWatcher Event × List (EventUpdate Event) :=
  match w.next bloomBits getLogs with
  | (w, .ok (some update)) => (w, [update])
  | (w, _) => (w, [])

end EventWatcher

/-- The blocks of a page. -/
def EventUpdate.blocks {Event : Type} (update : EventUpdate Event) : List Nat :=
  List.range' update.first (update.last + 1 - update.first)

/-- Pages follow each other from one block up to another. -/
inductive Tiles {Event : Type} (first : Nat) : List (EventUpdate Event) → Nat → Prop where
  | nil : Tiles first [] first
  | concat {pages : List (EventUpdate Event)} {page : EventUpdate Event} {next : Nat} :
      Tiles first pages next → page.first = next → next ≤ page.last →
      Tiles first (pages ++ [page]) (page.last + 1)

/-- What follows each other has each block once, in order. -/
theorem Tiles.blocks {Event : Type} {first next : Nat} {pages : List (EventUpdate Event)}
    (h : Tiles first pages next) :
    first ≤ next ∧ pages.flatMap EventUpdate.blocks = List.range' first (next - first) := by
  induction h with
  | nil => simp
  | @concat pages page next _ hfirst hle ih =>
    obtain ⟨hfrom, hblocks⟩ := ih
    refine ⟨by omega, ?_⟩
    have hsplit : page.last + 1 - first = (next - first) + (page.last + 1 - next) := by omega
    rw [List.flatMap_append, List.flatMap_singleton, hblocks, EventUpdate.blocks, hfirst, hsplit,
      ← List.range'_append_1]
    congr 2
    omega

/-- Before a page are the pages up to it. -/
theorem Tiles.split {Event : Type} {first next : Nat} {pages before after : List (EventUpdate Event)}
    {page : EventUpdate Event} (h : Tiles first pages next) (heq : pages = before ++ page :: after) :
    Tiles first before page.first ∧ page.first ≤ page.last ∧ page.last + 1 ≤ next := by
  induction h generalizing after with
  | nil => exact absurd heq (by simp)
  | @concat pages last next hpages hfirst hle ih =>
    rcases List.eq_nil_or_concat after with rfl | ⟨after', last', rfl⟩
    · obtain ⟨rfl, hpage⟩ := List.append_inj' heq rfl
      obtain rfl := List.singleton_inj.mp hpage
      exact ⟨hfirst ▸ hpages, hfirst ▸ hle, le_rfl⟩
    · rw [List.concat_eq_append, ← List.cons_append, ← List.append_assoc] at heq
      obtain ⟨rfl, -⟩ := List.append_inj' heq rfl
      obtain ⟨hbefore, hpage, hnext⟩ := ih rfl
      exact ⟨hbefore, hpage, by omega⟩

/-- Where the watcher is in a range, after some pages. -/
structure OnRange {Event : Type} (config : EventConfig) (first last : Nat)
    (pages : List (EventUpdate Event)) (w : EventWatcher Event) : Prop where
  config_eq : w.config = config
  place : (∃ next pageSize, w.step = .warping next last pageSize ∧ next ≤ last ∧
      pageSize.val ≤ config.blockPageSize.val ∧ Tiles first pages next) ∨
    w.step = .idle ∧ Tiles first pages (last + 1)

variable {Event : Type} {bloomBits : Bytes → Bloom}

/-- **One page** is the next one, or the same is tried again with fewer blocks. -/
theorem OnRange.fetchPage {config : EventConfig} {first last : Nat}
    {pages : List (EventUpdate Event)} {w : EventWatcher Event} (h : OnRange config first last pages w)
    (getLogs : GetLogs) :
    OnRange config first last (pages ++ (w.fetchPage bloomBits getLogs).2)
      (w.fetchPage bloomBits getLogs).1 := by
  rcases h.place with ⟨next, pageSize, hstep, hnext, hsize, htiles⟩ | ⟨hstep, htiles⟩
  · have hpos := pageSize.property
    simp only [EventWatcher.fetchPage, EventWatcher.next, hstep, EventWatcher.warp]
    generalize w.fetchLogs bloomBits getLogs _ = result
    cases result with
    | error error =>
      refine ⟨h.config_eq, .inl ⟨next, pageSize.halve, rfl, hnext, ?_, ?_⟩⟩
      · have hhalf : (pageSize.val + 1) / 2 ≤ pageSize.val := by omega
        exact hhalf.trans hsize
      · simpa [Except.map] using htiles
    | ok logs =>
      have htiles' : Tiles first
          (pages ++ [⟨next, min last (next + (pageSize.val - 1)), logs⟩])
          (min last (next + (pageSize.val - 1)) + 1) :=
        .concat htiles rfl (le_min hnext (Nat.le_add_right _ _))
      refine ⟨h.config_eq, ?_⟩
      by_cases hdone : min last (next + (pageSize.val - 1)) = last
      · refine .inr ⟨if_pos hdone, ?_⟩
        simp only [hdone] at htiles' ⊢
        exact htiles'
      · refine .inl ⟨_, w.config.blockPageSize, if_neg hdone, by omega, ?_, htiles'⟩
        rw [h.config_eq]
  · simp only [EventWatcher.fetchPage, EventWatcher.next, hstep, List.append_nil]
    exact ⟨h.config_eq, .inr ⟨hstep, htiles⟩⟩

/-- A watcher that is handed a warp, and fetches. -/
theorem OnRange.run {config : EventConfig} {first last : Nat} {w : EventWatcher Event}
    (hle : first ≤ last) (hconfig : w.config = config)
    (hstep : w.step = .warping first last config.blockPageSize) (answers : List GetLogs) :
    OnRange config first last (Reactive.runOutputs (·.fetchPage bloomBits ·) w answers)
      (Reactive.runState (·.fetchPage bloomBits ·) w answers) := by
  induction answers using List.reverseRecOn with
  | nil => exact ⟨hconfig, .inl ⟨first, config.blockPageSize, hstep, hle, le_rfl, .nil⟩⟩
  | append_singleton past getLogs ih =>
    rw [Reactive.runState_append, Reactive.runOutputs_append]
    simp only [Reactive.runState_cons, Reactive.runState_nil, Reactive.runOutputs, List.append_nil]
    exact ih.fetchPage getLogs

/-! ## 3. The state machine -/

/-- The status of the state machine after some pages, if it takes them. -/
def Status.afterPages (status : Status) : List (EventUpdate Event) → Option Status
  | [] => some status
  | page :: pages =>
    if status.acceptsLogs page.first page.last then
      (status.afterLogs page.last).toOption.bind fun status => status.afterPages pages
    else none

theorem Status.afterPages_append (status : Status) (pages pages' : List (EventUpdate Event)) :
    status.afterPages (pages ++ pages') =
      (status.afterPages pages).bind fun status => status.afterPages pages' := by
  induction pages generalizing status with
  | nil => rfl
  | cons page pages ih =>
    simp only [List.cons_append, Status.afterPages]
    split
    · rw [Option.bind_assoc]
      simp only [ih]
    · rfl

theorem Status.acceptsLogs_warp {first last pageLast : Nat} :
    (Status.warpEvents first last).acceptsLogs first pageLast = true ↔
      first ≤ pageLast ∧ pageLast ≤ last := by
  simp [Status.acceptsLogs, isNextInRange]

theorem Status.afterLogs_warp {first last pageLast : Nat} (h : pageLast < last) (hlast : last ≤ u64Max) :
    (Status.warpEvents first last).afterLogs pageLast = .ok (.warpEvents (pageLast + 1) last) := by
  have hnext : nextBlock pageLast = .ok (pageLast + 1) := if_pos (by omega)
  have hrange : blockRange (pageLast + 1) last = .ok (pageLast + 1, last) := if_pos h
  rw [Status.afterLogs, hnext]
  change (if pageLast < last then _ else _) = _
  rw [if_pos h, hrange]
  rfl

/-- **The state machine takes the pages**, each as the next part of its range. -/
theorem Tiles.afterPages {first next last : Nat} {pages : List (EventUpdate Event)}
    (h : Tiles first pages next) (hnext : next ≤ last) (hlast : last ≤ u64Max) :
    (Status.warpEvents first last).afterPages pages = some (.warpEvents next last) := by
  induction h with
  | nil => rfl
  | @concat pages page next _ hfirst hle ih =>
    rw [Status.afterPages_append, ih (by omega), Option.bind_some, Status.afterPages, hfirst,
      if_pos (Status.acceptsLogs_warp.mpr ⟨hle, by omega⟩),
      Status.afterLogs_warp (by omega) hlast]
    rfl

/-- The last page leaves the state machine waiting for the next block. -/
theorem Tiles.afterPages_last {first last : Nat} {pages : List (EventUpdate Event)}
    (h : Tiles first pages (last + 1)) (hle : first ≤ last) (hlast : last < u64Max) :
    (Status.warpEvents first last).afterPages pages = some (.blockPending (last + 1)) := by
  rcases List.eq_nil_or_concat pages with rfl | ⟨before, page, rfl⟩
  · have hblocks := congrArg List.length h.blocks.2
    rw [List.length_range', List.flatMap_nil, List.length_nil] at hblocks
    omega
  · rw [List.concat_eq_append] at h ⊢
    obtain ⟨hbefore, hpage, hbound⟩ := h.split rfl
    have hdone : page.last = last := by
      generalize hpages : before ++ [page] = pages at h
      generalize hnext : last + 1 = next at h
      cases h with
      | nil => exact absurd hpages (by simp)
      | @concat pages page' _ _ _ _ =>
        obtain ⟨-, heq⟩ := List.append_inj' hpages rfl
        obtain rfl := List.singleton_inj.mp heq
        omega
    have hnext : nextBlock last = .ok (last + 1) := if_pos hlast
    have hafter : (Status.warpEvents page.first last).afterLogs last = .ok (.blockPending (last + 1)) := by
      rw [Status.afterLogs, hnext]
      change (if last < last then _ else _) = _
      rw [if_neg (lt_irrefl last)]
      rfl
    rw [Status.afterPages_append, hbefore.afterPages (by omega) hlast.le, Option.bind_some,
      Status.afterPages, if_pos (Status.acceptsLogs_warp.mpr ⟨hpage, hdone.le⟩), hdone, hafter]
    rfl

/-! ## 4. Behind the range -/

/-- A warp up to a block is the last of what is queued before the recent blocks. -/
def BlockWatcher.EndsAt (last : Nat) (w : BlockWatcher) : Prop :=
  w.queue = w.recent.map BlockHeader.update ∧ w.safe.number = last

/-- **Behind a warp** comes the block after it. -/
theorem BlockWatcher.EndsAt.next {last : Nat} {w : BlockWatcher} (h : w.EndsAt last)
    (hw : w.Consistent) {answer : BlockAnswer}
    (hanswer : w.queue = [] → ∀ b, answer = .ok (some b) → b.number = w.pending) {u : BlockUpdate}
    (hu : (w.next answer).2 = .update u) : ∃ hash bloom, u = .new (last + 1) hash bloom := by
  obtain ⟨hqueue, hsafe⟩ := h
  have hlinked := hw.linked
  cases hrecent : w.recent with
  | nil =>
    rw [hrecent, List.map_nil] at hqueue
    simp only [BlockWatcher.next, hqueue] at hu
    rcases answer with e | block | block
    · exact absurd hu (by simp [BlockWatcher.onBlock])
    · exact absurd hu (by simp [BlockWatcher.onBlock])
    · simp only [BlockWatcher.onBlock, hrecent, List.getLast?_nil] at hu
      split at hu
      · exact absurd hu (by simp)
      · have hpending := hw.pending
        rw [hrecent, List.length_nil, hsafe] at hpending
        refine ⟨block.hash, block.logsBloom, ?_⟩
        rw [← NextBlock.update.inj hu, BlockHeader.update, hanswer hqueue block rfl, hpending]
  | cons b bs =>
    rw [hrecent, List.map_cons] at hqueue
    rw [hrecent, hsafe] at hlinked
    simp only [BlockWatcher.next, hqueue] at hu
    refine ⟨b.hash, b.logsBloom, ?_⟩
    rw [← NextBlock.update.inj hu, BlockHeader.update, hlinked.1]

/-- What the updates so far call for, and the end of the warp that they end with. -/
structure Stage where
  expects : Expects
  behind : Option Nat
  deriving DecidableEq

/-- The end of a warp, if an update is its last page. -/
def Expects.behind {Event : Type} : Expects → WatcherUpdate Event → Option Nat
  | .pages _ last, .logs update => if update.last = last then some last else none
  | _, _ => none

/-- Whether an update is a new block of a number. -/
def WatcherUpdate.isNew {Event : Type} (number : Nat) : WatcherUpdate Event → Bool
  | .block (.new n _ _) => n = number
  | _ => false

/-- The next update, if it is called for; after the last page of a warp it is the next block. -/
def Stage.accept {Event : Type} (s : Stage) (update : WatcherUpdate Event) : Option Stage :=
  if s.behind.all fun last => update.isNew (last + 1) then
    (s.expects.accept update).map fun expects => ⟨expects, s.expects.behind update⟩
  else none

/-- All updates are called for. -/
def Stage.acceptAll {Event : Type} (s : Stage) : List (WatcherUpdate Event) → Option Stage
  | [] => some s
  | u :: us => (s.accept u).bind fun s => s.acceptAll us

theorem Stage.acceptAll_append {s s' : Stage} {us vs : List (WatcherUpdate Event)}
    (h : s.acceptAll us = some s') : s.acceptAll (us ++ vs) = s'.acceptAll vs := by
  induction us generalizing s with
  | nil => rw [Option.some.inj h]; rfl
  | cons u us ih =>
    obtain ⟨mid, hu, hus⟩ := Option.bind_eq_some_iff.mp h
    rw [List.cons_append, Stage.acceptAll, hu]
    exact ih hus

namespace Watcher

/-- **Where the watcher stands**: a warp that is queued, fetched or just over is the last thing before
the recent blocks. -/
structure OnStage (s : Stage) (w : Watcher Event) : Prop where
  expects : s.expects = w.events.step.expects
  behind : ∀ last, s.behind = some last → w.events.step = .idle ∧ w.blocks.EndsAt last
  page : ∀ first last pageSize, w.events.step = .warping first last pageSize → w.blocks.EndsAt last
  queued : ∀ past first last rest, w.blocks.queue = past ++ .warp first last :: rest →
    { w.blocks with queue := rest }.EndsAt last

variable {answered : List BlockHeader} {chain : List Delivered} {w : Watcher Event} {s : Stage}

/-- The next block update is handed over. -/
theorem handOver_onStage {answer : BlockAnswer} (h : OnStage s w) (hw : w.InStep answered chain)
    (hidle : w.events.step = .idle)
    (hanswer : w.blocks.queue = [] → ∀ b, answer = .ok (some b) → b.number = w.blocks.pending) :
    ∃ s', s.acceptAll (w.handOver (w.blocks.next answer)).2.updates = some s' ∧
      OnStage s' (w.handOver (w.blocks.next answer)).1 := by
  have hexpects := h.expects
  rw [hidle] at hexpects
  have hqueued : ∀ past first last rest, (w.blocks.next answer).1.queue = past ++ .warp first last :: rest →
      { (w.blocks.next answer).1 with queue := rest }.EndsAt last := by
    intro past first last rest hrest
    cases hq : w.blocks.queue with
    | nil =>
      rw [BlockWatcher.next_queue, hq] at hrest
      exact absurd hrest (by simp)
    | cons u queue =>
      simp only [BlockWatcher.next, hq] at hrest ⊢
      exact h.queued (u :: past) first last rest (by rw [hq, hrest]; rfl)
  have hwarp : ∀ first last, (w.blocks.next answer).2 = .update (.warp first last) →
      (w.blocks.next answer).1.EndsAt last := by
    intro first last hnext
    obtain ⟨rest, hq, hblocks⟩ := BlockWatcher.next_warp hnext
    rw [hblocks]
    exact h.queued [] first last rest hq
  have hbehind : ∀ last, s.behind = some last → ∀ u, (w.blocks.next answer).2 = .update u →
      ∃ hash bloom, u = .new (last + 1) hash bloom := fun last hlast u hnext =>
    (h.behind last hlast).2.next hw.consistent hanswer hnext
  have hwaiting := @BlockWatcher.next_waiting w.blocks answer
  have hfailed := fun e => @BlockWatcher.next_failed w.blocks answer e
  generalize w.blocks.next answer = r at *
  obtain ⟨blocks, outcome⟩ := r
  have hstay : blocks = w.blocks → OnStage s { w with blocks } := by
    rintro rfl
    exact h
  cases outcome with
  | waiting => exact ⟨s, rfl, hstay (hwaiting rfl)⟩
  | failed error => exact ⟨s, rfl, hstay (hfailed error rfl)⟩
  | update u =>
    have hall : (s.behind.all fun last => (WatcherUpdate.block u : WatcherUpdate Event).isNew (last + 1)) = true := by
      cases hlast : s.behind with
      | none => rfl
      | some last =>
        obtain ⟨hash, bloom, rfl⟩ := hbehind last hlast u rfl
        simp [WatcherUpdate.isNew]
    simp only [handOver, EventWatcher.onBlockUpdate, hidle, Polled.updates, Stage.acceptAll,
      Stage.accept, hall, if_true, hexpects]
    cases u with
    | warp first last =>
      refine ⟨_, rfl, rfl, fun l hl => absurd hl (by simp [Expects.behind]), ?_, hqueued⟩
      intro f l pageSize hs
      obtain ⟨rfl, rfl, -⟩ := EventStep.warping.inj hs
      exact hwarp _ _ rfl
    | uncle n =>
      exact ⟨_, rfl, rfl, fun l hl => absurd hl (by simp [Expects.behind]),
        fun f l p hs => absurd hs (by simp), hqueued⟩
    | new n hash bloom =>
      exact ⟨_, rfl, rfl, fun l hl => absurd hl (by simp [Expects.behind]),
        fun f l p hs => absurd hs (by simp), hqueued⟩

/-- From where the event watcher is drained. -/
theorem advance_onStage (h : OnStage s w) (hw : w.InStep answered chain)
    (hidle : w.events.step = .idle) :
    ∃ s', s.acceptAll w.advance.2.updates = some s' ∧ OnStage s' w.advance.1 := by
  cases hq : w.blocks.queue with
  | nil =>
    simp only [advance, hq]
    exact ⟨s, rfl, h⟩
  | cons u queue =>
    simp only [advance, hq]
    exact handOver_onStage h hw hidle fun hnil => absurd (hq.symm.trans hnil) (by simp)

/-- To the first await. -/
theorem start_onStage (h : OnStage s w) (hw : w.InStep answered chain) :
    ∃ s', s.acceptAll w.start.2.updates = some s' ∧ OnStage s' w.start.1 := by
  unfold start
  split
  · rename_i hidle
    exact advance_onStage h hw hidle
  · exact ⟨s, rfl, h⟩

/-- The fetched logs: the last page of a warp leaves the watcher behind it. -/
theorem logs_onStage {node : NodeView} (h : OnStage s w) (hw : w.InStep answered chain)
    (hstep : w.events.step ≠ .idle) :
    ∃ s', s.acceptAll (w.resume bloomBits node .logs).2.updates = some s' ∧
      OnStage s' (w.resume bloomBits node .logs).1 := by
  have hcases := @EventWatcher.next_cases _ bloomBits _ node.getLogs hstep
    fun first last pageSize hs => (hw.page first last pageSize hs).1
  have hnone : s.behind = none := by
    cases hlast : s.behind with
    | none => rfl
    | some last => exact absurd (h.behind last hlast).1 hstep
  simp only [resume]
  generalize w.events.next bloomBits node.getLogs = r at *
  obtain ⟨events, result⟩ := r
  rcases hcases with ⟨update, hresult, haccept, hnew⟩ | ⟨error, hresult, -, hnew⟩
  · obtain rfl : result = .ok (some update) := hresult
    rw [← h.expects] at haccept
    refine ⟨⟨events.step.expects, s.expects.behind (.logs update)⟩, ?_, rfl, ?_, ?_, h.queued⟩
    · simp only [Polled.updates, Stage.acceptAll, Stage.accept, hnone, Option.all_none, if_true,
        haccept, Option.map_some, Option.bind_some]
    · intro last hlast
      cases hs : w.events.step with
      | idle => exact absurd hs hstep
      | block n k b r =>
        rw [h.expects, hs] at hlast
        exact absurd hlast (by simp [Expects.behind, EventStep.expects])
      | warping f l p =>
        rw [h.expects, hs] at hlast haccept
        simp only [Expects.behind, EventStep.expects] at hlast
        split at hlast
        · rename_i hdone
          obtain rfl := Option.some.inj hlast
          refine ⟨?_, h.page f l p hs⟩
          rcases hnew with hnew | ⟨f', l', p', f'', p'', hs', hnew, hle⟩
          · exact hnew
          · simp only [EventStep.expects, Expects.accept, hdone, if_true] at haccept
            split at haccept
            · rw [show events.step = _ from hnew] at haccept
              cases haccept
            · cases haccept
        · cases hlast
    · intro first last pageSize hs
      rcases hnew with hnew | ⟨f, l, p, f', p', hw', hnew, -⟩
      · exact absurd (hs.symm.trans hnew) (by simp)
      · obtain ⟨-, rfl, -⟩ := EventStep.warping.inj (hs.symm.trans hnew)
        exact h.page f _ p hw'
  · obtain rfl : result = .error error := hresult
    have hsame : OnStage s { w with events } := by
      refine ⟨?_, fun last hlast => ?_, fun first last pageSize hs => ?_, h.queued⟩
      · rcases hnew with ⟨n, k, b, r, hw', hnew⟩ | ⟨f, l, p, hw', hnew⟩
        · rw [h.expects, hw', show events.step = _ from hnew]
          rfl
        · rw [h.expects, hw', show events.step = _ from hnew]
          rfl
      · rw [hnone] at hlast
        cases hlast
      · rcases hnew with ⟨n, k, b, r, -, hnew⟩ | ⟨f, l, p, hw', hnew⟩
        · exact absurd (hs.symm.trans hnew) (by simp)
        · obtain ⟨-, rfl, -⟩ := EventStep.warping.inj (hs.symm.trans hnew)
          exact h.page f _ p hw'
    simp only [fetchFailed]
    split
    · exact ⟨s, rfl, hsame⟩
    · exact ⟨s, rfl, hsame⟩

/-- The revalidated block.  It is no page, so no warp is left. -/
theorem revalidation_onStage {node : NodeView} {error : EventError} (h : OnStage s w)
    (hw : w.InStep answered chain) (hfits : Loop.Fits ⟨w, .awaiting (.revalidation error)⟩) :
    ∃ s', s.acceptAll (w.resume bloomBits node (.revalidation error)).2.updates = some s' ∧
      OnStage s' (w.resume bloomBits node (.revalidation error)).1 := by
  obtain ⟨-, hne, number, hash, bloom, retries, hstep⟩ := hfits
  have hnone : s.behind = none := by
    cases hlast : s.behind with
    | none => rfl
    | some last => exact absurd ((h.behind last hlast).1.symm.trans hstep) (by simp)
  obtain ⟨last, hlast⟩ : ∃ last, w.blocks.emitted.getLast? = some last :=
    ⟨_, List.getLast?_eq_some_getLast hne⟩
  obtain ⟨rfl, rfl⟩ := hw.last number hash bloom retries hstep last hlast
  have hstep : w.events.step = .block last.number last.hash bloom retries := hstep
  simp only [resume, hlast, Option.map_some, Option.getD_some]
  rcases BlockWatcher.revalidate_cases hlast (node.getBlock (.number last.number)) with
    ⟨e, hr⟩ | hr | hr
  · rw [hr]
    exact ⟨s, rfl, h⟩
  · rw [hr]
    exact ⟨s, rfl, h⟩
  · rw [hr]
    have hinvalidated : w.events.onBlockInvalidated last.hash = .ok { w.events with step := .idle } := by
      simp only [EventWatcher.onBlockInvalidated, hstep, if_true]
    have hexpects : s.expects = .logsOf last.number := by
      rw [h.expects, hstep]
      rfl
    simp only [hinvalidated]
    refine ⟨⟨.block, none⟩, ?_, ?_⟩
    · simp [advance, handOver, BlockWatcher.next, EventWatcher.onBlockUpdate, Polled.updates,
        Stage.acceptAll, Stage.accept, hnone, hexpects, Expects.accept, Expects.behind]
    · refine ⟨rfl, fun l hl => absurd hl (by simp), fun f l p hs => ?_, fun past f l rest hq => ?_⟩
      · exact absurd hs (by simp [advance, handOver, BlockWatcher.next, EventWatcher.onBlockUpdate])
      · simp [advance, handOver, BlockWatcher.next, EventWatcher.onBlockUpdate] at hq

/-- A poll that is answered. -/
theorem resume_onStage {node : NodeView} {place : Awaiting} (h : OnStage s w)
    (hw : w.InStep answered chain) (hfits : Loop.Fits ⟨w, .awaiting place⟩) (hnode : node.Honest) :
    ∃ s', s.acceptAll (w.resume bloomBits node place).2.updates = some s' ∧
      OnStage s' (w.resume bloomBits node place).1 := by
  cases place with
  | logs => exact logs_onStage h hw hfits
  | revalidation error => exact revalidation_onStage h hw hfits
  | block => exact handOver_onStage h hw hfits.1 fun _ b hb => hnode _ b hb

end Watcher

namespace Loop

variable {answered : List BlockHeader} {chain : List Delivered} {l : Loop Event} {s : Stage}

/-- What `next` comes to is what the loop goes on with. -/
theorem polled_onStage {r : Watcher Event × Polled Event}
    (h : ∃ s', s.acceptAll r.2.updates = some s' ∧ Watcher.OnStage s' r.1) :
    ∃ s', s.acceptAll (watcherUpdates (polled r).2) = some s' ∧
      Watcher.OnStage s' (polled r).1.watcher := by
  obtain ⟨w, place | e | u⟩ := r
  · exact h
  · exact h
  · exact h

/-- One move. -/
theorem move_onStage {m : Move} (h : Watcher.OnStage s l.watcher)
    (hw : l.watcher.InStep answered chain) (hfits : l.Fits)
    (hm : ∀ node, m = .poll node → node.Honest) :
    ∃ s', s.acceptAll (watcherUpdates (l.move bloomBits m).2) = some s' ∧
      Watcher.OnStage s' (l.move bloomBits m).1.watcher := by
  obtain ⟨w, place⟩ := l
  cases m with
  | cancel => cases place <;> exact ⟨s, rfl, h⟩
  | poll node =>
    cases place with
    | stopped => exact ⟨s, rfl, h⟩
    | retrying => exact ⟨s, rfl, h⟩
    | start => exact polled_onStage (Watcher.start_onStage h hw)
    | awaiting place => exact polled_onStage (Watcher.resume_onStage h hw hfits (hm node rfl))

/-- **Every run** goes on behind its warps. -/
theorem run_onStage {ms : List Move} (h : Watcher.OnStage s l.watcher)
    (hw : l.watcher.InStep answered chain) (hfits : l.Fits)
    (hms : ∀ node, .poll node ∈ ms → node.Honest) :
    ∃ s', s.acceptAll (watcherUpdates (Reactive.runOutputs (move bloomBits) l ms)) = some s' ∧
      Watcher.OnStage s' (Reactive.runState (move bloomBits) l ms).watcher := by
  induction ms generalizing l s answered chain with
  | nil => exact ⟨s, rfl, h⟩
  | cons m ms ih =>
    have hm : ∀ node, m = .poll node → node.Honest := fun node hm =>
      hms node (hm ▸ List.mem_cons_self)
    obtain ⟨s', haccept, h'⟩ := move_onStage h hw hfits hm
    obtain ⟨⟨chain', -, hw'⟩, hfits', -⟩ := move_inStep bloomBits hw hfits hm
    obtain ⟨s'', haccept', h''⟩ := ih h' hw' hfits' fun node hm => hms node (List.mem_cons_of_mem _ hm)
    refine ⟨s'', ?_, h''⟩
    rw [Reactive.runOutputs, watcherUpdates, List.filterMap_append]
    exact (Stage.acceptAll_append haccept).trans haccept'

end Loop

/-- A new watcher has its warp before the recent blocks. -/
theorem Watcher.onStage_create {config : BlockConfig} {indexed : Option BlockStatus}
    {answers : List BlockAnswer} {blocks : BlockWatcher}
    (hready : Initializing.latest.run config indexed answers = .ready blocks)
    (hinit : Initializing.latest.Honest config indexed answers) (econfig : EventConfig)
    (addresses : List Address) (events : Events Event) :
    OnStage ⟨.block, none⟩ ⟨blocks, .create econfig addresses events⟩ := by
  obtain ⟨scan, hscan, -, hfinish⟩ := Initializing.run_finish (i := .latest) trivial hinit
    (fun b hb => mem_answeredBlocks.mpr hb) hready
  refine ⟨rfl, fun last hlast => absurd hlast (by simp), fun f l p hs => ?_, fun past f l rest hq => ?_⟩
  · exact absurd hs (by simp [EventWatcher.create])
  · obtain ⟨-, hsafe, hrest⟩ := Initializing.finish_warp hscan hfinish hq
    exact ⟨hrest, hsafe⟩

/-! ## 5. Warping is exact -/

/-- **The pages so far** are the range up to a block, and the state machine takes them. -/
theorem OnRange.exact {config : EventConfig} {first last : Nat} {pages : List (EventUpdate Event)}
    {w : EventWatcher Event} (h : OnRange config first last pages w) (hle : first ≤ last)
    (hlast : last ≤ u64Max) (bloomBits : Bytes → Bloom) :
    ((∃ next pageSize, w.step = .warping next last pageSize ∧ next ≤ last ∧
        0 < pageSize.val ∧ pageSize.val ≤ config.blockPageSize.val ∧
        pages.flatMap EventUpdate.blocks = List.range' first (next - first) ∧
        (Status.warpEvents first last).afterPages pages = some (.warpEvents next last) ∧
        ∀ getLogs, w.warpU64 bloomBits getLogs next last pageSize =
          some (w.warp bloomBits getLogs next last pageSize)) ∨
      w.step = .idle ∧ pages.flatMap EventUpdate.blocks = List.range' first (last + 1 - first) ∧
        (last < u64Max →
          (Status.warpEvents first last).afterPages pages = some (.blockPending (last + 1)))) ∧
    (∀ page ∈ pages, page.first ≤ page.last) ∧
    ∀ before page after, pages = before ++ page :: after →
      ∃ status, (Status.warpEvents first last).afterPages before = some status ∧
        status.acceptsLogs page.first page.last = true := by
  obtain ⟨next, hnext, htiles⟩ : ∃ next, next ≤ last + 1 ∧ Tiles first pages next := by
    rcases h.place with ⟨next, pageSize, -, hnext, -, htiles⟩ | ⟨-, htiles⟩
    · exact ⟨next, by omega, htiles⟩
    · exact ⟨last + 1, le_rfl, htiles⟩
  refine ⟨?_, fun page hpage => ?_, fun before page after heq => ?_⟩
  · rcases h.place with ⟨next, pageSize, hstep, hnext, hsize, htiles⟩ | ⟨hstep, htiles⟩
    · exact .inl ⟨next, pageSize, hstep, hnext, pageSize.property, hsize, htiles.blocks.2,
        htiles.afterPages hnext hlast, fun getLogs => w.warpU64_eq bloomBits getLogs hlast pageSize⟩
    · exact .inr ⟨hstep, htiles.blocks.2, htiles.afterPages_last hle⟩
  · obtain ⟨before, after, heq⟩ := List.append_of_mem hpage
    exact (htiles.split heq).2.1
  · obtain ⟨hbefore, hpage, hbound⟩ := htiles.split heq
    exact ⟨_, hbefore.afterPages (by omega) hlast,
      Status.acceptsLogs_warp.mpr ⟨hpage, by omega⟩⟩

/-- **Warp paging is exact.**  Handed the warp of a range, and whatever the node answers, the event
watcher emits pages that follow each other from the first block on, and up to the last one when it is
idle again, without an overflow or a page of no blocks.  The state machine takes each page as the next
of its range, and waits for the block behind it in the end.  A watcher that runs goes on with just that
block. -/
theorem warp_exact (bloomBits : Bytes → Bloom) :
    (∀ (w : EventWatcher Event) (first last : Nat), w.step = .idle → first ≤ last → last ≤ u64Max →
      ∃ w₀, w.onBlockUpdate (.warp first last) = .ok w₀ ∧ ∀ answers : List GetLogs,
        let pages := Reactive.runOutputs (·.fetchPage bloomBits ·) w₀ answers
        let w' := Reactive.runState (·.fetchPage bloomBits ·) w₀ answers
        ((∃ next pageSize, w'.step = .warping next last pageSize ∧ next ≤ last ∧
            0 < pageSize.val ∧ pageSize.val ≤ w.config.blockPageSize.val ∧
            pages.flatMap EventUpdate.blocks = List.range' first (next - first) ∧
            (Status.warpEvents first last).afterPages pages = some (.warpEvents next last) ∧
            ∀ getLogs, w'.warpU64 bloomBits getLogs next last pageSize =
              some (w'.warp bloomBits getLogs next last pageSize)) ∨
          w'.step = .idle ∧ pages.flatMap EventUpdate.blocks = List.range' first (last + 1 - first) ∧
            (last < u64Max →
              (Status.warpEvents first last).afterPages pages = some (.blockPending (last + 1)))) ∧
        (∀ page ∈ pages, page.first ≤ page.last) ∧
        ∀ before page after, pages = before ++ page :: after →
          ∃ status, (Status.warpEvents first last).afterPages before = some status ∧
            status.acceptsLogs page.first page.last = true) ∧
    ∀ (config : BlockConfig) (indexed : Option BlockStatus) (answers : List BlockAnswer)
      (blocks : BlockWatcher) (econfig : EventConfig) (addresses : List Address)
      (events : Events Event) (ms : List Move),
      Initializing.latest.run config indexed answers = .ready blocks →
      Initializing.latest.Honest config indexed answers → (∀ node, .poll node ∈ ms → node.Honest) →
      ((⟨.block, none⟩ : Stage).acceptAll (watcherUpdates (Reactive.runOutputs (Loop.move bloomBits)
        ⟨⟨blocks, .create econfig addresses events⟩, .start⟩ ms))).isSome := by
  refine ⟨?_, ?_⟩
  · intro w first last hidle hle hlast
    obtain ⟨w₀, hw₀⟩ : ∃ w₀, w₀ = { w with step := .warping first last w.config.blockPageSize } :=
      ⟨_, rfl⟩
    refine ⟨w₀, ?_, fun answers => ?_⟩
    · rw [hw₀, EventWatcher.onBlockUpdate, hidle]
    · have hrun : OnRange w.config first last (Reactive.runOutputs (·.fetchPage bloomBits ·) w₀ answers)
          (Reactive.runState (·.fetchPage bloomBits ·) w₀ answers) :=
        OnRange.run hle (by rw [hw₀]) (by rw [hw₀]) answers
      exact hrun.exact hle hlast bloomBits
  · intro config indexed answers blocks econfig addresses events ms hready hinit hms
    obtain ⟨s', haccept, -⟩ := Loop.run_onStage (l := ⟨⟨blocks, .create econfig addresses events⟩, .start⟩)
      (Watcher.onStage_create hready hinit econfig addresses events)
      (Watcher.inStep_create hready hinit econfig addresses events) trivial hms
    exact Option.isSome_of_eq_some haccept

/-- A node that answers, or not. -/
def answering (found : Bool) : GetLogs := fun _ => if found then .ok [] else .error .other

/-- A page of five blocks that fails is narrowed to three, and the next ones have five again. -/
example : (Reactive.runOutputs (·.fetchPage (fun _ => 0) ·)
    (⟨⟨⟨5, by decide⟩, ⟨1, by decide⟩, false, none, []⟩, [], ⟨[], fun _ _ => none⟩,
      .warping 1 10 ⟨5, by decide⟩⟩ : EventWatcher Unit)
    [answering false, answering true, answering true, answering true, answering true]).map
      (fun page => (page.first, page.last)) = [(1, 3), (4, 8), (9, 10)] := by decide

end Safenet
