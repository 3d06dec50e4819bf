/-
# Runs of the driver

However a driver is run, and wherever its process stops, the state machine takes every update of the
watcher, but one that goes below the oldest snapshot (`driver_accepts`); and what was committed when
the process died is handled again, from a snapshot of before, but for what the oldest snapshot was
committed with (`crash_replays`).  Both are exact: a driver that starts on a block inside the reorg
window is stopped by a reorg of that block, and the actions of a warp page are lost if the process
dies after the page is pruned and before they are queued.
-/
import Safenet.Core.Alignment

namespace Safenet

/-! ## 1. Runs -/

/-- What the node is relied on for: blocks of the numbers asked for, no more of one number than fit
an `i64`, and logs with positions of their own. -/
def DriverMove.Honest {Resume : Type} (numberOf : B256 → Nat) (config : BlockConfig) :
    DriverMove Resume → Prop
  | .poll node => node.Serves numberOf
  | .crash node => node.Serves numberOf
  | .start answers => (∀ indexed, Initializing.latest.Honest config indexed answers) ∧
    ∀ b ∈ answeredBlocks answers, numberOf b.hash = b.number ∧ b.number + 1 < 2 ^ 63
  | _ => True

namespace Driver

variable {S Event Resume Action Effect : Type} {service : Service S Event Resume Action Effect}
  {numberOf : B256 → Nat} {d : Driver S Event}

/-- A driver that watches is aligned. -/
structure Watches (numberOf : B256 → Nat) (d : Driver S Event) (l : Loop Event) : Prop where
  inStep : ∃ answered chain, l.watcher.InStep answered chain
  fits : l.Fits
  told : l.watcher.Told numberOf
  aligned : ∃ state status, d.state.inner = some (state, status) ∧
    (Aligned d.state.snapshots.blocks l.watcher status ∨
      ∃ next, status = .blockPending next ∧ Rollback d.state.snapshots.blocks l.watcher next)

/-- The invariant of a driver. -/
structure Holds (numberOf : B256 → Nat) (d : Driver S Event) : Prop where
  stored : ∀ n ∈ d.state.snapshots, n + 1 < 2 ^ 63
  watches : ∀ l, d.watching = some l → d.Watches numberOf l

/-- A driver that does not run. -/
theorem Holds.down {state : StateMachine S} (h : ∀ n ∈ state.snapshots, n + 1 < 2 ^ 63) :
    (⟨state, none⟩ : Driver S Event).Holds numberOf :=
  ⟨h, fun l hl => absurd hl (by simp)⟩

/-- An update was taken just if it does not go below the oldest snapshot.  An uncle does not if any
snapshot is of the safe block or below. -/
structure Exact (handled : Handled S Event Action Effect) : Prop where
  refused : (∃ e, handled.result = .error e) ↔
    GoesBelow handled.before.snapshots.blocks handled.update
  above : ∀ number, handled.update = .block (.uncle number) →
    (∃ n ∈ handled.before.snapshots, n ≤ handled.watcher.blocks.safe.number) →
      ¬GoesBelow handled.before.snapshots.blocks handled.update

/-- An uncle is above the safe block, or its parent is stored. -/
theorem uncle_above {stored : Set Nat} {w w' : Watcher Event} {status : Status}
    (h : Aligned stored w status ∨ ∃ next, status = .blockPending next ∧ Rollback stored w next)
    {number : Nat} (hy : Watcher.Yields w w' [.block (.uncle number)]) :
    w'.blocks.safe.number < number ∨ 0 < number ∧ number - 1 ∈ stored := by
  cases hy with
  | queued update queue idle first blocks step =>
    rcases h with h | ⟨next, -, -, n, queue', hq, hpos, -, hmem, -⟩
    · have hnone : ∀ next, ¬Queued w.blocks.pending w.blocks.safe.number next w.blocks.queue := by
        intro next hqueue
        rw [first] at hqueue
        exact hqueue.elim
      cases h with
      | initialized hs hfresh hqueue => exact absurd hqueue (hnone _)
      | pending next hs hwaits =>
        rcases hwaits with ⟨hqueue, -⟩ | ⟨hempty, -⟩
        · exact absurd hqueue (hnone _)
        · exact absurd (hempty.symm.trans first) (by simp)
      | events n hs hqueue => exact absurd hqueue (hnone _)
      | warp f l hs range hqueue => exact absurd hqueue (hnone _)
    · obtain ⟨heq, -⟩ := List.cons.inj (hq.symm.trans first)
      obtain rfl := BlockUpdate.uncle.inj heq
      exact .inr ⟨hpos, hmem⟩
  | uncled number idle first above last pending queue safe step => exact .inl (safe ▸ above)
  | revalidated number fetching above pending queue safe step => exact .inl (safe ▸ above)

variable (service) in
/-- What a poll returns, and what the machine makes of it. -/
theorem commit_spec {l l' : Loop Event} (h : d.Holds numberOf) (hl : d.watching = some l)
    {u : WatcherUpdate Event} (hy : Watcher.Yields l.watcher l'.watcher [u]) :
    Exact (d.commit service l' u).2 ∧
      (∀ n ∈ (d.commit service l' u).1.snapshots, n + 1 < 2 ^ 63) ∧
      ∀ commands, (d.commit service l' u).2.result = .ok commands →
        ∃ state status, (d.commit service l' u).1.inner = some (state, status) ∧
          Aligned (d.commit service l' u).1.snapshots.blocks l'.watcher status := by
  obtain ⟨-, -, told, state, status, hin, haligned⟩ := h.watches l hl
  have habove : ∀ number, u = .block (.uncle number) →
      (∃ n ∈ d.state.snapshots, n ≤ l'.watcher.blocks.safe.number) →
        ¬GoesBelow d.state.snapshots.blocks u := by
    rintro number rfl ⟨n, hn, hle⟩ hbelow
    rcases uncle_above haligned hy with hlt | ⟨hpos, hmem⟩
    · have := hbelow n hn
      omega
    · have := hbelow _ hmem
      omega
  rcases handles service.apply hin told.pending h.stored haligned hy with
    ⟨hnot, state', status', snapshots, commands, hhandled, haligned', hstored⟩ | ⟨hbelow, e, hhandled⟩
  · simp only [commit, hhandled]
    refine ⟨⟨⟨fun ⟨e, he⟩ => absurd he (by simp), fun hbelow => absurd hbelow hnot⟩, habove⟩, ?_, ?_⟩
    · intro n hn
      rcases hstored n hn with hn | hn
      · exact h.stored n hn
      · exact hn
    · exact fun _ _ => ⟨state', status', rfl, haligned'⟩
  · simp only [commit, hhandled]
    exact ⟨⟨⟨fun _ => hbelow, fun _ => ⟨e, rfl⟩⟩, habove⟩, h.stored,
      fun commands hc => absurd hc (by simp)⟩

variable (service) in
/-- A poll of the update future that returns an update. -/
theorem poll_update {node : NodeView} {l : Loop Event} (hl : d.watching = some l)
    {u : WatcherUpdate Event} (hu : (l.poll service.bloomBits node).2 = [.ok u]) :
    d.poll service node = d.update service (l.poll service.bloomBits node).1 u ∧
      d.crash service node =
        (⟨(d.commit service (l.poll service.bloomBits node).1 u).1, none⟩,
          [(d.commit service (l.poll service.bloomBits node).1 u).2]) := by
  simp only [poll, crash, hl]
  generalize l.poll service.bloomBits node = r at hu
  obtain ⟨l', outcomes⟩ := r
  obtain rfl : outcomes = [.ok u] := hu
  exact ⟨rfl, rfl⟩

variable (service) in
/-- One that does not. -/
theorem poll_nothing {node : NodeView} {l : Loop Event} (hl : d.watching = some l)
    (hu : ∀ u, (l.poll service.bloomBits node).2 ≠ [.ok u]) :
    d.poll service node =
        ({ d with watching := running (l.poll service.bloomBits node).1 }, []) ∧
      d.crash service node = ({ d with watching := none }, []) := by
  unfold poll crash
  rw [hl]
  dsimp only
  generalize l.poll service.bloomBits node = r at hu
  obtain ⟨l', outcomes⟩ := r
  constructor
  · split
    · rename_i l'' u heq
      exact absurd (Prod.mk.inj heq).2 (hu u)
    · rename_i heq
      rw [(Prod.mk.inj heq).1]
  · split
    · rename_i l'' u heq
      exact absurd (Prod.mk.inj heq).2 (hu u)
    · rfl

theorem running_some {l l' : Loop Event} (h : running l = some l') : l' = l := by
  unfold running at h
  split at h
  · exact absurd h (by simp)
  · exact (Option.some.inj h).symm

variable (service) in
/-- The update future after a poll, and what it returned. -/
theorem watches_poll {node : NodeView} (hnode : node.Serves numberOf) {l : Loop Event}
    (h : d.Watches numberOf l) :
    let l' := (l.poll service.bloomBits node).1
    (∃ answered chain, l'.watcher.InStep answered chain) ∧ l'.Fits ∧ l'.watcher.Told numberOf ∧
      ((∃ u, (l.poll service.bloomBits node).2 = [.ok u] ∧
          Watcher.Yields l.watcher l'.watcher [u]) ∨
        (∀ u, (l.poll service.bloomBits node).2 ≠ [.ok u]) ∧
          Watcher.Yields l.watcher l'.watcher []) := by
  obtain ⟨⟨answered, chain, hstep⟩, hfits, htold, -⟩ := h
  obtain ⟨⟨chain', -, hstep'⟩, hfits', -, -⟩ := Loop.move_inStep service.bloomBits (m := .poll node)
    hstep hfits (by rintro node' ⟨⟩; exact hnode.honest)
  obtain ⟨htold', hyields⟩ := Loop.poll_yields service.bloomBits hnode hstep htold hfits
  exact ⟨⟨_, _, hstep'⟩, hfits', htold', hyields⟩

variable (service) in
/-- What is committed is there after the prune, as far as it may be reorged. -/
theorem update_spec {l l' : Loop Event} (h : d.Holds numberOf) (hl : d.watching = some l)
    {u : WatcherUpdate Event} (hy : Watcher.Yields l.watcher l'.watcher [u])
    (hstep : ∃ answered chain, l'.watcher.InStep answered chain) (hfits : l'.Fits)
    (htold : l'.watcher.Told numberOf) :
    (d.update service l' u).2 = [(d.commit service l' u).2] ∧
      (d.update service l' u).1.Holds numberOf := by
  obtain ⟨-, hstored, haligned⟩ := commit_spec service h hl hy
  have hstatus : l'.watcher.blocks.status.safe = l'.watcher.blocks.safe.number := rfl
  simp only [update]
  generalize d.commit service l' u = r at hstored haligned
  obtain ⟨state, handled⟩ := r
  dsimp only at hstored haligned ⊢
  cases hresult : handled.result with
  | error e => exact ⟨rfl, .down hstored⟩
  | ok commands =>
    obtain ⟨s, status, hin, hal⟩ := haligned commands hresult
    dsimp only
    cases hprune : state.snapshots.prune l'.watcher.blocks.status.safe with
    | error e => exact ⟨rfl, .down hstored⟩
    | ok snapshots =>
      have hmem := SnapshotStore.mem_prune hprune
      refine ⟨rfl, fun n hn => hstored n ((hmem n).mp hn).1, ?_⟩
      rintro l'' ⟨⟩
      refine ⟨hstep, hfits, htold, s, status, hin, .inl ?_⟩
      dsimp only
      rw [SnapshotStore.blocks_prune hprune, hstatus]
      refine hal.prune fun hne => ?_
      obtain ⟨n, hn⟩ := hne
      rcases state.snapshots.status_cases with ⟨-, -, hempty⟩ | ⟨-, latest, -, -, hlatest⟩
      · exact absurd hn (hempty n)
      · obtain ⟨hget, hmax⟩ := SnapshotStore.current_mem hlatest
        exact ⟨latest.1, SnapshotStore.mem_iff.mpr ⟨_, hget⟩, hmax⟩

variable (service) in
/-- **A poll** keeps the invariant, as does a crash. -/
theorem poll_holds {node : NodeView} (hnode : node.Serves numberOf) (h : d.Holds numberOf) :
    ((d.poll service node).1.Holds numberOf ∧ ∀ handled ∈ (d.poll service node).2, Exact handled) ∧
      (d.crash service node).1.Holds numberOf ∧
        ∀ handled ∈ (d.crash service node).2, Exact handled := by
  cases hl : d.watching with
  | none =>
    simp only [poll, crash, hl]
    exact ⟨⟨h, by simp⟩, h, by simp⟩
  | some l =>
    obtain ⟨hstep, hfits, htold, ⟨u, hu, hy⟩ | ⟨hu, hy⟩⟩ :=
      watches_poll service hnode (h.watches l hl)
    · obtain ⟨hpoll, hcrash⟩ := poll_update service hl hu
      obtain ⟨hexact, hstored, -⟩ := commit_spec service h hl hy
      obtain ⟨houtputs, hholds⟩ := update_spec service h hl hy hstep hfits htold
      rw [hpoll, hcrash, houtputs]
      refine ⟨⟨hholds, ?_⟩, .down hstored, ?_⟩
      · exact fun handled hmem => List.mem_singleton.mp hmem ▸ hexact
      · exact fun handled hmem => List.mem_singleton.mp hmem ▸ hexact
    · obtain ⟨hpoll, hcrash⟩ := poll_nothing service hl hu
      rw [hpoll, hcrash]
      refine ⟨⟨⟨h.stored, fun l' hl' => ?_⟩, by simp⟩, .down h.stored, by simp⟩
      obtain rfl := running_some hl'
      obtain ⟨-, -, -, state, status, hin, haligned⟩ := h.watches l hl
      cases hy with
      | nothing blocks step =>
        refine ⟨hstep, hfits, htold, state, status, hin, ?_⟩
        rcases haligned with haligned | ⟨next, hnext, hrollback⟩
        · exact .inl (haligned.nothing blocks step)
        · exact .inr ⟨next, hnext, hrollback.nothing blocks step⟩

/-- The watcher of a started process, if it started. -/
theorem start_watching {answers : List BlockAnswer} {l : Loop Event}
    (h : (d.start service answers).watching = some l) :
    ∃ blocks, Initializing.latest.run service.blocks d.state.snapshots.status answers = .ready blocks ∧
      l = ⟨⟨blocks, .create service.logs service.addresses service.events⟩, .start⟩ := by
  have hsnapshots : (StateMachine.withInit service.init d.state.snapshots).snapshots =
      d.state.snapshots := rfl
  simp only [start] at h
  split at h
  · exact absurd h (by simp)
  · rw [hsnapshots] at h
    split at h
    · rename_i blocks hready
      exact ⟨blocks, hready, (Option.some.inj h).symm⟩
    · exact absurd h (by simp)

/-- **A start** resumes from what is stored. -/
theorem start_holds {answers : List BlockAnswer} (htopics : service.events.topics.Nodup)
    (hanswers : (DriverMove.start answers : DriverMove Resume).Honest numberOf service.blocks)
    (hstored : ∀ n ∈ d.state.snapshots, n + 1 < 2 ^ 63) :
    (d.start service answers).Holds numberOf := by
  refine ⟨hstored, fun l hl => ?_⟩
  obtain ⟨blocks, hready, rfl⟩ := start_watching hl
  obtain ⟨hhonest, hblocks⟩ := hanswers
  have hhonest := hhonest d.state.snapshots.status
  obtain ⟨s, hs, hdone, hfinish⟩ := Initializing.run_finish (i := .latest) trivial hhonest
    (fun b hb => mem_answeredBlocks.mpr hb) hready
  obtain ⟨hw, -, -⟩ := Initializing.finish_ready hs hdone hfinish
  obtain ⟨hqueue, hrecent⟩ := Initializing.finish_recent hs hfinish
  obtain ⟨last, hlast, hpending⟩ := Initializing.finish_pending hs hdone hfinish
  refine ⟨⟨_, _, Watcher.inStep_create hready hhonest _ _ _⟩, trivial, ?_, ?_⟩
  · refine ⟨htopics, fun number hash bloom hmem => ?_, fun n k b r hstep => ?_, ?_⟩
    · rw [hqueue] at hmem
      rcases List.mem_append.mp hmem with hmem | hmem
      · exact absurd hmem initialUpdates_noNew
      · obtain ⟨b, hb, heq⟩ := List.mem_map.mp hmem
        obtain ⟨rfl, rfl, -⟩ := BlockUpdate.new.inj heq
        exact (hblocks b (hrecent b (List.mem_of_mem_filter hb))).1
    · exact absurd hstep (by simp [EventWatcher.create])
    · rw [hpending]
      exact (hblocks last hlast).2
  · exact start_aligned hw rfl hstored hqueue

/-- **One move** keeps the invariant, and the update it hands over is taken just if it does not go
below the oldest snapshot. -/
theorem move_holds (htopics : service.events.topics.Nodup) {m : DriverMove Resume}
    (hm : m.Honest numberOf service.blocks) (h : d.Holds numberOf) :
    (d.move service m).1.Holds numberOf ∧ ∀ handled ∈ (d.move service m).2, Exact handled := by
  cases m with
  | poll node => exact (poll_holds service hm h).1
  | crash node => exact (poll_holds service hm h).2
  | stop => exact ⟨.down h.stored, by simp [move]⟩
  | start answers => exact ⟨start_holds htopics hm h.stored, by simp [move]⟩
  | resume result =>
    refine ⟨?_, by simp [move]⟩
    simp only [move, resume]
    split
    · exact h
    · rename_i l hl
      obtain ⟨hstep, hfits, htold, state, status, hin, haligned⟩ := h.watches l hl
      simp only [StateMachine.handleResume, hin]
      refine ⟨h.stored, ?_⟩
      rintro l' ⟨⟩
      have hsame : (l.move service.bloomBits .cancel).1.watcher = l.watcher ∧
          (l.move service.bloomBits .cancel).1.Fits := by
        simp only [Loop.move]
        split
        · exact ⟨rfl, hfits⟩
        · exact ⟨rfl, trivial⟩
      refine ⟨?_, hsame.2, ?_, _, status, rfl, ?_⟩
      · rw [hsame.1]
        exact hstep
      · rw [hsame.1]
        exact htold
      · rw [hsame.1]
        exact haligned

theorem holds_empty (numberOf : B256 → Nat) (service : Service S Event Resume Action Effect) :
    (empty service).Holds numberOf :=
  .down fun n hn => absurd hn (by simp [StateMachine.withInit])

/-- Every run keeps it. -/
theorem run_holds (htopics : service.events.topics.Nodup) {moves : List (DriverMove Resume)}
    (hmoves : ∀ m ∈ moves, m.Honest numberOf service.blocks) (h : d.Holds numberOf) :
    (Reactive.runState (move service) d moves).Holds numberOf ∧
      ∀ handled ∈ Reactive.runOutputs (move service) d moves, Exact handled := by
  induction moves generalizing d with
  | nil => exact ⟨h, by simp [Reactive.runOutputs]⟩
  | cons m moves ih =>
    obtain ⟨hstep, hexact⟩ := move_holds htopics (hmoves m List.mem_cons_self) h
    obtain ⟨hrun, hrest⟩ := ih (fun m' hm' => hmoves m' (List.mem_cons_of_mem _ hm')) hstep
    refine ⟨hrun, fun handled hmem => ?_⟩
    rcases List.mem_append.mp hmem with hmem | hmem
    · exact hexact handled hmem
    · exact hrest handled hmem

/-- **The watcher and the state machine agree.**  However a driver is run -- polled, cancelled,
stopped anywhere, killed between a commit and its prune, started again on a node with another chain
-- the state machine takes every update of the watcher, but one that goes below the oldest snapshot:
the uncle of a block where none is stored below, or a block that is not above one.  A reorg within
the window does not, once a snapshot of the safe block or of one below is stored. -/
theorem driver_accepts (service : Service S Event Resume Action Effect) (numberOf : B256 → Nat)
    (htopics : service.events.topics.Nodup) {moves : List (DriverMove Resume)}
    (hmoves : ∀ m ∈ moves, m.Honest numberOf service.blocks)
    {handled : Handled S Event Action Effect}
    (hmem : handled ∈ Reactive.runOutputs (move service) (empty service) moves) :
    ((∃ e, handled.result = .error e) ↔
        GoesBelow handled.before.snapshots.blocks handled.update) ∧
      ∀ number, handled.update = .block (.uncle number) →
        (∃ n ∈ handled.before.snapshots, n ≤ handled.watcher.blocks.safe.number) →
        ∃ commands, handled.result = .ok commands := by
  obtain ⟨-, hall⟩ := run_holds htopics hmoves (holds_empty numberOf service)
  obtain ⟨hrefused, habove⟩ := hall handled hmem
  refine ⟨hrefused, fun number hu hstored => ?_⟩
  have hnot := habove number hu hstored
  cases hresult : handled.result with
  | ok commands => exact ⟨commands, rfl⟩
  | error e => exact absurd (hrefused.mp ⟨e, hresult⟩) hnot

/-! ### Two runs -/

/-- A service that counts its messages. -/
def toyService : Service Nat Nat Unit Nat Unit where
  apply n _ := (n + 1, [.action n])
  init := 0
  bloomBits _ := 0
  blocks := ⟨2, none⟩
  logs := (EventWatcher.toyEvents []).config
  addresses := [1]
  events := watcherEvents []

/-- The blocks its node has: a hash ends in the number of its block. -/
def toyNumber (hash : B256) : Nat := hash.val % 10

/-- A node with some blocks, and no logs. -/
def toyChain (blocks : List BlockHeader) : NodeView where
  getLogs _ := .ok []
  getBlock
    | .latest => .ok blocks.getLast?
    | .number n => .ok (blocks.find? fun b => b.number = n)

theorem toyChain_serves {blocks : List BlockHeader}
    (h : ∀ b ∈ blocks, toyNumber b.hash = b.number ∧ b.number + 1 < 2 ^ 63) :
    (toyChain blocks).Serves toyNumber := by
  refine ⟨fun n b hb => ?_, fun id b hb => ?_, fun _ => ⟨[], .nil, by simp, fun f logs _ hlogs => ?_⟩⟩
  · have hfind : blocks.find? (fun x => x.number = n) = some b := Except.ok.inj hb
    simpa using List.find?_some hfind
  · cases id with
    | latest => exact h b (List.mem_of_getLast? (Except.ok.inj hb))
    | number n => exact h b (List.mem_of_find?_eq_some (Except.ok.inj hb))
  · exact Except.ok.inj hlogs ▸ .refl _

/-- The first chain. -/
def toyFirst : NodeView :=
  toyChain [BlockWatcher.toyBlock 0 10 9, BlockWatcher.toyBlock 1 11 10, BlockWatcher.toyBlock 2 12 11]

/-- One that leaves it below the first block that was processed. -/
def toyFork : NodeView :=
  toyChain [BlockWatcher.toyBlock 0 10 9, BlockWatcher.toyBlock 1 21 10, BlockWatcher.toyBlock 2 22 21,
    BlockWatcher.toyBlock 3 23 22]

theorem toyFirst_serves : toyFirst.Serves toyNumber := toyChain_serves (by decide)

theorem toyFork_serves : toyFork.Serves toyNumber := toyChain_serves (by decide)

theorem toyAnswers_honest :
    (.start BlockWatcher.toyAnswers : DriverMove Unit).Honest toyNumber toyService.blocks := by
  refine ⟨fun indexed => ⟨fun b n _ h => absurd h (by simp [Initializing.request]), ?_⟩, by decide⟩
  intro i hi
  obtain rfl := Initialized.waiting.inj hi
  refine ⟨?_, ?_⟩
  · intro b n hb hn
    obtain rfl := Option.some.inj (Except.ok.inj hb)
    exact BlockId.number.inj hn
  · intro i hi
    obtain rfl := Initialized.waiting.inj hi
    refine ⟨?_, ?_⟩
    · intro b n hb hn
      obtain rfl := Option.some.inj (Except.ok.inj hb)
      exact BlockId.number.inj hn
    · intro i hi
      obtain ⟨w, hw⟩ : ∃ w, Initialized.ready w = .waiting i := ⟨_, hi⟩
      cases hw

/-- A fresh start, two blocks, and the fork. -/
def toyForked : List (DriverMove Unit) :=
  .start BlockWatcher.toyAnswers ::
    (List.replicate 6 (.poll toyFirst) ++ List.replicate 4 (.poll toyFork))

/-- The uncle of the second block is taken, that of the first is not. -/
theorem driver_accepts_forked :
    let outputs := Reactive.runOutputs (move toyService) (empty toyService) toyForked
    blockUpdates (outputs.map (·.update)) = [.new 1 11 0, .new 2 12 0, .uncle 2, .uncle 1] ∧
      outputs.map (·.result.toOption.isSome) = [true, true, true, true, true, false] ∧
      ∀ handled ∈ outputs, (∃ e, handled.result = .error e) ↔
        GoesBelow handled.before.snapshots.blocks handled.update := by
  have hmoves : ∀ m ∈ toyForked, m.Honest toyNumber toyService.blocks := by
    intro m hm
    rcases List.mem_cons.mp hm with rfl | hm
    · exact toyAnswers_honest
    · rcases List.mem_append.mp hm with hm | hm
      · exact List.eq_of_mem_replicate hm ▸ toyFirst_serves
      · exact List.eq_of_mem_replicate hm ▸ toyFork_serves
  exact ⟨by decide +kernel, by decide +kernel, fun handled hmem =>
    (driver_accepts toyService toyNumber (by decide) hmoves hmem).1⟩

end Driver

/-! ## 2. Replays -/

namespace SnapshotStore

variable {S : Type} {store store' : SnapshotStore S} {number safe : Nat} {state : S}

/-- A single snapshot. -/
def only (number : Nat) (state : S) : SnapshotStore S := (∅ : SnapshotStore S).insert number state

theorem get_only (n : Nat) : (only number state)[n]? = if n = number then some state else none := by
  rw [only, BTreeMap.get_insert]
  split
  · rfl
  · exact Std.ExtTreeMap.getElem?_empty

theorem blocks_only : (only number state).blocks = {number} := by
  ext n
  change n ∈ only number state ↔ n = number
  rw [mem_iff, get_only]
  split
  · rename_i h
    exact ⟨fun _ => h, fun _ => ⟨state, rfl⟩⟩
  · rename_i h
    exact ⟨fun hs => absurd hs (by simp), fun hn => absurd hn h⟩

theorem eq_only (hget : store[number]? = some state) (h : ∀ n ∈ store, n = number) :
    store = only number state := by
  refine Std.ExtTreeMap.ext_getElem? fun n => ?_
  rw [get_only]
  split
  · rename_i hn
    rw [hn, hget]
  · rename_i hn
    exact Option.eq_none_iff_forall_ne_some.mpr fun s hs => hn (h n (mem_iff.mpr ⟨s, hs⟩))

/-- To roll back the block after the oldest snapshot leaves that alone. -/
theorem reorg_oldest (h : store.oldest = some (number, state)) (hlt : number + 1 < 2 ^ 63) :
    store.reorg (number + 1) = .ok (only number state, state) := by
  obtain ⟨hget, hmin⟩ := oldest_mem h
  obtain ⟨kept, restored, hreorg, hrestored, hkept⟩ :=
    reorg_ok (Nat.succ_pos number) hlt (mem_iff.mpr ⟨state, hget⟩)
  obtain rfl : state = restored := Option.some.inj (hget.symm.trans hrestored)
  have hsub := (reorg_sub hreorg).1
  obtain ⟨s, hs⟩ := mem_iff.mp ((hkept number).mpr ⟨mem_iff.mpr ⟨state, hget⟩, Nat.lt_succ_self _⟩)
  obtain rfl : state = s := Option.some.inj (hget.symm.trans (hsub number s hs))
  have honly : kept = only number state := eq_only hs fun n hn =>
    Nat.le_antisymm (Nat.le_of_lt_succ ((hkept n).mp hn).2) (hmin n ((hkept n).mp hn).1)
  rw [hreorg, honly]

theorem prune_sub (h : store.prune safe = .ok store') {n : Nat} {s : S} (hs : store'[n]? = some s) :
    store[n]? = some s := by
  simp only [prune, Except.bind_eq_ok, Except.pure_eq_ok] at h
  obtain ⟨b, -, rfl⟩ := h
  rw [BTreeMap.get_filterMap] at hs
  obtain ⟨s', hs', hite⟩ := Option.bind_eq_some_iff.mp hs
  split at hite
  · exact absurd hite (by simp)
  · rw [hs', hite]

theorem prune_only (h : (only number state).prune safe = .ok store') : store' = only number state := by
  have hmem := mem_prune h
  have hall : ∀ n, n ∈ only number state ↔ n = number := fun n => Set.ext_iff.mp blocks_only n
  refine eq_only ?_ fun n hn => (hall n).mp ((hmem n).mp hn).1
  simp only [prune, Except.bind_eq_ok, Except.pure_eq_ok] at h
  obtain ⟨b, -, rfl⟩ := h
  have htip : ¬(number < b ∧ (only number state).current.any (number < ·.1) = true) := by
    rintro ⟨-, hlt⟩
    rcases status_cases (only number state) with ⟨-, hnone, -⟩ | ⟨-, latest, -, -, hlatest⟩
    · rw [hnone] at hlt
      exact absurd hlt (by simp)
    · obtain ⟨hget, -⟩ := current_mem hlatest
      have heq := (hall latest.1).mp (mem_iff.mpr ⟨_, hget⟩)
      rw [hlatest, Option.any_some, heq] at hlt
      exact absurd hlt (by simp)
  rw [BTreeMap.get_filterMap, get_only, if_pos rfl, Option.bind_some, if_neg htip]

theorem withInit_only {init : S} (hlt : number + 1 < 2 ^ 63) :
    StateMachine.withInit init (only number state) =
      ⟨some (state, .blockPending (number + 1)), only number state⟩ := by
  have hmax : number < u64Max := by unfold u64Max; omega
  rcases status_cases (only number state) with ⟨-, -, hempty⟩ | ⟨-, latest, -, -, hlatest⟩
  · exact absurd ((Set.ext_iff.mp blocks_only number).mpr rfl) (hempty number)
  · obtain ⟨hget, -⟩ := current_mem hlatest
    have heq : latest.1 = number := (Set.ext_iff.mp blocks_only latest.1).mp (mem_iff.mpr ⟨_, hget⟩)
    rw [get_only, if_pos heq] at hget
    obtain ⟨n, s⟩ := latest
    obtain rfl : n = number := heq
    obtain rfl : state = s := Option.some.inj hget
    simp only [StateMachine.withInit, hlatest, nextBlock, if_pos hmax]
    rfl

end SnapshotStore

/-- An update goes on from a block. -/
def WatcherUpdate.StartsAt {Event : Type} (n : Nat) : WatcherUpdate Event → Prop
  | .block (.warp first _) => first = n
  | .block (.new number _ _) => number = n
  | _ => False

namespace Driver

variable {S Event Resume Action Effect : Type} {service : Service S Event Resume Action Effect}
  {numberOf : B256 → Nat} {d : Driver S Event} {oldest : Nat} {state : S}

/-- A process that has started, and handled nothing but the uncle of the block after the oldest
snapshot.  Either that is still queued, or the machine is as started from that snapshot alone. -/
def Resuming (service : Service S Event Resume Action Effect) (oldest : Nat) (state : S)
    (d : Driver S Event) : Prop :=
  ∀ l, d.watching = some l →
    (d.state = .withInit service.init d.state.snapshots ∧
        d.state.snapshots.oldest = some (oldest, state) ∧
        ∃ queue, l.watcher.blocks.queue = .uncle (oldest + 1) :: queue) ∨
      d.state = .withInit service.init (SnapshotStore.only oldest state)

/-- From the oldest snapshot alone, the next update is of the block after it, or goes below. -/
theorem resumed_update {l l' : Loop Event} (hlt : oldest + 1 < 2 ^ 63)
    (hd : d.state = .withInit service.init (SnapshotStore.only oldest state))
    (h : d.Watches numberOf l) {u : WatcherUpdate Event}
    (hy : Watcher.Yields l.watcher l'.watcher [u]) :
    u.StartsAt (oldest + 1) ∨ GoesBelow d.state.snapshots.blocks u := by
  obtain ⟨-, -, -, state', status, hin, haligned⟩ := h
  rw [SnapshotStore.withInit_only hlt] at hd
  rw [hd] at hin haligned ⊢
  obtain ⟨-, rfl⟩ := Prod.mk.inj (Option.some.inj hin)
  have hblocks : (SnapshotStore.only oldest state).blocks = {oldest} := SnapshotStore.blocks_only
  rw [hblocks] at haligned ⊢
  rcases haligned with haligned | ⟨next, hnext, -, number, queue, -, hpos, hlt', hmem, -⟩
  · cases haligned with
    | pending next hs hwaits =>
      cases hy with
      | logs update blocks step => exact absurd step (by rw [hs]; simp [Expects.accept])
      | revalidated number fetching => exact absurd (hs.symm.trans fetching) (by simp)
      | queued update queue idle first blocks step =>
        rcases hwaits with ⟨hqueue, -⟩ | ⟨hempty, -⟩
        · rw [first] at hqueue
          cases update with
          | warp f t => exact .inl (hqueue.1 _ rfl).symm
          | uncle n => exact hqueue.elim
          | new n k b => exact .inl (hqueue.1 _ rfl).symm
        · exact absurd (hempty.symm.trans first) (by simp)
      | uncled number idle first above last pending queue safe step =>
        refine .inr fun n hn => ?_
        obtain rfl : n = oldest := hn
        rcases hwaits with ⟨hqueue, -⟩ | ⟨-, -, hbehind⟩
        · rw [first] at hqueue
          have := hqueue _ rfl
          omega
        · have := (hbehind n rfl).1
          omega
      | recorded hash bloom idle first pending queue safe step =>
        rcases hwaits with ⟨hqueue, -⟩ | ⟨-, -, hbehind⟩
        · rw [first] at hqueue
          exact .inl (hqueue _ rfl).symm
        · exact .inr ⟨⟨oldest, rfl⟩, fun n hn => (hbehind n hn).1⟩
  · obtain rfl : oldest + 1 = next := Status.blockPending.inj hnext
    obtain heq : number - 1 = oldest := hmem
    omega

/-- **A poll while resuming**: nothing, the rollback, or the block after the oldest snapshot. -/
theorem resuming_poll {node : NodeView} (hnode : node.Serves numberOf) (hlt : oldest + 1 < 2 ^ 63)
    (h : d.Holds numberOf) (hr : d.Resuming service oldest state) :
    ((d.poll service node).2 = [] ∧ (d.poll service node).1.Resuming service oldest state) ∨
      ∃ handled, (d.poll service node).2 = [handled] ∧
        ((handled.update = .block (.uncle (oldest + 1)) ∧
            (d.poll service node).1.Resuming service oldest state) ∨
          handled.before = .withInit service.init (SnapshotStore.only oldest state) ∧
            (handled.update.StartsAt (oldest + 1) ∨
              GoesBelow handled.before.snapshots.blocks handled.update)) := by
  cases hl : d.watching with
  | none =>
    have hpoll : d.poll service node = (d, []) := by
      unfold poll
      rw [hl]
    rw [hpoll]
    exact .inl ⟨rfl, hr⟩
  | some l =>
    have hw := h.watches l hl
    obtain ⟨hstep, hfits, htold, ⟨u, hu, hy⟩ | ⟨hu, hy⟩⟩ := watches_poll service hnode hw
    · obtain ⟨hpoll, -⟩ := poll_update service hl hu
      obtain ⟨houtputs, -⟩ := update_spec service h hl hy hstep hfits htold
      generalize (l.poll service.bloomBits node).1 = l' at *
      rw [hpoll]
      refine .inr ⟨_, houtputs, ?_⟩
      rcases hr l hl with ⟨hd, holdest, queue, hq⟩ | hd
      · -- the uncle is next
        obtain ⟨-, -, -, s, status, hin, haligned⟩ := hw
        have hnone : ∀ next, ¬Queued l.watcher.blocks.pending l.watcher.blocks.safe.number next
            l.watcher.blocks.queue := by
          intro next hqueue
          rw [hq] at hqueue
          exact hqueue.elim
        obtain ⟨next, rfl, hrollback⟩ : ∃ next, status = .blockPending next ∧
            Rollback d.state.snapshots.blocks l.watcher next := by
          refine haligned.resolve_left fun haligned => ?_
          cases haligned with
          | initialized hs hfresh hqueue => exact hnone _ hqueue
          | pending next hs hwaits =>
            rcases hwaits with ⟨hqueue, -⟩ | ⟨hempty, -⟩
            · exact hnone _ hqueue
            · exact absurd (hempty.symm.trans hq) (by simp)
          | events n hs hqueue => exact hnone _ hqueue
          | warp f t hs range hqueue => exact hnone _ hqueue
        obtain ⟨hidle, number, rest, hfirst, -, hnext, -⟩ := hrollback
        obtain ⟨hnumber, -⟩ := List.cons.inj (hq.symm.trans hfirst)
        obtain rfl : oldest + 1 = number := BlockUpdate.uncle.inj hnumber
        obtain rfl : u = .block (.uncle (oldest + 1)) := by
          cases hy with
          | logs update blocks step => exact absurd step (by rw [hidle]; simp [Expects.accept])
          | queued update rest idle first =>
            obtain ⟨rfl, -⟩ := List.cons.inj (hq.symm.trans first)
            rfl
          | uncled n idle first => exact absurd (hq.symm.trans first) (by simp)
          | recorded hash bloom idle first => exact absurd (hq.symm.trans first) (by simp)
          | revalidated n fetching => exact absurd (hidle.symm.trans fetching) (by simp)
        have htry : tryUpdate service.apply d.state.snapshots s (.blockPending next)
            (.uncle (oldest + 1) : Update Event) =
            .ok (state, .blockPending (oldest + 1), SnapshotStore.only oldest state, []) := by
          simp only [tryUpdate, Status.acceptsUncle, decide_eq_true hnext, if_true,
            SnapshotStore.reorg_oldest holdest hlt]
          rfl
        have hhandled : d.state.handleUpdate service.apply
            (WatcherUpdate.update (.block (.uncle (oldest + 1)) : WatcherUpdate Event)) = _ :=
          handleUpdate_ok hin htry
        refine .inl ⟨rfl, fun l'' hl'' => .inr ?_⟩
        simp only [update, commit, hhandled] at hl'' ⊢
        cases hprune : (SnapshotStore.only oldest state).prune l'.watcher.blocks.status.safe with
        | error e =>
          rw [hprune] at hl''
          exact absurd hl'' (by simp)
        | ok snapshots =>
          rw [SnapshotStore.prune_only hprune, SnapshotStore.withInit_only hlt]
      · refine .inr ⟨hd, ?_⟩
        exact resumed_update hlt hd hw hy
    · obtain ⟨hpoll, -⟩ := poll_nothing service hl hu
      rw [hpoll]
      refine .inl ⟨rfl, fun l' hl' => ?_⟩
      obtain rfl := running_some hl'
      cases hy with
      | nothing blocks step =>
        rw [blocks]
        exact hr l hl

/-- A process that starts resumes. -/
theorem resuming_start {answers : List BlockAnswer}
    (hanswers : (DriverMove.start answers : DriverMove Resume).Honest numberOf service.blocks)
    (hstored : ∀ n ∈ d.state.snapshots, n + 1 < 2 ^ 63)
    (holdest : d.state.snapshots.oldest = some (oldest, state)) :
    (d.start service answers).Resuming service oldest state := by
  intro l hl
  obtain ⟨blocks, hready, rfl⟩ := start_watching hl
  obtain ⟨s, hs, hdone, hfinish⟩ := Initializing.run_finish (i := .latest) trivial
    (hanswers.1 d.state.snapshots.status) (fun b hb => mem_answeredBlocks.mpr hb) hready
  obtain ⟨hqueue, -⟩ := Initializing.finish_recent hs hfinish
  obtain ⟨hget, hmin⟩ := SnapshotStore.oldest_mem holdest
  have hmem : oldest ∈ d.state.snapshots := SnapshotStore.mem_iff.mpr ⟨_, hget⟩
  obtain ⟨first, latest, hstatus, hfirst, hlatest⟩ :=
    (SnapshotStore.status_cases d.state.snapshots).resolve_left fun hnone => hnone.2.2 oldest hmem
  obtain rfl : (oldest, state) = first := Option.some.inj (holdest.symm.trans hfirst)
  have hlt := hstored oldest hmem
  have hsucc : checkedSucc oldest = some (oldest + 1) := by
    rw [checkedSucc, if_pos (by unfold u64Max; omega)]
  have hstate : (d.start service answers).state =
      .withInit service.init d.state.snapshots := rfl
  by_cases hle : oldest + 1 ≤ latest.1
  · refine .inl ⟨hstate, holdest, ?_⟩
    rw [hstatus] at hqueue
    simp only [initialUpdates, hsucc, if_pos hle, List.cons_append] at hqueue
    exact ⟨_, hqueue⟩
  · obtain ⟨-, hmax⟩ := SnapshotStore.current_mem hlatest
    refine .inr ?_
    rw [hstate]
    congr 1
    refine SnapshotStore.eq_only hget fun n hn => Nat.le_antisymm ?_ (hmin n hn)
    have := hmax n hn
    omega

/-- **The first update after a start** that is not the rollback. -/
theorem resuming_polls {polls : List NodeView} (hpolls : ∀ node ∈ polls, node.Serves numberOf)
    (hlt : oldest + 1 < 2 ^ 63) (h : d.Holds numberOf) (hr : d.Resuming service oldest state)
    {past rest : List (Handled S Event Action Effect)} {handled : Handled S Event Action Effect}
    (houtputs : Reactive.runOutputs (move service) d (polls.map .poll) = past ++ handled :: rest)
    (hpast : ∀ before ∈ past, before.update = .block (.uncle (oldest + 1)))
    (hnot : handled.update ≠ .block (.uncle (oldest + 1))) :
    handled.before = .withInit service.init (SnapshotStore.only oldest state) ∧
      (handled.update.StartsAt (oldest + 1) ∨
        GoesBelow handled.before.snapshots.blocks handled.update) := by
  induction polls generalizing d past with
  | nil => exact absurd houtputs (by simp [Reactive.runOutputs])
  | cons node polls ih =>
    have hnode := hpolls node List.mem_cons_self
    have hrest := fun node' hnode' => hpolls node' (List.mem_cons_of_mem _ hnode')
    have hholds := (poll_holds service hnode h).1.1
    have hcons : Reactive.runOutputs (move service) d ((node :: polls).map .poll) =
        (d.poll service node).2 ++
          Reactive.runOutputs (move service) (d.poll service node).1 (polls.map .poll) := rfl
    rw [hcons] at houtputs
    rcases resuming_poll hnode hlt h hr with ⟨hnone, hr'⟩ | ⟨first, hfirst, hcases⟩
    · rw [hnone, List.nil_append] at houtputs
      exact ih hrest hholds hr' houtputs hpast
    · rw [hfirst, List.singleton_append] at houtputs
      cases past with
      | nil =>
        obtain ⟨rfl, -⟩ := List.cons.inj houtputs
        rcases hcases with ⟨huncle, -⟩ | hresumed
        · exact absurd huncle hnot
        · exact hresumed
      | cons before past =>
        obtain ⟨rfl, houtputs'⟩ := List.cons.inj houtputs
        have huncle := hpast first List.mem_cons_self
        rcases hcases with ⟨-, hr'⟩ | ⟨hbefore, hresumed⟩
        · exact ih hrest hholds hr' houtputs' fun b hb => hpast b (List.mem_cons_of_mem _ hb)
        · -- an uncle neither starts at the block nor goes below the one before it
          rw [huncle] at hresumed
          rcases hresumed with hstarts | hbelow
          · exact hstarts.elim
          · rw [hbefore, SnapshotStore.withInit_only hlt] at hbelow
            have := hbelow oldest (Set.ext_iff.mp SnapshotStore.blocks_only oldest |>.mpr rfl)
            omega

/-- A process that stops, or tries to start, stores nothing. -/
theorem run_stored {between : List (DriverMove Resume)}
    (hbetween : ∀ m ∈ between, m = .stop ∨ ∃ answers, m = .start answers) :
    (Reactive.runState (move service) d between).state.snapshots = d.state.snapshots := by
  induction between generalizing d with
  | nil => rfl
  | cons m between ih =>
    rw [Reactive.runState_cons, ih fun m' hm' => hbetween m' (List.mem_cons_of_mem _ hm')]
    rcases hbetween m List.mem_cons_self with rfl | ⟨answers, rfl⟩
    · rfl
    · rfl

/-- Logs that are taken: there were snapshots below them only, and there is one of the last block. -/
theorem logs_taken {l l' : Loop Event} (h : d.Holds numberOf) (hl : d.watching = some l)
    {update : EventUpdate Event} (hy : Watcher.Yields l.watcher l'.watcher [.logs update])
    {commands : List (Command Action Effect)}
    (hok : (d.commit service l' (.logs update)).2.result = .ok commands) :
    Filled d.state.snapshots.blocks l'.watcher.blocks.safe.number update.first ∧
      update.first ≤ update.last ∧
      (update.last ≤ l'.watcher.blocks.safe.number ∨ update.first = update.last) ∧
      (d.commit service l' (.logs update)).1.snapshots.blocks =
        insert update.last d.state.snapshots.blocks ∧
      ∀ (n : Nat) (s : S), n ≠ update.last →
        (d.commit service l' (.logs update)).1.snapshots[n]? = some s →
          d.state.snapshots[n]? = some s := by
  obtain ⟨-, -, -, state, status, hin, haligned⟩ := h.watches l hl
  have hcommitted : ∃ final snapshots, d.state.snapshots.commit update.last final = .ok snapshots ∧
      (d.commit service l' (.logs update)).1.snapshots = snapshots := by
    simp only [commit, StateMachine.handleUpdate, hin] at hok ⊢
    split at hok
    · rename_i s' status' snapshots' commands' htry
      simp only [WatcherUpdate.update, tryUpdate] at htry
      split at htry
      · simp only [Except.bind_eq_ok, Except.pure_eq_ok] at htry
        obtain ⟨status'', -, snapshots, hcommit, heq⟩ := htry
        exact ⟨_, snapshots, hcommit, by rw [← (Prod.mk.inj (Prod.mk.inj (Prod.mk.inj heq).2).2).1]⟩
      · exact absurd htry Except.throw_ne_ok
    · exact absurd hok (by simp)
  obtain ⟨final, snapshots, hcommit, hsnapshots⟩ := hcommitted
  rw [hsnapshots]
  have hrest : snapshots.blocks = insert update.last d.state.snapshots.blocks ∧
      ∀ (n : Nat) (s : S), n ≠ update.last → snapshots[n]? = some s →
        d.state.snapshots[n]? = some s := by
    refine ⟨SnapshotStore.blocks_commit hcommit, fun n s hne hs => ?_⟩
    simp only [SnapshotStore.commit, Except.bind_eq_ok, Except.pure_eq_ok] at hcommit
    obtain ⟨b, hb, rfl⟩ := hcommit
    obtain ⟨-, rfl⟩ := SnapshotStore.i64Block_ok.mp hb
    rwa [BTreeMap.get_insert_ne _ _ hne] at hs
  cases hy with
  | logs update blocks step ordered =>
    rw [show l'.watcher.blocks = l.watcher.blocks from blocks]
    rcases Expects.of_accept step with ⟨n, hs, hf, hlast, -⟩ | ⟨f, t, hs, hf, hle, hle', -⟩
    · rcases haligned with haligned | ⟨next, -, hrollback⟩
      · cases haligned with
        | initialized hs' => exact absurd (hs'.symm.trans hs) (by simp)
        | pending next hs' => exact absurd (hs'.symm.trans hs) (by simp)
        | warp f t hs' => exact absurd (hs'.symm.trans hs) (by simp)
        | events n' hs' queue filled =>
          obtain rfl : n' = n := Expects.logsOf.inj (hs'.symm.trans hs)
          rw [hf]
          exact ⟨filled, hlast.ge, .inr hlast.symm, hrest⟩
      · exact absurd (hrollback.step.symm.trans hs) (by simp)
    · rcases haligned with haligned | ⟨next, -, hrollback⟩
      · cases haligned with
        | initialized hs' => exact absurd (hs'.symm.trans hs) (by simp)
        | pending next hs' => exact absurd (hs'.symm.trans hs) (by simp)
        | events n hs' => exact absurd (hs'.symm.trans hs) (by simp)
        | warp f' t' hs' range queue safe filled =>
          obtain ⟨rfl, rfl⟩ := Expects.pages.inj (hs'.symm.trans hs)
          rw [hf]
          exact ⟨filled, hle, .inl (safe ▸ hle'), hrest⟩
      · exact absurd (hrollback.step.symm.trans hs) (by simp)

/-- What is stored once logs are handled, and the oldest of it. -/
theorem oldest_stored (stored : Set Nat) {before : Set Nat} {safe first last oldest : Nat} {pruned : Prop}
    (hbefore : Filled before safe first) (hle : first ≤ last) (hlast : last ≤ safe ∨ first = last)
    (hstored : ∀ n, n ∈ stored ↔ (n = last ∨ n ∈ before) ∧ (pruned → safe ≤ n ∨ n = last))
    (hmem : oldest ∈ stored) (hmin : ∀ n ∈ stored, oldest ≤ n) :
    (oldest < first ∧ oldest ∈ before ∨ oldest = last) ∧
      (oldest = last ↔ before = ∅ ∨ pruned ∧ last ≤ safe) := by
  have hcases : oldest = last ∨ oldest ∈ before := ((hstored oldest).mp hmem).1
  refine ⟨hcases.elim .inr fun h => .inl ⟨hbefore.below _ h, h⟩, ?_⟩
  constructor
  · intro heq
    by_contra hnot
    obtain ⟨hne, hkept⟩ := not_or.mp hnot
    obtain ⟨m, hm⟩ := Set.nonempty_iff_ne_empty.mpr hne
    have hlt := hbefore.below m hm
    by_cases hp : pruned
    · have hsafe : safe < last := not_le.mp fun hle => hkept ⟨hp, hle⟩
      obtain rfl : first = last := hlast.resolve_left (not_le.mpr hsafe)
      -- the snapshot of the block before is kept
      have hparent := hbefore.filled m hm (first - 1) (by omega) (by omega) (by omega)
      have := hmin _ ((hstored _).mpr ⟨.inr hparent, fun _ => .inl (by omega)⟩)
      omega
    · have := hmin m ((hstored m).mpr ⟨.inr hm, fun h => absurd h hp⟩)
      omega
  · rintro (hempty | ⟨hp, hsafe⟩)
    · exact hcases.resolve_right (by simp [hempty])
    · rcases ((hstored oldest).mp hmem).2 hp with hle' | heq
      · refine hcases.resolve_right fun h => ?_
        have := hbefore.below _ h
        omega
      · exact heq

/-- What a poll, or a crash, leaves stored of logs it hands over. -/
theorem logs_stored {m : DriverMove Resume} (hm : m.Honest numberOf service.blocks)
    (h : d.Holds numberOf) {handled : Handled S Event Action Effect} {update : EventUpdate Event}
    {commands : List (Command Action Effect)} (hout : (d.move service m).2 = [handled])
    (hupdate : handled.update = .logs update) (hok : handled.result = .ok commands) :
    Filled handled.before.snapshots.blocks handled.watcher.blocks.safe.number update.first ∧
      update.first ≤ update.last ∧
      (update.last ≤ handled.watcher.blocks.safe.number ∨ update.first = update.last) ∧
      (∀ n, n ∈ (d.move service m).1.state.snapshots ↔
        (n = update.last ∨ n ∈ handled.before.snapshots) ∧
          ((∃ node, m = .poll node) → handled.watcher.blocks.safe.number ≤ n ∨ n = update.last)) ∧
      ∀ (n : Nat) (s : S), n ≠ update.last → (d.move service m).1.state.snapshots[n]? = some s →
        handled.before.snapshots[n]? = some s := by
  have hmoved : ∀ node, node.Serves numberOf → (m = .poll node ∨ m = .crash node) →
      ∃ l u, d.watching = some l ∧ (l.poll service.bloomBits node).2 = [.ok u] ∧
        Watcher.Yields l.watcher (l.poll service.bloomBits node).1.watcher [u] := by
    intro node hnode hmove
    cases hl : d.watching with
    | none =>
      have hnone : d.poll service node = (d, []) ∧ d.crash service node = (d, []) := by
        unfold poll crash
        rw [hl]
        exact ⟨rfl, rfl⟩
      rcases hmove with rfl | rfl
      · rw [move, hnone.1] at hout
        exact absurd hout (by simp)
      · rw [move, hnone.2] at hout
        exact absurd hout (by simp)
    | some l =>
      obtain ⟨-, -, -, ⟨u, hu, hy⟩ | ⟨hu, -⟩⟩ :=
        watches_poll service hnode (h.watches l hl)
      · exact ⟨l, u, rfl, hu, hy⟩
      · obtain ⟨hpoll, hcrash⟩ := poll_nothing service hl hu
        rcases hmove with rfl | rfl
        · rw [move, hpoll] at hout
          exact absurd hout (by simp)
        · rw [move, hcrash] at hout
          exact absurd hout (by simp)
  cases m with
  | stop => exact absurd hout (by simp [move])
  | start answers => exact absurd hout (by simp [move])
  | resume result => exact absurd hout (by simp [move])
  | crash node =>
    obtain ⟨l, u, hl, hu, hy⟩ := hmoved node hm (.inr rfl)
    obtain ⟨-, hcrash⟩ := poll_update service hl hu
    generalize (l.poll service.bloomBits node).1 = l' at *
    rw [move, hcrash] at hout ⊢
    obtain rfl := List.singleton_inj.mp hout
    obtain rfl : u = .logs update := hupdate
    obtain ⟨hfilled, hle, hlast, hblocks, hsub⟩ := logs_taken h hl hy hok
    refine ⟨hfilled, hle, hlast, fun n => ?_, hsub⟩
    have hn := Set.ext_iff.mp hblocks n
    exact ⟨fun hmem => ⟨hn.mp hmem, fun ⟨_, hp⟩ => absurd hp (by simp)⟩, fun hmem => hn.mpr hmem.1⟩
  | poll node =>
    obtain ⟨l, u, hl, hu, hy⟩ := hmoved node hm (.inl rfl)
    obtain ⟨hpoll, -⟩ := poll_update service hl hu
    obtain ⟨hstep, hfits, htold, -⟩ := watches_poll service hm (h.watches l hl)
    obtain ⟨houtputs, -⟩ := update_spec service h hl hy hstep hfits htold
    have hbound := htold.pending
    obtain ⟨answered, chain, hin⟩ := hstep
    have hpending := hin.consistent.pending
    generalize (l.poll service.bloomBits node).1 = l' at *
    rw [move, hpoll] at hout ⊢
    obtain rfl := List.singleton_inj.mp (houtputs.symm.trans hout)
    obtain rfl : u = .logs update := hupdate
    obtain ⟨hfilled, hle, hlast, hblocks, hsub⟩ := logs_taken h hl hy hok
    have hsafe : l'.watcher.blocks.status.safe < 2 ^ 63 := by
      change l'.watcher.blocks.safe.number < 2 ^ 63
      omega
    obtain ⟨snapshots, hprune⟩ := (d.commit service l'
      (.logs update)).1.snapshots.prune_ok hsafe
    have hfinal : (d.update service l' (.logs update)).1.state.snapshots = snapshots := by
      simp only [Driver.update, hok, hprune]
    rw [hfinal]
    refine ⟨hfilled, hle, hlast, fun n => ?_, fun n s hne hs => ?_⟩
    · have hn : ∀ n, n ∈ (d.commit service l' (.logs update)).1.snapshots ↔
          n = update.last ∨ n ∈ d.state.snapshots := fun n => Set.ext_iff.mp hblocks n
      rw [SnapshotStore.mem_prune hprune, hn]
      refine and_congr_right fun hmem =>
        ⟨fun hcase _ => hcase.imp_right fun hmax => ?_, fun hcase => ?_⟩
      · have htop := hmax _ ((hn _).mpr (.inl rfl))
        refine hmem.resolve_right fun hin => ?_
        have := hfilled.below n hin
        omega
      · refine (hcase ⟨node, rfl⟩).imp_right ?_
        rintro rfl m hmem
        rcases (hn m).mp hmem with rfl | hmem
        · exact le_rfl
        · exact (hfilled.below m hmem).le.trans hle
    · exact hsub n s hne (SnapshotStore.prune_sub hprune hs)

/-- **What a crash loses.**  Logs are committed, and the process dies: before the prune, or after it
and before their actions are queued or their effects run.  However often it is started again, it goes
on from the oldest snapshot, which it rolls back to first: the machine is as started from that
alone, and the next update is of the block after it, or goes below it.  The logs are so handled
again, from a snapshot of before, unless the oldest snapshot is the one they were committed with;
which is so just if nothing was stored before, or they are of the safe block or below (as the pages
of a warp are) and the prune was done. -/
theorem crash_replays (service : Service S Event Resume Action Effect) (numberOf : B256 → Nat)
    (htopics : service.events.topics.Nodup) {moves : List (DriverMove Resume)}
    (hmoves : ∀ m ∈ moves, m.Honest numberOf service.blocks) {m : DriverMove Resume}
    (hm : m.Honest numberOf service.blocks) {handled : Handled S Event Action Effect}
    {update : EventUpdate Event} {commands : List (Command Action Effect)}
    (hout : (move service (Reactive.runState (move service) (empty service) moves) m).2 = [handled])
    (hupdate : handled.update = .logs update) (hok : handled.result = .ok commands)
    {between : List (DriverMove Resume)}
    (hbetween : ∀ m ∈ between, m = .stop ∨ ∃ answers, m = .start answers)
    {answers : List BlockAnswer}
    (hanswers : (.start answers : DriverMove Resume).Honest numberOf service.blocks)
    {polls : List NodeView} (hpolls : ∀ node ∈ polls, node.Serves numberOf) :
    let d := (move service (Reactive.runState (move service) (empty service) moves) m).1
    let restarted := (Reactive.runState (move service) d between).start service answers
    ∃ oldest state, d.state.snapshots.oldest = some (oldest, state) ∧
      (oldest < update.first ∧ handled.before.snapshots[oldest]? = some state ∨
        oldest = update.last) ∧
      (oldest = update.last ↔ (∀ n, n ∉ handled.before.snapshots) ∨
        (∃ node, m = .poll node) ∧ update.last ≤ handled.watcher.blocks.safe.number) ∧
      ∀ past next rest,
        Reactive.runOutputs (move service) restarted (polls.map .poll) = past ++ next :: rest →
        (∀ before ∈ past, before.update = .block (.uncle (oldest + 1))) →
        next.update ≠ .block (.uncle (oldest + 1)) →
        next.before = .withInit service.init (SnapshotStore.only oldest state) ∧
          (next.update.StartsAt (oldest + 1) ∨
            GoesBelow next.before.snapshots.blocks next.update) := by
  intro d restarted
  obtain ⟨hholds, -⟩ := run_holds htopics hmoves (holds_empty numberOf service)
  obtain ⟨hfilled, hle, hlast, hstored, hsub⟩ := logs_stored hm hholds hout hupdate hok
  have hd : d.Holds numberOf := (move_holds htopics hm hholds).1
  have hmem : update.last ∈ d.state.snapshots := (hstored _).mpr ⟨.inl rfl, fun _ => .inr rfl⟩
  obtain ⟨⟨oldest, state⟩, latest, -, holdest, -⟩ :=
    (SnapshotStore.status_cases d.state.snapshots).resolve_left fun hnone => hnone.2.2 _ hmem
  obtain ⟨hget, hmin⟩ := SnapshotStore.oldest_mem holdest
  have hin : oldest ∈ d.state.snapshots := SnapshotStore.mem_iff.mpr ⟨_, hget⟩
  obtain ⟨hbefore, hlost⟩ := oldest_stored d.state.snapshots.blocks hfilled hle hlast
    hstored hin hmin
  refine ⟨oldest, state, holdest, ?_, hlost.trans (or_congr_left ?_), ?_⟩
  · rcases hbefore with ⟨hlt, -⟩ | heq
    · exact .inl ⟨hlt, hsub oldest state (by omega) hget⟩
    · exact .inr heq
  · exact ⟨fun h n hn => by rw [Set.eq_empty_iff_forall_notMem] at h; exact h n hn,
      fun h => Set.eq_empty_iff_forall_notMem.mpr h⟩
  · intro past next rest houtputs hpast hnot
    have hsame : (Reactive.runState (move service) d between).state.snapshots =
        d.state.snapshots := run_stored hbetween
    have hbound : ∀ n ∈ (Reactive.runState (move service) d between).state.snapshots,
        n + 1 < 2 ^ 63 := by
      rw [hsame]
      exact hd.stored
    have hstarted : restarted.Holds numberOf := start_holds htopics hanswers hbound
    have hresuming : restarted.Resuming service oldest state :=
      resuming_start hanswers hbound (by rw [hsame]; exact holdest)
    exact resuming_polls hpolls (hd.stored oldest hin) hstarted hresuming houtputs hpast hnot

/-- A fresh start, and two blocks but for the logs of the second. -/
def toyPast : List (DriverMove Unit) :=
  .start BlockWatcher.toyAnswers :: List.replicate 5 (.poll toyFirst)

/-- The process dies once the logs of the second block are committed.  It goes on from the snapshot
of the first. -/
theorem crash_replays_toy :
    let d := (move toyService (Reactive.runState (move toyService) (empty toyService) toyPast)
      (.crash toyFirst)).1
    let outputs := Reactive.runOutputs (move toyService)
      (d.start toyService BlockWatcher.toyAnswers) ([toyFirst, toyFirst].map .poll)
    d.state.snapshots.keys = [1, 2] ∧
      blockUpdates (outputs.map (·.update)) = [.uncle 2, .new 2 12 0] ∧
      ∃ oldest state, d.state.snapshots.oldest = some (oldest, state) ∧
        ∀ past next rest, outputs = past ++ next :: rest →
          (∀ before ∈ past, before.update = .block (.uncle (oldest + 1))) →
          next.update ≠ .block (.uncle (oldest + 1)) →
          next.before = .withInit 0 (SnapshotStore.only oldest state) := by
  have hmoves : ∀ m ∈ toyPast, m.Honest toyNumber toyService.blocks := by
    intro m hm
    rcases List.mem_cons.mp hm with rfl | hm
    · exact toyAnswers_honest
    · exact List.eq_of_mem_replicate hm ▸ toyFirst_serves
  obtain ⟨handled, hout⟩ : ∃ handled, (move toyService (Reactive.runState (move toyService)
      (empty toyService) toyPast) (.crash toyFirst)).2 = [handled] :=
    List.length_eq_one_iff.mp (by decide +kernel)
  have hlogs : ((move toyService (Reactive.runState (move toyService) (empty toyService) toyPast)
      (.crash toyFirst)).2.all fun handled =>
        handled.result.toOption.isSome && (blockUpdates [handled.update]).isEmpty) = true := by
    decide +kernel
  rw [hout, List.all_cons, List.all_nil, Bool.and_true, Bool.and_eq_true, List.isEmpty_iff] at hlogs
  obtain ⟨hok, hblocks⟩ := hlogs
  obtain ⟨update, hupdate⟩ : ∃ update, handled.update = .logs update := by
    cases hu : handled.update with
    | block update =>
      rw [hu] at hblocks
      exact absurd hblocks (by simp [blockUpdates])
    | logs update => exact ⟨update, rfl⟩
  obtain ⟨commands, hcommands⟩ : ∃ commands, handled.result = .ok commands := by
    cases hr : handled.result with
    | error e =>
      rw [hr] at hok
      exact absurd hok (by simp [Except.toOption])
    | ok commands => exact ⟨commands, rfl⟩
  obtain ⟨oldest, state, holdest, -, -, hreplay⟩ := crash_replays toyService toyNumber (by decide)
    hmoves (m := .crash toyFirst) toyFirst_serves hout hupdate hcommands
    (show ∀ m ∈ ([] : List (DriverMove Unit)), m = .stop ∨ ∃ answers, m = .start answers by simp)
    toyAnswers_honest
    (show ∀ node ∈ [toyFirst, toyFirst], node.Serves toyNumber by simp [toyFirst_serves])
  exact ⟨by decide +kernel, by decide +kernel, oldest, state, holdest,
    fun past next rest hpast huncle hnot => (hreplay past next rest hpast huncle hnot).1⟩

end Driver

end Safenet
