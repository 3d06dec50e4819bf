/-
# The driver

`driver.rs`: the watcher and the state machine together, in a process that may stop anywhere.  An
update of the watcher is handled by the state machine, which commits a snapshot, and then the
snapshots below the watcher's safe block are pruned; a process that starts resumes from what is
stored.

This is the model, what each operation does to the snapshots, and what one poll of the watcher's
future comes to (`Loop.poll_yields`): an update that was queued, the pending block, the uncle of the
last one, or logs in order.  Of a node it is relied on that it has some chain whenever it is asked
(`NodeView.Serves`), not which, and not that it answers.

The transaction queue can stop the process, before an update is handled or after.  It does nothing
else to either component, so that `stop` covers it.
-/
import Safenet.Core.Watcher

namespace Safenet

/-! ## 1. The driver -/

/-- The update as the state machine takes it. -/
def WatcherUpdate.update {Event : Type} : WatcherUpdate Event → Update Event
  | .block (.warp first last) => .warp first last
  | .block (.uncle number) => .uncle number
  | .block (.new number _ _) => .new number
  | .logs update => .logs update.first update.last update.logs

namespace SnapshotStore

variable {S : Type}

/-- The oldest snapshot and its block number. -/
def oldest (store : SnapshotStore S) : Option (Nat × S) := store.toList.head?

/-- `status`: the bounds of the snapshots. -/
def status (store : SnapshotStore S) : Option BlockStatus := do
  let safe ← store.oldest
  let latest ← store.current
  return { latest := latest.1, safe := safe.1 }

end SnapshotStore

/-- The components of a service, and the configuration of its driver. -/
structure Service (S Event Resume Action Effect : Type) where
  apply : TransitionFn S Event Resume Action Effect
  init : S
  bloomBits : Bytes → Bloom
  blocks : BlockConfig
  logs : EventConfig
  addresses : List Address
  events : Events Event

/-- The driver.  What is stored outlives the process; the watcher is there while it runs. -/
structure Driver (S Event : Type) where
  state : StateMachine S
  watching : Option (Loop Event)

/-- An update that the state machine was handed, with what it was handed to. -/
structure Handled (S Event Action Effect : Type) where
  before : StateMachine S
  watcher : Watcher Event
  update : WatcherUpdate Event
  result : Except StateError (List (Command Action Effect))

/-- What can happen to a driver: its update future is polled; it is polled and the process dies
before the prune; an effect resumes first; the process stops; it starts. -/
inductive DriverMove (Resume : Type) where
  | poll (node : NodeView)
  | crash (node : NodeView)
  | resume (result : Resume)
  | stop
  | start (answers : List BlockAnswer)

namespace Driver

variable {S Event Resume Action Effect : Type} (service : Service S Event Resume Action Effect)
  (d : Driver S Event)

/-- The future after a poll; the process ends with an error that cannot be recovered from. -/
def running (l : Loop Event) : Option (Loop Event) :=
  match l.place with
  | .stopped => none
  | _ => some l

/-- An update is handled, and what it leaves is stored. -/
def commit (l : Loop Event) (update : WatcherUpdate Event) :
    StateMachine S × Handled S Event Action Effect :=
  let handled := d.state.handleUpdate service.apply update.update
  (handled.1, ⟨d.state, l.watcher, update, handled.2⟩)

/-- `update`, for an update of the watcher.  An error ends the process. -/
def update (l : Loop Event) (update : WatcherUpdate Event) :
    Driver S Event × List (Handled S Event Action Effect) :=
  let (state, handled) := d.commit service l update
  match handled.result with
  | .error _ => (⟨state, none⟩, [handled])
  | .ok _ =>
    match state.snapshots.prune l.watcher.blocks.status.safe with
    | .error _ => (⟨state, none⟩, [handled])
    | .ok snapshots => (⟨{ state with snapshots }, some l⟩, [handled])

/-- The update future is polled, and what it returns is updated. -/
def poll (node : NodeView) : Driver S Event × List (Handled S Event Action Effect) :=
  match d.watching with
  | none => (d, [])
  | some l =>
    match l.poll service.bloomBits node with
    | (l, [.ok update]) => d.update service l update
    | (l, _) => ({ d with watching := running l }, [])

/-- As `poll`, but that the process dies once an update is committed. -/
def crash (node : NodeView) : Driver S Event × List (Handled S Event Action Effect) :=
  match d.watching with
  | none => (d, [])
  | some l =>
    match l.poll service.bloomBits node with
    | (l, [.ok update]) =>
      (⟨(d.commit service l update).1, none⟩, [(d.commit service l update).2])
    | _ => ({ d with watching := none }, [])

/-- An effect resumes: the update future is dropped. -/
def resume (result : Resume) : Driver S Event :=
  match d.watching with
  | none => d
  | some l =>
    match d.state.handleResume service.apply result with
    | (state, .ok _) => ⟨state, some (l.move service.bloomBits .cancel).1⟩
    | (state, .error _) => ⟨state, none⟩

/-- `new`, given the answers of the node. -/
def start (answers : List BlockAnswer) : Driver S Event :=
  let state := StateMachine.withInit service.init d.state.snapshots
  let watching := match state.inner with
    | none => none
    | some _ =>
      match Initializing.latest.run service.blocks state.snapshots.status answers with
      | .ready blocks =>
        some ⟨⟨blocks, .create service.logs service.addresses service.events⟩, .start⟩
      | _ => none
  { state, watching }

/-- A move, with the update it has the state machine handle. -/
def move : DriverMove Resume → Driver S Event × List (Handled S Event Action Effect)
  | .poll node => d.poll service node
  | .crash node => d.crash service node
  | .resume result => (d.resume service result, [])
  | .stop => ({ d with watching := none }, [])
  | .start answers => (d.start service answers, [])

/-- Nothing is stored, and nothing runs. -/
def empty (service : Service S Event Resume Action Effect) : Driver S Event :=
  ⟨.withInit service.init ∅, none⟩

end Driver

/-! ## 2. The snapshots -/

namespace SnapshotStore

variable {S : Type} {store store' : SnapshotStore S} {number safe : Nat}

theorem i64Block_ok {n m : Nat} : i64Block n = .ok m ↔ n < 2 ^ 63 ∧ n = m := by
  unfold i64Block
  split
  · rename_i h
    rw [Except.ok.injEq]
    exact ⟨fun heq => ⟨h, heq⟩, fun h => h.2⟩
  · rename_i h
    exact ⟨fun heq => absurd heq (by simp), fun hn => absurd hn.1 h⟩

theorem mem_commit {state : S} (h : store.commit number state = .ok store') (n : Nat) :
    n ∈ store' ↔ n = number ∨ n ∈ store := by
  simp only [commit, Except.bind_eq_ok, Except.pure_eq_ok] at h
  obtain ⟨m, hm, rfl⟩ := h
  obtain ⟨-, rfl⟩ := i64Block_ok.mp hm
  rw [Std.ExtTreeMap.mem_insert, Std.compare_eq_iff_eq]
  exact or_congr_left eq_comm

theorem mem_iff {n : Nat} : n ∈ store ↔ ∃ state, store[n]? = some state := by
  rw [Std.ExtTreeMap.mem_iff_isSome_getElem?, Option.isSome_iff_exists]

theorem mem_filterMap (p : Nat → Prop) [DecidablePred p] (n : Nat) :
    (n ∈ store.filterMap fun n s => if p n then some s else none) ↔ n ∈ store ∧ p n := by
  rw [mem_iff, mem_iff, BTreeMap.get_filterMap]
  constructor
  · rintro ⟨state, h⟩
    obtain ⟨s, hs, hite⟩ := Option.bind_eq_some_iff.mp h
    split at hite
    · rename_i hp
      exact ⟨⟨s, hs⟩, hp⟩
    · exact absurd hite (by simp)
  · rintro ⟨⟨s, hs⟩, hp⟩
    exact ⟨s, by rw [hs, Option.bind_some, if_pos hp]⟩

/-- A reorg goes back to the snapshot of the parent. -/
theorem reorg_ok (hpos : 0 < number) (hlt : number < 2 ^ 63) (hmem : number - 1 ∈ store) :
    ∃ kept state, store.reorg number = .ok (kept, state) ∧ store[number - 1]? = some state ∧
      ∀ n, n ∈ kept ↔ n ∈ store ∧ n < number := by
  obtain ⟨state, hstate⟩ := mem_iff.mp hmem
  refine ⟨store.filterMap fun n s => if n < number then some s else none, state, ?_, hstate,
    mem_filterMap (· < number)⟩
  have hkept : (store.filterMap fun n s => if n < number then some s else none)[number - 1]? =
      some state := by
    rw [BTreeMap.get_filterMap, hstate, Option.bind_some, if_pos (by omega)]
  rw [reorg, if_neg (by omega)]
  simp only [i64Block, if_pos hlt, bind, Except.bind, hkept]
  rfl

/-- There is none if there is no such snapshot. -/
theorem reorg_error (hmem : number - 1 ∉ store) : ∃ e, store.reorg number = .error e := by
  cases h : store.reorg number with
  | error e => exact ⟨e, rfl⟩
  | ok r =>
    refine absurd ?_ hmem
    unfold reorg at h
    split at h
    · exact absurd h Except.throw_ne_ok
    · simp only [Except.bind_eq_ok] at h
      obtain ⟨u, -, h⟩ := h
      split at h
      · rename_i state hp
        exact (mem_filterMap (· < u) _).mp (mem_iff.mpr ⟨state, hp⟩) |>.1
      · exact absurd h Except.throw_ne_ok

theorem current_mem {n : Nat} {state : S} (h : store.current = some (n, state)) :
    store[n]? = some state ∧ ∀ m ∈ store, m ≤ n := by
  obtain ⟨hget, hmax⟩ := (BTreeMap.getLast?_toList_eq_some store n state).mp h
  refine ⟨hget, fun m hm => ?_⟩
  obtain ⟨s, hs⟩ := mem_iff.mp hm
  exact Nat.isLE_compare.mp (hmax m s hs)

theorem oldest_mem {n : Nat} {state : S} (h : store.oldest = some (n, state)) :
    store[n]? = some state ∧ ∀ m ∈ store, n ≤ m := by
  have hord : store.toList.Pairwise fun a b => compare a.1 b.1 = .lt :=
    Std.ExtTreeMap.ordered_keys_toList
  obtain ⟨rest, hrest⟩ : ∃ rest, store.toList = (n, state) :: rest := List.head?_eq_some_iff.mp h
  refine ⟨(BTreeMap.mem_toList_iff store n state).mp (by simp [hrest]), fun m hm => ?_⟩
  obtain ⟨s, hs⟩ := mem_iff.mp hm
  have hmem := (BTreeMap.mem_toList_iff store m s).mpr hs
  rw [hrest] at hord hmem
  rcases List.mem_cons.mp hmem with heq | hmem
  · exact (Prod.mk.inj heq).1.ge
  · exact (Nat.compare_eq_lt.mp (List.rel_of_pairwise_cons hord hmem)).le

/-- What is stored has an oldest snapshot and a newest. -/
theorem status_cases (store : SnapshotStore S) :
    (store.status = none ∧ store.current = none ∧ ∀ n, n ∉ store) ∨
      ∃ oldest latest, store.status = some ⟨latest.1, oldest.1⟩ ∧ store.oldest = some oldest ∧
        store.current = some latest := by
  cases h : store.toList with
  | nil =>
    refine .inl ⟨by simp [status, oldest, h], by simp [current, h], fun n hn => ?_⟩
    obtain ⟨s, hs⟩ := mem_iff.mp hn
    have hmem := (BTreeMap.mem_toList_iff store n s).mpr hs
    rw [h] at hmem
    exact absurd hmem (by simp)
  | cons e rest =>
    have holdest : store.oldest = some e := by rw [oldest, h]; rfl
    have hcurrent : store.current = some ((e :: rest).getLast (by simp)) := by
      rw [current, h, List.getLast?_eq_some_getLast]
    exact .inr ⟨_, _, by simp [status, holdest, hcurrent], holdest, hcurrent⟩

/-- A prune keeps the snapshots of the blocks that may be reorged, and the newest. -/
theorem mem_prune (h : store.prune safe = .ok store') (n : Nat) :
    n ∈ store' ↔ n ∈ store ∧ (safe ≤ n ∨ ∀ m ∈ store, m ≤ n) := by
  simp only [prune, Except.bind_eq_ok, Except.pure_eq_ok] at h
  obtain ⟨m, hm, rfl⟩ := h
  obtain ⟨-, rfl⟩ := i64Block_ok.mp hm
  have hflip : (store.filterMap fun n s =>
      if n < safe ∧ store.current.any (n < ·.1) then none else some s) =
      store.filterMap fun n s =>
        if ¬(n < safe ∧ store.current.any (n < ·.1)) then some s else none := by
    congr 1
    funext n s
    rw [ite_not]
  have hcurrent : store.current.any (n < ·.1) = true ↔ ¬∀ m ∈ store, m ≤ n := by
    rcases status_cases store with ⟨-, hnone, hempty⟩ | ⟨-, latest, -, -, hlatest⟩
    · rw [hnone]
      exact ⟨fun h => absurd h (by simp), fun h => absurd (fun m hm => absurd hm (hempty m)) h⟩
    · obtain ⟨hget, hmax⟩ := current_mem hlatest
      rw [hlatest, Option.any_some, decide_eq_true_eq]
      constructor
      · intro hlt hall
        exact absurd (hall _ (mem_iff.mpr ⟨_, hget⟩)) (not_le.mpr hlt)
      · intro hall
        by_contra hle
        exact hall fun m hm => (hmax m hm).trans (not_lt.mp hle)
  rw [hflip, mem_filterMap]
  refine and_congr_right fun _ => ?_
  rw [not_and, hcurrent, not_not]
  exact ⟨fun h => (le_or_gt safe n).imp_right h, fun h hlt => h.resolve_left (not_le.mpr hlt)⟩

theorem prune_ok (store : SnapshotStore S) (h : safe < 2 ^ 63) : ∃ store', store.prune safe = .ok store' :=
  ⟨_, by simp only [prune, i64Block, if_pos h]; rfl⟩

end SnapshotStore

/-! ## 3. Logs in order -/

/-- Whether a block is one of those a filter is for; a hash is of one block. -/
def BlockFilter.Has (numberOf : B256 → Nat) : BlockFilter → Nat → Prop
  | .hash block, n => n = numberOf block
  | .range first last, n => first ≤ n ∧ n ≤ last

/-- Two logs are at different positions. -/
def Log.Apart (a b : Log) : Prop := a.blockNumber = b.blockNumber → a.logIndex ≠ b.logIndex

/-- A node with a chain behind it: a request for a block by number is answered with a block of that
number, a hash is of one block, and the logs it has of some blocks are at different positions.  It
may fail, and have another chain the next time. -/
structure NodeView.Serves (numberOf : B256 → Nat) (node : NodeView) : Prop where
  honest : node.Honest
  blocks : ∀ id b, node.getBlock id = .ok (some b) → numberOf b.hash = b.number ∧ b.number + 1 < 2 ^ 63
  logs : ∀ blocks, ∃ held : List Log, held.Pairwise Log.Apart ∧
    (∀ log ∈ held, ∃ n, log.blockNumber = some n ∧ blocks.Has numberOf n) ∧
    ∀ f logs, f.blocks = blocks → node.getLogs f = .ok logs → (held.filter f.matchesLog).Perm logs

section Logs

variable {Event : Type} {numberOf : B256 → Nat} {bloomBits : Bytes → Bloom} {node : NodeView}
  {w : EventWatcher Event}

instance Log.symmApart : Std.Symm Log.Apart :=
  ⟨fun _ _ h hb hi => h hb.symm hi.symm⟩

theorem Log.Apart.symm {a b : Log} (h : a.Apart b) : b.Apart a :=
  fun hb hi => h hb.symm hi.symm

/-- Logs at different positions come out in order. -/
theorem decodeAndSort_inOrder {E : Events Event} {logs : List Log} {events : List (EventLog Event)}
    {first last : Nat} (h : decodeAndSort E logs = .ok events) (hapart : logs.Pairwise Log.Apart)
    (hblocks : ∀ log ∈ logs, ∃ n, log.blockNumber = some n ∧ first ≤ n ∧ n ≤ last) :
    logsInOrder first last events = true := by
  have hok : (decodeAndSort E logs).toOption = some events := by rw [h]; rfl
  by_cases hall : ∀ log ∈ logs, ∃ event, E.eventLog log = some event
  · rw [decodeAndSort_ok hall] at hok
    obtain rfl := Option.some.inj hok
    have hsame := List.perm_insertionSort EventLog.le (logs.filterMap E.eventLog)
    have hsorted := List.pairwise_insertionSort EventLog.le (logs.filterMap E.eventLog)
    have hdistinct : (logs.filterMap E.eventLog).Pairwise fun a b => a.block = b.block → a.index ≠ b.index := by
      refine List.pairwise_filterMap.mpr (hapart.imp ?_)
      intro a b hab x hx y hy hblock hindex
      obtain ⟨hxb, hxi⟩ := eventLog_position hx
      obtain ⟨hyb, hyi⟩ := eventLog_position hy
      exact hab (by rw [hxb, hyb, hblock]) (by rw [hxi, hyi, hindex])
    have hne := hsame.symm.pairwise hdistinct fun h hb hi => h hb.symm hi.symm
    simp only [logsInOrder, Bool.and_eq_true, decide_eq_true_eq, List.all_eq_true]
    constructor
    · refine (hsorted.and hne).imp ?_
      rintro a b ⟨hle, hne⟩
      unfold EventLog.le at hle
      omega
    · intro event hevent
      obtain ⟨log, hlog, hdecoded⟩ := List.mem_filterMap.mp (hsame.mem_iff.mp hevent)
      obtain ⟨n, hn, hrange⟩ := hblocks log hlog
      rw [(eventLog_position hdecoded).1] at hn
      exact Option.some.inj hn ▸ hrange
  · push Not at hall
    obtain ⟨log, hlog, hnone⟩ := hall
    rw [decodeAndSort_error hlog (Option.eq_none_iff_forall_ne_some.mpr hnone)] at hok
    exact absurd hok (by simp)

/-- The answer to one query. -/
theorem query_held {held logs : List Log} {blocks : BlockFilter} {topics : List B256}
    (hheld : ∀ f logs, f.blocks = blocks → node.getLogs f = .ok logs →
      (held.filter f.matchesLog).Perm logs)
    (h : w.query node.getLogs blocks topics = .ok logs) :
    (held.filter (Filter.matchesLog ⟨blocks, w.addresses, topics⟩)).Perm logs := by
  unfold EventWatcher.query EventWatcher.checkLogsLimit at h
  split at h
  · rename_i served hserved
    split at h
    · exact absurd h (by simp)
    · exact Except.ok.inj h ▸ hheld _ _ rfl hserved
  · exact absurd h (by simp)

/-- The answers to one query for each topic. -/
theorem queryTopics_held {held : List Log} {blocks : BlockFilter} {topics : List B256}
    {served : List (List Log)} (hapart : held.Pairwise Log.Apart)
    (hheld : ∀ f logs, f.blocks = blocks → node.getLogs f = .ok logs →
      (held.filter f.matchesLog).Perm logs) (hnodup : topics.Nodup)
    (h : topics.mapM (w.queryTopic node.getLogs blocks) = .ok served) :
    served.flatten.Pairwise Log.Apart ∧
      ∀ log ∈ served.flatten, log ∈ held ∧ ∃ topic ∈ topics, log.topic0 = some topic := by
  induction topics generalizing served with
  | nil =>
    obtain rfl : [] = served := Except.ok.inj h
    exact ⟨.nil, fun log hlog => absurd hlog (by simp)⟩
  | cons topic topics ih =>
    rw [List.mapM_cons] at h
    simp only [Except.bind_eq_ok, Except.pure_eq_ok] at h
    obtain ⟨logs, hlogs, rest, hrest, rfl⟩ := h
    obtain ⟨hnot, hnodup⟩ := List.nodup_cons.mp hnodup
    obtain ⟨hpair, hmem⟩ := ih hnodup hrest
    have hone : logs = [] ∨ (held.filter (Filter.matchesLog ⟨blocks, w.addresses, [topic]⟩)).Perm logs := by
      unfold EventWatcher.queryTopic at hlogs
      split at hlogs
      · rename_i answer hanswer
        exact .inr (Except.ok.inj hlogs ▸ query_held hheld hanswer)
      · split at hlogs
        · exact .inl (Except.ok.inj hlogs).symm
        · exact absurd hlogs (by simp)
    have hfrom : ∀ log ∈ logs, log ∈ held ∧ log.topic0 = some topic := by
      intro log hlog
      rcases hone with rfl | hperm
      · exact absurd hlog (by simp)
      · obtain ⟨hin, -, htopics⟩ := EventWatcher.mem_filter_matches.mp (hperm.mem_iff.mpr hlog)
        obtain ⟨t, ht, htopic⟩ := htopics.resolve_left (by simp)
        exact ⟨hin, List.mem_singleton.mp ht ▸ htopic⟩
    have hlogsApart : logs.Pairwise Log.Apart := by
      rcases hone with rfl | hperm
      · exact .nil
      · exact hperm.pairwise (hapart.filter _) Log.Apart.symm
    rw [List.flatten_cons]
    constructor
    · refine List.pairwise_append.mpr ⟨hlogsApart, hpair, fun a ha b hb => ?_⟩
      obtain ⟨hain, hatopic⟩ := hfrom a ha
      obtain ⟨hbin, t, ht, hbtopic⟩ := hmem b hb
      refine List.Pairwise.forall hapart hain hbin fun heq => ?_
      -- the same log would be of two topics
      rw [heq, hbtopic] at hatopic
      exact hnot (Option.some.inj hatopic ▸ ht)
    · intro log hlog
      rcases List.mem_append.mp hlog with hlog | hlog
      · exact ⟨(hfrom log hlog).1, topic, List.mem_cons_self, (hfrom log hlog).2⟩
      · obtain ⟨hin, t, ht, htopic⟩ := hmem log hlog
        exact ⟨hin, t, List.mem_cons_of_mem _ ht, htopic⟩

/-- The blocks that are fetched. -/
def Fetch.blocks : Fetch → BlockFilter
  | .singleQuery blocks => blocks
  | .multipleQueries blocks => blocks
  | .clientFiltered hash _ => .hash hash

/-- **Fetched logs are in order**, whichever way they are fetched. -/
theorem fetchLogs_inOrder (hnode : node.Serves numberOf) (htopics : w.events.topics.Nodup)
    {fetch : Fetch} {first last : Nat} {events : List (EventLog Event)}
    (hblocks : ∀ n, fetch.blocks.Has numberOf n → first ≤ n ∧ n ≤ last)
    (h : w.fetchLogs bloomBits node.getLogs fetch = .ok events) :
    logsInOrder first last events = true := by
  obtain ⟨held, hapart, hhas, hheld⟩ := hnode.logs fetch.blocks
  have hrange : ∀ log ∈ held, ∃ n, log.blockNumber = some n ∧ first ≤ n ∧ n ≤ last := by
    intro log hlog
    obtain ⟨n, hn, hin⟩ := hhas log hlog
    exact ⟨n, hn, hblocks n hin⟩
  cases fetch with
  | singleQuery blocks =>
    simp only [EventWatcher.fetchLogs, Except.bind_eq_ok] at h
    obtain ⟨logs, hquery, h⟩ := h
    have hperm := query_held hheld hquery
    exact decodeAndSort_inOrder h (hperm.pairwise (hapart.filter _) Log.Apart.symm)
      fun log hlog => hrange log (List.mem_of_mem_filter (hperm.mem_iff.mpr hlog))
  | multipleQueries blocks =>
    simp only [EventWatcher.fetchLogs, Except.bind_eq_ok] at h
    obtain ⟨served, hserved, h⟩ := h
    obtain ⟨hpair, hmem⟩ := queryTopics_held hapart hheld htopics hserved
    exact decodeAndSort_inOrder h hpair fun log hlog => hrange log (hmem log hlog).1
  | clientFiltered hash bloom =>
    simp only [EventWatcher.fetchLogs] at h
    split at h
    · exact absurd h (by simp)
    · rename_i logs hlogs
      split at h
      · exact absurd h (by simp)
      · have hperm := hheld _ _ rfl hlogs
        refine decodeAndSort_inOrder h ((hperm.pairwise (hapart.filter _) Log.Apart.symm).filter _)
          fun log hlog => hrange log (List.mem_of_mem_filter (hperm.mem_iff.mpr ?_))
        exact List.mem_of_mem_filter hlog

end Logs

/-! ## 4. One poll -/

namespace BlockWatcher

variable {w w' : BlockWatcher} {answer : BlockAnswer} {update : BlockUpdate}

theorem record_spec (hw : w.Consistent) {block : BlockHeader} (hn : block.number = w.pending) :
    (w.record block).pending = w.pending + 1 ∧ (w.record block).queue = w.queue ∧
      w.safe.number ≤ (w.record block).safe.number := by
  by_cases hle : w.recent.length + 1 ≤ w.config.maxReorgDepth
  · rw [record_of_le hle, hn]
    exact ⟨rfl, rfl, le_rfl⟩
  · obtain ⟨evicted, recent, he⟩ : ∃ evicted recent, w.recent ++ [block] = evicted :: recent :=
      List.exists_cons_of_ne_nil (by simp)
    rw [record_of_lt (by omega) he, hn]
    refine ⟨rfl, rfl, ?_⟩
    have hmem : evicted ∈ w.recent ++ [block] := by rw [he]; exact List.mem_cons_self
    rcases List.mem_append.mp hmem with hmem | hmem
    · exact (hw.linked.gt evicted hmem).le
    · have hpending := hw.pending
      rw [List.mem_singleton.mp hmem]
      dsimp only
      omega

/-- The last of the recent blocks is the one before the pending block. -/
theorem last_number (hw : w.Consistent) {last : BlockHeader} (h : w.recent.getLast? = some last) :
    w.safe.number < last.number ∧ last.number + 1 = w.pending := by
  obtain ⟨before, hbefore⟩ := List.getLast?_eq_some_iff.mp h
  have hlinked := hw.linked
  have hpending := hw.pending
  rw [hbefore] at hlinked hpending
  obtain ⟨-, hn, -⟩ := LinkedFrom.concat.mp hlinked
  rw [List.length_append, List.length_singleton] at hpending
  omega

/-- **What an update of the block watcher is**: one that was queued, the uncle of the last block, or
the pending block. -/
theorem next_update (hw : w.Consistent) (h : w.next answer = (w', .update update))
    (hanswer : ∀ b, answer = .ok (some b) → b.number = w.pending) :
    (∃ queue, w.queue = update :: queue ∧ w' = { w with queue }) ∨
      (w.queue = [] ∧ ∃ number, update = .uncle number ∧ w.safe.number < number ∧
        number + 1 = w.pending ∧ w'.pending = number ∧ w'.queue = [] ∧ w'.safe = w.safe) ∨
      (w.queue = [] ∧ ∃ b, answer = .ok (some b) ∧ update = b.update ∧ b.number = w.pending ∧
        w'.pending = w.pending + 1 ∧ w'.queue = [] ∧ w.safe.number ≤ w'.safe.number) := by
  cases hq : w.queue with
  | cons u queue =>
    simp only [next, hq, Prod.mk.injEq, NextBlock.update.injEq] at h
    obtain ⟨rfl, rfl⟩ := h
    exact .inl ⟨queue, rfl, rfl⟩
  | nil =>
    simp only [next, hq] at h
    rcases answer with e | b | b
    · exact absurd (Prod.mk.inj h).2 (by simp)
    · exact absurd (Prod.mk.inj h).2 (by simp)
    · have hn := hanswer b rfl
      have hrecorded : (w.record b, NextBlock.update b.update) = (w', .update update) →
          ∃ b', (.ok (some b) : BlockAnswer) = .ok (some b') ∧ update = b'.update ∧
            b'.number = w.pending ∧ w'.pending = w.pending + 1 ∧ w'.queue = [] ∧
            w.safe.number ≤ w'.safe.number := by
        intro heq
        obtain ⟨rfl, hupdate⟩ := Prod.mk.inj heq
        obtain ⟨hpending, hqueue, hsafe⟩ := record_spec hw hn
        exact ⟨b, rfl, (NextBlock.update.inj hupdate).symm, hn, hpending, hqueue.trans hq, hsafe⟩
      simp only [onBlock] at h
      split at h
      · rename_i last hlast
        obtain ⟨hsafe, hpending⟩ := last_number hw hlast
        split at h
        · simp only [Prod.mk.injEq, NextBlock.update.injEq] at h
          obtain ⟨rfl, rfl⟩ := h
          exact .inr (.inl ⟨rfl, last.number, rfl, hsafe, hpending, rfl, hq, rfl⟩)
        · exact .inr (.inr ⟨rfl, hrecorded h⟩)
      · split at h
        · exact absurd (Prod.mk.inj h).2 (by simp)
        · exact .inr (.inr ⟨rfl, hrecorded h⟩)

/-- What is emitted is some of the recent blocks. -/
theorem emitted_prefix (w : BlockWatcher) : w.emitted <+: w.recent := by
  unfold emitted
  split
  · exact List.prefix_rfl
  · exact List.rdropWhile_prefix _ _
  · exact List.nil_prefix

/-- What is no update changes nothing. -/
theorem next_none (h : ∀ update, (w.next answer).2 ≠ .update update) : (w.next answer).1 = w := by
  cases hn : (w.next answer).2 with
  | waiting => exact next_waiting hn
  | failed e => exact next_failed hn
  | update u => exact absurd hn (h u)

end BlockWatcher

namespace Watcher

variable {Event : Type} {numberOf : B256 → Nat} {bloomBits : Bytes → Bloom}
  {answered : List BlockHeader} {chain : List Delivered} {w : Watcher Event}

/-- What a watcher was told: its hashes are of the blocks it takes them for, and no block number is
too large to store. -/
structure Told (numberOf : B256 → Nat) (w : Watcher Event) : Prop where
  topics : w.events.events.topics.Nodup
  queued : ∀ number hash bloom, .new number hash bloom ∈ w.blocks.queue → numberOf hash = number
  fetched : ∀ number hash bloom retries, w.events.step = .block number hash bloom retries →
    numberOf hash = number
  pending : w.blocks.pending < 2 ^ 63

/-- What a poll of a watcher leaves of it, by the update it returns. -/
inductive Yields (w w' : Watcher Event) : List (WatcherUpdate Event) → Prop where
  | nothing (blocks : w'.blocks = w.blocks)
      (step : w'.events.step.expects = w.events.step.expects) : Yields w w' []
  | logs (update : EventUpdate Event) (blocks : w'.blocks = w.blocks)
      (step : w.events.step.expects.accept (.logs update) = some w'.events.step.expects)
      (ordered : logsInOrder update.first update.last update.logs = true) :
      Yields w w' [.logs update]
  | queued (update : BlockUpdate) (queue : List BlockUpdate)
      (idle : w.events.step.expects = .block) (first : w.blocks.queue = update :: queue)
      (blocks : w'.blocks = { w.blocks with queue })
      (step : Expects.block.accept (.block update : WatcherUpdate Event) =
        some w'.events.step.expects) :
      Yields w w' [.block update]
  | uncled (number : Nat) (idle : w.events.step.expects = .block) (first : w.blocks.queue = [])
      (above : w.blocks.safe.number < number) (last : number + 1 = w.blocks.pending)
      (pending : w'.blocks.pending = number) (queue : w'.blocks.queue = [])
      (safe : w'.blocks.safe = w.blocks.safe) (step : w'.events.step.expects = .block) :
      Yields w w' [.block (.uncle number)]
  | recorded (hash : B256) (bloom : Bloom) (idle : w.events.step.expects = .block)
      (first : w.blocks.queue = []) (pending : w'.blocks.pending = w.blocks.pending + 1)
      (queue : w'.blocks.queue = []) (safe : w.blocks.safe.number ≤ w'.blocks.safe.number)
      (step : w'.events.step.expects = .logsOf w.blocks.pending) :
      Yields w w' [.block (.new w.blocks.pending hash bloom)]
  | revalidated (number : Nat) (fetching : w.events.step.expects = .logsOf number)
      (above : w.blocks.safe.number < number) (pending : w'.blocks.pending = number)
      (queue : w'.blocks.queue = []) (safe : w'.blocks.safe = w.blocks.safe)
      (step : w'.events.step.expects = .block) :
      Yields w w' [.block (.uncle number)]

/-- The next block update is handed over. -/
theorem handOver_yields {answer : BlockAnswer} (h : w.InStep answered chain)
    (ht : w.Told numberOf) (hidle : w.events.step = .idle)
    (hanswer : ∀ b, answer = .ok (some b) →
      b.number = w.blocks.pending ∧ numberOf b.hash = b.number ∧ b.number + 1 < 2 ^ 63) :
    Yields w (w.handOver (w.blocks.next answer)).1 (w.handOver (w.blocks.next answer)).2.updates ∧
      (w.handOver (w.blocks.next answer)).1.Told numberOf := by
  have hexpects : w.events.step.expects = .block := by rw [hidle]; rfl
  have hnone := @BlockWatcher.next_none w.blocks answer
  have hupdate := fun blocks update => @BlockWatcher.next_update w.blocks blocks answer update
    h.consistent
  generalize w.blocks.next answer = r at *
  obtain ⟨blocks, outcome⟩ := r
  cases outcome with
  | waiting =>
    obtain rfl : blocks = w.blocks := hnone (by simp)
    exact ⟨.nothing rfl rfl, ht⟩
  | failed error =>
    obtain rfl : blocks = w.blocks := hnone (by simp)
    exact ⟨.nothing rfl rfl, ht⟩
  | update u =>
    simp only [handOver, EventWatcher.onBlockUpdate, hidle, Polled.updates]
    rcases hupdate blocks u rfl fun b hb => (hanswer b hb).1 with
      ⟨queue, hq, rfl⟩ | ⟨hq, number, rfl, hsafe, hlast, hpending, hqueue, hsame⟩ |
        ⟨hq, b, hb, rfl, hn, hpending, hqueue, hsafe⟩
    · refine ⟨.queued u queue hexpects hq rfl ?_, ht.topics, ?_, ?_, ht.pending⟩
      · cases u <;> rfl
      · intro number hash bloom hmem
        exact ht.queued number hash bloom (by rw [hq]; exact List.mem_cons_of_mem _ hmem)
      · intro number hash bloom retries hstep
        cases u with
        | warp f l => exact absurd hstep (by simp)
        | uncle n => exact absurd hstep (by simp)
        | new n k b =>
          obtain ⟨rfl, rfl, rfl, -⟩ := EventStep.block.inj hstep
          exact ht.queued n k b (by rw [hq]; exact List.mem_cons_self)
    · refine ⟨.uncled number hexpects hq hsafe hlast hpending hqueue hsame rfl, ht.topics, ?_, ?_, ?_⟩
      · intro n hash bloom hmem
        rw [show blocks.queue = [] from hqueue] at hmem
        exact absurd hmem (by simp)
      · exact fun n hash bloom retries hstep => absurd hstep (by simp)
      · have := ht.pending
        dsimp only
        omega
    · obtain ⟨-, hhash, hbound⟩ := hanswer b hb
      have hyield : Yields w ⟨blocks, { w.events with step := .block b.number b.hash b.logsBloom 0 }⟩
          [.block (.new w.blocks.pending b.hash b.logsBloom)] :=
        .recorded b.hash b.logsBloom hexpects hq hpending hqueue hsafe (congrArg Expects.logsOf hn)
      rw [← hn] at hyield
      refine ⟨hyield, ht.topics, ?_, ?_, ?_⟩
      · intro n hash bloom hmem
        rw [show blocks.queue = [] from hqueue] at hmem
        exact absurd hmem (by simp)
      · intro n hash bloom retries hstep
        obtain ⟨rfl, rfl, -, -⟩ := EventStep.block.inj hstep
        exact hhash
      · dsimp only
        omega

/-- From where the event watcher is drained. -/
theorem advance_yields (h : w.InStep answered chain) (ht : w.Told numberOf)
    (hidle : w.events.step = .idle) :
    Yields w w.advance.1 w.advance.2.updates ∧ w.advance.1.Told numberOf := by
  cases hq : w.blocks.queue with
  | nil =>
    simp only [advance, hq]
    exact ⟨.nothing rfl rfl, ht⟩
  | cons u queue =>
    simp only [advance, hq]
    exact handOver_yields h ht hidle fun b hb => absurd hb (by simp)

/-- To the first await. -/
theorem start_yields (h : w.InStep answered chain) (ht : w.Told numberOf) :
    Yields w w.start.1 w.start.2.updates ∧ w.start.1.Told numberOf := by
  unfold start
  split
  · rename_i hidle
    exact advance_yields h ht hidle
  · exact ⟨.nothing rfl rfl, ht⟩

/-- The fetched logs are in order. -/
theorem next_inOrder {node : NodeView} (hnode : node.Serves numberOf) (ht : w.Told numberOf)
    {update : EventUpdate Event}
    (h : (w.events.next bloomBits node.getLogs).2 = .ok (some update)) :
    logsInOrder update.first update.last update.logs = true := by
  cases hs : w.events.step with
  | idle =>
    simp only [EventWatcher.next, hs, Except.ok.injEq] at h
    exact absurd h (by simp)
  | warping first last pageSize =>
    simp only [EventWatcher.next, hs, EventWatcher.warp] at h
    split at h
    · rename_i logs hlogs
      obtain rfl := Option.some.inj (Except.ok.inj h)
      refine fetchLogs_inOrder hnode ht.topics (fun n hn => ?_) hlogs
      split at hn
      · exact hn
      · exact hn
    · exact absurd h (by simp [Except.map])
  | block number hash bloom retries =>
    have hnumber := ht.fetched number hash bloom retries hs
    simp only [EventWatcher.next, hs, EventWatcher.block] at h
    split at h
    · rename_i logs hlogs
      obtain rfl := Option.some.inj (Except.ok.inj h)
      refine fetchLogs_inOrder hnode ht.topics (fun n hn => ?_) hlogs
      have hsame : n = number := by
        split at hn
        · split at hn
          · exact hn.trans hnumber
          · exact hn.trans hnumber
        · exact hn.trans hnumber
      exact ⟨hsame.ge, hsame.le⟩
    · exact absurd h (by simp [Except.map])

/-- The step of the event watcher stays one of a block it was told. -/
theorem next_fetched {node : NodeView} (ht : w.Told numberOf) :
    ∀ number hash bloom retries,
      (w.events.next bloomBits node.getLogs).1.step = .block number hash bloom retries →
        numberOf hash = number := by
  intro number hash bloom retries h
  cases hs : w.events.step with
  | idle =>
    simp only [EventWatcher.next, hs] at h
    exact absurd h (by simp)
  | warping first last pageSize =>
    simp only [EventWatcher.next, hs, EventWatcher.warp] at h
    split at h
    · dsimp only at h
      split at h <;> exact absurd h (by simp)
    · exact absurd h (by simp)
  | block n k b r =>
    simp only [EventWatcher.next, hs, EventWatcher.block] at h
    split at h
    · exact absurd h (by simp)
    · obtain ⟨rfl, rfl, -, -⟩ := EventStep.block.inj h
      exact ht.fetched _ _ _ _ hs

theorem next_events {getLogs : GetLogs} (e : EventWatcher Event) :
    (e.next bloomBits getLogs).1.events = e.events := by
  cases hs : e.step with
  | idle => simp only [EventWatcher.next, hs]
  | warping first last pageSize =>
    simp only [EventWatcher.next, hs, EventWatcher.warp]
    split <;> rfl
  | block n k b r =>
    simp only [EventWatcher.next, hs, EventWatcher.block]
    split <;> rfl

/-- The fetched logs, or what follows if they were not found. -/
theorem logs_yields {node : NodeView} (hnode : node.Serves numberOf) (h : w.InStep answered chain)
    (ht : w.Told numberOf) (hstep : w.events.step ≠ .idle) :
    Yields w (w.resume bloomBits node .logs).1 (w.resume bloomBits node .logs).2.updates ∧
      (w.resume bloomBits node .logs).1.Told numberOf := by
  have hcases := @EventWatcher.next_cases _ bloomBits _ node.getLogs hstep
    fun first last pageSize hs => (h.page first last pageSize hs).1
  have hordered := fun update => @next_inOrder _ _ bloomBits _ _ hnode ht update
  have hfetched := @next_fetched _ _ bloomBits _ node ht
  have hevents := @next_events _ bloomBits node.getLogs w.events
  simp only [resume]
  generalize w.events.next bloomBits node.getLogs = r at *
  obtain ⟨events, result⟩ := r
  have htold : Told numberOf { w with events } := by
    refine ⟨?_, ht.queued, hfetched, ht.pending⟩
    rw [show events.events = w.events.events from hevents]
    exact ht.topics
  rcases hcases with ⟨update, hresult, haccept, -⟩ | ⟨error, hresult, -, hnew⟩
  · obtain rfl : result = .ok (some update) := hresult
    exact ⟨.logs update rfl haccept (hordered update rfl), htold⟩
  · obtain rfl : result = .error error := hresult
    have hexpects : events.step.expects = w.events.step.expects := by
      rcases hnew with ⟨n, k, b, r, hw, hnew⟩ | ⟨f, l, p, hw, hnew⟩
      · rw [hw, show events.step = _ from hnew]
        rfl
      · rw [hw, show events.step = _ from hnew]
        rfl
    simp only [fetchFailed]
    split
    · exact ⟨.nothing rfl hexpects, htold⟩
    · exact ⟨.nothing rfl hexpects, htold⟩

/-- **The revalidated block.** -/
theorem revalidation_yields {node : NodeView} {error : EventError} (h : w.InStep answered chain)
    (ht : w.Told numberOf) (hfits : Loop.Fits ⟨w, .awaiting (.revalidation error)⟩) :
    Yields w (w.resume bloomBits node (.revalidation error)).1
        (w.resume bloomBits node (.revalidation error)).2.updates ∧
      (w.resume bloomBits node (.revalidation error)).1.Told numberOf := by
  obtain ⟨-, hne, number, hash, bloom, retries, hstep⟩ := hfits
  obtain ⟨last, hlast⟩ : ∃ last, w.blocks.emitted.getLast? = some last :=
    ⟨_, List.getLast?_eq_some_getLast hne⟩
  obtain ⟨rfl, rfl⟩ := h.last number hash bloom retries hstep last hlast
  have hstep : w.events.step = .block last.number last.hash bloom retries := hstep
  simp only [resume, hlast, Option.map_some, Option.getD_some]
  rcases BlockWatcher.revalidate_cases hlast (node.getBlock (.number last.number)) with
    ⟨e, hr⟩ | hr | hr
  · rw [hr]
    exact ⟨.nothing rfl rfl, ht⟩
  · rw [hr]
    exact ⟨.nothing rfl rfl, ht⟩
  · rw [hr]
    have hinvalidated : w.events.onBlockInvalidated last.hash = .ok { w.events with step := .idle } := by
      simp only [EventWatcher.onBlockInvalidated, hstep, if_true]
    simp only [hinvalidated, advance, handOver, BlockWatcher.next, EventWatcher.onBlockUpdate,
      Polled.updates]
    have hmem : last ∈ w.blocks.recent := w.blocks.emitted_prefix.subset (List.mem_of_getLast? hlast)
    obtain ⟨i, hi⟩ := List.mem_iff_getElem?.mp hmem
    have hlt := (List.getElem?_eq_some_iff.mp hi).1
    have hnumber := h.consistent.linked.number_get hi
    have hpending := h.consistent.pending
    have hbound := ht.pending
    refine ⟨.revalidated last.number (by rw [hstep]; rfl) (by omega) rfl rfl rfl rfl, ht.topics, ?_,
      ?_, ?_⟩
    · exact fun n k b hk => absurd hk (by simp)
    · exact fun n k b r hk => absurd hk (by simp)
    · dsimp only
      omega

/-- **A poll that is answered**, wherever `next` waits. -/
theorem resume_yields {node : NodeView} {place : Awaiting} (hnode : node.Serves numberOf)
    (h : w.InStep answered chain) (ht : w.Told numberOf) (hfits : Loop.Fits ⟨w, .awaiting place⟩) :
    Yields w (w.resume bloomBits node place).1 (w.resume bloomBits node place).2.updates ∧
      (w.resume bloomBits node place).1.Told numberOf := by
  cases place with
  | logs => exact logs_yields hnode h ht hfits
  | revalidation error => exact revalidation_yields h ht hfits
  | block =>
    exact handOver_yields h ht hfits.1 fun b hb =>
      ⟨hnode.honest _ b hb, (hnode.blocks _ b hb).1, (hnode.blocks _ b hb).2⟩

end Watcher

namespace Loop

variable {Event : Type} {numberOf : B256 → Nat} {bloomBits : Bytes → Bloom}
  {answered : List BlockHeader} {chain : List Delivered} {l : Loop Event}

variable (bloomBits) in
/-- **What a poll of the update future leaves**, and what it returns: one update, or none. -/
theorem poll_yields {node : NodeView} (hnode : node.Serves numberOf)
    (h : l.watcher.InStep answered chain) (ht : l.watcher.Told numberOf) (hfits : l.Fits) :
    (l.poll bloomBits node).1.watcher.Told numberOf ∧
      ((∃ update, (l.poll bloomBits node).2 = [.ok update] ∧
          Watcher.Yields l.watcher (l.poll bloomBits node).1.watcher [update]) ∨
        (∀ update, (l.poll bloomBits node).2 ≠ [.ok update]) ∧
          Watcher.Yields l.watcher (l.poll bloomBits node).1.watcher []) := by
  have hpolled : ∀ r : Watcher Event × Polled Event,
      Watcher.Yields l.watcher r.1 r.2.updates ∧ r.1.Told numberOf →
      (polled r).1.watcher.Told numberOf ∧
        ((∃ update, (polled r).2 = [.ok update] ∧
            Watcher.Yields l.watcher (polled r).1.watcher [update]) ∨
          (∀ update, (polled r).2 ≠ [.ok update]) ∧
            Watcher.Yields l.watcher (polled r).1.watcher []) := by
    rintro ⟨w, outcome⟩ ⟨hyield, htold⟩
    rcases outcome with place | ⟨e | u⟩
    · exact ⟨htold, .inr ⟨fun u hu => absurd hu (by simp [polled]), hyield⟩⟩
    · exact ⟨htold, .inr ⟨fun u hu => absurd hu (by simp [polled]), hyield⟩⟩
    · exact ⟨htold, .inl ⟨u, rfl, hyield⟩⟩
  have hstay : l.watcher.Told numberOf ∧
      ((∃ update, ([] : List (Outcome Event)) = [.ok update] ∧
          Watcher.Yields l.watcher l.watcher [update]) ∨
        (∀ update, ([] : List (Outcome Event)) ≠ [.ok update]) ∧
          Watcher.Yields l.watcher l.watcher []) :=
    ⟨ht, .inr ⟨fun u hu => absurd hu (by simp), .nothing rfl rfl⟩⟩
  obtain ⟨w, place⟩ := l
  cases place with
  | start => exact hpolled _ (Watcher.start_yields h ht)
  | awaiting place => exact hpolled _ (Watcher.resume_yields hnode h ht hfits)
  | retrying => exact hstay
  | stopped => exact hstay

end Loop

end Safenet
