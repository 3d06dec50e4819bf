/-
# The event watcher

`index/events.rs`: fetches the logs of the blocks that the block watcher reports, decodes them into
an event set, and puts them in order.  Which of three strategies it asks a node with depends on the
failures so far, so that they had better find the same events.

They do not for every event set (`fetches_agree_iff`):

* `watcher_events!` concatenates the topics of its variants, and one query per topic makes two
  queries of a topic that two variants share.  Its logs are then returned twice;
* a filter without addresses, or without topics, matches any, where the client's own matches none.

The node is the function `getLogs` from a filter to its answer.  Of several queries that fail, the
first in the order of the topics is the one reported.
-/
import Mathlib.Data.List.Sort
import Safenet.Core.BlockWatcher

namespace Safenet

/-! ## 1. Events and logs -/

/-- A raw log. -/
structure Log where
  address : Address
  topics : List B256
  data : Bytes
  blockHash : Option B256
  blockNumber : Option Nat
  logIndex : Option Nat
  deriving DecidableEq

/-- The event signature hash of a log. -/
def Log.topic0 (log : Log) : Option B256 := log.topics.head?

/-- A typed set of events. -/
structure Events (Event : Type) where
  topics : List B256
  decodeLog : List B256 → Bytes → Option Event

/-- A generated `*Events` enum, with the variant that wraps it. -/
structure EventEnum (Event : Type) where
  selectors : List B256
  decodeRawLog : List B256 → Bytes → Option Event

/-- `watcher_events!`.  Decoding tries each variant in order. -/
def watcherEvents {Event : Type} (variants : List (EventEnum Event)) : Events Event where
  topics := variants.flatMap (·.selectors)
  decodeLog topics data := variants.findSome? fun variant => variant.decodeRawLog topics data

/-- Decoded logs, with the blocks they were fetched for. -/
structure EventUpdate (Event : Type) where
  first : Nat
  last : Nat
  logs : List (EventLog Event)

/-- The errors of the event watcher. -/
inductive EventError where
  | rpc (error : RpcError)
  | decodeLog (blockHash : B256) (logIndex : Nat)
  | tooManyLogs
  | incompleteLogs (blockHash : B256)
  | unexpectedBlockUpdate
  | unexpectedBlockInvalidation
  deriving DecidableEq

/-- `NonZeroU64`. -/
abbrev NonZero : Type := { n : Nat // 0 < n }

/-- Half, rounded up. -/
def NonZero.halve (n : NonZero) : NonZero := ⟨(n.val + 1) / 2, by have := n.property; omega⟩

/-- The configuration of the event watcher. -/
structure EventConfig where
  blockPageSize : NonZero
  blockSingleQueryRetryCount : NonZero
  useClientFiltering : Bool
  maxLogsPerQuery : Option NonZero
  fallibleEvents : List B256

/-! ## 2. Queries -/

/-- The blocks of a query. -/
inductive BlockFilter where
  | hash (hash : B256)
  | range (first last : Nat)
  deriving DecidableEq

/-- `eth_getLogs`: no addresses, or no topics, are any. -/
structure Filter where
  blocks : BlockFilter
  addresses : List Address
  topics : List B256

/-- Whether a log of the blocks is one the filter asks for. -/
def Filter.matchesLog (f : Filter) (log : Log) : Bool :=
  (f.addresses.isEmpty || f.addresses.contains log.address) &&
    (f.topics.isEmpty || log.topic0.any f.topics.contains)

/-- What the node answers to a filter. -/
abbrev GetLogs : Type := Filter → Except RpcError (List Log)

/-- How to fetch the logs of some blocks. -/
inductive Fetch where
  | singleQuery (blocks : BlockFilter)
  | multipleQueries (blocks : BlockFilter)
  | clientFiltered (blockHash : B256) (logsBloom : Bloom)

/-- What is accrued of a log. -/
def Log.bloomInputs (log : Log) : List Bytes :=
  beBytes 20 log.address.val :: log.topics.map B256.toBytes

/-- The bloom filter of some logs, given the bits of an input. -/
def computeLogsBloom (bloomBits : Bytes → Bloom) (logs : List Log) : Bloom :=
  ((logs.flatMap Log.bloomInputs).map bloomBits).foldr (· ||| ·) 0

/-- The event of a log, with its position. -/
def Events.eventLog {Event : Type} (E : Events Event) (log : Log) : Option (EventLog Event) := do
  let data ← E.decodeLog log.topics log.data
  let block ← log.blockNumber
  let index ← log.logIndex
  return { block, index, address := log.address, data }

/-- The order of positions. -/
def EventLog.le {Event : Type} (a b : EventLog Event) : Prop :=
  a.block < b.block ∨ a.block = b.block ∧ a.index ≤ b.index

instance {Event : Type} : DecidableRel (@EventLog.le Event) :=
  fun a b => inferInstanceAs (Decidable (a.block < b.block ∨ a.block = b.block ∧ a.index ≤ b.index))

/-- `decode_and_sort`. -/
def decodeAndSort {Event : Type} (E : Events Event) (logs : List Log) :
    Except EventError (List (EventLog Event)) := do
  let logs ← logs.mapM fun log =>
    match E.eventLog log with
    | some event => .ok event
    | none => .error (.decodeLog (log.blockHash.getD (Fin.last _)) (log.logIndex.getD u64Max))
  return logs.insertionSort EventLog.le

/-! ## 3. The watcher -/

/-- Where the watcher stands. -/
inductive EventStep where
  | idle
  | warping (first last : Nat) (pageSize : NonZero)
  | block (number : Nat) (hash : B256) (logsBloom : Bloom) (retries : Nat)

/-- The event watcher. -/
structure EventWatcher (Event : Type) where
  config : EventConfig
  addresses : List Address
  events : Events Event
  step : EventStep

namespace EventWatcher

variable {Event : Type} (bloomBits : Bytes → Bloom) (w : EventWatcher Event) (getLogs : GetLogs)

/-- A new watcher. -/
def create (config : EventConfig) (addresses : List Address) (events : Events Event) :
    EventWatcher Event :=
  ⟨config, addresses, events, .idle⟩

/-- `check_logs_limit`. -/
def checkLogsLimit (logs : List Log) : Except EventError (List Log) :=
  if w.config.maxLogsPerQuery.any (·.val ≤ logs.length) then .error .tooManyLogs else .ok logs

/-- One query, for some of the topics. -/
def query (blocks : BlockFilter) (topics : List B256) : Except EventError (List Log) :=
  match getLogs ⟨blocks, w.addresses, topics⟩ with
  | .ok logs => w.checkLogsLimit logs
  | .error error => .error (.rpc error)

/-- The query for one topic.  A failed one is dropped if the event is fallible. -/
def queryTopic (blocks : BlockFilter) (topic : B256) : Except EventError (List Log) :=
  match w.query getLogs blocks [topic] with
  | .ok logs => .ok logs
  | .error error => if w.config.fallibleEvents.contains topic then .ok [] else .error error

/-- `fetch_logs`. -/
def fetchLogs : Fetch → Except EventError (List (EventLog Event))
  | .singleQuery blocks => do
    let logs ← w.query getLogs blocks w.events.topics
    decodeAndSort w.events logs
  | .multipleQueries blocks => do
    let logs ← w.events.topics.mapM (w.queryTopic getLogs blocks)
    decodeAndSort w.events logs.flatten
  | .clientFiltered blockHash logsBloom =>
    match getLogs ⟨.hash blockHash, [], []⟩ with
    | .error error => .error (.rpc error)
    | .ok logs =>
      if computeLogsBloom bloomBits logs ≠ logsBloom then .error (.incompleteLogs blockHash)
      else decodeAndSort w.events <| logs.filter fun log =>
        w.addresses.contains log.address && log.topic0.any w.events.topics.contains

/-- `on_block_update`. -/
def onBlockUpdate (update : BlockUpdate) : Except EventError (EventWatcher Event) :=
  match w.step with
  | .idle => .ok { w with
      step := match update with
        | .warp first last => .warping first last w.config.blockPageSize
        | .uncle _ => .idle
        | .new number hash logsBloom => .block number hash logsBloom 0 }
  | _ => .error .unexpectedBlockUpdate

/-- `on_block_invalidated`. -/
def onBlockInvalidated (blockHash : B256) : Except EventError (EventWatcher Event) :=
  match w.step with
  | .block _ current _ _ =>
    if current = blockHash then .ok { w with step := .idle } else .error .unexpectedBlockInvalidation
  | _ => .error .unexpectedBlockInvalidation

/-- `warp`: one page, once its logs are fetched. -/
def warp (first last : Nat) (pageSize : NonZero) :
    EventWatcher Event × Except EventError (EventUpdate Event) :=
  let queryLast := min last (first + (pageSize.val - 1))
  let blocks := .range first queryLast
  let fetch : Fetch := if 1 < pageSize.val then .singleQuery blocks else .multipleQueries blocks
  match w.fetchLogs bloomBits getLogs fetch with
  | .ok logs =>
    let step := if queryLast = last then .idle
      else .warping (queryLast + 1) last w.config.blockPageSize
    ({ w with step }, .ok ⟨first, queryLast, logs⟩)
  | .error error => ({ w with step := .warping first last pageSize.halve }, .error error)

/-- `block`: a new block, once its logs are fetched. -/
def block (number : Nat) (hash : B256) (logsBloom : Bloom) (retries : Nat) :
    EventWatcher Event × Except EventError (EventUpdate Event) :=
  let fetch : Fetch :=
    if retries < w.config.blockSingleQueryRetryCount.val then
      if w.config.useClientFiltering then .clientFiltered hash logsBloom
      else .singleQuery (.hash hash)
    else .multipleQueries (.hash hash)
  match w.fetchLogs bloomBits getLogs fetch with
  | .ok logs => ({ w with step := .idle }, .ok ⟨number, number, logs⟩)
  | .error error => ({ w with step := .block number hash logsBloom (retries + 1) }, .error error)

/-- `next`, once its request is answered. -/
def next : EventWatcher Event × Except EventError (Option (EventUpdate Event)) :=
  match w.step with
  | .idle => (w, .ok none)
  | .warping first last pageSize =>
    let (w, result) := w.warp bloomBits getLogs first last pageSize
    (w, result.map some)
  | .block number hash logsBloom retries =>
    let (w, result) := w.block bloomBits getLogs number hash logsBloom retries
    (w, result.map some)

end EventWatcher

/-! ## 4. Decoding -/

section Decoding

variable {Event : Type} {E : Events Event} {logs logs' : List Log}

/-- All logs decode. -/
theorem decodeAndSort_ok (h : ∀ log ∈ logs, ∃ event, E.eventLog log = some event) :
    decodeAndSort E logs = .ok ((logs.filterMap E.eventLog).insertionSort EventLog.le) := by
  have hmapM : (logs.mapM fun log =>
      match E.eventLog log with
      | some event => .ok event
      | none => .error (.decodeLog (log.blockHash.getD (Fin.last _)) (log.logIndex.getD u64Max))) =
      (.ok (logs.filterMap E.eventLog) : Except EventError _) := by
    induction logs with
    | nil => rfl
    | cons log logs ih =>
      obtain ⟨event, hevent⟩ := h log List.mem_cons_self
      rw [List.mapM_cons, ih fun l hl => h l (List.mem_cons_of_mem _ hl),
        List.filterMap_cons_some hevent]
      simp only [hevent]
      rfl
  rw [decodeAndSort, hmapM]
  rfl

/-- One does not. -/
theorem decodeAndSort_error {log : Log} (hlog : log ∈ logs) (h : E.eventLog log = none) :
    (decodeAndSort E logs).toOption = none := by
  have hmapM : ∃ error, (logs.mapM fun log =>
      match E.eventLog log with
      | some event => .ok event
      | none => .error (.decodeLog (log.blockHash.getD (Fin.last _)) (log.logIndex.getD u64Max))) =
      (.error error : Except EventError (List (EventLog Event))) := by
    induction logs with
    | nil => exact absurd hlog (by simp)
    | cons first logs ih =>
      rw [List.mapM_cons]
      cases hfirst : E.eventLog first with
      | none => exact ⟨_, rfl⟩
      | some event =>
        have htail : log ∈ logs := by
          rcases List.mem_cons.mp hlog with rfl | hlog
          · exact absurd (hfirst.symm.trans h) (by simp)
          · exact hlog
        obtain ⟨error, herror⟩ := ih htail
        rw [herror]
        exact ⟨error, rfl⟩
  obtain ⟨error, herror⟩ := hmapM
  rw [decodeAndSort, herror]
  rfl

/-- What comes out is the decoded logs, in some order. -/
theorem decodeAndSort_perm {events : List (EventLog Event)}
    (h : (decodeAndSort E logs).toOption = some events) : events.Perm (logs.filterMap E.eventLog) := by
  by_cases hall : ∀ log ∈ logs, ∃ event, E.eventLog log = some event
  · rw [decodeAndSort_ok hall] at h
    exact Option.some.inj h ▸ List.perm_insertionSort _ _
  · push Not at hall
    obtain ⟨log, hlog, hnone⟩ := hall
    rw [decodeAndSort_error hlog (Option.eq_none_iff_forall_ne_some.mpr hnone)] at h
    exact absurd h (by simp)

instance : Std.Total (@EventLog.le Event) :=
  ⟨fun a b => by unfold EventLog.le; omega⟩

instance : IsTrans (EventLog Event) EventLog.le :=
  ⟨fun a b c hab hbc => by unfold EventLog.le at *; omega⟩

/-- An event is where its log is. -/
theorem eventLog_position {log : Log} {event : EventLog Event} (h : E.eventLog log = some event) :
    log.blockNumber = some event.block ∧ log.logIndex = some event.index := by
  simp only [Events.eventLog, Option.bind_eq_bind, Option.bind_eq_some_iff] at h
  obtain ⟨data, -, block, hblock, index, hindex, hevent⟩ := h
  obtain rfl := Option.some.inj hevent
  exact ⟨hblock, hindex⟩

/-- The events of logs with different positions in one block. -/
theorem events_distinct {number : Nat} (hnumber : ∀ log ∈ logs, log.blockNumber = some number)
    (hindex : logs.Pairwise fun a b => a.logIndex ≠ b.logIndex) :
    (∀ event ∈ logs.filterMap E.eventLog, event.block = number) ∧
      (logs.filterMap E.eventLog).Pairwise fun a b => a.index ≠ b.index := by
  constructor
  · intro event hevent
    obtain ⟨log, hlog, h⟩ := List.mem_filterMap.mp hevent
    exact (Option.some.inj ((hnumber log hlog).symm.trans (eventLog_position h).1)).symm
  · refine List.pairwise_filterMap.mpr (hindex.imp ?_)
    intro a b hne x hx y hy hxy
    refine hne ?_
    rw [(eventLog_position hx).2, (eventLog_position hy).2, hxy]

/-- They are sorted strictly. -/
theorem sorted_strict {number : Nat} (hnumber : ∀ log ∈ logs, log.blockNumber = some number)
    (hindex : logs.Pairwise fun a b => a.logIndex ≠ b.logIndex) :
    ((logs.filterMap E.eventLog).insertionSort EventLog.le).Pairwise
      fun a b => a.index < b.index := by
  obtain ⟨hblock, hdistinct⟩ := events_distinct (E := E) hnumber hindex
  have hsame := List.perm_insertionSort EventLog.le (logs.filterMap E.eventLog)
  have hsorted := List.pairwise_insertionSort EventLog.le (logs.filterMap E.eventLog)
  have hne := hsame.symm.pairwise hdistinct fun h => h.symm
  refine (hsorted.and hne).imp_of_mem ?_
  rintro a b ha hb ⟨hle, hne⟩
  have hba := hblock a (hsame.mem_iff.mp ha)
  have hbb := hblock b (hsame.mem_iff.mp hb)
  unfold EventLog.le at hle
  omega

/-- Logs with different positions in one block come out strictly sorted, whatever their order. -/
theorem decodeAndSort_eq {number : Nat} (hperm : logs.Perm logs')
    (hnumber : ∀ log ∈ logs, log.blockNumber = some number)
    (hindex : logs.Pairwise fun a b => a.logIndex ≠ b.logIndex) :
    (decodeAndSort E logs').toOption = (decodeAndSort E logs).toOption ∧
      ∀ events, (decodeAndSort E logs).toOption = some events →
        events.Pairwise fun a b => a.index < b.index := by
  by_cases hall : ∀ log ∈ logs, ∃ event, E.eventLog log = some event
  · rw [decodeAndSort_ok hall, decodeAndSort_ok fun log h => hall log (hperm.mem_iff.mpr h)]
    have hstrict := sorted_strict (E := E) hnumber hindex
    have hstrict' := sorted_strict (E := E) (fun log h => hnumber log (hperm.mem_iff.mpr h))
      (hperm.pairwise hindex fun h => h.symm)
    have hevents : ((logs'.filterMap E.eventLog).insertionSort EventLog.le).Perm
        ((logs.filterMap E.eventLog).insertionSort EventLog.le) :=
      (List.perm_insertionSort _ _).trans <|
        (hperm.symm.filterMap _).trans (List.perm_insertionSort _ _).symm
    constructor
    · exact congrArg some (hevents.eq_of_pairwise (fun a b _ _ hab hba => absurd hab hba.asymm)
        hstrict' hstrict)
    · intro events h
      exact Option.some.inj h ▸ hstrict
  · push Not at hall
    obtain ⟨log, hlog, hnone⟩ := hall
    have hnone := Option.eq_none_iff_forall_ne_some.mpr hnone
    rw [decodeAndSort_error hlog hnone, decodeAndSort_error (hperm.mem_iff.mp hlog) hnone]
    exact ⟨rfl, fun events h => absurd h (by simp)⟩

end Decoding

/-! ## 5. The strategies -/

/-- A block with its logs. -/
structure LoggedBlock (bloomBits : Bytes → Bloom) where
  number : Nat
  hash : B256
  logsBloom : Bloom
  logs : List Log
  bloom : logsBloom = computeLogsBloom bloomBits logs
  numbered : ∀ log ∈ logs, log.blockNumber = some number
  distinct : logs.Pairwise fun a b => a.logIndex ≠ b.logIndex

/-- The bloom filter does not depend on the order. -/
theorem computeLogsBloom_perm (bloomBits : Bytes → Bloom) {logs logs' : List Log}
    (h : logs.Perm logs') : computeLogsBloom bloomBits logs = computeLogsBloom bloomBits logs' := by
  have : LeftCommutative (· ||| · : Bloom → Bloom → Bloom) :=
    ⟨fun a b c => by rw [← BitVec.or_assoc, BitVec.or_comm a, BitVec.or_assoc]⟩
  exact ((h.flatMap_right _).map _).foldr_eq 0

namespace EventWatcher

variable {Event : Type} {bloomBits : Bytes → Bloom} {w : EventWatcher Event} {getLogs : GetLogs}
  {b : LoggedBlock bloomBits}

/-- The node answers each filter of the block with exactly the matching logs, in some order. -/
def Serving (getLogs : GetLogs) (b : LoggedBlock bloomBits) : Prop :=
  ∀ f, f.blocks = .hash b.hash →
    ∃ logs, getLogs f = .ok logs ∧ (b.logs.filter f.matchesLog).Perm logs

/-- No query of the watched addresses reaches the limit. -/
def Unlimited (w : EventWatcher Event) (b : LoggedBlock bloomBits) : Prop :=
  ∀ topics max, w.config.maxLogsPerQuery = some max →
    (b.logs.filter (Filter.matchesLog ⟨.hash b.hash, w.addresses, topics⟩)).length < max.val

/-- The logs of the block that are watched, for a node. -/
def watched (w : EventWatcher Event) (b : LoggedBlock bloomBits) : List Log :=
  b.logs.filter (Filter.matchesLog ⟨.hash b.hash, w.addresses, w.events.topics⟩)

/-- What a strategy returns for the block, if it does not fail. -/
def fetched (bloomBits : Bytes → Bloom) (w : EventWatcher Event) (getLogs : GetLogs) (fetch : Fetch) :
    Option (List (EventLog Event)) :=
  (w.fetchLogs bloomBits getLogs fetch).toOption

/-- **The strategies agree** on the block: all fail, or all return one list, strictly sorted. -/
def FetchesAgree (w : EventWatcher Event) (getLogs : GetLogs) (b : LoggedBlock bloomBits) : Prop :=
  ∃ events : Option (List (EventLog Event)),
    w.fetched bloomBits getLogs (.singleQuery (.hash b.hash)) = events ∧
    w.fetched bloomBits getLogs (.multipleQueries (.hash b.hash)) = events ∧
    w.fetched bloomBits getLogs (.clientFiltered b.hash b.logsBloom) = events ∧
    ∀ list, events = some list → list.Pairwise fun a b => a.index < b.index

/-- A filter with no addresses or no topics finds nothing, and each topic of a log that is watched
is listed once, unless some log that is watched does not decode. -/
structure Unambiguous (w : EventWatcher Event) (b : LoggedBlock bloomBits) : Prop where
  nonempty : w.addresses = [] ∨ w.events.topics = [] → w.watched b = []
  once : (∃ log ∈ w.watched b, w.events.eventLog log = none) ∨
    ∀ log ∈ w.watched b, ∀ topic, log.topic0 = some topic → w.events.topics.count topic = 1

/-- A filter matches the logs of its addresses and topics, either of which may be any. -/
theorem mem_filter_matches {blocks : BlockFilter} {addresses : List Address} {topics : List B256}
    {log : Log} {logs : List Log} :
    log ∈ logs.filter (Filter.matchesLog ⟨blocks, addresses, topics⟩) ↔
      log ∈ logs ∧ (addresses = [] ∨ log.address ∈ addresses) ∧
        (topics = [] ∨ ∃ topic ∈ topics, log.topic0 = some topic) := by
  simp only [List.mem_filter, Filter.matchesLog, Bool.and_eq_true, Bool.or_eq_true,
    List.isEmpty_iff, List.contains_iff_mem]
  refine and_congr_right fun _ => and_congr_right fun _ => or_congr_right ?_
  cases log.topic0 <;> simp

/-- What the client itself keeps. -/
theorem mem_filter_client {log : Log} :
    log ∈ b.logs.filter (fun log =>
        w.addresses.contains log.address && log.topic0.any w.events.topics.contains) ↔
      log ∈ b.logs ∧ log.address ∈ w.addresses ∧ ∃ topic ∈ w.events.topics, log.topic0 = some topic := by
  simp only [List.mem_filter, Bool.and_eq_true, List.contains_iff_mem]
  refine and_congr_right fun _ => and_congr_right fun _ => ?_
  cases log.topic0 <;> simp

/-- The client keeps what a node matches, but nothing if there are no addresses or no topics. -/
theorem filter_client :
    b.logs.filter (fun log =>
        w.addresses.contains log.address && log.topic0.any w.events.topics.contains) =
      if w.addresses = [] ∨ w.events.topics = [] then [] else w.watched b := by
  split
  · rename_i hempty
    refine List.eq_nil_iff_forall_not_mem.mpr fun log hlog => ?_
    obtain ⟨-, haddress, topic, htopic, -⟩ := mem_filter_client.mp hlog
    rcases hempty with h | h
    · rw [h] at haddress
      exact absurd haddress (by simp)
    · rw [h] at htopic
      exact absurd htopic (by simp)
  · rename_i hne
    obtain ⟨haddresses, htopics⟩ := not_or.mp hne
    refine List.filter_congr fun log _ => ?_
    rw [Filter.matchesLog, List.isEmpty_eq_false_iff.mpr haddresses,
      List.isEmpty_eq_false_iff.mpr htopics, Bool.false_or, Bool.false_or]

theorem nodup_logs (b : LoggedBlock bloomBits) : b.logs.Nodup :=
  b.distinct.imp fun h heq => h (congrArg Log.logIndex heq)

/-- Whatever order its logs are served in, the block's own is as good. -/
theorem decode_served {p : Log → Bool} {logs : List Log} (hperm : (b.logs.filter p).Perm logs) :
    (decodeAndSort w.events logs).toOption = (decodeAndSort w.events (b.logs.filter p)).toOption :=
  (decodeAndSort_eq hperm (fun log h => b.numbered log (List.mem_of_mem_filter h))
    (b.distinct.filter p)).1

/-- A query is answered. -/
theorem query_ok (hs : Serving getLogs b) (hu : w.Unlimited b) (topics : List B256) :
    ∃ logs, w.query getLogs (.hash b.hash) topics = .ok logs ∧
      (b.logs.filter (Filter.matchesLog ⟨.hash b.hash, w.addresses, topics⟩)).Perm logs := by
  obtain ⟨logs, hget, hperm⟩ := hs ⟨.hash b.hash, w.addresses, topics⟩ rfl
  refine ⟨logs, ?_, hperm⟩
  have hlimit : ¬w.config.maxLogsPerQuery.any (·.val ≤ logs.length) := by
    cases hmax : w.config.maxLogsPerQuery with
    | none => simp
    | some max =>
      have := hu topics max hmax
      rw [hperm.length_eq] at this
      simpa using this
  rw [query, hget]
  exact if_neg hlimit

/-- One query for all events. -/
theorem fetched_single (hs : Serving getLogs b) (hu : w.Unlimited b) :
    w.fetched bloomBits getLogs (.singleQuery (.hash b.hash)) =
      (decodeAndSort w.events (w.watched b)).toOption := by
  obtain ⟨logs, hquery, hperm⟩ := query_ok hs hu w.events.topics
  rw [fetched, fetchLogs, hquery]
  exact decode_served hperm

/-- The whole block, filtered by the client. -/
theorem fetched_client (hs : Serving getLogs b) :
    w.fetched bloomBits getLogs (.clientFiltered b.hash b.logsBloom) =
      (decodeAndSort w.events
        (if w.addresses = [] ∨ w.events.topics = [] then [] else w.watched b)).toOption := by
  obtain ⟨logs, hget, hperm⟩ := hs ⟨.hash b.hash, [], []⟩ rfl
  have hall : b.logs.filter (Filter.matchesLog ⟨.hash b.hash, [], []⟩) = b.logs :=
    List.filter_eq_self.mpr fun log _ => rfl
  rw [hall] at hperm
  have hbloom : computeLogsBloom bloomBits logs = b.logsBloom :=
    (computeLogsBloom_perm bloomBits hperm).symm.trans b.bloom.symm
  rw [fetched, fetchLogs, hget]
  simp only [ne_eq, hbloom, not_true_eq_false, if_false]
  rw [decode_served (hperm.filter _), filter_client]

/-- The logs of one query per topic. -/
def perTopic (w : EventWatcher Event) (b : LoggedBlock bloomBits) : List Log :=
  w.events.topics.flatMap fun topic =>
    b.logs.filter (Filter.matchesLog ⟨.hash b.hash, w.addresses, [topic]⟩)

theorem fetched_multiple (hs : Serving getLogs b) (hu : w.Unlimited b) :
    ∃ logs, (w.perTopic b).Perm logs ∧
      w.fetched bloomBits getLogs (.multipleQueries (.hash b.hash)) =
        (decodeAndSort w.events logs).toOption := by
  have hmapM : ∀ topics : List B256, ∃ served,
      topics.mapM (w.queryTopic getLogs (.hash b.hash)) = .ok served ∧
      (topics.flatMap fun topic =>
        b.logs.filter (Filter.matchesLog ⟨.hash b.hash, w.addresses, [topic]⟩)).Perm
          served.flatten := by
    intro topics
    induction topics with
    | nil => exact ⟨[], rfl, .nil⟩
    | cons topic topics ih =>
      obtain ⟨logs, hquery, hperm⟩ := query_ok hs hu [topic]
      obtain ⟨served, hserved, hrest⟩ := ih
      refine ⟨logs :: served, ?_, ?_⟩
      · rw [List.mapM_cons, queryTopic, hquery, hserved]
        rfl
      · rw [List.flatMap_cons, List.flatten_cons]
        exact hperm.append hrest
  obtain ⟨served, hserved, hperm⟩ := hmapM w.events.topics
  refine ⟨served.flatten, hperm, ?_⟩
  rw [fetched, fetchLogs, hserved]
  rfl

theorem mem_perTopic {log : Log} : log ∈ w.perTopic b ↔ w.events.topics ≠ [] ∧ log ∈ w.watched b := by
  simp only [perTopic, watched, List.mem_flatMap, mem_filter_matches]
  constructor
  · rintro ⟨topic, htopic, hlog, haddress, hlisted⟩
    obtain ⟨t, ht, htopic0⟩ := hlisted.resolve_left (by simp)
    obtain rfl := List.mem_singleton.mp ht
    exact ⟨List.ne_nil_of_mem htopic, hlog, haddress, .inr ⟨t, htopic, htopic0⟩⟩
  · rintro ⟨hne, hlog, haddress, hlisted⟩
    obtain ⟨topic, htopic, htopic0⟩ := hlisted.resolve_left hne
    exact ⟨topic, htopic, hlog, haddress, .inr ⟨topic, List.mem_singleton_self _, htopic0⟩⟩

/-- Nothing is queried twice if every topic of a watched log is listed once. -/
theorem perTopic_nodup (honce : ∀ log ∈ w.watched b, ∀ topic, log.topic0 = some topic →
    w.events.topics.count topic = 1) : (w.perTopic b).Nodup := by
  refine List.nodup_flatMap.mpr ⟨fun _ _ => (nodup_logs b).filter _, ?_⟩
  refine List.pairwise_iff_forall_sublist.mpr fun {t t'} hsub log hlog hlog' => ?_
  have hmem : t ∈ w.events.topics := hsub.subset (by simp)
  have hwatched : log ∈ w.watched b :=
    (mem_perTopic.mp (List.mem_flatMap.mpr ⟨t, hmem, hlog⟩)).2
  obtain ⟨-, -, h⟩ := mem_filter_matches.mp hlog
  obtain ⟨-, -, h'⟩ := mem_filter_matches.mp hlog'
  have ht : log.topic0 = some t := by simpa using h
  have ht' : log.topic0 = some t' := by simpa using h'
  obtain rfl := Option.some.inj (ht.symm.trans ht')
  have htwice : 2 ≤ w.events.topics.count t := List.replicate_sublist_iff.mp hsub
  exact absurd (honce log hwatched t ht) (by omega)

/-- **A watched log of a topic that is listed twice is returned twice.** -/
theorem perTopic_twice {log : Log} (hlog : log ∈ w.watched b) {topic : B256}
    (htopic : log.topic0 = some topic) (htwice : 2 ≤ w.events.topics.count topic) :
    [log, log].Sublist (w.perTopic b) := by
  have hsub : [topic, topic].Sublist w.events.topics := List.replicate_sublist_iff.mpr htwice
  have hone : [log].Sublist (b.logs.filter (Filter.matchesLog ⟨.hash b.hash, w.addresses, [topic]⟩)) := by
    obtain ⟨hmem, haddress, -⟩ := mem_filter_matches.mp hlog
    exact List.singleton_sublist.mpr (mem_filter_matches.mpr
      ⟨hmem, haddress, .inr ⟨topic, List.mem_singleton_self _, htopic⟩⟩)
  have htwo := hsub.flatMap fun topic =>
    b.logs.filter (Filter.matchesLog ⟨.hash b.hash, w.addresses, [topic]⟩)
  rw [List.flatMap_cons, List.flatMap_singleton] at htwo
  exact (hone.append hone).trans htwo

/-- Only nothing decodes to nothing. -/
theorem eq_nil_of_decoded {E : Events Event} {logs : List Log}
    (h : (decodeAndSort E logs).toOption = some []) : logs = [] := by
  cases logs with
  | nil => rfl
  | cons log logs =>
    cases hlog : E.eventLog log with
    | none =>
      rw [decodeAndSort_error List.mem_cons_self hlog] at h
      exact absurd h (by simp)
    | some event =>
      have hperm := decodeAndSort_perm h
      rw [List.filterMap_cons_some hlog] at hperm
      exact absurd hperm (by simp)

/-- **When the strategies agree**, exactly. -/
theorem fetches_agree_iff (hs : Serving getLogs b) (hu : w.Unlimited b) :
    w.FetchesAgree getLogs b ↔ w.Unambiguous b := by
  obtain ⟨logs, hperm, hmultiple⟩ := fetched_multiple hs hu
  have hsingle := fetched_single hs hu
  have hclient := fetched_client (w := w) hs
  constructor
  · rintro ⟨events, h1, h2, h3, hstrict⟩
    have hnonempty : w.addresses = [] ∨ w.events.topics = [] → w.watched b = [] := by
      intro hempty
      rw [if_pos hempty] at hclient
      exact eq_nil_of_decoded (hsingle.symm.trans (h1.trans (h3.symm.trans hclient)))
    refine ⟨hnonempty, or_iff_not_imp_left.mpr fun hdecodes log hlog topic htopic => ?_⟩
    have hne : w.events.topics ≠ [] := fun h => by
      rw [hnonempty (.inr h)] at hlog
      exact absurd hlog (by simp)
    have hmem : topic ∈ w.events.topics := by
      obtain ⟨-, -, h⟩ := mem_filter_matches.mp hlog
      obtain ⟨t, ht, htopic0⟩ := h.resolve_left hne
      exact Option.some.inj (htopic0.symm.trans htopic) ▸ ht
    have hone : 1 ≤ w.events.topics.count topic := List.one_le_count_iff.mpr hmem
    by_contra hcount
    -- the second copy of the log would be a second event at its position
    obtain ⟨event, hevent⟩ := Option.ne_none_iff_exists'.mp fun h => hdecodes ⟨log, hlog, h⟩
    have htwice := (perTopic_twice hlog htopic (by omega)).filterMap w.events.eventLog
    rw [List.filterMap_cons_some hevent, List.filterMap_cons_some hevent] at htwice
    have hall : ∀ log ∈ w.watched b, ∃ event, w.events.eventLog log = some event :=
      fun l hl => Option.ne_none_iff_exists'.mp fun h => hdecodes ⟨l, hl, h⟩
    rw [decodeAndSort_ok hall] at hsingle
    obtain rfl := h1.symm.trans hsingle
    have hsame := decodeAndSort_perm (hmultiple.symm.trans h2)
    have hnodup : (logs.filterMap w.events.eventLog).Nodup :=
      hsame.nodup_iff.mp ((hstrict _ rfl).imp fun h heq => by rw [heq] at h; omega)
    have hnodup' := (hperm.filterMap w.events.eventLog).nodup_iff.mpr hnodup
    exact absurd (hnodup'.sublist htwice) (by simp)
  · intro hun
    refine ⟨_, hsingle, ?_, ?_, ?_⟩
    · rw [hmultiple]
      rcases hun.once with ⟨log, hlog, hnone⟩ | honce
      · have hne : w.events.topics ≠ [] := fun h => by
          rw [hun.nonempty (.inr h)] at hlog
          exact absurd hlog (by simp)
        rw [decodeAndSort_error hlog hnone,
          decodeAndSort_error (hperm.mem_iff.mp (mem_perTopic.mpr ⟨hne, hlog⟩)) hnone]
      · refine decode_served (List.Perm.trans ?_ hperm)
        refine (List.perm_ext_iff_of_nodup ((nodup_logs b).filter _) (perTopic_nodup honce)).mpr ?_
        intro log
        rw [mem_perTopic]
        refine ⟨fun hlog => ⟨fun h => ?_, hlog⟩, fun h => h.2⟩
        rw [← watched, hun.nonempty (.inr h)] at hlog
        exact absurd hlog (by simp)
    · rw [hclient]
      split
      · rename_i hempty
        rw [hun.nonempty hempty]
      · rfl
    · exact (decodeAndSort_eq (.refl _) (fun log h => b.numbered log (List.mem_of_mem_filter h))
        (b.distinct.filter _)).2

/-! ### Two event sets -/

/-- A log of a watched address, with an event of a given signature. -/
def toyLog : Log := ⟨1, [7, 5], [], some 42, some 3, some 0⟩

/-- Its block, which no input sets a bit of the bloom filter of. -/
def toyLogged : LoggedBlock fun _ => 0 :=
  ⟨3, 42, 0, [toyLog], by simp [computeLogsBloom, toyLog, Log.bloomInputs], by decide, by decide⟩

/-- The node. -/
def toyGetLogs : GetLogs := fun f => .ok (toyLogged.logs.filter f.matchesLog)

/-- A variant with one event of the signature. -/
def toyVariant (n : Nat) : EventEnum Nat :=
  ⟨[7], fun topics _ => if topics.head? = some 7 ∧ topics.length = n then some n else none⟩

/-- A watcher of some variants. -/
def toyEvents (variants : List (EventEnum Nat)) : EventWatcher Nat :=
  create ⟨⟨100, by decide⟩, ⟨3, by decide⟩, false, none, []⟩ [1] (watcherEvents variants)

theorem toy_serving : Serving toyGetLogs toyLogged := fun _ _ => ⟨_, rfl, .refl _⟩

theorem toy_unlimited (variants : List (EventEnum Nat)) : (toyEvents variants).Unlimited toyLogged :=
  fun _ _ h => absurd h (by simp [toyEvents, create])

/-- The strategies agree for one variant. -/
theorem fetches_agree_one : (toyEvents [toyVariant 2]).FetchesAgree toyGetLogs toyLogged := by
  have honce : ∀ log ∈ (toyEvents [toyVariant 2]).watched toyLogged, ∀ topic,
      log.topic0 = some topic → (toyEvents [toyVariant 2]).events.topics.count topic = 1 := by
    intro log hlog topic htopic
    have hmem : log ∈ [toyLog] := List.mem_of_mem_filter hlog
    rw [List.mem_singleton.mp hmem] at htopic
    obtain rfl := Option.some.inj htopic
    decide
  exact (fetches_agree_iff toy_serving (toy_unlimited _)).mpr ⟨by decide, .inr honce⟩

/-- Two variants that decode the two kinds of one signature, as of tokens: its log comes out once
from one query, and twice from the queries for each topic. -/
theorem shared_topic_twice :
    let w := toyEvents [toyVariant 2, toyVariant 3]
    Serving toyGetLogs toyLogged ∧ w.Unlimited toyLogged ∧ ¬w.FetchesAgree toyGetLogs toyLogged := by
  intro w
  refine ⟨toy_serving, toy_unlimited _, ?_⟩
  rintro ⟨events, hsingle, hmultiple, -, -⟩
  have hone : (w.fetched (fun _ => 0) toyGetLogs (.singleQuery (.hash 42))).map List.length = some 1 := by
    decide
  have htwo :
      (w.fetched (fun _ => 0) toyGetLogs (.multipleQueries (.hash 42))).map List.length = some 2 := by
    decide
  rw [show w.fetched (fun _ => 0) toyGetLogs (.singleQuery (.hash 42)) = events from hsingle] at hone
  rw [show w.fetched (fun _ => 0) toyGetLogs (.multipleQueries (.hash 42)) = events from hmultiple,
    hone] at htwo
  exact absurd htwo (by decide)

end EventWatcher

end Safenet
