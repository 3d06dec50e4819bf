/-
# The block watcher

`index/blocks.rs`: follows the head of the chain and says what became of it.  A reorg is unwound
one block a call, down to the last block that is still canonical; `recent` is what can be unwound,
and the block below it, `safe`, is what the rest is checked against.

Everything the watcher knows of the chain it was told by a node, one block a request.  Each
`async` function is written as what it does once its request is answered, so that a run is a list
of answers: any block, no block, or an error.  The only thing relied on is that a block asked for
by number has that number.

* `deliver` applies the updates to a chain.  It refuses one that does not fit on top, so that the
  chain is contiguous by construction; `Canonical` adds the hashes;
* `Consistent` -- the watcher's own invariant;
* `Follows` -- the chain delivered, with what is queued, ends like `recent` does.  All the paths
  that unwind (a new block, a revalidation, a restart) come down to one lemma, `Agree.uncle`.

The times the watcher waits for a block are left out.
-/
import Safenet.Core.StateMachine

namespace Safenet

/-! ## 1. Blocks and updates -/

/-- A bloom filter over the logs of a block. -/
abbrev Bloom : Type := BitVec 2048

/-- The header of a block. -/
structure BlockHeader where
  number : Nat
  hash : B256
  parentHash : B256
  logsBloom : Bloom
  deriving DecidableEq

/-- A block update. -/
inductive BlockUpdate where
  | warp (first last : Nat)
  | uncle (number : Nat)
  | new (number : Nat) (hash : B256) (logsBloom : Bloom)
  deriving DecidableEq

/-- The latest block known, and the highest one outside the reorg window. -/
structure BlockStatus where
  latest : Nat
  safe : Nat
  deriving DecidableEq

/-- What a block is asked for by. -/
inductive BlockId where
  | latest
  | number (number : Nat)
  deriving DecidableEq

/-- The failures of a request that are told apart. -/
inductive RpcError where
  | resourceNotFound
  | other
  deriving DecidableEq

/-- The errors of the block watcher. -/
inductive BlockError where
  | rpc (error : RpcError)
  | missingBlock (id : BlockId)
  | exceededMaxReorgDepth (depth : Nat)
  deriving DecidableEq

/-- What the node answers to a request for a block. -/
abbrev BlockAnswer : Type := Except RpcError (Option BlockHeader)

/-- The configuration of the block watcher. -/
structure BlockConfig where
  maxReorgDepth : Nat
  startBlock : Option Nat
  deriving DecidableEq

/-- The `safe` block. -/
structure SafeBlock where
  number : Nat
  hash : B256
  deriving DecidableEq

/-- The block watcher. -/
structure BlockWatcher where
  config : BlockConfig
  pending : Nat
  safe : SafeBlock
  recent : List BlockHeader
  queue : List BlockUpdate
  deriving DecidableEq

/-- A block found not to be canonical any more. -/
structure InvalidatedBlock where
  number : Nat
  hash : B256
  deriving DecidableEq

/-- The update a new block is. -/
def BlockHeader.update (b : BlockHeader) : BlockUpdate := .new b.number b.hash b.logsBloom

/-- `checked_add(1)`. -/
def checkedSucc (n : Nat) : Option Nat := if n < u64Max then some (n + 1) else none

/-! ## 2. Initialization -/

/-- The scan of the blocks from the safe one to the latest. -/
structure Scan where
  safe : Nat
  latest : Nat
  number : Nat
  /-- The latest block, while it need not be asked for again. -/
  canonicalLatest : Option BlockHeader
  parentHash : Option B256
  recent : List BlockHeader

namespace Scan

/-- One block of the scan: it follows, or a reorg was observed and the scan starts again. -/
def push (s : Scan) (block : BlockHeader) : Scan :=
  if s.parentHash.all (· = block.parentHash) then
    { s with parentHash := some block.hash, recent := s.recent ++ [block], number := s.number + 1 }
  else
    { s with parentHash := none, canonicalLatest := none, recent := [], number := s.safe }

/-- The block that need not be asked for. -/
def pushCached (s : Scan) : Scan :=
  if s.number = s.latest then
    match s.canonicalLatest with
    | some block => { s with canonicalLatest := none }.push block
    | none => s
  else s

/-- The scan up to its first request. -/
def start (config : BlockConfig) (latest : BlockHeader) : Scan :=
  let safe := latest.number - config.maxReorgDepth
  Scan.pushCached
    { safe, latest := latest.number, number := safe, canonicalLatest := some latest
      parentHash := none, recent := [] }

end Scan

/-- What is queued before the recent blocks: the synthetic reorg and the warp of a resumed watcher,
or the warp from a configured block. -/
def initialUpdates (config : BlockConfig) (indexed : Option BlockStatus) (safe : Nat) :
    List BlockUpdate :=
  match indexed with
  | some indexed =>
    match checkedSucc indexed.safe with
    | some uncle =>
      (if uncle ≤ indexed.latest then [.uncle uncle] else []) ++
        if uncle ≤ safe then [.warp uncle safe] else []
    | none => []
  | none =>
    match config.startBlock with
    | some startBlock => if startBlock ≤ safe then [.warp startBlock safe] else []
    | none => []

/-- Whether a recent block was not processed before. -/
def isUnprocessed (config : BlockConfig) (indexed : Option BlockStatus) (block : BlockHeader) :
    Bool :=
  match indexed with
  | some indexed => (checkedSucc indexed.safe).any (· ≤ block.number)
  | none => config.startBlock.all (· ≤ block.number)

/-- Where `initialize` waits for the node. -/
inductive Initializing where
  | latest
  | scan (scan : Scan)

/-- What `initialize` did once it was answered. -/
inductive Initialized where
  | waiting (place : Initializing)
  | failed (error : BlockError)
  | ready (watcher : BlockWatcher)

namespace Initializing

/-- What is asked for. -/
def request : Initializing → BlockId
  | .latest => .latest
  | .scan s => .number s.number

/-- The watcher of a completed scan. -/
def finish (config : BlockConfig) (indexed : Option BlockStatus) (s : Scan) : Initialized :=
  match s.recent with
  | safe :: recent => .ready
      { config, pending := s.latest + 1, safe := ⟨safe.number, safe.hash⟩, recent
        queue := initialUpdates config indexed s.safe ++
          (recent.filter (isUnprocessed config indexed)).map BlockHeader.update }
  -- the scan includes the safe block
  | [] => .failed (.missingBlock (.number s.safe))

/-- `initialize`, from one request to the next. -/
def resume (config : BlockConfig) (indexed : Option BlockStatus) (i : Initializing) :
    BlockAnswer → Initialized
  | .error error => .failed (.rpc error)
  | .ok none => .failed (.missingBlock i.request)
  | .ok (some block) =>
    let s := match i with
      | .latest => Scan.start config block
      | .scan s => (s.push block).pushCached
    if s.latest < s.number then finish config indexed s else .waiting (.scan s)

/-- `initialize`, given the answers. -/
def run (config : BlockConfig) (indexed : Option BlockStatus) (i : Initializing) :
    List BlockAnswer → Initialized
  | [] => .waiting i
  | answer :: answers =>
    match i.resume config indexed answer with
    | .waiting i => run config indexed i answers
    | result => result

end Initializing

/-! ## 3. The watcher -/

/-- What a call of `next` comes to once its request is answered. -/
inductive NextBlock where
  | waiting
  | failed (error : BlockError)
  | update (update : BlockUpdate)
  deriving DecidableEq

namespace BlockWatcher

variable (w : BlockWatcher)

/-- `status`. -/
def status : BlockStatus := ⟨w.pending - 1, w.safe.number⟩

/-- Record a new block; the oldest one may become the safe one. -/
def record (block : BlockHeader) : BlockWatcher :=
  let w := { w with pending := block.number + 1, recent := w.recent ++ [block] }
  if w.config.maxReorgDepth < w.recent.length then
    match w.recent with
    | evicted :: recent => { w with safe := ⟨evicted.number, evicted.hash⟩, recent }
    | [] => w
  else w

/-- `next` with nothing queued, once the pending block is asked for. -/
def onBlock : BlockAnswer → BlockWatcher × NextBlock
  | .error error => (w, .failed (.rpc error))
  | .ok none => (w, .waiting)
  | .ok (some block) =>
    match w.recent.getLast? with
    | some last =>
      if last.hash ≠ block.parentHash then
        ({ w with recent := w.recent.dropLast, pending := last.number }, .update (.uncle last.number))
      else (w.record block, .update block.update)
    | none =>
      if w.safe.hash ≠ block.parentHash then
        (w, .failed (.exceededMaxReorgDepth w.config.maxReorgDepth))
      else (w.record block, .update block.update)

/-- `next`.  The node is asked only when nothing is queued. -/
def next (answer : BlockAnswer) : BlockWatcher × NextBlock :=
  match w.queue with
  | update :: queue => ({ w with queue }, .update update)
  | [] => w.onBlock answer

/-- The recent blocks up to the last that was emitted; none while a warp or an uncle is queued. -/
def emitted : List BlockHeader :=
  match w.queue with
  | [] => w.recent
  | .new number .. :: _ => w.recent.rdropWhile fun block => !decide (block.number < number)
  | _ :: _ => []

/-- `revalidate_last_block`.  The node is asked for the last emitted block. -/
def revalidate (answer : BlockAnswer) : BlockWatcher × Except BlockError (Option InvalidatedBlock) :=
  match w.emitted.getLast? with
  | none => (w, .ok none)
  | some last =>
    match answer with
    | .error error => (w, .error (.rpc error))
    | .ok current =>
      if current.map (·.hash) = some last.hash then (w, .ok none)
      else
        ({ w with
            recent := w.emitted.dropLast
            pending := last.number
            queue := [.uncle last.number] }, .ok (some ⟨last.number, last.hash⟩))

end BlockWatcher

/-! ## 4. The chain delivered -/

/-- A delivered block.  A warp tells only the numbers. -/
inductive Delivered where
  | warped (number : Nat)
  | block (number : Nat) (hash : B256)
  deriving DecidableEq

/-- Its number. -/
def Delivered.number : Delivered → Nat
  | .warped number => number
  | .block number _ => number

/-- A block of the given number fits on top of a chain, newest first. -/
def FitsOn (chain : List Delivered) (number : Nat) : Prop :=
  ∀ top, chain.head? = some top → top.number + 1 = number

instance (chain : List Delivered) (number : Nat) : Decidable (FitsOn chain number) :=
  match chain with
  | [] => isTrue fun _ h => absurd h (by simp)
  | top :: _ => decidable_of_iff (top.number + 1 = number) (by simp [FitsOn])

/-- The blocks of a warp, newest first. -/
def warpedRange (first last : Nat) : List Delivered :=
  ((List.range' first (last + 1 - first)).map .warped).reverse

theorem warped_succ (first len : Nat) :
    ((List.range' first (len + 1)).map Delivered.warped).reverse =
      .warped (first + len) :: ((List.range' first len).map Delivered.warped).reverse := by
  rw [List.range'_concat, List.map_append, List.reverse_append, Nat.one_mul]
  rfl

/-- Apply an update to a chain, newest first.  An uncle takes back its block and all above. -/
def deliver (chain : List Delivered) : BlockUpdate → Option (List Delivered)
  | .warp first last =>
    if first ≤ last ∧ FitsOn chain first then some (warpedRange first last ++ chain) else none
  | .uncle number => some (chain.filter (·.number < number))
  | .new number hash _ => if FitsOn chain number then some (.block number hash :: chain) else none

/-- Apply updates in order. -/
def deliverAll (chain : List Delivered) : List BlockUpdate → Option (List Delivered)
  | [] => some chain
  | u :: us => (deliver chain u).bind fun chain => deliverAll chain us

theorem deliverAll_append (chain : List Delivered) (us vs : List BlockUpdate) :
    deliverAll chain (us ++ vs) = (deliverAll chain us).bind fun chain => deliverAll chain vs := by
  induction us generalizing chain with
  | nil => rfl
  | cons u us ih =>
    simp only [List.cons_append, deliverAll, ih]
    cases deliver chain u <;> rfl

/-- `e` follows the block below it; the hashes are linked by a header that was answered. -/
def Builds (answered : List BlockHeader) (e below : Delivered) : Prop :=
  below.number + 1 = e.number ∧ ∀ n h m k, e = .block n h → below = .block m k →
    ∃ x ∈ answered, x.number = n ∧ x.hash = h ∧ x.parentHash = k

/-- A contiguous and hash-linked chain, newest first. -/
inductive Canonical (answered : List BlockHeader) : List Delivered → Prop where
  | nil : Canonical answered []
  | cons {e : Delivered} {chain : List Delivered} :
      (∀ below, chain.head? = some below → Builds answered e below) →
      Canonical answered chain → Canonical answered (e :: chain)

namespace Canonical

variable {answered : List BlockHeader} {chain : List Delivered}

theorem tail {e : Delivered} (h : Canonical answered (e :: chain)) : Canonical answered chain := by
  cases h with
  | cons _ h => exact h

theorem mono {more : List BlockHeader} (h : Canonical answered chain) :
    Canonical (answered ++ more) chain := by
  induction h with
  | nil => exact .nil
  | cons hb _ ih =>
    refine .cons (fun below hbelow => ?_) ih
    obtain ⟨hnum, hlink⟩ := hb below hbelow
    refine ⟨hnum, fun n h m k he hk => ?_⟩
    obtain ⟨x, hx, hrest⟩ := hlink n h m k he hk
    exact ⟨x, List.mem_append_left _ hx, hrest⟩

/-- Everything below the top has a smaller number. -/
theorem lt_top {e : Delivered} (h : Canonical answered (e :: chain)) :
    ∀ d ∈ chain, d.number < e.number := by
  induction chain generalizing e with
  | nil => exact fun d hd => absurd hd (by simp)
  | cons below chain ih =>
    cases h with
    | cons hb h =>
      have hlt : below.number < e.number := by
        have := (hb below rfl).1
        omega
      intro d hd
      rcases List.mem_cons.mp hd with rfl | hd
      · exact hlt
      · exact (ih h d hd).trans hlt

/-- What is left below a number is the chain, or its rest. -/
theorem filter (h : Canonical answered chain) (n : Nat) :
    Canonical answered (chain.filter (·.number < n)) := by
  induction h with
  | nil => exact .nil
  | @cons e chain hb hc ih =>
    by_cases hlt : e.number < n
    · have hall : chain.filter (·.number < n) = chain :=
        List.filter_eq_self.mpr fun d hd => decide_eq_true ((lt_top (.cons hb hc) d hd).trans hlt)
      rw [List.filter_cons_of_pos (by simpa using hlt), hall]
      exact .cons hb hc
    · rw [List.filter_cons_of_neg (by simpa using hlt)]
      exact ih

/-- A warp fits on a chain. -/
theorem warp {first last : Nat} (h : Canonical answered chain) (hfits : FitsOn chain first) :
    Canonical answered (warpedRange first last ++ chain) := by
  rw [warpedRange]
  generalize last + 1 - first = len
  induction len with
  | zero => exact h
  | succ len ih =>
    rw [warped_succ]
    refine .cons (fun below hbelow => ⟨?_, fun n k m j he => absurd he (by simp)⟩) ih
    cases len with
    | zero => exact hfits below hbelow
    | succ len =>
      rw [warped_succ] at hbelow
      obtain rfl : .warped (first + len) = below := Option.some.inj hbelow
      exact Nat.add_assoc first len 1

/-- So is what other updates leave of a canonical chain. -/
theorem deliver {u : BlockUpdate} {chain' : List Delivered} (h : Canonical answered chain)
    (hno : ∀ n k b, u ≠ .new n k b) (hu : Safenet.deliver chain u = some chain') :
    Canonical answered chain' := by
  cases u with
  | warp first last =>
    simp only [Safenet.deliver] at hu
    split at hu
    · rename_i hfits
      exact Option.some.inj hu ▸ h.warp hfits.2
    · exact absurd hu (by simp)
  | uncle n => exact Option.some.inj hu ▸ h.filter n
  | new n k b => exact absurd rfl (hno n k b)

end Canonical

/-- An update covers a block. -/
def BlockUpdate.Covers (n : Nat) : BlockUpdate → Prop
  | .warp first last => first ≤ n ∧ n ≤ last
  | .uncle _ => False
  | .new number .. => number = n

/-- The numbers of a chain descend. -/
def Descending (chain : List Delivered) : Prop := chain.Pairwise fun a b => b.number < a.number

theorem Canonical.descending {answered : List BlockHeader} {chain : List Delivered}
    (h : Canonical answered chain) : Descending chain := by
  induction h with
  | nil => exact .nil
  | cons hb hc ih => exact .cons (lt_top (.cons hb hc)) ih

/-- What fits on a descending chain is above all of it. -/
theorem FitsOn.lt {chain : List Delivered} {n : Nat} (h : FitsOn chain n) (hd : Descending chain) :
    ∀ d ∈ chain, d.number < n := by
  cases chain with
  | nil => exact fun d hd => absurd hd (by simp)
  | cons top chain =>
    have htop := h top rfl
    intro d hd'
    rcases List.mem_cons.mp hd' with rfl | hd'
    · omega
    · have := List.rel_of_pairwise_cons hd hd'
      omega

theorem mem_warpedRange {first last : Nat} {d : Delivered} :
    d ∈ warpedRange first last ↔ ∃ n, d = .warped n ∧ first ≤ n ∧ n ≤ last := by
  simp only [warpedRange, List.mem_reverse, List.mem_map, List.mem_range'_1]
  constructor
  · rintro ⟨n, hn, rfl⟩
    exact ⟨n, rfl, hn.1, by omega⟩
  · rintro ⟨n, rfl, hfirst, hlast⟩
    exact ⟨n, ⟨hfirst, by omega⟩, rfl⟩

/-- What an update leaves of a chain, and what it adds. -/
theorem deliver_descending {chain chain' : List Delivered} {u : BlockUpdate}
    (h : deliver chain u = some chain') (hd : Descending chain) :
    Descending chain' ∧ (∀ n, u.Covers n → ∃ d ∈ chain', d.number = n) ∧
      (∀ d ∈ chain, (∃ k, u = .uncle k ∧ k ≤ d.number) ∨ d ∈ chain' ∧ ¬u.Covers d.number) := by
  cases u with
  | warp first last =>
    simp only [deliver] at h
    split at h
    · rename_i hfits
      have hlt := hfits.2.lt hd
      obtain rfl := Option.some.inj h
      refine ⟨List.pairwise_append.mpr ⟨?_, hd, fun a ha b hb => ?_⟩, fun n hn => ?_, fun d hmem => ?_⟩
      · have hw : Canonical [] (warpedRange first last ++ []) :=
          Canonical.nil.warp fun top h => absurd h (by simp)
        rw [List.append_nil] at hw
        exact hw.descending
      · obtain ⟨n, rfl, hn, -⟩ := mem_warpedRange.mp ha
        exact (hlt b hb).trans_le hn
      · exact ⟨.warped n, List.mem_append_left _ (mem_warpedRange.mpr ⟨n, rfl, hn⟩), rfl⟩
      · refine .inr ⟨List.mem_append_right _ hmem, fun hc => ?_⟩
        exact absurd (hlt d hmem) (not_lt.mpr hc.1)
    · exact absurd h (by simp)
  | uncle k =>
    obtain rfl := Option.some.inj h
    refine ⟨hd.filter _, fun n hn => hn.elim, fun d hmem => ?_⟩
    by_cases hk : k ≤ d.number
    · exact .inl ⟨k, rfl, hk⟩
    · exact .inr ⟨List.mem_filter.mpr ⟨hmem, decide_eq_true (not_le.mp hk)⟩, fun hc => hc⟩
  | new n hash bloom =>
    simp only [deliver] at h
    split at h
    · rename_i hfits
      have hlt := hfits.lt hd
      obtain rfl := Option.some.inj h
      refine ⟨.cons hlt hd, fun m hm => ⟨_, List.mem_cons_self, hm⟩, fun d hmem => ?_⟩
      refine .inr ⟨List.mem_cons_of_mem _ hmem, fun hc => ?_⟩
      exact absurd (hlt d hmem) (not_lt.mpr (Nat.le_of_eq hc))
    · exact absurd h (by simp)

/-- What is on a chain stays until it is uncled, and is not covered again before. -/
theorem deliverAll_stays {chain chain' : List Delivered} {us : List BlockUpdate}
    (h : deliverAll chain us = some chain') (hd : Descending chain) {d : Delivered}
    (hmem : d ∈ chain) :
    (∃ k, .uncle k ∈ us ∧ k ≤ d.number) ∨ d ∈ chain' ∧ ∀ u ∈ us, ¬u.Covers d.number := by
  induction us generalizing chain with
  | nil =>
    obtain rfl := Option.some.inj h
    exact .inr ⟨hmem, fun u hu => absurd hu (by simp)⟩
  | cons u us ih =>
    obtain ⟨mid, hu, hus⟩ := Option.bind_eq_some_iff.mp h
    obtain ⟨hd', -, hstay⟩ := deliver_descending hu hd
    rcases hstay d hmem with ⟨k, rfl, hk⟩ | ⟨hmem', hcov⟩
    · exact .inl ⟨k, List.mem_cons_self, hk⟩
    · rcases ih hus hd' hmem' with ⟨k, hk, hle⟩ | ⟨hfinal, hno⟩
      · exact .inl ⟨k, List.mem_cons_of_mem _ hk, hle⟩
      · refine .inr ⟨hfinal, fun v hv => ?_⟩
        rcases List.mem_cons.mp hv with rfl | hv
        · exact hcov
        · exact hno v hv

theorem deliverAll_descending {chain chain' : List Delivered} {us : List BlockUpdate}
    (h : deliverAll chain us = some chain') (hd : Descending chain) : Descending chain' := by
  induction us generalizing chain with
  | nil => exact Option.some.inj h ▸ hd
  | cons u us ih =>
    obtain ⟨mid, hu, hus⟩ := Option.bind_eq_some_iff.mp h
    exact ih hus (deliver_descending hu hd).1

/-- **No block is delivered twice without an uncle in between.** -/
theorem uncled_between {chain : List Delivered} {past mid rest : List BlockUpdate}
    {u v : BlockUpdate} (h : deliverAll [] (past ++ u :: (mid ++ v :: rest)) = some chain) {n : Nat}
    (hu : u.Covers n) (hv : v.Covers n) : ∃ k, .uncle k ∈ mid ∧ k ≤ n := by
  rw [deliverAll_append] at h
  obtain ⟨before, hpast, h⟩ := Option.bind_eq_some_iff.mp h
  obtain ⟨after, hdeliver, h⟩ := Option.bind_eq_some_iff.mp h
  obtain ⟨hd, hcover, -⟩ := deliver_descending hdeliver (deliverAll_descending hpast .nil)
  obtain ⟨d, hmem, rfl⟩ := hcover n hu
  have hsplit : mid ++ v :: rest = (mid ++ [v]) ++ rest := by simp
  rw [hsplit, deliverAll_append] at h
  obtain ⟨last, hlast, -⟩ := Option.bind_eq_some_iff.mp h
  rcases deliverAll_stays hlast hd hmem with ⟨k, hk, hle⟩ | ⟨-, hno⟩
  · rcases List.mem_append.mp hk with hk | hk
    · exact ⟨k, hk, hle⟩
    · rw [← List.mem_singleton.mp hk] at hv
      exact hv.elim
  · exact absurd hv (hno v (by simp))

/-! ## 5. The invariants -/

/-- The headers follow a block of the given number and hash. -/
def LinkedFrom (number : Nat) (hash : B256) : List BlockHeader → Prop
  | [] => True
  | b :: bs => b.number = number + 1 ∧ b.parentHash = hash ∧ LinkedFrom b.number b.hash bs

/-- The hash at the end of such headers. -/
def tipHash (hash : B256) (bs : List BlockHeader) : B256 := (bs.getLast?.map (·.hash)).getD hash

theorem tipHash_concat (hash : B256) (bs : List BlockHeader) (b : BlockHeader) :
    tipHash hash (bs ++ [b]) = b.hash := by
  rw [tipHash, List.getLast?_concat]
  rfl

theorem tipHash_cons (hash : B256) (b : BlockHeader) (bs : List BlockHeader) :
    tipHash hash (b :: bs) = tipHash b.hash bs := by
  rw [tipHash, tipHash, List.getLast?_cons]
  cases bs.getLast? <;> rfl

namespace LinkedFrom

variable {number : Nat} {hash : B256} {bs cs : List BlockHeader}

theorem append : LinkedFrom number hash (bs ++ cs) ↔
    LinkedFrom number hash bs ∧ LinkedFrom (number + bs.length) (tipHash hash bs) cs := by
  induction bs generalizing number hash with
  | nil => simp [LinkedFrom, tipHash]
  | cons b bs ih =>
    simp only [List.cons_append, LinkedFrom, ih, tipHash_cons, List.length_cons]
    constructor
    · rintro ⟨hn, hp, hbs, hcs⟩
      refine ⟨⟨hn, hp, hbs⟩, ?_⟩
      rw [hn] at hcs
      rwa [Nat.add_assoc, Nat.add_comm 1] at hcs
    · rintro ⟨⟨hn, hp, hbs⟩, hcs⟩
      refine ⟨hn, hp, hbs, ?_⟩
      rw [hn]
      rwa [Nat.add_assoc, Nat.add_comm 1]

theorem concat {b : BlockHeader} : LinkedFrom number hash (bs ++ [b]) ↔
    LinkedFrom number hash bs ∧ b.number = number + bs.length + 1 ∧ b.parentHash = tipHash hash bs := by
  simp only [append, LinkedFrom, and_true]

/-- The numbers count up. -/
theorem number_get (h : LinkedFrom number hash bs) {i : Nat} {b : BlockHeader}
    (hb : bs[i]? = some b) : b.number = number + i + 1 := by
  have hlt : i < bs.length := (List.getElem?_eq_some_iff.mp hb).1
  have hsplit : bs = bs.take i ++ b :: bs.drop (i + 1) := by
    rw [← (List.getElem?_eq_some_iff.mp hb).2, List.getElem_cons_drop, List.take_append_drop]
  rw [hsplit, append, LinkedFrom, List.length_take, Nat.min_eq_left hlt.le] at h
  exact h.2.1

theorem gt (h : LinkedFrom number hash bs) : ∀ b ∈ bs, number < b.number := by
  intro b hb
  obtain ⟨i, hi⟩ := List.mem_iff_getElem?.mp hb
  have := h.number_get hi
  omega

theorem pairwise (h : LinkedFrom number hash bs) : bs.Pairwise fun a b => a.number < b.number := by
  induction bs generalizing number hash with
  | nil => exact .nil
  | cons b bs ih => exact .cons h.2.2.gt (ih h.2.2)

/-- What is left when the blocks from a number on are dropped. -/
theorem rdropWhile_lt {b : BlockHeader} (h : LinkedFrom number hash (bs ++ b :: cs)) :
    (bs ++ b :: cs).rdropWhile (fun x => !decide (x.number < b.number)) = bs := by
  have hpair := h.pairwise
  rw [List.pairwise_append, List.pairwise_cons] at hpair
  obtain ⟨-, ⟨hb, -⟩, hbs⟩ := hpair
  clear h
  induction cs using List.reverseRecOn with
  | nil =>
    rw [List.rdropWhile_concat_pos _ _ _ (by simp), List.rdropWhile_eq_self_iff]
    intro hne
    simp [hbs _ (List.getLast_mem hne) b]
  | append_singleton cs c ih =>
    have hc : ¬c.number < b.number := not_lt.mpr (hb c (by simp)).le
    have hassoc : bs ++ b :: (cs ++ [c]) = (bs ++ b :: cs) ++ [c] := by simp
    rw [hassoc, List.rdropWhile_concat_pos _ _ _ (by simpa using hc)]
    refine ih (fun x hx y hy => hbs x hx y ?_) fun x hx => hb x (List.mem_append_left _ hx)
    rcases List.mem_cons.mp hy with rfl | hy
    · exact List.mem_cons_self
    · exact List.mem_cons_of_mem _ (List.mem_append_left _ hy)

theorem rdropWhile_nil {b : BlockHeader} (h : LinkedFrom number hash (b :: cs)) :
    (b :: cs).rdropWhile (fun x => !decide (x.number < b.number)) = [] := by
  rw [← List.nil_append (b :: cs)] at h
  exact h.rdropWhile_lt

/-- The blocks from a number on are the rest of the list. -/
theorem filter_le (h : LinkedFrom number hash bs) (n : Nat) :
    bs.filter (fun b => decide (n ≤ b.number)) = bs.drop (n - (number + 1)) := by
  induction bs generalizing number hash with
  | nil => simp
  | cons b bs ih =>
    obtain ⟨hn, -, hbs⟩ := h
    by_cases hle : n ≤ b.number
    · have hzero : n - (number + 1) = 0 := by omega
      have hall : bs.drop (n - (b.number + 1)) = bs := by
        rw [show n - (b.number + 1) = 0 by omega, List.drop_zero]
      rw [List.filter_cons_of_pos (by simpa using hle), ih hbs, hall, hzero, List.drop_zero]
    · have hsucc : n - (number + 1) = (n - (b.number + 1)) + 1 := by omega
      rw [List.filter_cons_of_neg (by simpa using hle), ih hbs, hsucc, List.drop_succ_cons]

end LinkedFrom

/-- The watcher's own invariant: `recent` is a chain above the safe block, not longer than what may
be reorged, and the pending block is the next. -/
structure BlockWatcher.Consistent (w : BlockWatcher) : Prop where
  linked : LinkedFrom w.safe.number w.safe.hash w.recent
  length_le : w.recent.length ≤ w.config.maxReorgDepth
  pending : w.pending = w.safe.number + w.recent.length + 1

/-- A delivered block is the one of the given number and hash, as far as it tells. -/
def Delivered.Is (number : Nat) (hash : B256) (d : Delivered) : Prop :=
  d.number = number ∧ ∀ n h, d = .block n h → h = hash

/-- Two chains, newest first, agree as far as both go. -/
def Agree : List Delivered → List (Nat × B256) → Prop
  | d :: ds, p :: ps => d.Is p.1 p.2 ∧ Agree ds ps
  | _, _ => True

theorem agree_nil (ps : List (Nat × B256)) : Agree [] ps := by
  cases ps <;> trivial

theorem Agree.take {ds : List Delivered} {ps qs : List (Nat × B256)} (h : Agree ds (ps ++ qs)) :
    Agree ds ps := by
  induction ps generalizing ds with
  | nil => cases ds <;> trivial
  | cons p ps ih =>
    cases ds with
    | nil => trivial
    | cons d ds => exact ⟨h.1, ih h.2⟩

/-- The blocks after a safe one, newest first, ending with it. -/
def window (safe : SafeBlock) (bs : List BlockHeader) : List (Nat × B256) :=
  (bs.map fun b => (b.number, b.hash)).reverse ++ [(safe.number, safe.hash)]

theorem window_concat (safe : SafeBlock) (bs : List BlockHeader) (b : BlockHeader) :
    window safe (bs ++ [b]) = (b.number, b.hash) :: window safe bs := by
  rw [window, List.map_append, List.reverse_append]
  rfl

theorem window_cons (safe : SafeBlock) (b : BlockHeader) (bs : List BlockHeader) :
    window safe (b :: bs) = window ⟨b.number, b.hash⟩ bs ++ [(safe.number, safe.hash)] := by
  rw [window, List.map_cons, List.reverse_cons]
  rfl

/-- The newest of them. -/
theorem window_head {safe : SafeBlock} {bs : List BlockHeader}
    (h : LinkedFrom safe.number safe.hash bs) :
    ∃ rest, window safe bs = (safe.number + bs.length, tipHash safe.hash bs) :: rest := by
  induction bs using List.reverseRecOn with
  | nil => exact ⟨[], rfl⟩
  | append_singleton bs b _ =>
    obtain ⟨-, hn, -⟩ := LinkedFrom.concat.mp h
    refine ⟨window safe bs, ?_⟩
    rw [window_concat, tipHash_concat, hn, List.length_append]
    rfl

/-- **A block that follows them is delivered.** -/
theorem Agree.new {answered : List BlockHeader} {chain : List Delivered} {safe : SafeBlock}
    {bs : List BlockHeader} {b : BlockHeader} (hc : Canonical answered chain)
    (ha : Agree chain (window safe bs)) (h : LinkedFrom safe.number safe.hash (bs ++ [b]))
    (hb : b ∈ answered) :
    ∃ chain', deliver chain b.update = some chain' ∧ Canonical answered chain' ∧
      Agree chain' (window safe (bs ++ [b])) := by
  obtain ⟨hbs, hn, hp⟩ := LinkedFrom.concat.mp h
  obtain ⟨rest, hhead⟩ := window_head hbs
  have htop : ∀ top, chain.head? = some top → top.Is (safe.number + bs.length) (tipHash safe.hash bs) := by
    intro top htop
    cases chain with
    | nil => exact absurd htop (by simp)
    | cons d ds =>
      obtain rfl := Option.some.inj htop
      rw [hhead] at ha
      exact ha.1
  have hfits : FitsOn chain b.number := by
    intro top h
    have := (htop top h).1
    omega
  refine ⟨.block b.number b.hash :: chain, if_pos hfits, .cons (fun below hbelow => ?_) hc, ?_⟩
  · refine ⟨hfits below hbelow, fun n h m k he hk => ⟨b, hb, ?_⟩⟩
    rw [Delivered.block.injEq] at he
    exact ⟨he.1, he.2, hp.trans ((htop below hbelow).2 m k hk).symm⟩
  · rw [window_concat]
    refine ⟨⟨rfl, fun n h he => ?_⟩, ha⟩
    rw [Delivered.block.injEq] at he
    exact he.2.symm

/-- **Uncling the newest of them** leaves a chain that agrees with the rest. -/
theorem Agree.uncle {answered : List BlockHeader} {chain : List Delivered} {safe : SafeBlock}
    {bs : List BlockHeader} {b : BlockHeader} (hc : Canonical answered chain)
    (ha : Agree chain (window safe (bs ++ [b]))) :
    Canonical answered (chain.filter (·.number < b.number)) ∧
      Agree (chain.filter (·.number < b.number)) (window safe bs) := by
  refine ⟨hc.filter _, ?_⟩
  rw [window_concat] at ha
  cases chain with
  | nil => exact agree_nil _
  | cons d ds =>
    have hnum : d.number = b.number := ha.1.1
    have hrest : ds.filter (·.number < b.number) = ds :=
      List.filter_eq_self.mpr fun e he => decide_eq_true (hnum ▸ hc.lt_top e he)
    rw [List.filter_cons_of_neg (by simp [hnum]), hrest]
    exact ha.2

/-- The updates a call came to. -/
def NextBlock.updates : NextBlock → List BlockUpdate
  | .update u => [u]
  | _ => []

namespace BlockWatcher

/-- The chain delivered so far, and what is queued: the updates `ahead`, then the recent blocks
`after`.  Once `ahead` is delivered, the chain agrees with the recent blocks `before`. -/
structure Split (answered : List BlockHeader) (w : BlockWatcher) (chain : List Delivered)
    (ahead : List BlockUpdate) (before after : List BlockHeader) (chain' : List Delivered) : Prop where
  queue : w.queue = ahead ++ after.map BlockHeader.update
  noNew : ∀ u ∈ ahead, ∀ n h b, u ≠ .new n h b
  recent : w.recent = before ++ after
  known : ∀ b ∈ w.recent, b ∈ answered
  delivered : Canonical answered chain
  delivers : deliverAll chain ahead = some chain'
  canonical : Canonical answered chain'
  agree : Agree chain' (window w.safe before)

/-- The chain delivered so far ends, with what is queued, as the recent blocks do. -/
def Follows (answered : List BlockHeader) (w : BlockWatcher) (chain : List Delivered) : Prop :=
  ∃ ahead before after chain', Split answered w chain ahead before after chain'

variable {answered : List BlockHeader} {w : BlockWatcher} {chain : List Delivered}

theorem Follows.mono {more : List BlockHeader} (h : Follows answered w chain) :
    Follows (answered ++ more) w chain := by
  obtain ⟨ahead, before, after, chain', hs⟩ := h
  exact ⟨ahead, before, after, chain', hs.queue, hs.noNew, hs.recent,
    fun b hb => List.mem_append_left _ (hs.known b hb), hs.delivered.mono, hs.delivers,
    hs.canonical.mono, hs.agree⟩

/-- Nothing is queued: the chain agrees with all the recent blocks. -/
theorem Follows.agree (h : Follows answered w chain) (hq : w.queue = []) :
    (∀ b ∈ w.recent, b ∈ answered) ∧ Canonical answered chain ∧
      Agree chain (window w.safe w.recent) := by
  obtain ⟨ahead, before, after, chain', hs⟩ := h
  obtain ⟨rfl, hafter⟩ := List.append_eq_nil_iff.mp (hs.queue.symm.trans hq)
  obtain rfl := List.map_eq_nil_iff.mp hafter
  obtain rfl := Option.some.inj hs.delivers
  have hrecent := hs.recent
  rw [List.append_nil] at hrecent
  exact ⟨hs.known, hs.canonical, hrecent ▸ hs.agree⟩

/-- Conversely. -/
theorem Follows.of_agree (hq : w.queue = []) (hknown : ∀ b ∈ w.recent, b ∈ answered)
    (hc : Canonical answered chain) (ha : Agree chain (window w.safe w.recent)) :
    Follows answered w chain :=
  ⟨[], w.recent, [], chain, hq, by simp, (List.append_nil _).symm, hknown, hc, rfl, hc, ha⟩

theorem record_of_le {block : BlockHeader} (h : w.recent.length + 1 ≤ w.config.maxReorgDepth) :
    w.record block =
      { w with pending := block.number + 1, recent := w.recent ++ [block] } := by
  have hle : ¬w.config.maxReorgDepth < (w.recent ++ [block]).length := by
    rw [List.length_append, List.length_singleton]
    omega
  simp only [record, if_neg hle]

/-- The oldest block becomes the safe one. -/
theorem record_of_lt {block evicted : BlockHeader} {recent : List BlockHeader}
    (h : w.config.maxReorgDepth < w.recent.length + 1) (he : w.recent ++ [block] = evicted :: recent) :
    w.record block =
      { w with pending := block.number + 1, safe := ⟨evicted.number, evicted.hash⟩, recent } := by
  have hlt : w.config.maxReorgDepth < (evicted :: recent).length := by
    rw [← he, List.length_append]
    exact h
  simp only [record, he, if_pos hlt]

/-- **A block that builds on the last one is recorded**, and delivered. -/
theorem record_follows {block : BlockHeader} (hw : w.Consistent) (hf : Follows answered w chain)
    (hq : w.queue = []) (hn : block.number = w.pending)
    (hp : block.parentHash = tipHash w.safe.hash w.recent) (hblock : block ∈ answered) :
    (w.record block).Consistent ∧ ∃ chain', deliver chain block.update = some chain' ∧
      Follows answered (w.record block) chain' := by
  obtain ⟨hknown, hc, ha⟩ := hf.agree hq
  have hlinked : LinkedFrom w.safe.number w.safe.hash (w.recent ++ [block]) :=
    LinkedFrom.concat.mpr ⟨hw.linked, hn.trans hw.pending, hp⟩
  obtain ⟨chain', hdeliver, hc', ha'⟩ := Agree.new hc ha hlinked hblock
  have hknown' : ∀ b ∈ w.recent ++ [block], b ∈ answered := by
    intro b hb
    rcases List.mem_append.mp hb with hb | hb
    · exact hknown b hb
    · exact List.mem_singleton.mp hb ▸ hblock
  by_cases hle : w.recent.length + 1 ≤ w.config.maxReorgDepth
  · rw [record_of_le hle]
    refine ⟨⟨hlinked, ?_, ?_⟩, chain', hdeliver, .of_agree hq hknown' hc' ha'⟩
    · rw [List.length_append]
      exact hle
    · simp only [List.length_append, List.length_singleton]
      rw [hn, hw.pending]
      rfl
  · obtain ⟨evicted, recent, he⟩ : ∃ evicted recent, w.recent ++ [block] = evicted :: recent :=
      List.exists_cons_of_ne_nil (by simp)
    have hlength : w.recent.length = recent.length := by
      have := congrArg List.length he
      simpa using this
    rw [record_of_lt (by omega) he]
    rw [he] at hlinked ha' hknown'
    obtain ⟨hnum, -, hrest⟩ := hlinked
    refine ⟨⟨hrest, ?_, ?_⟩, chain', hdeliver,
      .of_agree hq (fun b hb => hknown' b (List.mem_cons_of_mem _ hb)) hc' ?_⟩
    · exact hlength ▸ hw.length_le
    · have := hw.pending
      dsimp only
      omega
    · rw [window_cons] at ha'
      exact ha'.take

/-- **Nothing queued, and the node answers.** -/
theorem onBlock_follows {answer : BlockAnswer} (hw : w.Consistent) (hf : Follows answered w chain)
    (hq : w.queue = []) (hanswer : ∀ b, answer = .ok (some b) → b.number = w.pending ∧ b ∈ answered) :
    (w.onBlock answer).1.Consistent ∧
      ∃ chain', deliverAll chain (w.onBlock answer).2.updates = some chain' ∧
        Follows answered (w.onBlock answer).1 chain' := by
  rcases answer with e | b | b
  · exact ⟨hw, chain, rfl, hf⟩
  · exact ⟨hw, chain, rfl, hf⟩
  · obtain ⟨hn, hb⟩ := hanswer b rfl
    rcases List.eq_nil_or_concat' w.recent with hr | ⟨bs, last, hr⟩
    · have hlast : w.recent.getLast? = none := by rw [hr]; rfl
      simp only [onBlock, hlast]
      split
      · exact ⟨hw, chain, rfl, hf⟩
      · rename_i hp
        have hp' : b.parentHash = tipHash w.safe.hash w.recent := by
          rw [hr]
          exact (not_not.mp hp).symm
        obtain ⟨hw', chain', hdeliver, hf'⟩ := record_follows hw hf hq hn hp' hb
        exact ⟨hw', chain', by rw [NextBlock.updates, deliverAll, hdeliver]; rfl, hf'⟩
    · have hlast : w.recent.getLast? = some last := by rw [hr, List.getLast?_concat]
      simp only [onBlock, hlast]
      split
      · obtain ⟨hknown, hc, ha⟩ := hf.agree hq
        have hlinked := hw.linked
        rw [hr] at ha hlinked hknown
        obtain ⟨hc', ha'⟩ := ha.uncle hc
        obtain ⟨hbs, hnum, -⟩ := LinkedFrom.concat.mp hlinked
        have hdrop : w.recent.dropLast = bs := by rw [hr, List.dropLast_concat]
        have hle := hw.length_le
        rw [hr, List.length_append, List.length_singleton] at hle
        refine ⟨⟨hdrop ▸ hbs, ?_, ?_⟩, _, rfl, .of_agree hq ?_ hc' ?_⟩
        · rw [hdrop]
          exact (Nat.le_succ _).trans hle
        · rw [hdrop]
          exact hnum
        · rw [hdrop]
          exact fun x hx => hknown x (List.mem_append_left _ hx)
        · rw [hdrop]
          exact ha'
      · rename_i hp
        have hp' : b.parentHash = tipHash w.safe.hash w.recent := by
          rw [hr, tipHash_concat]
          exact (not_not.mp hp).symm
        obtain ⟨hw', chain', hdeliver, hf'⟩ := record_follows hw hf hq hn hp' hb
        exact ⟨hw', chain', by rw [NextBlock.updates, deliverAll, hdeliver]; rfl, hf'⟩

/-- **A call of `next`** delivers what is queued, and then what the node answers. -/
theorem next_follows {answer : BlockAnswer} (hw : w.Consistent) (hf : Follows answered w chain)
    (hanswer : w.queue = [] → ∀ b, answer = .ok (some b) → b.number = w.pending ∧ b ∈ answered) :
    (w.next answer).1.Consistent ∧
      ∃ chain', deliverAll chain (w.next answer).2.updates = some chain' ∧
        Follows answered (w.next answer).1 chain' := by
  cases hq : w.queue with
  | nil =>
    simp only [next, hq]
    exact onBlock_follows hw hf hq (hanswer hq)
  | cons u queue =>
    simp only [next, hq]
    refine ⟨⟨hw.linked, hw.length_le, hw.pending⟩, ?_⟩
    obtain ⟨ahead, before, after, chain', hs⟩ := hf
    have hqueue := hs.queue.symm.trans hq
    cases ahead with
    | cons v ahead =>
      rw [List.cons_append, List.cons.injEq] at hqueue
      obtain ⟨rfl, hqueue⟩ := hqueue
      obtain ⟨mid, hdeliver, hrest⟩ := Option.bind_eq_some_iff.mp hs.delivers
      have hmid := hs.delivered.deliver (hs.noNew _ List.mem_cons_self) hdeliver
      exact ⟨mid, by rw [NextBlock.updates, deliverAll, hdeliver]; rfl, ahead, before, after, chain',
        hqueue.symm, fun u hu => hs.noNew u (List.mem_cons_of_mem _ hu), hs.recent, hs.known, hmid,
        hrest, hs.canonical, hs.agree⟩
    | nil =>
      obtain rfl := Option.some.inj hs.delivers
      cases after with
      | nil => exact absurd hqueue (by simp)
      | cons b after =>
        rw [List.nil_append, List.map_cons, List.cons.injEq] at hqueue
        obtain ⟨rfl, hqueue⟩ := hqueue
        have hrecent : w.recent = (before ++ [b]) ++ after := by
          rw [hs.recent, List.append_assoc]
          rfl
        have hlinked := hw.linked
        rw [hrecent] at hlinked
        obtain ⟨chain', hdeliver, hc', ha'⟩ := Agree.new hs.canonical hs.agree
          (LinkedFrom.append.mp hlinked).1 (hs.known b (by rw [hs.recent]; simp))
        exact ⟨chain', by rw [NextBlock.updates, deliverAll, hdeliver]; rfl, [], before ++ [b], after,
          chain', hqueue.symm, by simp, hrecent, hs.known, hc', rfl, hc', ha'⟩

/-- The blocks that were emitted are those before the queued ones. -/
theorem Split.emitted {ahead : List BlockUpdate} {before after : List BlockHeader}
    {chain' : List Delivered} (hw : w.Consistent)
    (hs : Split answered w chain ahead before after chain') :
    w.emitted = if ahead = [] then before else [] := by
  have hqueue := hs.queue
  cases ahead with
  | cons u ahead =>
    rw [if_neg (by simp), BlockWatcher.emitted, hqueue, List.cons_append]
    cases u with
    | new n h b => exact absurd rfl (hs.noNew _ List.mem_cons_self n h b)
    | warp first last => rfl
    | uncle n => rfl
  | nil =>
    rw [if_pos rfl]
    cases after with
    | nil =>
      rw [BlockWatcher.emitted, hqueue]
      exact hs.recent.trans (List.append_nil _)
    | cons b after =>
      have hlinked := hw.linked
      rw [hs.recent] at hlinked
      rw [BlockWatcher.emitted, hqueue, hs.recent]
      exact hlinked.rdropWhile_lt

/-- **A revalidation** delivers nothing.  A block that is not canonical any more is uncled, with
all that is queued. -/
theorem revalidate_follows (answer : BlockAnswer) (hw : w.Consistent)
    (hf : Follows answered w chain) :
    (w.revalidate answer).1.Consistent ∧ Follows answered (w.revalidate answer).1 chain := by
  obtain ⟨ahead, before, after, chain', hs⟩ := hf
  have hemitted := hs.emitted hw
  rcases List.eq_nil_or_concat' w.emitted with he | ⟨bs, last, he⟩
  · have hlast : w.emitted.getLast? = none := by rw [he]; rfl
    simp only [revalidate, hlast]
    exact ⟨hw, ahead, before, after, chain', hs⟩
  · have hlast : w.emitted.getLast? = some last := by rw [he, List.getLast?_concat]
    simp only [revalidate, hlast]
    rcases answer with e | current
    · exact ⟨hw, ahead, before, after, chain', hs⟩
    · dsimp only
      split
      · exact ⟨hw, ahead, before, after, chain', hs⟩
      · rw [he, List.dropLast_concat]
        split at hemitted
        · rename_i hahead
          subst hahead
          obtain rfl := Option.some.inj hs.delivers
          obtain rfl : before = bs ++ [last] := hemitted.symm.trans he
          have hlinked := hw.linked
          have hle := hw.length_le
          rw [hs.recent] at hlinked hle
          obtain ⟨hbs, hnum, -⟩ := LinkedFrom.concat.mp (LinkedFrom.append.mp hlinked).1
          simp only [List.length_append, List.length_singleton] at hle
          obtain ⟨hc', ha'⟩ := hs.agree.uncle hs.canonical
          refine ⟨⟨hbs, by dsimp only; omega, hnum⟩, [.uncle last.number], bs, [], _, rfl, ?_,
            (List.append_nil _).symm, fun b hb => ?_, hs.delivered, rfl, hc', ha'⟩
          · intro u hu n h b
            rw [List.mem_singleton.mp hu]
            simp
          · refine hs.known b ?_
            rw [hs.recent]
            exact List.mem_append_left _ (List.mem_append_left _ hb)
        · rw [he] at hemitted
          exact absurd hemitted (by simp)

end BlockWatcher

/-! ## 6. Initialization -/

/-- The invariant of a scan: what it has is linked, from the safe block on. -/
structure Scan.Consistent (config : BlockConfig) (answered : List BlockHeader) (s : Scan) : Prop where
  known : ∀ b ∈ s.recent, b ∈ answered
  cached : ∀ b, s.canonicalLatest = some b → b ∈ answered ∧ b.number = s.latest
  safe : s.safe = s.latest - config.maxReorgDepth
  number : s.number = s.safe + s.recent.length
  bound : s.number ≤ s.latest + 1
  linked : ∀ safe rest, s.recent = safe :: rest → safe.number = s.safe ∧
    LinkedFrom safe.number safe.hash rest ∧ s.parentHash = some (tipHash safe.hash rest)

namespace Scan

variable {config : BlockConfig} {answered : List BlockHeader} {s : Scan}

/-- A block of the number looked for keeps the scan consistent. -/
theorem Consistent.push (h : s.Consistent config answered) (hle : s.number ≤ s.latest)
    {block : BlockHeader} (hn : block.number = s.number) (hb : block ∈ answered) :
    (s.push block).Consistent config answered := by
  unfold Scan.push
  split
  · rename_i hparent
    refine ⟨?_, h.cached, h.safe, ?_, Nat.succ_le_succ hle, ?_⟩
    · intro b hmem
      rcases List.mem_append.mp hmem with hmem | hmem
      · exact h.known b hmem
      · exact List.mem_singleton.mp hmem ▸ hb
    · simp only [List.length_append, List.length_singleton]
      rw [h.number, Nat.add_assoc]
    · intro safe rest hrecent
      cases hr : s.recent with
      | nil =>
        rw [hr] at hrecent
        obtain ⟨rfl, rfl⟩ := List.cons.inj hrecent
        refine ⟨?_, trivial, rfl⟩
        rw [hn, h.number, hr]
        rfl
      | cons first more =>
        rw [hr, List.cons_append] at hrecent
        obtain ⟨rfl, rfl⟩ := List.cons.inj hrecent
        obtain ⟨hsafe, hlinked, hp⟩ := h.linked _ _ hr
        rw [hp] at hparent
        refine ⟨hsafe, LinkedFrom.concat.mpr ⟨hlinked, ?_, ?_⟩, by rw [tipHash_concat]⟩
        · rw [hn, h.number, hr, hsafe]
          rfl
        · exact (by simpa using hparent : tipHash first.hash more = block.parentHash).symm
  · have hsafe := h.safe
    exact ⟨by simp, by simp, hsafe, rfl, by dsimp only; omega, by simp⟩

theorem Consistent.pushCached (h : s.Consistent config answered) :
    s.pushCached.Consistent config answered := by
  unfold Scan.pushCached
  split
  · rename_i hn
    split
    · rename_i block hc
      obtain ⟨hb, hlatest⟩ := h.cached block hc
      refine Consistent.push (s := { s with canonicalLatest := none })
        ⟨h.known, by simp, h.safe, h.number, h.bound, h.linked⟩ hn.le ?_ hb
      exact hlatest.trans hn.symm
    · exact h
  · exact h

theorem start_consistent (config : BlockConfig) {latest : BlockHeader} (hb : latest ∈ answered) :
    (Scan.start config latest).Consistent config answered := by
  refine Consistent.pushCached ⟨by simp, ?_, rfl, rfl, by dsimp only; omega, by simp⟩
  intro b hbl
  obtain rfl := Option.some.inj hbl
  exact ⟨hb, rfl⟩

end Scan

/-- What is queued from a block on: the rest of the recent blocks, after a warp if it is not one of
them. -/
theorem queued_from (answered : List BlockHeader) {recent : List BlockHeader} {safe : BlockHeader}
    (h : LinkedFrom safe.number safe.hash recent) (start : Nat) :
    ∃ before after chain, recent = before ++ after ∧
      recent.filter (fun b => decide (start ≤ b.number)) = after ∧
      deliverAll [] (if start ≤ safe.number then [.warp start safe.number] else []) = some chain ∧
      Canonical answered chain ∧ Agree chain (window ⟨safe.number, safe.hash⟩ before) := by
  rw [h.filter_le]
  refine ⟨recent.take (start - (safe.number + 1)), recent.drop (start - (safe.number + 1)), ?_⟩
  by_cases hle : start ≤ safe.number
  · have hzero : start - (safe.number + 1) = 0 := by omega
    have hfits : FitsOn [] start := fun top h => absurd h (by simp)
    have hlen : safe.number + 1 - start = (safe.number - start) + 1 := by omega
    have htop : start + (safe.number - start) = safe.number := by omega
    rw [if_pos hle, hzero]
    refine ⟨warpedRange start safe.number ++ [], rfl, rfl, ?_, .warp .nil hfits, ?_⟩
    · simp only [deliverAll, deliver, if_pos (And.intro hle hfits)]
      rfl
    · rw [List.append_nil, warpedRange, hlen, warped_succ, htop]
      exact ⟨⟨rfl, fun n h he => absurd he (by simp)⟩, by cases _ : List.reverse _ <;> trivial⟩
  · rw [if_neg hle]
    exact ⟨[], (List.take_append_drop _ _).symm, rfl, rfl, .nil, agree_nil _⟩

/-- **What `initialize` queues** ends as the recent blocks do. -/
theorem initial_split (config : BlockConfig) (indexed : Option BlockStatus)
    (answered : List BlockHeader) {recent : List BlockHeader} {safe : BlockHeader}
    (h : LinkedFrom safe.number safe.hash recent) :
    ∃ before after chain, recent = before ++ after ∧
      recent.filter (isUnprocessed config indexed) = after ∧
      (∀ u ∈ initialUpdates config indexed safe.number, ∀ n h b, u ≠ .new n h b) ∧
      deliverAll [] (initialUpdates config indexed safe.number) = some chain ∧
      Canonical answered chain ∧ Agree chain (window ⟨safe.number, safe.hash⟩ before) := by
  have hwarp : ∀ start, ∀ u ∈ (if start ≤ safe.number then [BlockUpdate.warp start safe.number] else []),
      ∀ n h b, u ≠ .new n h b := by
    intro start u hu n h b
    split at hu
    · rw [List.mem_singleton.mp hu]
      simp
    · exact absurd hu (by simp)
  cases indexed with
  | some indexed =>
    cases hu : checkedSucc indexed.safe with
    | some uncle =>
      obtain ⟨before, after, chain, hrecent, hafter, hdeliver, hc, ha⟩ :=
        queued_from answered h uncle
      refine ⟨before, after, chain, hrecent, ?_, ?_, ?_, hc, ha⟩
      · have hfun : isUnprocessed config (some indexed) = fun b => decide (uncle ≤ b.number) := by
          funext b
          simp only [isUnprocessed, hu, Option.any_some]
        rw [hfun, hafter]
      · intro u hmem n h b
        simp only [initialUpdates, hu, List.mem_append] at hmem
        rcases hmem with hmem | hmem
        · split at hmem
          · rw [List.mem_singleton.mp hmem]
            simp
          · exact absurd hmem (by simp)
        · exact hwarp uncle u hmem n h b
      · simp only [initialUpdates, hu, deliverAll_append]
        split
        · exact hdeliver
        · exact hdeliver
    | none =>
      refine ⟨recent, [], [], (List.append_nil _).symm, ?_, by simp [initialUpdates, hu], ?_, .nil,
        agree_nil _⟩
      · simp [isUnprocessed, hu]
      · simp only [initialUpdates, hu]
        rfl
  | none =>
    cases hs : config.startBlock with
    | some startBlock =>
      obtain ⟨before, after, chain, hrecent, hafter, hdeliver, hc, ha⟩ :=
        queued_from answered h startBlock
      refine ⟨before, after, chain, hrecent, ?_, ?_, ?_, hc, ha⟩
      · have hfun : isUnprocessed config none = fun b => decide (startBlock ≤ b.number) := by
          funext b
          simp only [isUnprocessed, hs, Option.all_some]
        rw [hfun, hafter]
      · simp only [initialUpdates, hs]
        exact hwarp startBlock
      · simpa only [initialUpdates, hs] using hdeliver
    | none =>
      refine ⟨[], recent, [], rfl, ?_, by simp [initialUpdates, hs], ?_, .nil, agree_nil _⟩
      · simp [isUnprocessed, hs]
      · simp only [initialUpdates, hs]
        rfl

namespace Initializing

variable {config : BlockConfig} {indexed : Option BlockStatus} {answered : List BlockHeader}
  {w : BlockWatcher}

/-- Where it waits: for the latest block, or for one of a consistent scan. -/
def Consistent (config : BlockConfig) (answered : List BlockHeader) : Initializing → Prop
  | .latest => True
  | .scan s => s.Consistent config answered ∧ s.number ≤ s.latest

theorem finish_ready {s : Scan} (hs : s.Consistent config answered) (hdone : s.latest < s.number)
    (h : finish config indexed s = .ready w) :
    w.Consistent ∧ w.Follows answered [] ∧ w.config = config := by
  unfold finish at h
  split at h
  · rename_i safe recent hr
    obtain rfl := Initialized.ready.inj h
    obtain ⟨hsafe, hlinked, -⟩ := hs.linked safe recent hr
    have hlength : s.number = s.safe + (recent.length + 1) := by rw [hs.number, hr]; rfl
    have hsub := hs.safe
    have hbound := hs.bound
    refine ⟨⟨hlinked, ?_, ?_⟩, ?_, rfl⟩
    · dsimp only
      omega
    · dsimp only
      omega
    · obtain ⟨before, after, chain, hrecent, hafter, hno, hdeliver, hc, ha⟩ :=
        initial_split config indexed answered hlinked
      refine ⟨initialUpdates config indexed s.safe, before, after, chain, ?_, ?_, hrecent, ?_, .nil, ?_,
        hc, ha⟩
      · dsimp only
        rw [hafter]
      · exact hsafe ▸ hno
      · exact fun b hb => hs.known b (by rw [hr]; exact List.mem_cons_of_mem _ hb)
      · exact hsafe ▸ hdeliver
  · exact absurd h (by simp)

/-- One answer. -/
theorem resume_consistent (indexed : Option BlockStatus) {i : Initializing} {answer : BlockAnswer}
    (hi : i.Consistent config answered)
    (hanswer : ∀ b, answer = .ok (some b) →
      b ∈ answered ∧ ∀ n, i.request = .number n → b.number = n) :
    (∀ i', i.resume config indexed answer = .waiting i' → i'.Consistent config answered) ∧
      (i.resume config indexed answer = .ready w →
        ∃ s : Scan, s.Consistent config answered ∧ s.latest < s.number ∧
          finish config indexed s = .ready w) := by
  rcases answer with e | b | b
  · exact ⟨fun i' h => absurd h (by simp [resume]), fun h => absurd h (by simp [resume])⟩
  · exact ⟨fun i' h => absurd h (by simp [resume]), fun h => absurd h (by simp [resume])⟩
  · obtain ⟨hb, hn⟩ := hanswer b rfl
    have hs : (match i with
        | .latest => Scan.start config b
        | .scan s => (s.push b).pushCached).Consistent config answered := by
      cases i with
      | latest => exact Scan.start_consistent config hb
      | scan s => exact (hi.1.push hi.2 (hn _ rfl) hb).pushCached
    simp only [resume]
    generalize (match i with
      | .latest => Scan.start config b
      | .scan s => (s.push b).pushCached) = s at hs
    constructor
    · intro i' h
      split at h
      · unfold finish at h
        split at h <;> exact absurd h (by simp)
      · rename_i hle
        obtain rfl := Initialized.waiting.inj h
        exact ⟨hs, not_lt.mp hle⟩
    · intro h
      split at h
      · rename_i hdone
        exact ⟨s, hs, hdone, h⟩
      · exact absurd h (by simp)

/-- The node answers a request by number with a block of that number. -/
def Honest (config : BlockConfig) (indexed : Option BlockStatus) (i : Initializing) :
    List BlockAnswer → Prop
  | [] => True
  | answer :: answers =>
    (∀ b n, answer = .ok (some b) → i.request = .number n → b.number = n) ∧
      ∀ i', i.resume config indexed answer = .waiting i' → Honest config indexed i' answers

/-- An initialized watcher is that of a completed scan. -/
theorem run_finish {i : Initializing} {answers : List BlockAnswer}
    (hi : i.Consistent config answered) (hhonest : i.Honest config indexed answers)
    (hanswered : ∀ b, .ok (some b) ∈ answers → b ∈ answered)
    (h : i.run config indexed answers = .ready w) :
    ∃ s : Scan, s.Consistent config answered ∧ s.latest < s.number ∧
      finish config indexed s = .ready w := by
  induction answers generalizing i with
  | nil => exact absurd h (by simp [run])
  | cons answer answers ih =>
    obtain ⟨hn, hrest⟩ := hhonest
    obtain ⟨hwaiting, hready⟩ := resume_consistent indexed (w := w) hi fun b hb =>
      ⟨hanswered b (hb ▸ List.mem_cons_self), fun n => hn b n hb⟩
    simp only [run] at h
    split at h
    · rename_i i' hi'
      exact ih (hwaiting i' hi') (hrest i' hi') (fun b hb => hanswered b (List.mem_cons_of_mem _ hb)) h
    · exact hready h

/-- **An initialized watcher is consistent**, and what it queued ends as its recent blocks do. -/
theorem run_ready {i : Initializing} {answers : List BlockAnswer}
    (hi : i.Consistent config answered) (hhonest : i.Honest config indexed answers)
    (hanswered : ∀ b, .ok (some b) ∈ answers → b ∈ answered)
    (h : i.run config indexed answers = .ready w) :
    w.Consistent ∧ w.Follows answered [] ∧ w.config = config := by
  obtain ⟨s, hs, hdone, hfinish⟩ := run_finish hi hhonest hanswered h
  exact finish_ready hs hdone hfinish

end Initializing

/-! ## 7. Runs -/

/-- A call, with what the node answers if it is asked. -/
inductive BlockCall where
  | next (answer : BlockAnswer)
  | revalidate (answer : BlockAnswer)

/-- The blocks among some answers. -/
def answeredBlocks (answers : List BlockAnswer) : List BlockHeader :=
  answers.filterMap fun
    | .ok block => block
    | .error _ => none

/-- The answers to some calls. -/
def callAnswers (calls : List BlockCall) : List BlockAnswer :=
  calls.map fun
    | .next answer => answer
    | .revalidate answer => answer

theorem mem_answeredBlocks {answers : List BlockAnswer} {b : BlockHeader} :
    b ∈ answeredBlocks answers ↔ .ok (some b) ∈ answers := by
  simp only [answeredBlocks, List.mem_filterMap]
  constructor
  · rintro ⟨answer, hmem, h⟩
    split at h
    · exact h ▸ hmem
    · exact absurd h (by simp)
  · intro hmem
    exact ⟨_, hmem, rfl⟩

namespace BlockWatcher

/-- One call, with the update it comes to. -/
def call (w : BlockWatcher) : BlockCall → BlockWatcher × List BlockUpdate
  | .next answer => ((w.next answer).1, (w.next answer).2.updates)
  | .revalidate answer => ((w.revalidate answer).1, [])

/-- The node answers a request by number with a block of that number. -/
def HonestCalls (w : BlockWatcher) (calls : List BlockCall) : Prop :=
  ∀ past b rest, calls = past ++ .next (.ok (some b)) :: rest →
    (Reactive.runState call w past).queue = [] → b.number = (Reactive.runState call w past).pending

variable {answered : List BlockHeader} {w : BlockWatcher} {chain : List Delivered}

theorem call_config (w : BlockWatcher) (c : BlockCall) : (w.call c).1.config = w.config := by
  have hrecord : ∀ b, (w.record b).config = w.config := by
    intro b
    unfold record
    dsimp only
    split
    · split <;> rfl
    · rfl
  cases c with
  | next answer =>
    simp only [call, next]
    split
    · rfl
    · rcases answer with e | b | b
      · rfl
      · rfl
      · simp only [onBlock]
        split
        · split
          · rfl
          · exact hrecord b
        · split
          · rfl
          · exact hrecord b
  | revalidate answer =>
    simp only [call, revalidate]
    split
    · rfl
    · rcases answer with e | current
      · rfl
      · dsimp only
        split <;> rfl

/-- One call. -/
theorem call_follows (c : BlockCall) (hw : w.Consistent) (hf : Follows answered w chain)
    (hc : ∀ b, c = .next (.ok (some b)) → w.queue = [] → b.number = w.pending) :
    (w.call c).1.Consistent ∧ ∃ chain', deliverAll chain (w.call c).2 = some chain' ∧
      Follows (answered ++ answeredBlocks (callAnswers [c])) (w.call c).1 chain' := by
  cases c with
  | next answer =>
    refine next_follows hw hf.mono fun hq b hb => ⟨hc b (by rw [hb]) hq, List.mem_append_right _ ?_⟩
    rw [mem_answeredBlocks, hb]
    exact List.mem_singleton_self _
  | revalidate answer =>
    obtain ⟨hw', hf'⟩ := revalidate_follows answer hw hf
    exact ⟨hw', chain, rfl, hf'.mono⟩

/-- **Every run of a watcher** delivers a chain that ends as the watcher's own. -/
theorem run_follows {calls : List BlockCall} (hw : w.Consistent) (hf : Follows answered w chain)
    (hcalls : HonestCalls w calls) :
    (Reactive.runState call w calls).Consistent ∧
      (Reactive.runState call w calls).config = w.config ∧
      ∃ chain', deliverAll chain (Reactive.runOutputs call w calls) = some chain' ∧
        Follows (answered ++ answeredBlocks (callAnswers calls)) (Reactive.runState call w calls)
          chain' := by
  induction calls using List.reverseRecOn with
  | nil =>
    refine ⟨hw, rfl, chain, rfl, ?_⟩
    rw [show answeredBlocks (callAnswers []) = [] from rfl, List.append_nil]
    exact hf
  | append_singleton calls c ih =>
    obtain ⟨hw', hconfig, chain', hdeliver, hf'⟩ := ih fun past b rest h =>
      hcalls past b (rest ++ [c]) (by rw [h]; simp)
    have hmore : answered ++ answeredBlocks (callAnswers (calls ++ [c])) =
        (answered ++ answeredBlocks (callAnswers calls)) ++ answeredBlocks (callAnswers [c]) := by
      simp only [callAnswers, answeredBlocks, List.map_append, List.filterMap_append,
        List.append_assoc]
    obtain ⟨hw'', chain'', hdeliver', hf''⟩ := call_follows c hw' hf' fun b hb =>
      hcalls calls b [] (by rw [hb])
    rw [hmore, Reactive.runState_append, Reactive.runOutputs_append, deliverAll_append, hdeliver]
    refine ⟨hw'', (call_config _ c).trans hconfig, chain'', ?_, hf''⟩
    simp only [Reactive.runOutputs, List.append_nil, Option.bind_some]
    exact hdeliver'

/-- A call that fails changes nothing. -/
theorem next_failed {answer : BlockAnswer} {e : BlockError} (h : (w.next answer).2 = .failed e) :
    (w.next answer).1 = w := by
  unfold next at h ⊢
  split
  · rename_i hq
    rw [hq] at h
    exact absurd h (by simp)
  · rename_i hq
    rw [hq] at h
    rcases answer with e | b | b
    · rfl
    · rfl
    · simp only [onBlock] at h ⊢
      split at h
      · split at h <;> exact absurd h (by simp)
      · rename_i hlast
        split at h
        · rename_i hp
          simp only [if_pos hp]
        · exact absurd h (by simp)

/-! ### Deep reorgs -/

/-- A chain the node serves: hash-linked, from the given block on up to another. -/
structure Serves (c : Nat → Option BlockHeader) (first last : Nat) : Prop where
  defined : ∀ n, first ≤ n → n ≤ last → ∃ b, c n = some b
  linked : ∀ n b b', c n = some b → c (n + 1) = some b' → b'.parentHash = b.hash

/-- A hash is of one block: the served blocks and the recent ones agree on its parent. -/
def HashesAgree (c : Nat → Option BlockHeader) (bs : List BlockHeader) : Prop :=
  ∀ b ∈ bs, ∀ n b', c n = some b' → b'.hash = b.hash → b'.parentHash = b.parentHash

/-- A served chain that ends like the recent blocks is the same all the way down. -/
theorem tip_ne {c : Nat → Option BlockHeader} {number : Nat} {hash : B256} {bs : List BlockHeader}
    (hbs : LinkedFrom number hash bs) (hc : Serves c number (number + bs.length))
    (hhash : HashesAgree c bs) (hsafe : ∀ b, c number = some b → b.hash ≠ hash) :
    ∀ b, c (number + bs.length) = some b → b.hash ≠ tipHash hash bs := by
  induction bs using List.reverseRecOn with
  | nil => exact hsafe
  | append_singleton bs last ih =>
    obtain ⟨hlinked, -, hp⟩ := LinkedFrom.concat.mp hbs
    rw [List.length_append, List.length_singleton] at hc ⊢
    intro b hb heq
    rw [tipHash_concat] at heq
    obtain ⟨below, hbelow⟩ := hc.defined (number + bs.length) (Nat.le_add_right _ _) (by omega)
    have hparent : b.parentHash = below.hash := hc.linked _ below b hbelow hb
    have hsame : b.parentHash = last.parentHash := hhash last (by simp) _ b hb heq
    refine ih hlinked ⟨fun n h1 h2 => hc.defined n h1 (by omega), hc.linked⟩
      (fun x hx => hhash x (List.mem_append_left _ hx)) below hbelow ?_
    rw [← hparent, hsame, hp]

/-- One call of `next`, answered from a chain. -/
def follow (c : Nat → Option BlockHeader) (w : BlockWatcher) : BlockWatcher :=
  (w.next (.ok (c w.pending))).1

/-- The block the node has next does not build on the last one. -/
theorem served_mismatch {c : Nat → Option BlockHeader} (hw : w.Consistent)
    (hc : Serves c w.safe.number w.pending) (hhash : HashesAgree c w.recent)
    (hsafe : ∀ b, c w.safe.number = some b → b.hash ≠ w.safe.hash) :
    ∃ b, c w.pending = some b ∧ b.parentHash ≠ tipHash w.safe.hash w.recent := by
  have hpending := hw.pending
  obtain ⟨b, hb⟩ := hc.defined w.pending (by omega) le_rfl
  obtain ⟨below, hbelow⟩ := hc.defined (w.safe.number + w.recent.length) (by omega) (by omega)
  refine ⟨b, hb, ?_⟩
  rw [hpending] at hb
  rw [hc.linked _ below b hbelow hb]
  exact tip_ne hw.linked ⟨fun n h1 h2 => hc.defined n h1 (by omega), hc.linked⟩ hhash hsafe below hbelow

/-- **A reorg that replaced the safe block is reported.**  The watcher unwinds its recent blocks, one
a call, and then every call fails and changes nothing. -/
theorem deep_reorg {c : Nat → Option BlockHeader} (hw : w.Consistent) (hq : w.queue = [])
    (hc : Serves c w.safe.number w.pending) (hhash : HashesAgree c w.recent)
    (hsafe : ∀ b, c w.safe.number = some b → b.hash ≠ w.safe.hash) :
    let unwound := (follow c)^[w.recent.length] w
    unwound.recent = [] ∧ unwound.next (.ok (c unwound.pending)) =
      (unwound, .failed (.exceededMaxReorgDepth w.config.maxReorgDepth)) := by
  obtain ⟨b, hb, hp⟩ := served_mismatch hw hc hhash hsafe
  generalize hr : w.recent = bs
  induction bs using List.reverseRecOn generalizing w b with
  | nil =>
    have hlast : w.recent.getLast? = none := by rw [hr]; rfl
    rw [hr] at hp
    refine ⟨hr, ?_⟩
    change w.next (.ok (c w.pending)) = _
    simp only [next, hq, hb, onBlock, hlast]
    exact if_pos (Ne.symm hp)
  | append_singleton bs last ih =>
    have hlast : w.recent.getLast? = some last := by rw [hr, List.getLast?_concat]
    rw [hr, tipHash_concat] at hp
    have hfollow : follow c w = { w with recent := bs, pending := last.number } := by
      simp only [follow, next, hq, hb, onBlock, hlast]
      rw [if_pos (Ne.symm hp), hr, List.dropLast_concat]
    have hlinked := hw.linked
    have hle := hw.length_le
    have hpending := hw.pending
    rw [hr] at hlinked hle hpending hhash
    obtain ⟨hbs, hnum, -⟩ := LinkedFrom.concat.mp hlinked
    simp only [List.length_append, List.length_singleton] at hle hpending
    have hw' : (follow c w).Consistent := by
      rw [hfollow]
      exact ⟨hbs, by dsimp only; omega, hnum⟩
    have hc' : Serves c (follow c w).safe.number (follow c w).pending := by
      rw [hfollow]
      exact ⟨fun n h1 h2 => hc.defined n h1 (by dsimp only at h2; omega), hc.linked⟩
    have hhash' : HashesAgree c (follow c w).recent := by
      rw [hfollow]
      exact fun x hx => hhash x (List.mem_append_left _ hx)
    have hsafe' : ∀ b, c (follow c w).safe.number = some b → b.hash ≠ (follow c w).safe.hash := by
      rw [hfollow]
      exact hsafe
    have hconfig : (follow c w).config = w.config := by rw [hfollow]
    obtain ⟨b', hb', hp'⟩ := served_mismatch hw' hc' hhash' hsafe'
    rw [List.length_append, List.length_singleton, Function.iterate_succ_apply, ← hconfig]
    exact ih hw' (by rw [hfollow]; exact hq) hc' hhash' hsafe' b' hb' hp' (by rw [hfollow])

/-- **The block watcher delivers the canonical chain.**  Whatever a node answers, with blocks of the
numbers asked for, the updates in order make an initially empty chain a contiguous and hash-linked
one, and no block is delivered twice without an uncle in between.  The recent blocks stay linked
above the safe one, not more than may be reorged, with the pending one next.  A call that fails
changes nothing, and a reorg that reaches the safe block (as one deeper than the configured depth
does, by the bound on the recent blocks) is reported once the recent blocks are unwound. -/
theorem delivers_canonical {config : BlockConfig} {indexed : Option BlockStatus}
    {answers : List BlockAnswer} {w : BlockWatcher}
    (hready : Initializing.latest.run config indexed answers = .ready w)
    (hinit : Initializing.latest.Honest config indexed answers) {calls : List BlockCall}
    (hcalls : HonestCalls w calls) :
    let w' := Reactive.runState call w calls
    let updates := Reactive.runOutputs call w calls
    (∃ chain, deliverAll [] updates = some chain ∧
        Canonical (answeredBlocks (answers ++ callAnswers calls)) chain) ∧
      (∀ past u mid v rest n, updates = past ++ u :: (mid ++ v :: rest) → u.Covers n → v.Covers n →
        ∃ k, .uncle k ∈ mid ∧ k ≤ n) ∧
      w'.config = config ∧ w'.Consistent ∧
      (∀ answer e, (w'.next answer).2 = .failed e → (w'.next answer).1 = w') ∧
      ∀ c, w'.queue = [] → Serves c w'.safe.number w'.pending → HashesAgree c w'.recent →
        (∀ b, c w'.safe.number = some b → b.hash ≠ w'.safe.hash) →
        let unwound := (follow c)^[w'.recent.length] w'
        unwound.recent = [] ∧ unwound.next (.ok (c unwound.pending)) =
          (unwound, .failed (.exceededMaxReorgDepth config.maxReorgDepth)) := by
  intro w' updates
  obtain ⟨hw, hf, hconfig⟩ := Initializing.run_ready (i := .latest) trivial hinit
    (fun b hb => mem_answeredBlocks.mpr hb) hready
  obtain ⟨hw', hconfig', chain, hdeliver, hf'⟩ := run_follows hw hf hcalls
  have hcanonical : Canonical (answeredBlocks (answers ++ callAnswers calls)) chain := by
    obtain ⟨ahead, before, after, chain', hs⟩ := hf'
    rw [answeredBlocks, List.filterMap_append]
    exact hs.delivered
  refine ⟨⟨chain, hdeliver, hcanonical⟩, ?_, hconfig'.trans hconfig, hw', fun _ _ => next_failed, ?_⟩
  · intro past u mid v rest n hupdates hu hv
    rw [show Reactive.runOutputs call w calls = _ from hupdates] at hdeliver
    exact uncled_between hdeliver hu hv
  · intro c hq hc hhash hsafe
    rw [← hconfig, ← hconfig']
    exact deep_reorg hw' hq hc hhash hsafe

theorem HonestCalls.nil : HonestCalls w [] := by
  intro past b rest h
  exact absurd h (by simp)

theorem HonestCalls.cons {c : BlockCall} {calls : List BlockCall}
    (h : ∀ b, c = .next (.ok (some b)) → w.queue = [] → b.number = w.pending)
    (hrest : HonestCalls (w.call c).1 calls) : HonestCalls w (c :: calls) := by
  intro past b rest heq
  cases past with
  | nil =>
    obtain ⟨rfl, -⟩ := List.cons.inj heq
    exact h b rfl
  | cons c' past =>
    obtain ⟨rfl, htail⟩ := List.cons.inj heq
    exact hrest past b rest htail

/-- A block by number, hash and parent. -/
def toyBlock (number : Nat) (hash parentHash : B256) : BlockHeader := ⟨number, hash, parentHash, 0⟩

/-- A fresh watcher of a chain of three blocks, two of which may be reorged. -/
def toyAnswers : List BlockAnswer :=
  [.ok (some (toyBlock 2 12 11)), .ok (some (toyBlock 0 10 9)), .ok (some (toyBlock 1 11 10))]

/-- The watcher. -/
def toyWatcher : BlockWatcher :=
  ⟨⟨2, none⟩, 3, ⟨0, 10⟩, [toyBlock 1 11 10, toyBlock 2 12 11], [.new 1 11 0, .new 2 12 0]⟩

/-- Its second block is reorged. -/
def toyCalls : List BlockCall :=
  [.next (.ok none), .next (.ok none), .next (.ok (some (toyBlock 3 23 22))),
    .next (.ok (some (toyBlock 2 22 11))), .revalidate (.ok (some (toyBlock 2 22 11))),
    .next (.ok (some (toyBlock 3 23 22)))]

theorem toy_honest : Initializing.latest.Honest ⟨2, none⟩ none toyAnswers := by
  refine ⟨fun b n _ h => absurd h (by simp [Initializing.request]), ?_⟩
  intro i hi
  obtain rfl := Initialized.waiting.inj hi
  refine ⟨?_, ?_⟩
  · intro b n hb hn
    simp at hb
    subst hb
    exact BlockId.number.inj hn
  · intro i hi
    obtain rfl := Initialized.waiting.inj hi
    refine ⟨?_, ?_⟩
    · intro b n hb hn
      simp at hb
      subst hb
      exact BlockId.number.inj hn
    · intro i hi
      have hdone : Initialized.ready toyWatcher = .waiting i := hi
      cases hdone

/-- A run with a reorg. -/
theorem delivers_canonical_reorged :
    let updates := Reactive.runOutputs call toyWatcher toyCalls
    updates = [.new 1 11 0, .new 2 12 0, .uncle 2, .new 2 22 0, .new 3 23 0] ∧
      ∃ chain, deliverAll [] updates = some chain ∧
        Canonical (answeredBlocks (toyAnswers ++ callAnswers toyCalls)) chain := by
  have hready : Initializing.latest.run ⟨2, none⟩ none toyAnswers = .ready toyWatcher := by rfl
  have hcalls : HonestCalls toyWatcher toyCalls := by
    refine .cons (by simp) (.cons (by simp) (.cons ?_ (.cons ?_ (.cons (by simp) (.cons ?_ .nil)))))
    all_goals
      intro b hb _
      simp at hb
      subst hb
      rfl
  exact ⟨by decide +kernel, (delivers_canonical hready toy_honest hcalls).1⟩

end BlockWatcher

end Safenet
