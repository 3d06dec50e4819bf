/-
# The canonical chain

A stream of updates describes a chain: a block is added, its logs complete it, an uncle takes
back the block at a number and everything above.  `Chain` is that list of blocks, each with the
messages that were applied for it, and it is computed from the stream alone -- the machine, its
snapshots and its status play no part in it.

`reorg_transparent` is that the machine is a function of the chain.  However the stream got
there, the live state is the fold of the transition over the messages of the chain, and the
snapshots are the folds up to each of its blocks, from the last pruned one on.  A resume belongs
to the block whose logs persist it, so a stream that never rolls a resume back loses none.

Each update checks the status, the status says which block comes next (`Chain.Fits`), and so the
blocks are ascending: that is the whole argument.
-/
import Safenet.Core.StateMachine

namespace Safenet

variable {S Event Resume Action Effect : Type}

/-! ## 1. The chain a stream describes -/

/-- The blocks with their messages, oldest first, each under the last block number of its log
range; the messages since; and the block below which snapshots were pruned. -/
structure Chain (Event Resume : Type) where
  blocks : List (Nat × List (Message Event Resume))
  pending : List (Message Event Resume)
  floor : Nat

namespace Chain

/-- No block yet. -/
def empty : Chain Event Resume := ⟨[], [], 0⟩

variable (c : Chain Event Resume)

/-- The block numbers. -/
def numbers : List Nat := c.blocks.map Prod.fst

/-- The newest block. -/
def tip : Option Nat := c.numbers.getLast?

/-- Every message of the chain, in order. -/
def messages : List (Message Event Resume) := c.blocks.flatMap Prod.snd ++ c.pending

/-- The messages up to a block of the chain. -/
def through (n : Nat) : Option (List (Message Event Resume)) :=
  if n ∈ c.numbers then some ((c.blocks.filter (·.1 ≤ n)).flatMap Prod.snd) else none

/-- What an uncle takes back. -/
def rolledBack (n : Nat) : List (Message Event Resume) :=
  (c.blocks.filter (n ≤ ·.1)).flatMap Prod.snd ++ c.pending

/-- What one input does to the chain. -/
def extend : Input Event Resume → Chain Event Resume
  | .update (.warp ..) => c
  | .update (.uncle n) => { c with blocks := c.blocks.filter (·.1 < n), pending := [] }
  | .update (.new n) => { c with pending := c.pending ++ [.newBlock n] }
  | .update (.logs _ last logs) =>
    { c with blocks := c.blocks ++ [(last, c.pending ++ logs.map .event)], pending := [] }
  | .resume r => { c with pending := c.pending ++ [.resume r] }
  | .prune safe =>
    match c.tip with
    -- the newest snapshot is never pruned, and a bound that does not fit the column is an error
    | some tip => if safe < 2 ^ 63 then { c with floor := max c.floor (min safe tip) } else c
    | none => c
  | .restart => { c with pending := [] }

end Chain

/-- The chain a stream of inputs describes. -/
def chainOf (inputs : List (Input Event Resume)) : Chain Event Resume :=
  inputs.foldl Chain.extend .empty

theorem chainOf_concat (inputs : List (Input Event Resume)) (i : Input Event Resume) :
    chainOf (inputs ++ [i]) = (chainOf inputs).extend i := by
  rw [chainOf, List.foldl_append]
  rfl

/-- The resumes among some messages. -/
def resumesIn (ms : List (Message Event Resume)) : List Resume :=
  ms.filterMap fun
    | .resume r => some r
    | _ => none

/-- The resumes delivered to the machine. -/
def delivered (inputs : List (Input Event Resume)) : List Resume :=
  inputs.filterMap fun
    | .resume r => some r
    | _ => none

/-- No uncle and no restart takes a resume back. -/
structure ResumesKept (inputs : List (Input Event Resume)) : Prop where
  uncle : ∀ past n rest, inputs = past ++ .update (.uncle n) :: rest →
    resumesIn ((chainOf past).rolledBack n) = []
  restart : ∀ past rest, inputs = past ++ .restart :: rest → resumesIn (chainOf past).pending = []

/-- Every update of the stream was accepted. -/
def Accepted (apply : TransitionFn S Event Resume Action Effect) (init : S)
    (inputs : List (Input Event Resume)) : Prop :=
  ∀ past u rest, inputs = past ++ .update u :: rest →
    ((machineAfter apply init past).handleUpdate apply u).2.toOption.isSome

/-! ## 2. The chain's own facts -/

namespace Chain

variable {c : Chain Event Resume}

theorem numbers_append (b : Nat × List (Message Event Resume)) (p : List (Message Event Resume))
    (f : Nat) : (Chain.mk (c.blocks ++ [b]) p f).numbers = c.numbers ++ [b.1] := by
  rw [numbers, List.map_append]
  rfl

theorem tip_append (b : Nat × List (Message Event Resume)) (p : List (Message Event Resume))
    (f : Nat) : (Chain.mk (c.blocks ++ [b]) p f).tip = some b.1 := by
  rw [tip, numbers_append, List.getLast?_concat]

theorem numbers_filter (n : Nat) (p : List (Message Event Resume)) (f : Nat) :
    (Chain.mk (c.blocks.filter (·.1 < n)) p f).numbers = c.numbers.filter (· < n) := by
  simp only [numbers, List.filter_map]
  rfl

/-- The newest block is the largest number. -/
theorem le_tip (h : c.numbers.Pairwise (· < ·)) {t : Nat} (ht : c.tip = some t) :
    t ∈ c.numbers ∧ ∀ n ∈ c.numbers, n ≤ t := by
  obtain ⟨front, hfront⟩ := List.getLast?_eq_some_iff.mp ht
  rw [hfront, List.pairwise_append] at h
  rw [hfront]
  refine ⟨by simp, fun n hn => ?_⟩
  rcases List.mem_append.mp hn with hn | hn
  · exact (h.2.2 n hn t (by simp)).le
  · exact (List.mem_singleton.mp hn).le

/-- A block number no other exceeds is the newest. -/
theorem tip_of_le (h : c.numbers.Pairwise (· < ·)) {t : Nat} (ht : t ∈ c.numbers)
    (hle : ∀ n ∈ c.numbers, n ≤ t) : c.tip = some t := by
  cases hc : c.tip with
  | none =>
    rw [tip, List.getLast?_eq_none_iff] at hc
    rw [hc] at ht
    exact absurd ht (by simp)
  | some t' =>
    obtain ⟨hmem, hmax⟩ := le_tip h hc
    exact congrArg some (le_antisymm (hle t' hmem) (hmax t ht))

/-- Up to the newest block, the messages are those of all the blocks. -/
theorem through_tip (h : c.numbers.Pairwise (· < ·)) {t : Nat} (ht : c.tip = some t) :
    c.through t = some (c.blocks.flatMap Prod.snd) := by
  obtain ⟨hmem, hmax⟩ := le_tip h ht
  rw [through, if_pos hmem, List.filter_eq_self.mpr]
  intro b hb
  exact decide_eq_true (hmax b.1 (List.mem_map_of_mem hb))

/-- A new block changes nothing up to the others. -/
theorem through_append {b : Nat × List (Message Event Resume)} {p : List (Message Event Resume)}
    {f : Nat} (hlt : ∀ n ∈ c.numbers, n < b.1) {n : Nat} (hn : n ≠ b.1) :
    (Chain.mk (c.blocks ++ [b]) p f).through n = c.through n := by
  by_cases hmem : n ∈ c.numbers
  · have hb : ¬ b.1 ≤ n := not_le.mpr (hlt n hmem)
    simp [through, numbers_append, hmem, List.filter_append, hb]
  · simp [through, numbers_append, hmem, hn]

/-- An uncle keeps what is below it. -/
theorem through_filter (m n : Nat) (p : List (Message Event Resume)) (f : Nat) :
    (Chain.mk (c.blocks.filter (·.1 < m)) p f).through n =
      if n < m then c.through n else none := by
  by_cases hlt : n < m
  · have hfilter : ((c.blocks.filter (·.1 < m)).filter (·.1 ≤ n)) = c.blocks.filter (·.1 ≤ n) := by
      rw [List.filter_filter]
      refine List.filter_congr fun b _ => ?_
      by_cases hb : b.1 ≤ n
      · simp [hb, hb.trans_lt hlt]
      · simp [hb]
    simp only [through, numbers_filter, List.mem_filter, hlt, decide_true, and_true, if_true,
      hfilter]
  · simp [through, numbers_filter, hlt]

/-- The block a status expects next follows the newest one. -/
def Fits (c : Chain Event Resume) : Status → Prop
  | .initialized => c.tip = none
  | .blockPending pending => c.tip.map (· + 1) = some pending
  | .blockEvents latest => ∀ t, c.tip = some t → t + 1 = latest
  | .warpEvents first _ => ∀ t, c.tip = some t → t + 1 = first

/-- Logs that a status accepts end above the newest block. -/
theorem Fits.above {status : Status} {first last : Nat} (h : c.Fits status)
    (ha : status.acceptsLogs first last = true) (t : Nat) (ht : c.tip = some t) : t < last := by
  cases status with
  | initialized => exact absurd ha (by simp [Status.acceptsLogs])
  | blockPending pending => exact absurd ha (by simp [Status.acceptsLogs])
  | blockEvents latest =>
    have hnext := h t ht
    simp only [Status.acceptsLogs, isNextInRange, Bool.and_eq_true, decide_eq_true_eq] at ha
    omega
  | warpEvents rangeFirst rangeLast =>
    have hnext := h t ht
    simp only [Status.acceptsLogs, isNextInRange, Bool.and_eq_true, decide_eq_true_eq] at ha
    omega

/-- Once logs are processed, the status expects the block after them. -/
theorem fits_afterLogs {status status' : Status} {last : Nat}
    (h : status.afterLogs last = .ok status') (hc : c.tip = some last) : c.Fits status' := by
  simp only [Status.afterLogs, Except.bind_eq_ok] at h
  obtain ⟨next, hnext, h⟩ := h
  have hn : next = last + 1 := by
    rw [nextBlock] at hnext
    split at hnext
    · exact (Except.ok.inj hnext).symm
    · exact absurd hnext (by simp)
  subst hn
  split at h
  · split at h
    · simp only [Except.bind_eq_ok, Except.pure_eq_ok, blockRange] at h
      obtain ⟨r, hr, rfl⟩ := h
      split at hr
      · obtain rfl := Except.ok.inj hr
        intro t ht
        rw [hc, Option.some.injEq] at ht
        rw [ht]
      · exact absurd hr (by simp)
    · rw [Except.pure_eq_ok] at h
      subst h
      rw [Fits, hc]
      rfl
  · rw [Except.pure_eq_ok] at h
    subst h
    rw [Fits, hc]
    rfl

end Chain

/-! ## 3. The machine follows the chain -/

variable {apply : TransitionFn S Event Resume Action Effect} {init : S}

/-- The live state and the snapshots are those of the chain. -/
structure Tracks (apply : TransitionFn S Event Resume Action Effect) (init : S)
    (c : Chain Event Resume) (M : StateMachine S) : Prop where
  live : ∃ status, M.inner = some (Reactive.runState apply init c.messages, status) ∧ c.Fits status
  snapshots : ∀ n : Nat, M.snapshots[n]? =
    if c.floor ≤ n then (c.through n).map (Reactive.runState apply init) else none
  ascending : c.numbers.Pairwise (· < ·)
  small : ∀ n ∈ c.numbers, n < 2 ^ 63
  floor : c.floor ≤ c.tip.getD 0

theorem tracks_empty : Tracks apply init .empty (.withInit init ∅) where
  live := ⟨.initialized, rfl, rfl⟩
  snapshots n := by simp [StateMachine.withInit, Chain.empty, Chain.through, Chain.numbers]
  ascending := .nil
  small n hn := absurd hn (by simp [Chain.empty, Chain.numbers])
  floor := le_rfl

namespace Tracks

variable {c : Chain Event Resume} {M : StateMachine S}

/-- The newest snapshot is the newest block's. -/
theorem current (h : Tracks apply init c M) {t : Nat} (ht : c.tip = some t) :
    M.snapshots.current = some (t, Reactive.runState apply init (c.blocks.flatMap Prod.snd)) := by
  have hfloor := h.floor
  rw [ht, Option.getD_some] at hfloor
  refine (BTreeMap.getLast?_toList_eq_some _ _ _).mpr ⟨?_, fun n s hn => ?_⟩
  · rw [h.snapshots, if_pos hfloor, Chain.through_tip h.ascending ht]
    rfl
  · rw [h.snapshots] at hn
    split at hn
    · obtain ⟨ms, hms, -⟩ := Option.map_eq_some_iff.mp hn
      rw [Chain.through] at hms
      split at hms
      · rename_i hmem
        exact Nat.isLE_compare.mpr ((Chain.le_tip h.ascending ht).2 n hmem)
      · exact absurd hms (by simp)
    · exact absurd hn (by simp)

/-- Without a block there is no snapshot. -/
theorem current_none (h : Tracks apply init c M) (ht : c.tip = none) :
    M.snapshots.current = none ∧ c.blocks = [] := by
  have hnil : c.blocks = [] := by
    simpa [Chain.tip, Chain.numbers] using ht
  have hempty : M.snapshots = ∅ := by
    refine Std.ExtTreeMap.ext_getElem? fun n => ?_
    rw [h.snapshots]
    simp [Chain.through, Chain.numbers, hnil]
  exact ⟨by rw [hempty]; rfl, hnil⟩

/-- A message that is applied live. -/
theorem push (h : Tracks apply init c M) (m : Message Event Resume) {status : Status}
    (hf : c.Fits status) : Tracks apply init { c with pending := c.pending ++ [m] }
      ⟨some ((apply (Reactive.runState apply init c.messages) m).1, status), M.snapshots⟩ where
  live := by
    refine ⟨status, ?_, hf⟩
    simp only [Chain.messages, ← List.append_assoc]
    rw [Reactive.runState_append apply init _ [m]]
    rfl
  snapshots := h.snapshots
  ascending := h.ascending
  small := h.small
  floor := h.floor

theorem new (h : Tracks apply init c M) {n : Nat} {status : Status} (hf : c.Fits status)
    (hs : status = .initialized ∨ status = .blockPending n) :
    Tracks apply init (c.extend (.update (.new n)))
      ⟨some ((apply (Reactive.runState apply init c.messages) (.newBlock n)).1, .blockEvents n),
        M.snapshots⟩ := by
  refine h.push _ fun t ht => ?_
  rcases hs with rfl | rfl
  · rw [Chain.Fits, ht] at hf
    exact absurd hf (by simp)
  · rw [Chain.Fits, ht] at hf
    exact Option.some.inj hf

/-- An uncle goes back to the block before it. -/
theorem uncle (h : Tracks apply init c M) {n : Nat} {r : SnapshotStore S × S}
    (hr : M.snapshots.reorg n = .ok r) : Tracks apply init (c.extend (.update (.uncle n)))
      ⟨some (r.2, .blockPending n), r.1⟩ := by
  unfold SnapshotStore.reorg at hr
  split at hr
  · exact absurd hr Except.throw_ne_ok
  · rename_i hpos
    simp only [Except.bind_eq_ok] at hr
    obtain ⟨u, hu, hr⟩ := hr
    have hun : u = n := by
      rw [i64Block] at hu
      split at hu
      · exact (Except.ok.inj hu).symm
      · exact absurd hu (by simp)
    subst hun
    split at hr
    · rename_i state hparent
      rw [Except.pure_eq_ok] at hr
      subst hr
      rw [BTreeMap.get_filterMap] at hparent
      obtain ⟨s, hs, hite⟩ := Option.bind_eq_some_iff.mp hparent
      rw [if_pos (by omega), Option.some.injEq] at hite
      subst hite
      rw [h.snapshots] at hs
      split at hs
      · rename_i hfloor
        obtain ⟨ms, hms, rfl⟩ := Option.map_eq_some_iff.mp hs
        rw [Chain.through] at hms
        split at hms
        · rename_i hmem
          -- the parent is a block of the chain, and the newest one below the uncle
          set c' : Chain Event Resume := c.extend (.update (.uncle u)) with hc'
          have hnumbers : c'.numbers = c.numbers.filter (· < u) := Chain.numbers_filter u [] c.floor
          have hasc : c'.numbers.Pairwise (· < ·) := by
            rw [hnumbers]
            exact h.ascending.filter _
          have htip : c'.tip = some (u - 1) := by
            refine Chain.tip_of_le hasc ?_ fun m hm => ?_
            · rw [hnumbers, List.mem_filter]
              exact ⟨hmem, decide_eq_true (by omega)⟩
            · rw [hnumbers, List.mem_filter] at hm
              have hlt := of_decide_eq_true hm.2
              omega
          have hblocks : c.blocks.filter (·.1 ≤ u - 1) = c'.blocks := by
            refine List.filter_congr fun b _ => ?_
            exact decide_eq_decide.mpr (by omega)
          refine ⟨⟨.blockPending u, ?_, ?_⟩, fun m => ?_, hasc, fun m hm => ?_, ?_⟩
          · rw [← Option.some.inj hms, hblocks, Chain.messages]
            simp only [hc', Chain.extend, List.append_nil]
          · rw [Chain.Fits, htip, Option.map_some]
            exact congrArg some (by omega)
          · rw [BTreeMap.get_filterMap, h.snapshots, hc', Chain.extend, Chain.through_filter]
            by_cases hlt : m < u
            · by_cases hf : c.floor ≤ m <;> simp [hlt, hf]
            · simp [hlt]
          · rw [hnumbers, List.mem_filter] at hm
            exact h.small m hm.1
          · rw [htip]
            exact hfloor
        · exact absurd hms (by simp)
      · exact absurd hs (by simp)
    · exact absurd hr Except.throw_ne_ok

/-- Logs complete a block, and its snapshot is taken. -/
theorem logs (h : Tracks apply init c M) {first last : Nat} {logs : List (EventLog Event)}
    {status status' : Status} (hf : c.Fits status) (ha : status.acceptsLogs first last = true)
    (hst : status.afterLogs last = .ok status') (hsmall : last < 2 ^ 63) :
    let state := Reactive.runState apply (Reactive.runState apply init c.messages)
      (logs.map .event)
    Tracks apply init (c.extend (.update (.logs first last logs)))
      ⟨some (state, status'), M.snapshots.insert last state⟩ := by
  intro state
  have habove : ∀ n ∈ c.numbers, n < last := by
    intro n hn
    cases htip : c.tip with
    | none =>
      rw [Chain.tip, List.getLast?_eq_none_iff] at htip
      rw [htip] at hn
      exact absurd hn (by simp)
    | some t => exact ((Chain.le_tip h.ascending htip).2 n hn).trans_lt (hf.above ha t htip)
  have hasc : (c.extend (.update (.logs first last logs))).numbers.Pairwise (· < ·) := by
    rw [Chain.extend, Chain.numbers_append, List.pairwise_append]
    refine ⟨h.ascending, List.pairwise_singleton _ _, fun a ha b hb => ?_⟩
    rw [List.mem_singleton.mp hb]
    exact habove a ha
  have htip : (c.extend (.update (.logs first last logs))).tip = some last :=
    Chain.tip_append _ _ _
  have hfloor : c.floor ≤ last := by
    have hle := h.floor
    cases htip' : c.tip with
    | none =>
      rw [htip', Option.getD_none] at hle
      omega
    | some t =>
      rw [htip', Option.getD_some] at hle
      exact hle.trans (hf.above ha t htip').le
  have hstate : state = Reactive.runState apply init
      ((c.extend (.update (.logs first last logs))).blocks.flatMap Prod.snd) := by
    simp only [state, Chain.extend, List.flatMap_append, List.flatMap_singleton, Chain.messages,
      Reactive.runState_append]
  refine ⟨⟨status', ?_, Chain.fits_afterLogs hst htip⟩, fun n => ?_, hasc, fun n hn => ?_, ?_⟩
  · rw [hstate, Chain.messages]
    simp only [Chain.extend, List.append_nil]
  · rw [BTreeMap.get_insert]
    by_cases hn : n = last
    · subst hn
      rw [if_pos rfl, Chain.through_tip hasc htip, Option.map_some, ← hstate]
      exact (if_pos hfloor).symm
    · rw [if_neg hn, h.snapshots, Chain.extend, Chain.through_append habove hn]
  · rw [Chain.extend, Chain.numbers_append, List.mem_append, List.mem_singleton] at hn
    rcases hn with hn | rfl
    · exact h.small n hn
    · exact hsmall
  · rw [htip]
    exact hfloor

/-- **An accepted update.** -/
theorem update (h : Tracks apply init c M) {u : Update Event}
    (ha : (M.handleUpdate apply u).2.toOption.isSome) :
    Tracks apply init (c.extend (.update u)) (M.handleUpdate apply u).1 := by
  obtain ⟨status, hin, hf⟩ := h.live
  simp only [StateMachine.handleUpdate, hin] at ha ⊢
  cases ht : tryUpdate apply M.snapshots (Reactive.runState apply init c.messages) status u with
  | error e =>
    rw [ht] at ha
    exact absurd ha (by simp [Except.toOption])
  | ok r =>
    cases u with
    | warp first last =>
      simp only [tryUpdate] at ht
      split at ht
      · rename_i hs
        simp only [Except.bind_eq_ok, Except.pure_eq_ok, blockRange] at ht
        obtain ⟨b, hb, rfl⟩ := ht
        split at hb
        · obtain rfl := Except.ok.inj hb
          refine ⟨⟨.warpEvents first last, rfl, fun t htip => ?_⟩, h.snapshots, h.ascending,
            h.small, h.floor⟩
          replace htip : c.tip = some t := htip
          rcases hs with rfl | rfl
          · rw [Chain.Fits, htip] at hf
            exact absurd hf (by simp)
          · rw [Chain.Fits, htip] at hf
            exact Option.some.inj hf
        · exact absurd hb (by simp)
      · exact absurd ht Except.throw_ne_ok
    | uncle n =>
      simp only [tryUpdate] at ht
      split at ht
      · simp only [Except.bind_eq_ok, Except.pure_eq_ok] at ht
        obtain ⟨q, hq, rfl⟩ := ht
        exact h.uncle hq
      · exact absurd ht Except.throw_ne_ok
    | new n =>
      simp only [tryUpdate] at ht
      split at ht
      · rename_i hs
        rw [Except.pure_eq_ok] at ht
        subst ht
        exact h.new hf hs
      · exact absurd ht Except.throw_ne_ok
    | logs first last logs =>
      simp only [tryUpdate, Bool.and_eq_true] at ht
      split at ht
      · rename_i hs
        simp only [Except.bind_eq_ok, Except.pure_eq_ok, SnapshotStore.commit, i64Block] at ht
        obtain ⟨status', hst, snapshots', ⟨b, hb, rfl⟩, rfl⟩ := ht
        split at hb
        · rename_i hsmall
          obtain rfl := Except.ok.inj hb
          exact h.logs hf hs.1 hst hsmall
        · exact absurd hb (by simp)
      · exact absurd ht Except.throw_ne_ok

/-- A prune drops the snapshots below the bound, but not the newest. -/
theorem prune (h : Tracks apply init c M) (safe : Nat) :
    Tracks apply init (c.extend (.prune safe)) (M.prune safe) := by
  simp only [StateMachine.prune, SnapshotStore.prune, i64Block]
  by_cases hsafe : safe < 2 ^ 63
  · simp only [hsafe, if_true, bind, Except.bind, pure, Except.pure]
    cases htip : c.tip with
    | none =>
      obtain ⟨hcur, hnil⟩ := h.current_none htip
      have hsame : (c.extend (.prune safe)) = c := by
        rw [Chain.extend, htip]
      rw [hsame]
      refine ⟨h.live, fun n => ?_, h.ascending, h.small, h.floor⟩
      rw [BTreeMap.get_filterMap, h.snapshots]
      simp [Chain.through, Chain.numbers, hnil]
    | some t =>
      have hstep : c.extend (.prune safe) = { c with floor := max c.floor (min safe t) } := by
        rw [Chain.extend, htip]
        exact if_pos hsafe
      have hle := h.floor
      rw [htip, Option.getD_some] at hle
      rw [hstep]
      refine ⟨h.live, fun n => ?_, h.ascending, h.small, ?_⟩
      · rw [BTreeMap.get_filterMap, h.snapshots, h.current htip]
        simp only [Option.any_some, decide_eq_true_eq, sup_le_iff, inf_le_iff]
        by_cases hf : c.floor ≤ n
        · by_cases hn : n < safe ∧ n < t
          · have hno : ¬ (safe ≤ n ∨ t ≤ n) := by omega
            simp [hf, hn, hno]
          · have hyes : safe ≤ n ∨ t ≤ n := by omega
            simp only [hf, hn, hyes, if_true, if_false, and_self,
              Option.bind_fun_some]
            rfl
        · simp [hf]
      · change max c.floor (min safe t) ≤ c.tip.getD 0
        rw [htip, Option.getD_some]
        exact max_le hle (min_le_right _ _)
  · simp only [hsafe, if_false, bind, Except.bind]
    have hsame : (c.extend (.prune safe)) = c := by
      rw [Chain.extend]
      cases c.tip with
      | none => rfl
      | some t => exact if_neg hsafe
    rw [hsame]
    exact h

/-- A restart goes back to the newest block. -/
theorem restart (h : Tracks apply init c M) :
    Tracks apply init (c.extend .restart) (.withInit init M.snapshots) := by
  refine ⟨?_, h.snapshots, h.ascending, h.small, h.floor⟩
  cases htip : c.tip with
  | none =>
    obtain ⟨hcur, hnil⟩ := h.current_none htip
    refine ⟨.initialized, ?_, htip⟩
    simp [StateMachine.withInit, hcur, Chain.extend, Chain.messages, hnil]
  | some t =>
    have hlt : t < u64Max := by
      have hsmall := h.small t (Chain.le_tip h.ascending htip).1
      exact hsmall.trans (by decide)
    refine ⟨.blockPending (t + 1), ?_, ?_⟩
    · simp [StateMachine.withInit, h.current htip, nextBlock, hlt, Except.toOption, Chain.extend,
        Chain.messages]
    · change c.tip.map (· + 1) = some (t + 1)
      rw [htip]
      rfl

/-- **One input keeps the machine on its chain.** -/
theorem step (h : Tracks apply init c M) (i : Input Event Resume)
    (ha : ∀ u, i = .update u → (M.handleUpdate apply u).2.toOption.isSome) :
    Tracks apply init (c.extend i) (M.input apply init i).1 := by
  cases i with
  | update u => exact h.update (ha u rfl)
  | resume r =>
    obtain ⟨status, hin, hf⟩ := h.live
    simp only [StateMachine.input, StateMachine.handleResume, hin]
    exact h.push (.resume r) hf
  | prune safe => exact h.prune safe
  | restart => exact h.restart

end Tracks

/-! ## 4. Reorg transparency -/

theorem Accepted.past {inputs rest : List (Input Event Resume)}
    (h : Accepted apply init (inputs ++ rest)) : Accepted apply init inputs := by
  rintro past u rest' rfl
  exact h past u (rest' ++ rest) (by simp)

/-- **The machine is a function of the chain**, after every accepted stream. -/
theorem tracks_chainOf (inputs : List (Input Event Resume)) (h : Accepted apply init inputs) :
    Tracks apply init (chainOf inputs) (machineAfter apply init inputs) := by
  induction inputs using List.reverseRecOn with
  | nil => exact tracks_empty
  | append_singleton inputs i ih =>
    rw [chainOf_concat, machineAfter_concat]
    refine (ih h.past).step i fun u hu => ?_
    subst hu
    exact h inputs u [] rfl

theorem resumesIn_append (ms ms' : List (Message Event Resume)) :
    resumesIn (ms ++ ms') = resumesIn ms ++ resumesIn ms' :=
  List.filterMap_append

/-- Blocks without a resume can be left out. -/
theorem resumesIn_filter (blocks : List (Nat × List (Message Event Resume))) (n : Nat)
    (h : resumesIn ((blocks.filter (n ≤ ·.1)).flatMap Prod.snd) = []) :
    resumesIn ((blocks.filter (·.1 < n)).flatMap Prod.snd) = resumesIn (blocks.flatMap Prod.snd) := by
  induction blocks with
  | nil => rfl
  | cons b blocks ih =>
    by_cases hb : b.1 < n
    · rw [List.filter_cons_of_neg (by simpa using hb)] at h
      rw [List.filter_cons_of_pos (by simpa using hb), List.flatMap_cons, List.flatMap_cons,
        resumesIn_append, resumesIn_append, ih h]
    · rw [List.filter_cons_of_pos (by simpa using hb), List.flatMap_cons, resumesIn_append,
        List.append_eq_nil_iff] at h
      rw [List.filter_cons_of_neg (by simpa using hb), List.flatMap_cons, resumesIn_append, h.1,
        List.nil_append, ih h.2]

theorem ResumesKept.past {inputs rest : List (Input Event Resume)}
    (h : ResumesKept (inputs ++ rest)) : ResumesKept inputs :=
  ⟨fun before n after heq => h.uncle before n (after ++ rest) (by simp [heq]),
    fun before after heq => h.restart before (after ++ rest) (by simp [heq])⟩

/-- A stream that takes no resume back keeps all of them, in order. -/
theorem resumes_kept (inputs : List (Input Event Resume)) (h : ResumesKept inputs) :
    resumesIn (chainOf inputs).messages = delivered inputs := by
  induction inputs using List.reverseRecOn with
  | nil => rfl
  | append_singleton inputs i ih =>
    have hsplit : delivered (inputs ++ [i]) = delivered inputs ++ delivered [i] :=
      List.filterMap_append
    rw [chainOf_concat, hsplit, ← ih h.past]
    cases i with
    | update u =>
      cases u with
      | warp first last => exact (List.append_nil _).symm
      | uncle n =>
        have hgone := h.uncle inputs n [] rfl
        rw [Chain.rolledBack, resumesIn_append, List.append_eq_nil_iff] at hgone
        rw [Chain.messages, Chain.messages, resumesIn_append, resumesIn_append, hgone.2]
        have hblocks := resumesIn_filter (chainOf inputs).blocks n hgone.1
        simpa [Chain.extend, resumesIn, delivered] using hblocks
      | new n => simp [Chain.extend, Chain.messages, resumesIn, delivered]
      | logs first last logs =>
        have hevents : resumesIn (logs.map .event : List (Message Event Resume)) = [] := by
          simp [resumesIn]
        simp [Chain.extend, Chain.messages, resumesIn_append, delivered, hevents]
    | resume r => simp [Chain.extend, Chain.messages, resumesIn, delivered]
    | prune safe =>
      have hsame : ((chainOf inputs).extend (.prune safe)).messages = (chainOf inputs).messages := by
        rw [Chain.extend]
        cases (chainOf inputs).tip with
        | none => rfl
        | some t =>
          dsimp only
          split <;> rfl
      rw [hsame]
      exact (List.append_nil _).symm
    | restart =>
      have hgone := h.restart inputs [] rfl
      simp [Chain.extend, Chain.messages, resumesIn_append, delivered, hgone]

/-- **Reorg transparency.**  After any accepted stream that rolls no resume back, the live state
is the fold of the transition over the canonical blocks and logs, with every resume where it was
delivered; the snapshots are the folds up to the canonical blocks, from the last pruned one on. -/
theorem reorg_transparent (apply : TransitionFn S Event Resume Action Effect) (init : S)
    (inputs : List (Input Event Resume)) (h : Accepted apply init inputs)
    (hres : ResumesKept inputs) :
    let c := chainOf inputs
    (∃ status, (machineAfter apply init inputs).inner =
      some (Reactive.runState apply init c.messages, status)) ∧
    resumesIn c.messages = delivered inputs ∧ c.numbers.Pairwise (· < ·) ∧
    ∀ n : Nat, (machineAfter apply init inputs).snapshots[n]? =
      if c.floor ≤ n then (c.through n).map (Reactive.runState apply init) else none := by
  intro c
  have ht := tracks_chainOf inputs h
  obtain ⟨status, hlive, -⟩ := ht.live
  exact ⟨⟨status, hlive⟩, resumes_kept inputs hres, ht.ascending, ht.snapshots⟩

/-- A stream is accepted when each of its updates is, checked one by one. -/
theorem accepted_of_take {inputs : List (Input Event Resume)}
    (h : ∀ i : Fin inputs.length, (match inputs.get i with
      | .update u => ((machineAfter apply init (inputs.take i)).handleUpdate apply u).2.toOption.isSome
      | _ => true) = true) : Accepted apply init inputs := by
  rintro past u rest rfl
  have hi : past.length < (past ++ .update u :: rest).length := by simp
  simpa using h ⟨past.length, hi⟩

theorem resumesKept_of_take {inputs : List (Input Event Resume)}
    (h : ∀ i : Fin inputs.length, (match inputs.get i with
      | .update (.uncle n) => (resumesIn ((chainOf (inputs.take i)).rolledBack n)).isEmpty
      | .restart => (resumesIn (chainOf (inputs.take i)).pending).isEmpty
      | _ => true) = true) : ResumesKept inputs := by
  constructor
  · rintro past n rest rfl
    have hi : past.length < (past ++ .update (.uncle n) :: rest).length := by simp
    simpa using h ⟨past.length, hi⟩
  · rintro past rest rfl
    have hi : past.length < (past ++ .restart :: rest).length := by simp
    simpa using h ⟨past.length, hi⟩

/-- A service that counts blocks, and adds up what it is resumed with. -/
def countBlocks : TransitionFn (Nat × Nat) Unit Nat Unit Unit
  | (blocks, total), .newBlock _ => ((blocks + 1, total), [])
  | s, .event _ => (s, [])
  | (blocks, total), .resume r => ((blocks, total + r), [])

/-- Block 8 is replaced twice, once before its logs and once after. -/
def reorgs : List (Input Unit Nat) :=
  [.update (.warp 1 6), .update (.logs 1 6 []), .update (.new 7), .resume 5, .update (.logs 7 7 []),
    .update (.new 8), .update (.uncle 8), .update (.new 8), .update (.logs 8 8 []), .prune 7,
    .update (.uncle 8), .update (.new 8), .resume 2, .update (.logs 8 8 [])]

/-- Two blocks are counted. -/
theorem reorg_transparent_twice :
    (machineAfter countBlocks (0, 0) reorgs).inner.map Prod.fst = some (2, 7) ∧
      (machineAfter countBlocks (0, 0) reorgs).snapshots[6]? = none ∧
      (machineAfter countBlocks (0, 0) reorgs).snapshots[7]? = some (1, 5) := by
  obtain ⟨⟨status, hlive⟩, -, -, hsnap⟩ := reorg_transparent countBlocks (0, 0) reorgs
    (accepted_of_take (by decide +kernel)) (resumesKept_of_take (by decide +kernel))
  refine ⟨?_, ?_, ?_⟩
  · rw [hlive]
    rfl
  · exact (hsnap 6).trans (by decide)
  · exact (hsnap 7).trans (by decide)

end Safenet
