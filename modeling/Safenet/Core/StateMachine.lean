/-
# The reorg-aware state machine

`safenet_core::state`: the generic service state machine and its snapshot store.  A service is
a pure transition `S → Message → S × Commands`; the machine feeds it the indexer's updates,
commits a snapshot per processed log range, restores one on an uncle, and reloads the newest
one when the process starts.  Resumes change the LIVE state only, and are persisted with the
next committed log range.

Section 4 is what the rest of the development uses.  A property of states that the transition
keeps holds of the live state and of every snapshot, through every reorg, restart and prune
(`input_allStates`), and whatever the machine emits was emitted by one transition from a state
with that property (`input_emits`).  To reason about the CANONICAL history, the transition is
run on states paired with the messages that led to them (`recording`): a rollback then rolls
the history back with the state.
-/
import Safenet.Basic
import Safenet.Lib.Run

namespace Safenet

/-! ## 1. Messages and commands -/

/-- A log with its position in the chain and the contract that emitted it. -/
structure EventLog (Event : Type) where
  block : Nat
  index : Nat
  address : Address
  data : Event

/-- A state transition message. -/
inductive Message (Event Resume : Type) where
  | newBlock (block : Nat)
  | event (log : EventLog Event)
  | resume (result : Resume)

/-- A state transition command. -/
inductive Command (Action Effect : Type) where
  | action (action : Action)
  | effect (effect : Effect)

/-- An indexer update. -/
inductive Update (Event : Type) where
  | warp (first last : Nat)
  | uncle (number : Nat)
  | new (number : Nat)
  | logs (first last : Nat) (logs : List (EventLog Event))

/-- The errors of the state machine and its storage. -/
inductive StateError where
  | missingSnapshot (block : Nat)
  | blockNumberOverflow
  | endOfChain
  | badUpdate
  | poisoned
  deriving DecidableEq

/-! ## 2. The snapshot store -/

/-- Block numbers are stored as `i64`. -/
def i64Block (block : Nat) : Except StateError Nat :=
  if block < 2 ^ 63 then .ok block else .error .blockNumberOverflow

/-- `checked_add(1)`. -/
def nextBlock (number : Nat) : Except StateError Nat :=
  if number < u64Max then .ok (number + 1) else .error .endOfChain

/-- The snapshots by block number. -/
abbrev SnapshotStore (S : Type) : Type := BTreeMap Nat S

namespace SnapshotStore

variable {S : Type}

/-- The tip snapshot and its block number. -/
def current (store : SnapshotStore S) : Option (Nat × S) := store.toList.getLast?

/-- Record the snapshot of a block, replacing any existing one. -/
def commit (store : SnapshotStore S) (blockNumber : Nat) (state : S) :
    Except StateError (SnapshotStore S) := do
  let blockNumber ← i64Block blockNumber
  return store.insert blockNumber state

/-- Discard `uncle` and every snapshot above it, and restore its parent's. -/
def reorg (store : SnapshotStore S) (uncle : Nat) : Except StateError (SnapshotStore S × S) :=
  if uncle = 0 then throw .blockNumberOverflow
  else do
    let parent := uncle - 1
    let uncle ← i64Block uncle
    let kept : SnapshotStore S := store.filterMap fun n s => if n < uncle then some s else none
    match kept[parent]? with
    | some state => return (kept, state)
    | none => throw (.missingSnapshot parent)

/-- Remove the snapshots below `safeBlock`, never the tip. -/
def prune (store : SnapshotStore S) (safeBlock : Nat) : Except StateError (SnapshotStore S) := do
  let safeBlock ← i64Block safeBlock
  return store.filterMap fun n s =>
    if n < safeBlock ∧ store.current.any (n < ·.1) then none else some s

/-- Every snapshot a reorg keeps was there before, and the restored state is one of them. -/
theorem reorg_sub {store : SnapshotStore S} {uncle : Nat} {r : SnapshotStore S × S}
    (h : reorg store uncle = .ok r) :
    (∀ (n : Nat) (s : S), r.1[n]? = some s → store[n]? = some s) ∧
      ∃ n : Nat, store[n]? = some r.2 := by
  have hkept : ∀ (u n : Nat) (s : S),
      (store.filterMap fun n s => if n < u then some s else none)[n]? = some s →
        store[n]? = some s := by
    intro u n s hn
    rw [BTreeMap.get_filterMap] at hn
    obtain ⟨s', hs', hite⟩ := Option.bind_eq_some_iff.mp hn
    split at hite
    · rw [hs', hite]
    · exact absurd hite (by simp)
  unfold reorg at h
  split at h
  · exact absurd h Except.throw_ne_ok
  · simp only [Except.bind_eq_ok] at h
    obtain ⟨u, -, h⟩ := h
    split at h
    · rename_i state hp
      rw [Except.pure_eq_ok] at h
      subst h
      exact ⟨hkept u, _, hkept u _ _ hp⟩
    · exact absurd h Except.throw_ne_ok

end SnapshotStore

/-! ## 3. The machine -/

/-- Where the machine stands in the stream of updates. -/
inductive Status where
  | initialized
  | blockPending (pending : Nat)
  | blockEvents (latest : Nat)
  | warpEvents (first last : Nat)
  deriving DecidableEq

/-- The live state, or `none` when a previous transition failed, and the snapshots. -/
structure StateMachine (S : Type) where
  inner : Option (S × Status)
  snapshots : SnapshotStore S

section Machine

variable {S Event Resume Action Effect : Type}

/-- The pure transition of a service. -/
abbrev TransitionFn (S Event Resume Action Effect : Type) : Type :=
  S → Message Event Resume → S × List (Command Action Effect)

variable (apply : TransitionFn S Event Resume Action Effect)

/-- `block_range`. -/
def blockRange (first last : Nat) : Except StateError (Nat × Nat) :=
  if first ≤ last then .ok (first, last) else .error .badUpdate

/-- Whether `sub` starts where the range starts and stays inside it. -/
def isNextInRange (range sub : Nat × Nat) : Bool :=
  range.1 = sub.1 && range.1 ≤ sub.2 && sub.2 ≤ range.2

/-- Whether the logs are strictly sorted and inside the update's range. -/
def logsInOrder (first last : Nat) (logs : List (EventLog Event)) : Bool :=
  logs.Pairwise (fun a b => a.block < b.block ∨ a.block = b.block ∧ a.index < b.index) &&
    logs.all fun log => first ≤ log.block && log.block ≤ last

/-- Whether an uncle at `number` is expected. -/
def Status.acceptsUncle (number : Nat) : Status → Bool
  | .blockPending pending => number < pending
  | .blockEvents latest => number ≤ latest
  | _ => false

/-- Whether logs for the given blocks are expected. -/
def Status.acceptsLogs (first last : Nat) : Status → Bool
  | .blockEvents latest => isNextInRange (latest, latest) (first, last)
  | .warpEvents rangeFirst rangeLast => isNextInRange (rangeFirst, rangeLast) (first, last)
  | _ => false

/-- The status once the logs up to `last` are processed: the rest of a warped range, or the
next block. -/
def Status.afterLogs (last : Nat) (status : Status) : Except StateError Status := do
  let pending ← nextBlock last
  match status with
  | .warpEvents _ rangeLast =>
    if last < rangeLast then do
      let (first, last) ← blockRange pending rangeLast
      return .warpEvents first last
    else return .blockPending pending
  | _ => return .blockPending pending

/-- Apply the logs in order, collecting the commands. -/
def applyLogs (state : S) (logs : List (EventLog Event)) : S × List (Command Action Effect) :=
  (Reactive.runState apply state (logs.map .event), Reactive.runOutputs apply state (logs.map .event))

/-- One update at a live state: the new state and status, the new snapshots, the commands. -/
def tryUpdate (snapshots : SnapshotStore S) (state : S) (status : Status) :
    Update Event → Except StateError (S × Status × SnapshotStore S × List (Command Action Effect))
  | .warp first last =>
    if status = .initialized ∨ status = .blockPending first then do
      let (first, last) ← blockRange first last
      return (state, .warpEvents first last, snapshots, [])
    else throw .badUpdate
  | .uncle number =>
    if status.acceptsUncle number then do
      let (snapshots, state) ← SnapshotStore.reorg snapshots number
      return (state, .blockPending number, snapshots, [])
    else throw .badUpdate
  | .new number =>
    if status = .initialized ∨ status = .blockPending number then
      let (state, commands) := apply state (.newBlock number)
      return (state, .blockEvents number, snapshots, commands)
    else throw .badUpdate
  | .logs first last logs =>
    if status.acceptsLogs first last && logsInOrder first last logs then do
      let (state, commands) := applyLogs apply state logs
      let status ← status.afterLogs last
      let snapshots ← SnapshotStore.commit snapshots last state
      return (state, status, snapshots, commands)
    else throw .badUpdate

namespace StateMachine

/-- Create the machine from the newest snapshot, or from `init` when there is none. -/
def withInit (init : S) (snapshots : SnapshotStore S) : StateMachine S :=
  { inner := match snapshots.current with
      | some (latest, state) => (nextBlock latest).toOption.map fun pending =>
          (state, .blockPending pending)
      | none => some (init, .initialized)
    snapshots }

/-- Handle an indexer update.  An error leaves the machine poisoned. -/
def handleUpdate (M : StateMachine S) (update : Update Event) :
    StateMachine S × Except StateError (List (Command Action Effect)) :=
  match M.inner with
  | none => (M, .error .poisoned)
  | some (state, status) =>
    match tryUpdate apply M.snapshots state status update with
    | .ok (state, status, snapshots, commands) => (⟨some (state, status), snapshots⟩, .ok commands)
    | .error e => ({ M with inner := none }, .error e)

/-- Handle an effect resume, without committing a snapshot. -/
def handleResume (M : StateMachine S) (resume : Resume) :
    StateMachine S × Except StateError (List (Command Action Effect)) :=
  match M.inner with
  | none => (M, .error .poisoned)
  | some (state, status) =>
    let (state, commands) := apply state (.resume resume)
    ({ M with inner := some (state, status) }, .ok commands)

/-- Prune the snapshots older than `safe`. -/
def prune (M : StateMachine S) (safe : Nat) : StateMachine S :=
  match M.snapshots.prune safe with
  | .ok snapshots => { M with snapshots }
  | .error _ => M

end StateMachine

/-! ## 4. Runs of the machine -/

/-- What can happen to a machine: an update, a resume, a prune, or the process starting over. -/
inductive Input (Event Resume : Type) where
  | update (update : Update Event)
  | resume (resume : Resume)
  | prune (safe : Nat)
  | restart

/-- One input, with the commands it makes the machine emit. -/
def StateMachine.input (init : S) (M : StateMachine S) :
    Input Event Resume → StateMachine S × List (Command Action Effect)
  | .update u => ((M.handleUpdate apply u).1, (M.handleUpdate apply u).2.toOption.getD [])
  | .resume r => ((M.handleResume apply r).1, (M.handleResume apply r).2.toOption.getD [])
  | .prune safe => (M.prune safe, [])
  | .restart => (.withInit init M.snapshots, [])

/-- The live state and every snapshot satisfy `P`. -/
structure StateMachine.AllStates (P : S → Prop) (M : StateMachine S) : Prop where
  live : ∀ state status, M.inner = some (state, status) → P state
  snapshot : ∀ (n : Nat) (state : S), M.snapshots[n]? = some state → P state

theorem StateMachine.AllStates.imp {P Q : S → Prop} {M : StateMachine S} (h : M.AllStates P)
    (hpq : ∀ s, P s → Q s) : M.AllStates Q :=
  ⟨fun s status hs => hpq s (h.live s status hs), fun n s hs => hpq s (h.snapshot n s hs)⟩

/-- A fresh machine satisfies whatever its initial state and its snapshots do. -/
theorem allStates_withInit {P : S → Prop} {init : S} {snapshots : SnapshotStore S} (h0 : P init)
    (hs : ∀ (n : Nat) (state : S), snapshots[n]? = some state → P state) :
    (StateMachine.withInit init snapshots).AllStates P where
  live := by
    intro state status h
    simp only [StateMachine.withInit] at h
    split at h
    · rename_i latest state' hc
      obtain ⟨pending, -, hp⟩ := Option.map_eq_some_iff.mp h
      simp only [Prod.mk.injEq] at hp
      obtain ⟨rfl, -⟩ := hp
      exact hs latest state'
        ((BTreeMap.mem_toList_iff _ _ _).mp (List.mem_of_getLast? hc))
    · simp only [Option.some.injEq, Prod.mk.injEq] at h
      exact h.1 ▸ h0
  snapshot := hs

/-- What one accepted update can do: keep the state, restore a snapshot, or run messages none
of which is a resume; and every snapshot it leaves was there or is the new state. -/
theorem tryUpdate_cases {snapshots : SnapshotStore S} {state : S} {status : Status}
    {update : Update Event} {r : S × Status × SnapshotStore S × List (Command Action Effect)}
    (h : tryUpdate apply snapshots state status update = .ok r) :
    (∀ (n : Nat) (s : S), r.2.2.1[n]? = some s → snapshots[n]? = some s ∨ s = r.1) ∧
      ((r.2.2.2 = [] ∧ (r.1 = state ∨ ∃ n : Nat, snapshots[n]? = some r.1)) ∨
        ∃ ms, (∀ m ∈ ms, ∀ x, m ≠ Message.resume x) ∧ r.1 = Reactive.runState apply state ms ∧
          r.2.2.2 = Reactive.runOutputs apply state ms) := by
  cases update with
  | warp first last =>
    simp only [tryUpdate] at h
    split at h
    · simp only [Except.bind_eq_ok, Except.pure_eq_ok] at h
      obtain ⟨b, -, rfl⟩ := h
      exact ⟨fun n s hn => .inl hn, .inl ⟨rfl, .inl rfl⟩⟩
    · exact absurd h Except.throw_ne_ok
  | uncle number =>
    simp only [tryUpdate] at h
    split at h
    · simp only [Except.bind_eq_ok, Except.pure_eq_ok] at h
      obtain ⟨q, hr, rfl⟩ := h
      obtain ⟨hsub, hpar⟩ := SnapshotStore.reorg_sub hr
      exact ⟨fun n s hn => .inl (hsub n s hn), .inl ⟨rfl, .inr hpar⟩⟩
    · exact absurd h Except.throw_ne_ok
  | new number =>
    simp only [tryUpdate] at h
    split at h
    · rw [Except.pure_eq_ok] at h
      subst h
      refine ⟨fun n s hn => .inl hn, .inr ⟨[.newBlock number], ?_, rfl, ?_⟩⟩
      · simp
      · simp [Reactive.runOutputs]
    · exact absurd h Except.throw_ne_ok
  | logs first last logs =>
    simp only [tryUpdate] at h
    split at h
    · simp only [Except.bind_eq_ok, Except.pure_eq_ok, SnapshotStore.commit] at h
      obtain ⟨status', -, snapshots', ⟨b, -, rfl⟩, rfl⟩ := h
      refine ⟨?_, .inr ⟨logs.map .event, by simp, rfl, rfl⟩⟩
      intro n s hn
      rw [BTreeMap.get_insert] at hn
      split at hn
      · exact .inr (Option.some.inj hn).symm
      · exact .inl hn
    · exact absurd h Except.throw_ne_ok

variable {apply}

/-- A list of messages none of which is a resume keeps what each of them keeps. -/
theorem runState_of_not_resume {P : S → Prop} {i : Input Event Resume} {state : S} (h : P state)
    (hs : ∀ (s : S) (m : Message Event Resume), (∀ x, m = .resume x → i = .resume x) → P s →
      P (apply s m).1) {ms : List (Message Event Resume)} (hms : ∀ m ∈ ms, ∀ x, m ≠ .resume x) :
    P (Reactive.runState apply state ms) := by
  refine Reactive.runState_induction_of apply (fun _ => P) (fun _ m => ∀ x, m ≠ .resume x) h
    (fun _ t m ht hm => hs t m (fun x hx => absurd hx (hm x)) ht) ms ?_
  rintro past m rest rfl
  exact hms m (by simp)

/-- One input keeps what the messages it can lead to keep: a resume only if it is that resume. -/
theorem input_allStates_of {P : S → Prop} {init : S} (h0 : P init) {i : Input Event Resume}
    (hs : ∀ (s : S) (m : Message Event Resume), (∀ x, m = .resume x → i = .resume x) → P s →
      P (apply s m).1) {M : StateMachine S} (h : M.AllStates P) :
    (M.input apply init i).1.AllStates P := by
  cases i with
  | update u =>
    simp only [StateMachine.input, StateMachine.handleUpdate]
    split
    · exact h
    · rename_i state status hin
      split
      · rename_i state' status' snapshots' commands ht
        obtain ⟨hsnap, hstate⟩ := tryUpdate_cases apply ht
        have hlive : P state' := by
          rcases hstate with ⟨-, rfl | ⟨n, hn⟩⟩ | ⟨ms, hms, rfl, -⟩
          · exact h.live _ _ hin
          · exact h.snapshot n _ hn
          · exact runState_of_not_resume (h.live _ _ hin) hs hms
        refine ⟨?_, ?_⟩
        · rintro _ _ ⟨⟩
          exact hlive
        · intro n s hn
          rcases hsnap n s hn with hn | rfl
          · exact h.snapshot n s hn
          · exact hlive
      · exact ⟨fun _ _ hf => absurd hf (by simp), h.snapshot⟩
  | resume r =>
    simp only [StateMachine.input, StateMachine.handleResume]
    split
    · exact h
    · rename_i state status hin
      refine ⟨?_, h.snapshot⟩
      rintro _ _ ⟨⟩
      refine hs _ _ (fun x hx => ?_) (h.live _ _ hin)
      rw [Message.resume.inj hx]
  | prune safe =>
    simp only [StateMachine.input, StateMachine.prune]
    split
    · rename_i snapshots' hp
      refine ⟨h.live, ?_⟩
      intro n s hn
      simp only [SnapshotStore.prune, Except.bind_eq_ok, Except.pure_eq_ok] at hp
      obtain ⟨b, -, rfl⟩ := hp
      rw [BTreeMap.get_filterMap] at hn
      obtain ⟨s', hs', hite⟩ := Option.bind_eq_some_iff.mp hn
      split at hite
      · exact absurd hite (by simp)
      · exact h.snapshot n s (by rw [hs', hite])
    · exact h
  | restart => exact allStates_withInit h0 h.snapshot

/-- **One input keeps a transition invariant, live and in every snapshot.** -/
theorem input_allStates {P : S → Prop} {init : S} (h0 : P init)
    (hs : ∀ (s : S) (m : Message Event Resume), P s → P (apply s m).1) {M : StateMachine S}
    (h : M.AllStates P) (i : Input Event Resume) : (M.input apply init i).1.AllStates P :=
  input_allStates_of h0 (fun s m _ => hs s m) h

/-- What an input emits, one transition emitted from a state with the invariant; and the message was
a resume only if the input was that resume. -/
theorem input_emits_of {P : S → Prop} {init : S} {i : Input Event Resume}
    (hs : ∀ (s : S) (m : Message Event Resume), (∀ x, m = .resume x → i = .resume x) → P s →
      P (apply s m).1) {M : StateMachine S} (h : M.AllStates P) {c : Command Action Effect}
    (hc : c ∈ (M.input apply init i).2) :
    ∃ s m, P s ∧ c ∈ (apply s m).2 ∧ ∀ x, m = .resume x → i = .resume x := by
  cases i with
  | update u =>
    simp only [StateMachine.input, StateMachine.handleUpdate] at hc
    split at hc
    · exact absurd hc (by simp [Except.toOption])
    · rename_i state status hin
      split at hc
      · rename_i state' status' snapshots' commands ht
        rcases (tryUpdate_cases apply ht).2 with ⟨rfl, -⟩ | ⟨ms, hms, -, rfl⟩
        · exact absurd hc (by simp [Except.toOption])
        · obtain ⟨past, m, rest, rfl, hm⟩ := Reactive.mem_runOutputs apply hc
          refine ⟨_, m, ?_, hm, fun x hx => absurd hx (hms m (by simp) x)⟩
          exact runState_of_not_resume (h.live _ _ hin) hs fun m' hm' =>
            hms m' (List.mem_append_left _ hm')
      · exact absurd hc (by simp [Except.toOption])
  | resume r =>
    simp only [StateMachine.input, StateMachine.handleResume] at hc
    split at hc
    · exact absurd hc (by simp [Except.toOption])
    · rename_i state status hin
      exact ⟨state, .resume r, h.live _ _ hin, hc, fun x hx => by
        simp only [Message.resume.injEq] at hx; rw [hx]⟩
  | prune safe => exact absurd hc (by simp [StateMachine.input])
  | restart => exact absurd hc (by simp [StateMachine.input])

/-- **Whatever an input emits, one transition emitted** from a state with the invariant; and the
message was a resume only if the input was that resume. -/
theorem input_emits {P : S → Prop} {init : S}
    (hs : ∀ (s : S) (m : Message Event Resume), P s → P (apply s m).1) {M : StateMachine S}
    (h : M.AllStates P) {i : Input Event Resume} {c : Command Action Effect}
    (hc : c ∈ (M.input apply init i).2) :
    ∃ s m, P s ∧ c ∈ (apply s m).2 ∧ ∀ x, m = .resume x → i = .resume x :=
  input_emits_of (fun s m _ => hs s m) h hc

/-! ## 5. Recording the canonical history -/

variable (apply)

/-- The transition on states paired with the messages that led to them.  A reorg restores the
pair, so the second component is always the history the live state was computed from. -/
def recording : TransitionFn (S × List (Message Event Resume)) Event Resume Action Effect :=
  fun s m => (((apply s.1 m).1, s.2 ++ [m]), (apply s.1 m).2)

/-- Forget the histories of the snapshots. -/
def SnapshotStore.erase {H : Type} (store : SnapshotStore (S × H)) : SnapshotStore S :=
  store.map fun _ s => s.1

/-- Forget the histories. -/
def StateMachine.erase {H : Type} (M : StateMachine (S × H)) : StateMachine S :=
  { inner := M.inner.map fun p => (p.1.1, p.2), snapshots := M.snapshots.erase }

theorem get_erase_snapshots {H : Type} (store : SnapshotStore (S × H)) (n : Nat) :
    store.erase[n]? = store[n]?.map Prod.fst :=
  Std.ExtTreeMap.getElem?_map

theorem current_erase {H : Type} (store : SnapshotStore (S × H)) :
    store.erase.current = store.current.map fun e => (e.1, e.2.1) := by
  rw [SnapshotStore.current, SnapshotStore.erase, Std.ExtTreeMap.toList_map, List.getLast?_map]
  rfl

theorem runState_recording (s : S × List (Message Event Resume)) (ms : List (Message Event Resume)) :
    Reactive.runState (recording apply) s ms = (Reactive.runState apply s.1 ms, s.2 ++ ms) := by
  induction ms generalizing s with
  | nil => simp
  | cons m ms ih => simp [ih, recording]

theorem runOutputs_recording (s : S × List (Message Event Resume))
    (ms : List (Message Event Resume)) :
    Reactive.runOutputs (recording apply) s ms = Reactive.runOutputs apply s.1 ms := by
  induction ms generalizing s with
  | nil => rfl
  | cons m ms ih => simp [Reactive.runOutputs, ih, recording]

theorem filterMap_erase {H : Type} (store : SnapshotStore (S × H)) (p : Nat → Bool) :
    (store.erase.filterMap fun n s => if p n then some s else none) =
      SnapshotStore.erase (store.filterMap fun n s => if p n then some s else none) := by
  refine Std.ExtTreeMap.ext_getElem? fun n => ?_
  rw [BTreeMap.get_filterMap, get_erase_snapshots, get_erase_snapshots, BTreeMap.get_filterMap]
  cases store[n]? <;> cases p n <;> simp

theorem reorg_erase {H : Type} (store : SnapshotStore (S × H)) (uncle : Nat) :
    store.erase.reorg uncle = (store.reorg uncle).map fun r => (r.1.erase, r.2.1) := by
  unfold SnapshotStore.reorg
  split
  · rfl
  · cases i64Block uncle with
    | error e => rfl
    | ok u =>
      have hk := filterMap_erase store (fun n => decide (n < u))
      simp only [decide_eq_true_eq] at hk
      simp only [bind, Except.bind, hk, get_erase_snapshots]
      cases (store.filterMap fun n s => if n < u then some s else none)[uncle - 1]? <;> rfl

theorem tryUpdate_erase (snapshots : SnapshotStore (S × List (Message Event Resume)))
    (state : S × List (Message Event Resume)) (status : Status) (update : Update Event) :
    tryUpdate apply snapshots.erase state.1 status update =
      (tryUpdate (recording apply) snapshots state status update).map
        fun r => (r.1.1, r.2.1, r.2.2.1.erase, r.2.2.2) := by
  cases update with
  | warp first last =>
    simp only [tryUpdate]
    split
    · cases blockRange first last <;> rfl
    · rfl
  | uncle number =>
    simp only [tryUpdate]
    split
    · rw [reorg_erase]
      cases snapshots.reorg number <;> rfl
    · rfl
  | new number =>
    simp only [tryUpdate]
    split <;> rfl
  | logs first last logs =>
    simp only [tryUpdate, applyLogs, runState_recording, runOutputs_recording]
    split
    · cases status.afterLogs last with
      | error e => rfl
      | ok status' =>
        simp only [SnapshotStore.commit, bind, Except.bind]
        cases i64Block last with
        | error e => rfl
        | ok b =>
          simp only [Except.map, pure, Except.pure, Except.ok.injEq, Prod.mk.injEq, true_and,
            and_true]
          refine Std.ExtTreeMap.ext_getElem? fun n => ?_
          rw [get_erase_snapshots, BTreeMap.get_insert, BTreeMap.get_insert, get_erase_snapshots]
          split <;> rfl
    · rfl

/-- **Recording changes nothing.**  Forgetting the histories of the recording machine gives the
machine itself, input by input, with the same commands. -/
theorem input_erase (init : S) (M : StateMachine (S × List (Message Event Resume)))
    (i : Input Event Resume) :
    M.erase.input apply init i =
      ((M.input (recording apply) (init, []) i).1.erase,
        (M.input (recording apply) (init, []) i).2) := by
  obtain ⟨inner, snapshots⟩ := M
  cases i with
  | update u =>
    rcases inner with _ | ⟨state, status⟩
    · rfl
    · simp only [StateMachine.input, StateMachine.handleUpdate, StateMachine.erase, Option.map_some,
        tryUpdate_erase]
      cases tryUpdate (recording apply) snapshots state status u <;> rfl
  | resume r => rcases inner with _ | ⟨state, status⟩ <;> rfl
  | prune safe =>
    simp only [StateMachine.input, StateMachine.prune, StateMachine.erase, SnapshotStore.prune]
    cases i64Block safe with
    | error e => rfl
    | ok b =>
      have hmax : ∀ n, (snapshots.erase.current.any fun x => decide (n < x.1)) =
          snapshots.current.any fun x => decide (n < x.1) := by
        intro n
        rw [current_erase]
        cases snapshots.current <;> rfl
      simp only [bind, Except.bind, pure, Except.pure, hmax, Prod.mk.injEq, and_true]
      congr 1
      refine Std.ExtTreeMap.ext_getElem? fun n => ?_
      rw [BTreeMap.get_filterMap, get_erase_snapshots, get_erase_snapshots, BTreeMap.get_filterMap]
      cases snapshots[n]? with
      | none => rfl
      | some s =>
        simp only [Option.map_some, Option.bind_some]
        split <;> rfl
  | restart =>
    simp only [StateMachine.input, StateMachine.withInit, StateMachine.erase, current_erase,
      Prod.mk.injEq, and_true]
    rcases snapshots.current with _ | ⟨n, s⟩
    · rfl
    · simp only [Option.map_some, Option.map_map]
      rfl

/-! ## 6. Runs of the recording machine -/

/-- The machine after a list of inputs, from an empty snapshot store. -/
def machineAfter (init : S) (inputs : List (Input Event Resume)) : StateMachine S :=
  Reactive.runState (fun M i => StateMachine.input apply init M i) (.withInit init ∅) inputs

/-- The recording machine after a list of inputs. -/
def recorded (init : S) (inputs : List (Input Event Resume)) :
    StateMachine (S × List (Message Event Resume)) :=
  machineAfter (recording apply) (init, []) inputs

theorem machineAfter_concat (init : S) (inputs : List (Input Event Resume))
    (i : Input Event Resume) :
    machineAfter apply init (inputs ++ [i]) =
      ((machineAfter apply init inputs).input apply init i).1 := by
  rw [machineAfter, Reactive.runState_append]
  rfl

/-- **A transition invariant holds in every state of the machine**, live and in every snapshot,
after any inputs. -/
theorem machineAfter_allStates {P : S → Prop} {init : S} (h0 : P init)
    (hs : ∀ (s : S) (m : Message Event Resume), P s → P (apply s m).1)
    (inputs : List (Input Event Resume)) : (machineAfter apply init inputs).AllStates P := by
  induction inputs using List.reverseRecOn with
  | nil =>
    have hnone : ∀ (n : Nat) (state : S), (∅ : SnapshotStore S)[n]? = some state → P state := by
      intro n state h
      exact absurd h (by simp)
    exact allStates_withInit h0 hnone
  | append_singleton inputs i ih =>
    rw [machineAfter_concat]
    exact input_allStates h0 hs ih i

theorem recorded_erase (init : S) (inputs : List (Input Event Resume)) :
    (recorded apply init inputs).erase = machineAfter apply init inputs := by
  induction inputs using List.reverseRecOn with
  | nil => rfl
  | append_singleton inputs i ih =>
    rw [machineAfter_concat, ← ih, recorded, machineAfter_concat, input_erase]
    rfl

/-- A recorded state is the one its history leads to. -/
def OnHistory (init : S) (s : S × List (Message Event Resume)) : Prop :=
  s.1 = Reactive.runState apply init s.2

theorem onHistory_init (init : S) : OnHistory apply init (init, []) := rfl

/-- Every state of the recording machine, live or snapshotted, is on its history. -/
theorem recorded_allStates (init : S) (inputs : List (Input Event Resume)) :
    (recorded apply init inputs).AllStates (OnHistory apply init) := by
  refine machineAfter_allStates _ (onHistory_init apply init) (fun s m hs => ?_) inputs
  rw [OnHistory] at hs ⊢
  simp only [recording, Reactive.runState_append, ← hs]
  rfl

/-- **Whatever an input makes the machine emit, one message of the history it leaves emitted**,
in the state the history before that message leads to. -/
theorem emitted_on_history (init : S) (inputs : List (Input Event Resume))
    (i : Input Event Resume) {c : Command Action Effect}
    (hc : c ∈ ((machineAfter apply init inputs).input apply init i).2) :
    ∃ history m rest status, (recorded apply init (inputs ++ [i])).inner =
        some ((Reactive.runState apply init (history ++ m :: rest), history ++ m :: rest), status) ∧
      c ∈ (apply (Reactive.runState apply init history) m).2 := by
  have hall := recorded_allStates apply init inputs
  rw [← recorded_erase, input_erase] at hc
  rw [recorded, machineAfter_concat, ← recorded]
  generalize recorded apply init inputs = M at hc hall
  cases i with
  | update u =>
    simp only [StateMachine.input, StateMachine.handleUpdate] at hc ⊢
    rcases hin : M.inner with _ | ⟨⟨state, past⟩, status⟩
    · rw [hin] at hc
      exact absurd hc (by simp [Except.toOption])
    · obtain rfl : state = Reactive.runState apply init past := hall.live _ _ hin
      rw [hin] at hc
      dsimp only at hc ⊢
      split at hc
      · rename_i state' status' snapshots' commands ht
        rcases (tryUpdate_cases (recording apply) ht).2 with ⟨rfl, -⟩ | ⟨ms, -, rfl, rfl⟩
        · exact absurd hc (by simp [Except.toOption])
        · simp only [Except.toOption, Option.getD_some, runOutputs_recording] at hc
          obtain ⟨before, m, rest, rfl, hm⟩ := Reactive.mem_runOutputs apply hc
          refine ⟨past ++ before, m, rest, status', ?_, ?_⟩
          · rw [runState_recording, List.append_assoc, Reactive.runState_append apply init]
          · rw [Reactive.runState_append]
            exact hm
      · exact absurd hc (by simp [Except.toOption])
  | resume r =>
    simp only [StateMachine.input, StateMachine.handleResume] at hc ⊢
    rcases hin : M.inner with _ | ⟨⟨state, past⟩, status⟩
    · rw [hin] at hc
      exact absurd hc (by simp [Except.toOption])
    · obtain rfl : state = Reactive.runState apply init past := hall.live _ _ hin
      rw [hin] at hc
      refine ⟨past, .resume r, [], status, ?_, hc⟩
      simp [recording, Reactive.runState_append]
  | prune safe => exact absurd hc (by simp [StateMachine.input])
  | restart => exact absurd hc (by simp [StateMachine.input])

end Machine

end Safenet
