/-
# The running validator

`service/effect.rs`, `core/effects.rs` and `core/driver.rs`: one validator process.  The driver
feeds updates and completed effects to the state machine, spawns a task for every effect the
machine asks for, and keeps no order among the tasks; each takes its next statement whenever the
scheduler lets it.  A restart loses the tasks, the completed effects and the nonce streams; the
snapshots and the secret store stay, and only the machine rolls back on an uncle.

The environment is a list of `Label`s -- which input comes next, which task moves, what the
random number generator returned -- so that a run is a function of it and can be carried out.
What a step does that the later properties speak about it also says, as `Observation`s.  A
completed effect carries the coordinates of the nonce it was handed, which no code reads, so that
a signature share can be traced to the nonce it was computed from.
-/
import Safenet.Validator.SecretStore
import Safenet.Validator.Commands

namespace Safenet

open Frost

variable {E : Crates}

/-! ## 1. Tasks -/

/-- What an effect handler still has to do. -/
inductive Task (E : Crates) where
  | perform (effect : Effect E)
  /-- `NonceTree` with a chunk delivered by its stream. -/
  | registerChunk (groupId : B256) (chunk : NonceChunk E)
  /-- `ReconcileGroupSecrets` once the nonces are reconciled. -/
  | retainSecrets (groups : BTreeMap B256 (Option (KeyShare E)))
  /-- `ReconcileGroupSecrets` once the store is reconciled. -/
  | retainStreams (groups : BTreeMap B256 (Option (KeyShare E)))

/-- What the random number generator returned: secrets from `frost::keygen::setup`, and a chunk
from a nonce stream; `none` when sampling failed or the stream had nothing to deliver. -/
structure Sample (E : Crates) where
  secrets : Option (Secrets E)
  chunk : Option (NonceChunk E)

/-- The running nonce streams by group. -/
abbrev NonceGenerator (E : Crates) : Type := BTreeMap B256 (KeyShare E)

/-- Start a stream unless one is running. -/
def NonceGenerator.start (g : NonceGenerator E) (groupId : B256) (keyShare : KeyShare E) :
    NonceGenerator E :=
  match g[groupId]? with
  | some _ => g
  | none => g.insert groupId keyShare

/-- The groups still in key generation, without a key share. -/
def keygenGroups (groups : BTreeMap B256 (Option (KeyShare E))) : List B256 :=
  groups.toList.filterMap fun e => match e.2 with
    | some _ => none
    | none => some e.1

/-- The groups with a key share. -/
def nonceGroups (groups : BTreeMap B256 (Option (KeyShare E))) : List (B256 × KeyShare E) :=
  groups.toList.filterMap fun e => e.2.map fun keyShare => (e.1, keyShare)

/-- What a step did. -/
inductive Observation (E : Crates) where
  /-- A `KeyGenSetup` effect returned the secrets of a group. -/
  | setup (groupId : B256) (secrets : Secrets E)
  /-- A chunk was registered. -/
  | registered (root : B256)
  /-- `take_nonce` returned the nonce at a root and an offset. -/
  | took (root : B256) (offset : Nat)
  /-- An action was queued, on the resume of the given nonce if there was one. -/
  | action (origin : Option NonceIndex) (action : Action)

/-- What a statement leaves of a task: more to do, or a completed effect. -/
inductive Progress (E : Crates) where
  | continue (task : Task E)
  | done (origin : Option NonceIndex) (resume : Resume E)

/-- One statement of a task. -/
structure Worked (E : Crates) where
  store : SecretStore E
  generator : NonceGenerator E
  progress : Progress E
  observed : List (Observation E)

/-- An effect, up to its first suspension after a statement. -/
def performEffect (account : Address) (store : SecretStore E) (generator : NonceGenerator E)
    (sample : Sample E) : Effect E → Worked E
  | .keyGenSetup groupId _ _ =>
    match sample.secrets with
    | none => ⟨store, generator, .done none .noop, []⟩
    | some secrets =>
      let (store, stored) := store.storeKeygenSecrets groupId account secrets
      ⟨store, generator, .done none (.setup groupId stored), [.setup groupId stored]⟩
  | .startNonceGeneration groupId keyShare =>
    ⟨store, generator.start groupId keyShare, .done none .noop, []⟩
  | .nonceTree groupId =>
    match generator[groupId]?, sample.chunk with
    | some _, some chunk => ⟨store, generator, .continue (.registerChunk groupId chunk), []⟩
    | _, _ => ⟨store, generator, .done none .noop, []⟩
  | .revealNonceCommitments signatureId message root offset =>
    match store.noncesReveal root offset with
    | some (nonces, proof) =>
      ⟨store, generator, .done none (.nonceCommitments signatureId message nonces proof), []⟩
    | none => ⟨store, generator, .done none .noop, []⟩
  | .useNonce message root offset =>
    match store.takeNonce root offset with
    | (store, some nonces) =>
      ⟨store, generator, .done (some ⟨root, offset⟩) (.nonce message nonces), [.took root offset]⟩
    | (store, none) => ⟨store, generator, .done none .noop, []⟩
  | .reconcileGroupSecrets groups =>
    ⟨store.retainNonces (groups.toList.map (·.1)), generator, .continue (.retainSecrets groups), []⟩

/-- The next statement of a task. -/
def Task.work (account : Address) (store : SecretStore E) (generator : NonceGenerator E)
    (sample : Sample E) : Task E → Worked E
  | .perform effect => performEffect account store generator sample effect
  | .registerChunk groupId chunk =>
    match store.registerNoncesChunk groupId account chunk with
    | some (store, root) =>
      ⟨store, generator, .done none (.nonceTree groupId root), [.registered root]⟩
    | none => ⟨store, generator, .done none .noop, []⟩
  | .retainSecrets groups =>
    ⟨store.retainKeygenSecrets (keygenGroups groups), generator, .continue (.retainStreams groups), []⟩
  | .retainStreams groups =>
    let nonces := nonceGroups groups
    let kept : NonceGenerator E :=
      generator.filterMap fun groupId keyShare =>
        if (nonces.map (·.1)).contains groupId then some keyShare else none
    ⟨store, nonces.foldl (fun g e => g.start e.1 e.2) kept, .done none .noop, []⟩

/-! ## 2. The process -/

/-- One validator process and what it persists. -/
structure Node (E : Crates) where
  machine : StateMachine (State E)
  store : SecretStore E
  generator : NonceGenerator E
  tasks : List (Task E)
  resumes : List (Option NonceIndex × Resume E)

/-- The choices of the environment. -/
inductive Label (E : Crates) where
  /-- An indexer update arrives. -/
  | update (update : Update Event)
  | prune (safe : Nat)
  /-- A task takes its next statement. -/
  | work (index : Nat) (sample : Sample E)
  /-- A task fails, and resumes with nothing. -/
  | fail (index : Nat)
  /-- A task's effect is performed once more. -/
  | duplicate (index : Nat)
  /-- A completed effect is fed to the state machine. -/
  | deliver (index : Nat)
  | restart

/-- The effects among the commands. -/
def effectsOf (commands : Commands E) : List (Effect E) :=
  commands.filterMap fun
    | .effect effect => some effect
    | .action _ => none

/-- The actions among the commands. -/
def actionsOf (commands : Commands E) : List Action :=
  commands.filterMap fun
    | .action action => some action
    | .effect _ => none

/-- A process on empty tables. -/
def Node.initial : Node E :=
  { machine := .withInit (State.default E) ∅, store := .empty, generator := ∅, tasks := []
    resumes := [] }

/-- Put what is left of a task back. -/
def Node.settle (n : Node E) (index : Nat) : Progress E → Node E
  | .continue task => { n with tasks := n.tasks.set index task }
  | .done origin resume =>
    { n with tasks := n.tasks.eraseIdx index, resumes := n.resumes ++ [(origin, resume)] }

namespace Transition

variable (T : Transition E)

/-- Feed an input to the machine, spawn its effects and queue its actions. -/
def feed (n : Node E) (origin : Option NonceIndex) (i : Input Event (Resume E)) :
    Node E × List (Observation E) :=
  let (machine, commands) := n.machine.input T.applyTransition (State.default E) i
  ({ n with machine, tasks := n.tasks ++ (effectsOf commands).map .perform },
    (actionsOf commands).map (.action origin))

/-- One step of the process. -/
def nodeStep (n : Node E) : Label E → Node E × List (Observation E)
  | .update u => T.feed n none (.update u)
  | .prune safe => T.feed n none (.prune safe)
  | .work index sample =>
    match n.tasks[index]? with
    | none => (n, [])
    | some task =>
      let w := task.work T.account n.store n.generator sample
      (Node.settle { n with store := w.store, generator := w.generator } index w.progress, w.observed)
  | .fail index =>
    match n.tasks[index]? with
    | none => (n, [])
    | some _ => (n.settle index (.done none .noop), [])
  | .duplicate index =>
    match n.tasks[index]? with
    | some (.perform effect) => ({ n with tasks := n.tasks ++ [.perform effect] }, [])
    | _ => (n, [])
  | .deliver index =>
    match n.resumes[index]? with
    | none => (n, [])
    | some (origin, resume) =>
      T.feed { n with resumes := n.resumes.eraseIdx index } origin (.resume resume)
  | .restart =>
    ({ n with
        machine := .withInit (State.default E) n.machine.snapshots
        generator := ∅, tasks := [], resumes := [] }, [])

/-- The process after a list of choices. -/
def nodeAfter (labels : List (Label E)) : Node E :=
  Reactive.runState T.nodeStep Node.initial labels

/-- What it did. -/
def observed (labels : List (Label E)) : List (Observation E) :=
  Reactive.runOutputs T.nodeStep Node.initial labels

theorem nodeAfter_concat (labels : List (Label E)) (l : Label E) :
    T.nodeAfter (labels ++ [l]) = (T.nodeStep (T.nodeAfter labels) l).1 := by
  rw [nodeAfter, Reactive.runState_append]
  rfl

theorem observed_concat (labels : List (Label E)) (l : Label E) :
    T.observed (labels ++ [l]) = T.observed labels ++ (T.nodeStep (T.nodeAfter labels) l).2 := by
  rw [observed, Reactive.runOutputs_append]
  simp [Reactive.runOutputs, observed, nodeAfter]

end Transition

end Safenet
