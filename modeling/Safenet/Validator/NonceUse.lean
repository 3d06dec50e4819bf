/-
# Nonces are used once

A nonce that signs twice leaks the key share.  The state that decides to use one is rolled back
and replayed, effects are performed again and complete in any order, and a session restarts
while an old `useNonce` effect is still in flight; what keeps a nonce from being used twice is
only that the store hands it out by DELETING it and that the same root is never stored twice.

The argument is a conservation law along a run (`Accounted`), one line per place a nonce can be:

* the chunks about to be registered and those registered are among the chunks sampled;
* for one `(root, offset)`, the rows in the store and the nonces taken are among the chunks
  registered under the root;
* the resumes that carry the nonce and the shares signed with it are among the nonces taken.

Sampled roots are pairwise distinct -- a nonce chunk is random and its root is a Merkle root of
its commitments -- so every count is at most one.
-/
import Safenet.Validator.Node
import Safenet.Validator.Toy

namespace Safenet

open Frost

variable {E : Crates}

/-! ## 1. What is counted -/

/-- The roots of the chunks the nonce streams delivered, in order. -/
def sampledRoots (labels : List (Label E)) : List B256 :=
  labels.filterMap fun
    | .work _ sample => sample.chunk.map (·.commitment)
    | _ => none

/-- Whether a task is about to register a chunk under a root. -/
def registers (root : B256) : Task E → Bool
  | .registerChunk _ chunk => chunk.commitment = root
  | _ => false

/-- Whether a chunk was registered under a root. -/
def isRegistration (root : B256) : Observation E → Bool
  | .registered r => r = root
  | _ => false

/-- Whether `take_nonce` returned the nonce at an index. -/
def isTake (index : NonceIndex) : Observation E → Bool
  | .took root offset => root = index.root && offset = index.offset
  | _ => false

/-- Whether an action is a signature share. -/
def isSignShare : Action → Bool
  | .signShare .. => true
  | _ => false

/-- Whether a signature share was computed from the nonce at an index. -/
def isShareOf (index : NonceIndex) : Observation E → Bool
  | .action (some origin) action => origin = index && isSignShare action
  | _ => false

/-- Whether a completed effect carries the nonce at an index. -/
def carries (index : NonceIndex) (e : Option NonceIndex × Resume E) : Bool := e.1 = some index

/-- How many chunks under a root what is left of a task registers. -/
def Progress.registers (root : B256) : Progress E → Nat
  | .continue task => if Safenet.registers root task then 1 else 0
  | .done .. => 0

/-- How many nonces of an index what is left of a task carries. -/
def Progress.carries (index : NonceIndex) : Progress E → Nat
  | .continue _ => 0
  | .done origin resume => if Safenet.carries index (origin, resume) then 1 else 0

/-- A completed effect without an origin carries no nonce. -/
def Traced (e : Option NonceIndex × Resume E) : Prop := e.1 = none → ∀ m n, e.2 ≠ .nonce m n

/-! ## 2. The machine's commands -/

namespace Transition

variable (T : Transition E)

/-- An input signs nothing unless it is the resume of a nonce. -/
theorem input_no_share {M : StateMachine (State E)} {i : Input Event (Resume E)} {a : Action}
    (hi : ∀ m n, i ≠ .resume (.nonce m n))
    (ha : a ∈ actionsOf (M.input T.applyTransition (State.default E) i).2) :
    isSignShare a = false := by
  simp only [actionsOf, List.mem_filterMap] at ha
  obtain ⟨c, hc, hca⟩ := ha
  have htrue : M.AllStates (fun _ => True) := ⟨fun _ _ _ => trivial, fun _ _ _ => trivial⟩
  obtain ⟨s, m, -, hcm, hres⟩ := input_emits (fun _ _ _ => trivial) htrue hc
  cases c with
  | effect e => exact absurd hca (by simp)
  | action a' =>
    rw [Option.some.injEq] at hca
    subst hca
    cases emits_applyTransition hcm with
    | plain hp => cases a' <;> first | rfl | exact absurd hp (by simp [plain])
    | reveal => rfl
    | signShare => exact absurd (hres _ rfl) (hi _ _)

/-- The resume of a nonce signs at most once. -/
theorem resume_shares (M : StateMachine (State E)) (m : B256) (n : Nonces E) :
    (actionsOf (M.input T.applyTransition (State.default E) (.resume (.nonce m n))).2).countP
      isSignShare ≤ 1 := by
  refine le_trans List.countP_le_length ?_
  have hlen : ∀ s : State E, (actionsOf (T.handleNonces s m n).2).length ≤ 1 := by
    intro s
    unfold handleNonces
    split
    · split <;> simp [actionsOf]
    · simp [actionsOf]
  simp only [StateMachine.input, StateMachine.handleResume]
  split
  · simp [actionsOf, Except.toOption]
  · exact hlen _

/-! ## 3. The conservation law -/

/-- Every nonce is in one place at a time. -/
structure Accounted (labels : List (Label E)) (n : Node E) (obs : List (Observation E)) : Prop where
  chunks : ∀ root, n.tasks.countP (registers root) + obs.countP (isRegistration root) ≤
    (sampledRoots labels).count root
  rows : ∀ index : NonceIndex, n.store.nonceRows index.root index.offset +
    obs.countP (isTake index) ≤ obs.countP (isRegistration index.root)
  shares : ∀ index, n.resumes.countP (carries index) + obs.countP (isShareOf index) ≤
    obs.countP (isTake index)
  traced : ∀ e ∈ n.resumes, Traced e
  untraced : ∀ a, .action none a ∈ obs → isSignShare a = false

theorem accounted_initial : Accounted [] (Node.initial : Node E) [] where
  chunks root := by simp [Node.initial]
  rows index := by simp [Node.initial, SecretStore.empty, SecretStore.nonceRows]
  shares index := by simp [Node.initial]
  traced e h := absurd h (by simp [Node.initial])
  untraced a h := absurd h (by simp)

/-- A task taken out of a list is one of the list. -/
theorem countP_eraseIdx {α : Type} {p : α → Bool} {l : List α} {i : Nat} {a : α}
    (h : l[i]? = some a) : l.countP p = (l.eraseIdx i).countP p + if p a then 1 else 0 := by
  obtain ⟨hi, rfl⟩ := List.getElem?_eq_some_iff.mp h
  rw [← (List.getElem_cons_eraseIdx_perm hi).countP_eq p, List.countP_cons]

theorem countP_set {α : Type} {p : α → Bool} {l : List α} {i : Nat} {a b : α}
    (h : l[i]? = some a) : (l.set i b).countP p = (l.eraseIdx i).countP p + if p b then 1 else 0 := by
  obtain ⟨hi, -⟩ := List.getElem?_eq_some_iff.mp h
  rw [(List.set_perm_cons_eraseIdx hi b).countP_eq p, List.countP_cons]

variable {T}

/-- The law is kept by a step whose every new place is paid for by an old one. -/
theorem Accounted.step {labels : List (Label E)} {l : Label E} {n n' : Node E}
    {obs obs' : List (Observation E)} (h : Accounted labels n obs)
    (hchunks : ∀ root, n'.tasks.countP (registers root) + obs'.countP (isRegistration root) ≤
      n.tasks.countP (registers root) + (sampledRoots [l]).count root)
    (hrows : ∀ index : NonceIndex, n'.store.nonceRows index.root index.offset +
      obs'.countP (isTake index) ≤
        n.store.nonceRows index.root index.offset + obs'.countP (isRegistration index.root))
    (hshares : ∀ index, n'.resumes.countP (carries index) + obs'.countP (isShareOf index) ≤
      n.resumes.countP (carries index) + obs'.countP (isTake index))
    (htraced : ∀ e ∈ n'.resumes, Traced e)
    (huntraced : ∀ a, .action none a ∈ obs' → isSignShare a = false) :
    Accounted (labels ++ [l]) n' (obs ++ obs') where
  chunks root := by
    have h1 := h.chunks root
    have h2 := hchunks root
    have happ : sampledRoots (labels ++ [l]) = sampledRoots labels ++ sampledRoots [l] :=
      List.filterMap_append
    rw [happ, List.count_append, List.countP_append]
    omega
  rows index := by
    have h1 := h.rows index
    have h2 := hrows index
    simp only [List.countP_append]
    omega
  shares index := by
    have h1 := h.shares index
    have h2 := hshares index
    simp only [List.countP_append]
    omega
  traced := htraced
  untraced a ha := by
    rcases List.mem_append.mp ha with ha | ha
    · exact h.untraced a ha
    · exact huntraced a ha

/-! ## 4. One step of the process -/

theorem countP_performs (es : List (Effect E)) (root : B256) :
    (es.map Task.perform).countP (registers root) = 0 := by
  rw [List.countP_map, List.countP_eq_zero]
  intro e _
  simp [registers]

theorem countP_actions (as : List Action) (origin : Option NonceIndex) (index : NonceIndex)
    (root : B256) :
    (as.map (Observation.action (E := E) origin)).countP (isRegistration root) = 0 ∧
      (as.map (Observation.action (E := E) origin)).countP (isTake index) = 0 := by
  constructor <;>
  · rw [List.countP_map, List.countP_eq_zero]
    intro a _
    simp [isRegistration, isTake]

/-- The shares among the actions of one input, traced to an index. -/
theorem countP_shares (as : List Action) (origin : Option NonceIndex) (index : NonceIndex) :
    (as.map (Observation.action (E := E) origin)).countP (isShareOf index) =
      if origin = some index then as.countP isSignShare else 0 := by
  rw [List.countP_map]
  split
  · rename_i ho
    congr 1
    funext a
    simp [isShareOf, ho]
  · rename_i ho
    rw [List.countP_eq_zero]
    intro a _
    cases origin with
    | none => simp [isShareOf]
    | some o =>
      have hne : o ≠ index := fun h => ho (by rw [h])
      simp [isShareOf, hne]

/-- Feeding the machine anything but a nonce signs nothing. -/
theorem feed_accounted {labels : List (Label E)} {l : Label E} {n : Node E}
    {obs : List (Observation E)} (h : Accounted labels n obs) (i : Input Event (Resume E))
    (hi : ∀ m k, i ≠ .resume (.nonce m k)) :
    Accounted (labels ++ [l]) (T.feed n none i).1 (obs ++ (T.feed n none i).2) := by
  refine h.step (fun root => ?_) (fun index => ?_) (fun index => ?_) h.traced (fun a ha => ?_)
  · simp only [feed, List.countP_append, countP_performs, (countP_actions _ _ ⟨0, 0⟩ root).1]
    omega
  · simp only [feed, (countP_actions _ _ index _).1, (countP_actions _ _ index 0).2, le_refl]
  · simp only [feed, countP_shares, (countP_actions _ _ index 0).2, reduceCtorEq, if_false,
      le_refl]
  · simp only [feed, List.mem_map, Observation.action.injEq, true_and, exists_eq_right] at ha
    exact T.input_no_share hi ha

/-- Delivering a completed effect pays for the share it signs with the nonce it carries. -/
theorem deliver_accounted {labels : List (Label E)} {l : Label E} {n : Node E}
    {obs : List (Observation E)} {i : Nat} {origin : Option NonceIndex} {r : Resume E}
    (h : Accounted labels n obs) (hr : n.resumes[i]? = some (origin, r)) :
    Accounted (labels ++ [l])
      (T.feed { n with resumes := n.resumes.eraseIdx i } origin (.resume r)).1
      (obs ++ (T.feed { n with resumes := n.resumes.eraseIdx i } origin (.resume r)).2) := by
  have htraced : Traced (origin, r) := h.traced _ (List.mem_of_getElem? hr)
  refine h.step (fun root => ?_) (fun index => ?_) (fun index => ?_) (fun e he => ?_)
    (fun a ha => ?_)
  · simp only [feed, List.countP_append, countP_performs, (countP_actions _ _ ⟨0, 0⟩ root).1]
    omega
  · simp only [feed, (countP_actions _ _ index _).1, (countP_actions _ _ index 0).2, le_refl]
  · have herase := countP_eraseIdx (p := carries index) hr
    simp only [feed, countP_shares, (countP_actions _ _ index 0).2]
    split
    · rename_i ho
      have hone : (actionsOf (n.machine.input T.applyTransition (State.default E)
          (.resume r)).2).countP isSignShare ≤ 1 := by
        by_cases hn : ∃ m k, r = .nonce m k
        · obtain ⟨m, k, rfl⟩ := hn
          exact T.resume_shares n.machine m k
        · refine le_trans (le_of_eq ?_) (Nat.zero_le 1)
          rw [List.countP_eq_zero]
          intro a ha
          rw [T.input_no_share ?_ ha]
          · simp
          · rintro m k ⟨⟩
            exact hn ⟨m, k, rfl⟩
      have hcarries : carries index (origin, r) = true := by simp [carries, ho]
      rw [hcarries, if_pos rfl] at herase
      omega
    · omega
  · exact h.traced e (List.mem_of_mem_eraseIdx he)
  · simp only [feed, List.mem_map, Observation.action.injEq] at ha
    obtain ⟨a', ha', rfl, rfl⟩ := ha
    refine T.input_no_share ?_ ha'
    rintro m k ⟨⟩
    exact htraced rfl m k rfl

/-- What one statement of a task pays. -/
structure Pays (store : SecretStore E) (sample : Sample E) (task : Task E) (w : Worked E) : Prop where
  chunks : ∀ root, w.progress.registers root + w.observed.countP (isRegistration root) ≤
    (if registers root task then 1 else 0) + (sample.chunk.map (·.commitment)).toList.count root
  rows : ∀ index : NonceIndex, w.store.nonceRows index.root index.offset +
    w.observed.countP (isTake index) ≤
      store.nonceRows index.root index.offset + w.observed.countP (isRegistration index.root)
  shares : ∀ index, w.progress.carries index + w.observed.countP (isShareOf index) ≤
    w.observed.countP (isTake index)
  traced : ∀ origin resume, w.progress = .done origin resume → Traced (origin, resume)
  silent : ∀ origin a, .action origin a ∉ w.observed

/-- A statement that touches neither the nonces nor the chunks, and completes with no nonce. -/
theorem Pays.idle {store store' : SecretStore E} {sample : Sample E} {task : Task E}
    {g : NonceGenerator E} {r : Resume E} {obs : List (Observation E)}
    (hrows : ∀ root offset, store'.nonceRows root offset ≤ store.nonceRows root offset)
    (hr : ∀ m n, r ≠ .nonce m n) (hobs : ∀ o ∈ obs, ∃ g s, o = .setup g s) :
    Pays store sample task ⟨store', g, .done none r, obs⟩ := by
  have hzero : ∀ p : Observation E → Bool, (∀ g s, p (.setup g s) = false) → obs.countP p = 0 := by
    intro p hp
    rw [List.countP_eq_zero]
    intro o ho
    obtain ⟨g, s, rfl⟩ := hobs o ho
    simp [hp]
  refine ⟨fun root => ?_, fun index => ?_, fun index => ?_, fun origin resume h => ?_,
    fun origin a ha => ?_⟩
  · simp [Progress.registers, hzero (isRegistration root) fun _ _ => rfl]
  · simp only [hzero (isTake index) fun _ _ => rfl,
      hzero (isRegistration index.root) fun _ _ => rfl]
    exact hrows _ _
  · simp [Progress.carries, Safenet.carries, hzero (isShareOf index) fun _ _ => rfl]
  · simp only [Progress.done.injEq] at h
    obtain ⟨-, rfl⟩ := h
    exact fun _ => hr
  · obtain ⟨g, s, h⟩ := hobs _ ha
    exact absurd h (by simp)

theorem performEffect_pays (account : Address) (store : SecretStore E) (g : NonceGenerator E)
    (sample : Sample E) (effect : Effect E) :
    Pays store sample (.perform effect) (performEffect account store g sample effect) := by
  have hidle : ∀ (g' : NonceGenerator E) (r : Resume E), (∀ m n, r ≠ .nonce m n) →
      Pays store sample (.perform effect) ⟨store, g', .done none r, []⟩ :=
    fun g' r hr => .idle (fun _ _ => le_rfl) hr (by simp)
  cases effect with
  | keyGenSetup groupId count threshold =>
    simp only [performEffect]
    split
    · exact hidle _ _ (by simp)
    · refine .idle (fun root offset => ?_) (by simp) (by simp)
      rw [SecretStore.nonceRows, SecretStore.storeKeygenSecrets_nonces]
      exact le_rfl
  | startNonceGeneration groupId keyShare => exact hidle _ _ (by simp)
  | nonceTree groupId =>
    simp only [performEffect]
    split
    · -- the sampled chunk pays for the task that registers it
      rename_i chunk _ hchunk
      refine ⟨fun root => ?_, fun index => ?_, fun index => ?_, fun _ _ h => ?_, by simp⟩
      · rw [hchunk]
        by_cases hroot : chunk.commitment = root <;>
          simp [Progress.registers, registers, hroot]
      · simp
      · simp [Progress.carries]
      · exact absurd h (by simp)
    · exact hidle _ _ (by simp)
  | revealNonceCommitments signatureId message root offset =>
    simp only [performEffect]
    split
    · exact hidle _ _ (by simp)
    · exact hidle _ _ (by simp)
  | useNonce message root offset =>
    obtain ⟨hle, htake⟩ := SecretStore.takeNonce_rows store root offset
    simp only [performEffect]
    split
    · -- the removed row pays for the nonce handed out
      rename_i store' nonces ht
      rw [ht] at hle htake
      refine ⟨fun r => ?_, fun index => ?_, fun index => ?_, fun _ _ h => ?_, by simp⟩
      · simp [Progress.registers, isRegistration, registers]
      · by_cases hindex : root = index.root ∧ offset = index.offset
        · obtain ⟨rfl, rfl⟩ := hindex
          simpa [isTake, isRegistration] using htake rfl
        · have hnot : isTake (E := E) index (.took root offset) = false := by
            simpa [isTake] using hindex
          simpa [hnot, isRegistration] using hle index.root index.offset
      · simp only [Progress.carries, Safenet.carries, isShareOf, isTake, List.countP_cons,
          List.countP_nil, Bool.false_eq_true, if_false]
        by_cases hindex : (⟨root, offset⟩ : NonceIndex) = index
        · subst hindex
          simp
        · simp [hindex]
      · simp only [Progress.done.injEq] at h
        obtain ⟨rfl, -⟩ := h
        exact fun h => absurd h (by simp)
    · rename_i store' ht
      rw [ht] at hle
      exact .idle hle (by simp) (by simp)
  | reconcileGroupSecrets groups =>
    refine ⟨fun root => ?_, fun index => ?_, fun index => ?_, fun _ _ h => ?_, by simp [performEffect]⟩
    · simp [performEffect, Progress.registers, registers]
    · simpa [performEffect] using SecretStore.retainNonces_rows store _ index.root index.offset
    · simp [performEffect, Progress.carries]
    · exact absurd h (by simp [performEffect])

/-- Every statement of a task pays. -/
theorem work_pays (account : Address) (store : SecretStore E) (g : NonceGenerator E)
    (sample : Sample E) (task : Task E) :
    Pays store sample task (task.work account store g sample) := by
  cases task with
  | perform effect => exact performEffect_pays account store g sample effect
  | registerChunk groupId chunk =>
    simp only [Task.work]
    split
    · -- the task pays for the registration, and the registration for the rows
      rename_i store' root hreg
      have hrows := SecretStore.registerNoncesChunk_rows hreg
      obtain rfl := (hrows 0 0).1
      refine ⟨fun r => ?_, fun index => ?_, fun index => ?_, fun _ _ h => ?_, by simp⟩
      · simp [Progress.registers, registers, isRegistration]
      · have hle := (hrows index.root index.offset).2
        simpa [isTake, isRegistration, List.countP_cons] using hle
      · simp [Progress.carries, Safenet.carries, isShareOf]
      · simp only [Progress.done.injEq] at h
        obtain ⟨-, rfl⟩ := h
        exact fun _ => by simp
    · exact .idle (fun _ _ => le_rfl) (by simp) (by simp)
  | retainSecrets groups =>
    refine ⟨fun root => ?_, fun index => ?_, fun index => ?_, fun _ _ h => ?_, by simp [Task.work]⟩
    · simp [Task.work, Progress.registers, registers]
    · simp [Task.work, SecretStore.nonceRows, SecretStore.retainKeygenSecrets]
    · simp [Task.work, Progress.carries]
    · exact absurd h (by simp [Task.work])
  | retainStreams groups => exact .idle (fun _ _ => le_rfl) (by simp) (by simp)

/-- A task that moved keeps the law. -/
theorem work_accounted {labels : List (Label E)} {n : Node E} {obs : List (Observation E)} {i : Nat}
    {sample : Sample E} {task : Task E} {w : Worked E} (h : Accounted labels n obs)
    (htask : n.tasks[i]? = some task) (hw : Pays n.store sample task w) :
    Accounted (labels ++ [.work i sample])
      (Node.settle { n with store := w.store, generator := w.generator } i w.progress)
      (obs ++ w.observed) := by
  have hsampled : sampledRoots [Label.work i sample] =
      (sample.chunk.map (·.commitment)).toList := by
    cases hc : sample.chunk <;> simp [sampledRoots, hc]
  obtain ⟨store', g', progress, obs'⟩ := w
  refine h.step (fun root => ?_) (fun index => ?_) (fun index => ?_) ?_ fun a ha =>
    absurd ha (hw.silent none a)
  · have hpays := hw.chunks root
    have hout := countP_eraseIdx (p := registers root) htask
    rw [hsampled]
    cases progress with
    | «continue» task' =>
      have hset := countP_set (p := registers root) (b := task') htask
      simp only [Node.settle, Progress.registers] at hpays ⊢
      omega
    | done origin resume =>
      simp only [Node.settle, Progress.registers] at hpays ⊢
      omega
  · have hpays := hw.rows index
    cases progress <;> exact hpays
  · have hpays := hw.shares index
    cases progress with
    | «continue» task' =>
      simp only [Node.settle, Progress.carries] at hpays ⊢
      omega
    | done origin resume =>
      simp only [Node.settle, Progress.carries, List.countP_append, List.countP_singleton] at hpays ⊢
      omega
  · cases progress with
    | «continue» task' => exact h.traced
    | done origin resume =>
      intro e he
      rcases List.mem_append.mp he with he | he
      · exact h.traced e he
      · rw [List.mem_singleton] at he
        rw [he]
        exact hw.traced origin resume rfl

/-- **One step of the process keeps the law.** -/
theorem nodeStep_accounted {labels : List (Label E)} {n : Node E} {obs : List (Observation E)}
    (h : Accounted labels n obs) (l : Label E) :
    Accounted (labels ++ [l]) (T.nodeStep n l).1 (obs ++ (T.nodeStep n l).2) := by
  have hkeep : Accounted (labels ++ [l]) n (obs ++ []) :=
    h.step (fun root => by simp) (fun index => by simp) (fun index => by simp) h.traced (by simp)
  cases l with
  | update u => exact feed_accounted h _ (by simp)
  | prune safe => exact feed_accounted h _ (by simp)
  | work i sample =>
    simp only [nodeStep]
    split
    · exact hkeep
    · rename_i task htask
      exact work_accounted h htask (work_pays T.account n.store n.generator sample task)
  | fail i =>
    simp only [nodeStep]
    split
    · exact hkeep
    · rename_i task htask
      have hout := fun root => countP_eraseIdx (p := registers root) htask
      refine h.step (fun root => ?_) (fun index => ?_) (fun index => ?_) ?_ (by simp)
      · have := hout root
        simp only [Node.settle, List.countP_nil]
        omega
      · simp [Node.settle]
      · simp [Node.settle, carries]
      · intro e he
        rcases List.mem_append.mp he with he | he
        · exact h.traced e he
        · rw [List.mem_singleton] at he
          rw [he]
          exact fun _ => by simp
  | duplicate i =>
    simp only [nodeStep]
    split
    · refine h.step (fun root => ?_) (fun index => ?_) (fun index => ?_) h.traced (by simp)
      · simp [registers]
      · simp
      · simp
    · exact hkeep
  | deliver i =>
    simp only [nodeStep]
    split
    · exact hkeep
    · rename_i origin r hr
      exact deliver_accounted h hr
  | restart =>
    refine h.step (fun root => ?_) (fun index => ?_) (fun index => ?_) (by simp [nodeStep])
      (by simp [nodeStep])
    · simp [nodeStep]
    · simp [nodeStep]
    · simp [nodeStep]

theorem accounted_nodeAfter (labels : List (Label E)) :
    Accounted labels (T.nodeAfter labels) (T.observed labels) := by
  induction labels using List.reverseRecOn with
  | nil => exact accounted_initial
  | append_singleton labels l ih =>
    rw [nodeAfter_concat, observed_concat]
    exact nodeStep_accounted ih l

/-! ## 5. Single use -/

variable (T)

/-- **A nonce is used once.**  Over any run of the process -- updates, rollbacks, restarts,
duplicated and reordered effects and resumes -- `take_nonce` returns the nonce at an index at most
once, at most one signature share is computed from it, and every signature share is computed from
a nonce that was taken. -/
theorem nonce_single_use (labels : List (Label E)) (hfresh : (sampledRoots labels).Nodup) :
    (∀ index, (T.observed labels).countP (isTake index) ≤ 1 ∧
        (T.observed labels).countP (isShareOf index) ≤ 1) ∧
      ∀ origin a, .action origin a ∈ T.observed labels → isSignShare a = true →
        ∃ index, origin = some index ∧ .took index.root index.offset ∈ T.observed labels := by
  have h : Accounted labels (T.nodeAfter labels) (T.observed labels) := accounted_nodeAfter labels
  have htake : ∀ index, (T.observed labels).countP (isTake index) ≤ 1 := by
    intro index
    have h1 := List.nodup_iff_count_le_one.mp hfresh index.root
    have h2 := h.chunks index.root
    have h3 := h.rows index
    omega
  refine ⟨fun index => ⟨htake index, ?_⟩, ?_⟩
  · have h1 := h.shares index
    have h2 := htake index
    omega
  · intro origin a ha hshare
    cases origin with
    | none =>
      rw [h.untraced a ha] at hshare
      exact absurd hshare (by simp)
    | some index =>
      have hpos : 0 < (T.observed labels).countP (isShareOf index) :=
        List.countP_pos_iff.mpr ⟨_, ha, by simp [isShareOf, hshare]⟩
      have h1 := h.shares index
      obtain ⟨o, ho, htook⟩ := List.countP_pos_iff.mp
        (lt_of_lt_of_le hpos (le_trans (Nat.le_add_left _ _) h1))
      refine ⟨index, rfl, ?_⟩
      cases o with
      | took root offset =>
        simp only [isTake, Bool.and_eq_true, decide_eq_true_eq] at htook
        rw [← htook.1, ← htook.2]
        exact ho
      | setup => exact absurd htook (by simp [isTake])
      | registered => exact absurd htook (by simp [isTake])
      | action => exact absurd htook (by simp [isTake])

open Toy in
/-- A run that signs: the nonce is taken, and the share computed from it. -/
theorem nonce_single_use_signing :
    ((validator 1).observed signingLabels).countP (isShareOf ⟨nonceRoot, 0⟩) = 1 ∧
      ∀ index, ((validator 1).observed signingLabels).countP (isTake index) ≤ 1 :=
  ⟨by decide +kernel,
    fun index => (((validator 1).nonce_single_use signingLabels (by decide +kernel)).1 index).1⟩

end Transition

end Safenet
