/-
# The signature id index

`signature_id_to_message` routes the logs of a signing round to its session.  It is written
apart from the sessions, in the handlers that open a round, reject it, restart it, drop it or
see it attested; this module proves that the two maps never disagree (`IndexConsistent`), in
every state a run can reach.

There are three ways a handler can touch the pair: it leaves the signature id of the session as
it is (`IndexConsistent.keep`), it LINKS a new id to a session that had none
(`IndexConsistent.link`), or it UNLINKS the session's own id while taking it away
(`IndexConsistent.unlink`); the timeout pass unlinks many at once.  Two things outside the
handlers are needed.  A linked id must be new, which is the coordinator's promise that signature
ids are never reused.  And a rollover proposal, which inserts a session WITHOUT looking whether
one is there, must not overwrite one that has an id: the epoch it proposes is larger than any
proposed before, so a session under the same message would be a hash collision.
-/
import Safenet.Validator.Rollover
import Safenet.Validator.Toy

namespace Safenet

open Frost

variable {E : Crates}

/-! ## 1. The two maps -/

/-- The current signature id of the session of a message. -/
def State.sessionId (s : State E) (m : B256) : Option B256 :=
  s.signing[m]?.bind SigningState.signatureId

theorem sessionId_eq_some {s : State E} {m sid : B256} :
    s.sessionId m = some sid ↔
      ∃ session, s.signing[m]? = some session ∧ session.signatureId = some sid :=
  Option.bind_eq_some_iff

/-- The index maps exactly the current signature id of every session to its message. -/
def IndexConsistent (s : State E) : Prop :=
  ∀ sid m, s.signatureIdToMessage[sid]? = some m ↔
    ∃ session : SigningState E, s.signing[m]? = some session ∧ session.signatureId = some sid

theorem indexConsistent_iff {s : State E} :
    IndexConsistent s ↔ ∀ sid m, s.signatureIdToMessage[sid]? = some m ↔ s.sessionId m = some sid := by
  simp only [IndexConsistent, sessionId_eq_some]

/-- Nothing changes. -/
theorem IndexConsistent.keep {s s' : State E} (h : IndexConsistent s)
    (hi : s'.signatureIdToMessage = s.signatureIdToMessage)
    (hs : ∀ m, s'.sessionId m = s.sessionId m) : IndexConsistent s' := by
  rw [indexConsistent_iff] at h ⊢
  intro sid m
  rw [hi, hs, h sid m]

/-- A session without an id gets one that is not in use. -/
theorem IndexConsistent.link {s s' : State E} {sid₀ m₀ : B256} (h : IndexConsistent s)
    (hfresh : s.signatureIdToMessage[sid₀]? = none) (hnone : s.sessionId m₀ = none)
    (hi : s'.signatureIdToMessage = s.signatureIdToMessage.insert sid₀ m₀)
    (hnew : s'.sessionId m₀ = some sid₀) (hs : ∀ m, m ≠ m₀ → s'.sessionId m = s.sessionId m) :
    IndexConsistent s' := by
  rw [indexConsistent_iff] at h ⊢
  intro sid m
  rw [hi, BTreeMap.get_insert]
  by_cases hm : m = m₀
  · subst hm
    by_cases hsid : sid = sid₀
    · subst hsid
      simp [hnew]
    · rw [if_neg hsid, hnew, h sid m, hnone]
      simp [Ne.symm hsid]
  · rw [hs m hm]
    by_cases hsid : sid = sid₀
    · subst hsid
      rw [if_pos rfl, ← h sid m, hfresh]
      simp [Ne.symm hm]
    · rw [if_neg hsid, h sid m]

/-- A session loses its id, and the index that id. -/
theorem IndexConsistent.unlink {s s' : State E} (h : IndexConsistent s) (m₀ : B256)
    (hi : ∀ sid, s'.signatureIdToMessage[sid]? =
      if s.sessionId m₀ = some sid then none else s.signatureIdToMessage[sid]?)
    (hnew : s'.sessionId m₀ = none) (hs : ∀ m, m ≠ m₀ → s'.sessionId m = s.sessionId m) :
    IndexConsistent s' := by
  rw [indexConsistent_iff] at h ⊢
  intro sid m
  rw [hi]
  by_cases hm : m = m₀
  · subst hm
    rw [hnew]
    split
    · simp
    · rename_i hne
      rw [h sid m]
      simp [hne]
  · rw [hs m hm]
    split
    · rename_i heq
      rw [← h sid m, (h sid m₀).mpr heq]
      simp [Ne.symm hm]
    · exact h sid m

/-! ## 2. The handlers -/

namespace Transition

variable (T : Transition E)

theorem afterRequest_of_not_waiting {block : Nat} {gid m sid : B256} {n : Option NonceIndex}
    {x : Option (SigningState E)} (h : ∀ w, x ≠ some (.waitingForRequest w)) :
    T.afterRequest block gid m sid n x = x := by
  rcases x with _ | (w | w | w | w | w)
  · rfl
  · exact absurd rfl (h w)
  · rfl
  · rfl
  · rfl
  · rfl

theorem afterReveal_signatureId (block : Nat) (p : Address) (n : SignNonces)
    (x : Option (SigningState E)) :
    (T.afterReveal block p n x).bind SigningState.signatureId = x.bind SigningState.signatureId := by
  have hreg := fun c : CollectNonceCommitments E => (registerReveal_frame c p n).2.1
  rcases x with _ | (w | w | w | w | w)
  · rfl
  · rfl
  · rfl
  · simp only [afterReveal]
    split <;> simp only [Option.bind_some, SigningState.signatureId, openShares, hreg]
  · rfl
  · rfl

theorem afterShare_signatureId (root : B256) (p : Address) (x : Option (SigningState E)) :
    (afterShare root p x).bind SigningState.signatureId = x.bind SigningState.signatureId := by
  rcases x with _ | (w | w | w | w | w) <;> rfl

theorem afterCompleted_signatureId (block : Nat) (x : Option (SigningState E)) :
    (T.afterCompleted block x).bind SigningState.signatureId = x.bind SigningState.signatureId := by
  rcases x with _ | (w | w | w | w | w) <;> rfl

theorem openRequest_signatureId (block : Nat) (m sid : B256) (n : NonceIndex)
    (w : WaitingForRequest E) : (T.openRequest block m sid n w).1.signatureId = some sid := by
  unfold openRequest
  split <;> rfl

/-- The index after a `Sign` log: one new entry, when the log opens a round. -/
theorem handleSign_indexConsistent {s : State E} {block : Nat} {gid message sid : B256} {q : Nat}
    (h : IndexConsistent s) (hfresh : s.signatureIdToMessage[sid]? = none) :
    IndexConsistent (T.handleSign s block gid message sid q).1 := by
  have hsame : (T.handleSign s block gid message sid q).1.signatureIdToMessage =
      s.signatureIdToMessage →
      ((T.handleSign s block gid message sid q).1.sessionId message = s.sessionId message) →
      IndexConsistent (T.handleSign s block gid message sid q).1 := by
    intro hi hm
    refine h.keep hi fun m => ?_
    by_cases hmm : message = m
    · rw [← hmm, hm]
    · simp only [State.sessionId, handleSign_signing, if_neg hmm]
  have hframe := (observeNonce_frame s gid q).2.1
  rcases hs : s.signing[message]? with _ | (w | w | w | w | w)
  case some.waitingForRequest =>
    rcases hn : (observeNonce s gid q).2 with _ | nonce
    · refine hsame ?_ ?_
      · rw [handleSign_eq]
        simp only [hn, hs, hframe]
      · simp only [State.sessionId, handleSign_signing, if_true, hn, hs, afterRequest]
        rfl
    · by_cases hg : w.groupId = gid
      · refine h.link hfresh (?_ : s.sessionId message = none) ?_ ?_ ?_
        · simp only [State.sessionId, hs]
          rfl
        · rw [handleSign_eq]
          simp only [hn, hs, hg, if_true]
        · simp only [State.sessionId, handleSign_signing, if_true, hn, hs, afterRequest, hg,
            Option.bind_some, openRequest_signatureId]
        · intro m hm
          simp only [State.sessionId, handleSign_signing, if_neg (Ne.symm hm)]
      · refine hsame ?_ ?_
        · rw [handleSign_eq]
          simp only [hn, hs, hg, if_false, hframe]
        · simp only [State.sessionId, handleSign_signing, if_true, hn, hs, afterRequest, hg,
            if_false]
  all_goals
    refine hsame ?_ ?_
    · rw [handleSign_eq]
      simp only [hs]
      split <;> simp_all
    · simp only [State.sessionId, handleSign_signing, if_true, hs]
      rw [afterRequest_of_not_waiting T (by simp)]

theorem handleOracleResult_indexConsistent {s : State E} {block : Nat} {o : Address} {m₀ : B256}
    {approved : Bool} (h : IndexConsistent s) :
    IndexConsistent (T.handleOracleResult s block o m₀ approved).1 := by
  have hother : ∀ m, m ≠ m₀ →
      (T.handleOracleResult s block o m₀ approved).1.sessionId m = s.sessionId m := by
    intro m hm
    simp only [State.sessionId, handleOracleResult_signing, if_neg (Ne.symm hm)]
  have hkeep : T.afterOracleResult block o approved s.signing[m₀]? = s.signing[m₀]? →
      (T.handleOracleResult s block o m₀ approved).1.signatureIdToMessage =
        s.signatureIdToMessage → IndexConsistent (T.handleOracleResult s block o m₀ approved).1 := by
    intro hx hi
    refine h.keep hi fun m => ?_
    by_cases hm : m = m₀
    · subst hm
      simp only [State.sessionId, handleOracleResult_signing, if_true, hx]
    · exact hother m hm
  rcases hs : s.signing[m₀]? with _ | (w | w | w | w | w)
  case some.waitingForOracle =>
    by_cases ho : w.oracle = o
    · cases approved with
      | true =>
        refine h.keep ?_ fun m => ?_
        · simp only [handleOracleResult, hs, ho, if_true]
        · by_cases hm : m = m₀
          · subst hm
            simp only [State.sessionId, handleOracleResult_signing, if_true, hs, afterOracleResult,
              ho]
            rfl
          · exact hother m hm
      | false =>
        refine h.unlink m₀ (fun sid => ?_) ?_ hother
        · simp only [handleOracleResult, hs, ho, if_true, Bool.false_eq_true, if_false,
            BTreeMap.get_erase, State.sessionId, Option.bind_some, SigningState.signatureId,
            Option.some.injEq, eq_comm]
        · simp only [State.sessionId, handleOracleResult_signing, if_true, hs, afterOracleResult, ho,
            Bool.false_eq_true, if_false]
          rfl
    · refine hkeep ?_ ?_
      · simp only [hs, afterOracleResult, ho, if_false]
      · simp only [handleOracleResult, hs, ho, if_false]
  all_goals
    refine hkeep ?_ ?_
    · simp only [hs, afterOracleResult]
    · simp only [handleOracleResult, hs]

theorem handleSignAttested_indexConsistent {s : State E} {m₀ : B256} (h : IndexConsistent s) :
    IndexConsistent (handleSignAttested s m₀).1 := by
  refine h.unlink m₀ (fun sid => ?_) ?_ fun m hm => ?_
  · have hid : s.signing[m₀]?.bind SigningState.signatureId = s.sessionId m₀ := rfl
    simp only [handleSignAttested, hid]
    rcases s.sessionId m₀ with _ | sid'
    · simp
    · simp only [BTreeMap.get_erase, Option.some.injEq, eq_comm]
  · simp only [State.sessionId, handleSignAttested_signing, if_true]
    rfl
  · simp only [State.sessionId, handleSignAttested_signing, if_neg (Ne.symm hm)]

/-- What the timeout pass does to one session's id: it stays linked, or it is unlinked and the
session left, if any, has none. -/
theorem timeoutSession_unlink (block : Nat) (m : B256) (x : SigningState E) :
    ((T.timeoutSession block m x).unlink = none ∧
        (T.timeoutSession block m x).session.bind SigningState.signatureId = x.signatureId) ∨
      ((T.timeoutSession block m x).unlink = x.signatureId ∧ x.signatureId ≠ none ∧
        (T.timeoutSession block m x).session.bind SigningState.signatureId = none) := by
  have hrestart : ∀ (d : Nat) (k : KeyShare E) (g sid : B256) (ss : Finset Address) (p : Packet)
      (l : Option Address), (T.restartSigningCeremony d m k g sid ss p l).unlink = some sid ∧
        (T.restartSigningCeremony d m k g sid ss p l).session.bind SigningState.signatureId = none := by
    intro d k g sid ss p l
    unfold restartSigningCeremony
    split <;> exact ⟨rfl, rfl⟩
  unfold timeoutSession
  dsimp only
  split
  · exact .inl ⟨rfl, rfl⟩
  · split
    · split
      · exact .inl ⟨rfl, rfl⟩
      · split
        · exact .inl ⟨rfl, rfl⟩
        · exact .inl ⟨rfl, rfl⟩
    · exact .inr ⟨rfl, by simp [SigningState.signatureId], rfl⟩
    · exact .inr ⟨(hrestart _ _ _ _ _ _ _).1, by simp [SigningState.signatureId],
        (hrestart _ _ _ _ _ _ _).2⟩
    · exact .inr ⟨(hrestart _ _ _ _ _ _ _).1, by simp [SigningState.signatureId],
        (hrestart _ _ _ _ _ _ _).2⟩
    · exact .inr ⟨rfl, by simp [SigningState.signatureId], rfl⟩

theorem handleSigningTimeouts_indexConsistent {s : State E} (block : Nat)
    (h : IndexConsistent s) : IndexConsistent (T.handleSigningTimeouts s block).1 := by
  have hunlinked : ∀ sid, sid ∈ (s.signing.toList.map fun e => T.timeoutSession block e.1 e.2).filterMap
      (·.unlink) ↔ ∃ m x, s.signing[m]? = some x ∧
        (T.timeoutSession block m x).unlink = some sid := by
    intro sid
    simp only [List.mem_filterMap, List.mem_map, Prod.exists, BTreeMap.mem_toList_iff]
    constructor
    · rintro ⟨t, ⟨m, x, hx, rfl⟩, ht⟩
      exact ⟨m, x, hx, ht⟩
    · rintro ⟨m, x, hx, ht⟩
      exact ⟨_, ⟨m, x, hx, rfl⟩, ht⟩
  intro sid m
  simp only [handleSigningTimeouts_signing, Option.bind_eq_some_iff]
  simp only [handleSigningTimeouts, BTreeMap.get_eraseAll, hunlinked]
  constructor
  · intro hm
    split at hm
    · exact absurd hm (by simp)
    · rename_i hno
      obtain ⟨x, hx, hsid⟩ := (h sid m).mp hm
      rcases T.timeoutSession_unlink block m x with ⟨-, hkeep⟩ | ⟨hun, -, -⟩
      · obtain ⟨x', hx', hs'⟩ := Option.bind_eq_some_iff.mp (hkeep.trans hsid)
        exact ⟨x', ⟨x, hx, hx'⟩, hs'⟩
      · exact absurd ⟨m, x, hx, hun.trans hsid⟩ hno
  · rintro ⟨x', ⟨x, hx, hx'⟩, hs'⟩
    have hbind : (T.timeoutSession block m x).session.bind SigningState.signatureId = some sid :=
      Option.bind_eq_some_iff.mpr ⟨x', hx', hs'⟩
    rcases T.timeoutSession_unlink block m x with ⟨hnone, hkeep⟩ | ⟨-, -, hgone⟩
    · have hm := (h sid m).mpr ⟨x, hx, hkeep.symm.trans hbind⟩
      rw [if_neg ?_, hm]
      rintro ⟨m₂, x₂, hx₂, hun₂⟩
      have hsid₂ : x₂.signatureId = some sid := by
        rcases T.timeoutSession_unlink block m₂ x₂ with ⟨h0, -⟩ | ⟨h0, -, -⟩
        · rw [h0] at hun₂
          exact absurd hun₂ (by simp)
        · exact h0.symm.trans hun₂
      have hm₂ := (h sid m₂).mpr ⟨x₂, hx₂, hsid₂⟩
      rw [hm, Option.some.injEq] at hm₂
      subst hm₂
      rw [hx, Option.some.injEq] at hx₂
      subst hx₂
      rw [hnone] at hun₂
      exact absurd hun₂ (by simp)
    · rw [hgone] at hbind
      exact absurd hbind (by simp)

/-! ## 3. One message -/

/-- A session's id after a message is the one before it, or the one a `Sign` log assigned. -/
theorem sessionId_origin {s : State E} {msg : Msg E} {m sid : B256}
    (h : (T.applyTransition s msg).1.sessionId m = some sid) :
    s.sessionId m = some sid ∨
      ∃ log gid q, msg = .event log ∧ log.data = .sign gid m sid q := by
  simp only [State.sessionId, signing_applyTransition] at h
  cases msg with
  | newBlock block =>
    simp only [sessionAfter] at h
    rcases hx : s.signing[m]? with _ | x
    · rw [hx] at h
      exact absurd h (by simp)
    · rw [hx, Option.bind_some] at h
      rcases T.timeoutSession_unlink block m x with ⟨-, hk⟩ | ⟨-, -, hk⟩
      · refine .inl ?_
        rw [State.sessionId, hx, Option.bind_some, ← hk, h]
      · rw [hk] at h
        exact absurd h (by simp)
  | resume r => exact .inl h
  | event log =>
    cases hd : log.data <;> simp only [sessionAfter, hd] at h
    case sign gid message sid' q =>
      split at h
      · rename_i hm
        subst hm
        rcases hx : s.signing[message]? with _ | (w | w | w | w | w)
        case some.waitingForRequest =>
          rw [hx] at h
          rcases hn : (observeNonce s gid q).2 with _ | n
          · rw [hn] at h
            exact absurd h (by simp [afterRequest])
          · rw [hn] at h
            simp only [afterRequest] at h
            split at h
            · refine .inr ⟨log, gid, q, rfl, ?_⟩
              rw [Option.bind_some, openRequest_signatureId, Option.some.injEq] at h
              rw [hd, h]
            · exact absurd h (by simp [SigningState.signatureId])
        all_goals
          rw [hx] at h
          exact .inl (by rw [State.sessionId, hx]; exact h)
      · exact .inl h
    case oracleResult req b =>
      split at h
      · refine .inl ?_
        rcases hx : s.signing[m]? with _ | (w | w | w | w | w)
        case some.waitingForOracle =>
          rw [hx] at h
          simp only [afterOracleResult] at h
          split at h
          · split at h
            · rw [State.sessionId, hx]
              exact h
            · exact absurd h (by simp)
          · rw [State.sessionId, hx]
            exact h
        all_goals
          rw [hx] at h
          rw [State.sessionId, hx]
          exact h
      · exact .inl h
    case signRevealedNonces sid' p n =>
      split at h
      · rw [afterReveal_signatureId] at h
        exact .inl h
      · exact .inl h
    case signShared sid' root p =>
      split at h
      · rw [afterShare_signatureId] at h
        exact .inl h
      · exact .inl h
    case signCompleted sid' =>
      split at h
      · rw [afterCompleted_signatureId] at h
        exact .inl h
      · exact .inl h
    case transactionProposed o e d tx =>
      split at h
      · rcases hx : s.signing[m]? with _ | x
        · rw [hx, afterProposal] at h
          split at h
          · exact absurd h (by simp)
          · obtain ⟨x, hx', hs'⟩ := Option.bind_eq_some_iff.mp h
            obtain ⟨entry, -, rfl⟩ := Option.map_eq_some_iff.mp hx'
            exact absurd hs' (by simp [SigningState.signatureId])
        · rw [hx] at h
          exact .inl (by rw [State.sessionId, hx]; exact h)
      · exact .inl h
    case transactionAttested sh o e oh sid' =>
      split at h
      · exact absurd h (by simp)
      · exact .inl h
    case epochStaged p g sid' =>
      split at h
      · exact absurd h (by simp)
      · exact .inl h
    case keyGenConfirmed gid p =>
      unfold afterConfirmed at h
      split at h
      · split at h
        · exact absurd h (by simp [SigningState.signatureId])
        · exact .inl h
      · exact .inl h
    all_goals exact .inl h

theorem IndexConsistent.congr {s s' : State E} (h : IndexConsistent s)
    (hs : s'.signing = s.signing) (hi : s'.signatureIdToMessage = s.signatureIdToMessage) :
    IndexConsistent s' := by
  intro sid m
  rw [hs, hi]
  exact h sid m

theorem applyBlock_indexConsistent {s : State E} {block : Nat} (h : IndexConsistent s) :
    IndexConsistent (T.applyBlock s block).1 := by
  obtain ⟨h1, h1', -⟩ := T.handleRolloverNewBlock_signing s block
  have h2 := T.handleKeyGenTimeouts_onlyRollover (T.handleRolloverNewBlock s block).1 block
  have hbefore : IndexConsistent
      (T.handleKeyGenTimeouts (T.handleRolloverNewBlock s block).1 block).1 :=
    IndexConsistent.congr h (h2.signing.trans h1) (h2.index.trans h1')
  have hafter := T.handleSigningTimeouts_indexConsistent block hbefore
  have h4 := fun t : State E => handleNonceTopup_frame t
  exact IndexConsistent.congr hafter (h4 _).1 (h4 _).2.1

/-- A message that proposes a rollover does so at a message no session is under. -/
def RolloverVacant (s : State E) (msg : Msg E) : Prop :=
  ∀ log gid p c n, msg = .event log → log.data = .keyGenConfirmed gid p →
    completedRound s gid p = some (c, n) → (s.epochs[s.activeEpoch]?).isSome →
      s.signing[(T.completedPacket s c n).2]? = none

/-- **One message keeps the index consistent**, if the id it links is new and the rollover it
proposes overwrites nothing. -/
theorem applyTransition_indexConsistent {s : State E} {msg : Msg E} (h : IndexConsistent s)
    (hfresh : ∀ log gid m sid q, msg = .event log → log.data = .sign gid m sid q →
      s.signatureIdToMessage[sid]? = none)
    (hvacant : T.RolloverVacant s msg) : IndexConsistent (T.applyTransition s msg).1 := by
  have hkeep : (T.applyTransition s msg).1.signatureIdToMessage = s.signatureIdToMessage →
      (∀ m, (T.sessionAfter s m msg).bind SigningState.signatureId = s.sessionId m) →
      IndexConsistent (T.applyTransition s msg).1 := by
    intro hi hs
    refine h.keep hi fun m => ?_
    rw [State.sessionId, signing_applyTransition, hs m]
  cases msg with
  | newBlock block => exact T.applyBlock_indexConsistent h
  | resume r =>
    obtain ⟨h1, h2⟩ := T.applyResume_frame s r
    exact IndexConsistent.congr h h1 h2
  | event log =>
    obtain ⟨block, index, address, data⟩ := log
    cases data with
    | keyGen gid =>
      have hr := T.handleGenesisKeyGen_onlyRollover s gid
      exact IndexConsistent.congr h hr.signing hr.index
    | keyGenCommitted gid p k =>
      have hr := T.handleKeyGenCommitted_onlyRollover s block gid p k
      exact IndexConsistent.congr h hr.signing hr.index
    | keyGenSecretShared gid p k =>
      have hr := T.handleKeyGenSecretShared_onlyRollover s block gid p k
      exact IndexConsistent.congr h hr.signing hr.index
    | keyGenComplained gid p a x =>
      have hr := T.handleKeyGenComplained_onlyRollover s block gid p a
      exact IndexConsistent.congr h hr.signing hr.index
    | keyGenComplaintResponded gid p a x =>
      have hr := T.handleKeyGenComplaintResponded_onlyRollover s block gid p a x
      exact IndexConsistent.congr h hr.signing hr.index
    | preprocess gid p chunk k =>
      obtain ⟨h1, h2, -⟩ := T.handlePreprocess_frame s gid p chunk k
      exact IndexConsistent.congr h h1 h2
    | keyGenConfirmed gid p =>
      refine hkeep (T.handleKeyGenConfirmed_index s block gid p) fun m => ?_
      simp only [sessionAfter, afterConfirmed]
      split
      · rename_i c n entry hc he
        split
        · rename_i hm
          have hv := hvacant _ _ _ _ _ rfl rfl hc (by rw [he]; rfl)
          rw [State.sessionId, ← hm, hv]
          rfl
        · rfl
      · rfl
    | sign gid m sid q => exact T.handleSign_indexConsistent h (hfresh _ _ _ _ _ rfl rfl)
    | signRevealedNonces sid p n =>
      refine hkeep ?_ fun m => ?_
      · simp only [applyTransition, applyEvent, handleSignRevealedNonces]
        split
        · rfl
        · split
          · split <;> rfl
          · rfl
      · simp only [sessionAfter]
        split
        · exact T.afterReveal_signatureId _ _ _ _
        · rfl
    | signShared sid root p =>
      refine hkeep ?_ fun m => ?_
      · simp only [applyTransition, applyEvent, handleSignShared]
        split
        · rfl
        · split <;> rfl
      · simp only [sessionAfter]
        split
        · exact afterShare_signatureId _ _ _
        · rfl
    | signCompleted sid =>
      refine hkeep ?_ fun m => ?_
      · simp only [applyTransition, applyEvent, handleSignCompleted]
        split
        · rfl
        · split <;> rfl
      · simp only [sessionAfter]
        split
        · exact T.afterCompleted_signatureId _ _
        · rfl
    | epochStaged p gid sid =>
      simp only [applyTransition, applyEvent, handleEpochStaged]
      split
      · split
        · obtain ⟨h1, h2, -, -⟩ := finalizeKeyGen_frame
            { s with rollover := .epochStaged _ } (.number _) _ _
          exact handleSignAttested_indexConsistent (IndexConsistent.congr h h1 h2)
        · exact h
      · exact IndexConsistent.congr h rfl rfl
      · exact h
    | transactionProposed o e d tx =>
      refine hkeep ?_ fun m => ?_
      · simp only [applyTransition, applyEvent, handleTransactionProposed]
        split
        · rfl
        · split
          · rfl
          · split <;> rfl
      · simp only [sessionAfter]
        split
        · rcases hx : s.signing[m]? with _ | x
          · simp only [afterProposal, State.sessionId, hx]
            split
            · rfl
            · rcases s.epochs[EpochId.fromRaw e]? with _ | entry <;> rfl
          · simp only [afterProposal, State.sessionId, hx]
        · rfl
    | transactionAttested sh o e oh sid => exact handleSignAttested_indexConsistent h
    | oracleResult m b => exact T.handleOracleResult_indexConsistent h
    | unhandled => exact h

/-! ## 4. Runs -/

/-- A packet some session carries at some point of the run. -/
def Tracks (ms : List (Msg E)) (p : Packet) : Prop :=
  ∃ (past rest : List (Msg E)) (m : B256) (x : SigningState E), ms = past ++ rest ∧
    (T.stateAfter past).signing[m]? = some x ∧ x.packet = p

/-- What of a packet its signing hash covers: everything but a new group's id, which its key
stands for. -/
def signed : Packet → Packet
  | .epochRollover activeEpoch proposedEpoch rolloverBlock _ groupKey =>
    .epochRollover activeEpoch proposedEpoch rolloverBlock 0 groupKey
  | p => p

/-- No two packets tracked in the run are signed under one message by a Keccak collision. -/
def CollisionFree (ms : List (Msg E)) : Prop :=
  ∀ p q, T.Tracks ms p → T.Tracks ms q → T.packetHash p = T.packetHash q → signed p = signed q

/-- The packets tracked along a run from a state. -/
def tracked (s : State E) : List (Msg E) → List Packet
  | [] => s.signing.toList.map (·.2.packet)
  | msg :: ms => s.signing.toList.map (·.2.packet) ++ tracked (T.applyTransition s msg).1 ms

theorem mem_tracked {s : State E} {past rest : List (Msg E)} {m : B256} {x : SigningState E}
    (h : (Reactive.runState T.applyTransition s past).signing[m]? = some x) :
    x.packet ∈ T.tracked s (past ++ rest) := by
  induction past generalizing s with
  | nil =>
    have hmem : x.packet ∈ s.signing.toList.map (·.2.packet) :=
      List.mem_map_of_mem ((BTreeMap.mem_toList_iff _ _ _).mpr h)
    cases rest with
    | nil => exact hmem
    | cons msg rest => exact List.mem_append_left _ hmem
  | cons msg past ih => exact List.mem_append_right _ (ih h)

/-- A run that tracks one packet is collision free. -/
theorem collisionFree_of_tracked {ms : List (Msg E)} (packet : Packet)
    (h : ∀ p ∈ T.tracked (State.default E) ms, p = packet) : T.CollisionFree ms := by
  rintro _ _ ⟨past, rest, m, x, rfl, hx, rfl⟩ ⟨past', rest', m', x', heq, hx', rfl⟩ -
  have hp := h _ (T.mem_tracked hx)
  have hp' := h _ (heq ▸ T.mem_tracked hx')
  rw [hp, hp']

/-- The `Sign` logs among the messages. -/
def signLogs (ms : List (Msg E)) : List Event :=
  (events ms).filter fun
    | .sign .. => true
    | _ => false

theorem sids_signLogs (ms : List (Msg E)) :
    Coordinator.sids (signLogs ms) = Coordinator.sids (events ms) := by
  simp only [Coordinator.sids, signLogs, List.filterMap_filter]
  congr 1
  funext e
  cases e <;> rfl

/-- What the consistency of the index rests on, along a run. -/
structure Indexed (past : List (Msg E)) (s : State E) : Prop where
  index : IndexConsistent s
  /-- Every id in use was assigned by a `Sign` log. -/
  issued : ∀ m sid, s.sessionId m = some sid → sid ∈ Coordinator.sids (events past)
  /-- Every session is under its packet's message. -/
  hashed : ∀ (m : B256) (x : SigningState E), s.signing[m]? = some x → T.packetHash x.packet = m
  /-- No tracked rollover proposes an epoch the rollover machine has not reached. -/
  proposed : ∀ (m : B256) (x : SigningState E), s.signing[m]? = some x → ∀ a p b g k,
    x.packet = .epochRollover a p b g k → (p : Nat) ≤ bound s.rollover

theorem indexed_default : T.Indexed [] (State.default E) where
  index := by
    intro sid m
    simp [State.default]
  issued := by
    intro m sid h
    exact absurd h (by simp [State.sessionId, State.default])
  hashed := by
    intro m x h
    exact absurd h (by simp [State.default])
  proposed := by
    intro m x h
    exact absurd h (by simp [State.default])

/-- A session opened by a message is under its packet's message. -/
theorem Opened.hashed {s : State E} {m : B256} {msg : Msg E} {x : SigningState E}
    (h : T.Opened s m msg x) : T.packetHash x.packet = m := by
  cases h with
  | proposal hd hm ho hs he => exact hm
  | rollover hd hc he hm => exact hm

/-- The round a confirmation completes is a confirmation round of a regular epoch. -/
theorem completedRound_rollover {s : State E} {gid : B256} {p : Address}
    {c : CollectingConfirmations E} {n : ℕ+} (h : completedRound s gid p = some (c, n)) :
    s.rollover = .collectingConfirmations c ∧ c.nextEpoch = .number n ∧ c.group.id = gid := by
  unfold completedRound at h
  split at h
  · rename_i c' hr
    split at h
    · rename_i n' hn
      split at h
      · rename_i hg
        simp only [Option.some.injEq, Prod.mk.injEq] at h
        obtain ⟨rfl, rfl⟩ := h
        exact ⟨hr, hn, hg.1⟩
      · exact absurd h (by simp)
    · exact absurd h (by simp)
  · exact absurd h (by simp)

/-- The rollover after a completed round is the one that signs it. -/
theorem completedRound_bound {s : State E} {log : EventLog Event} {gid : B256} {p : Address}
    {c : CollectingConfirmations E} {n : ℕ+} (hd : log.data = .keyGenConfirmed gid p)
    (h : completedRound s gid p = some (c, n)) :
    bound (T.applyTransition s (.event log)).1.rollover = n := by
  have hcount : asU16 (insert p c.confirmations).card = c.group.count := by
    obtain ⟨hr, hn, hg⟩ := completedRound_rollover h
    simp only [completedRound, hr, hn, hg, true_and] at h
    split at h
    · assumption
    · exact absurd h (by simp)
  obtain ⟨hr, hn, hg⟩ := completedRound_rollover h
  simp only [applyTransition, applyEvent, hd, handleKeyGenConfirmed, hr, hg, if_true, hcount, hn,
    ne_eq, not_true_eq_false, if_false, proposeRollover, bound]

/-- A rollover proposal finds no session under its message: it would be a session of an earlier
proposal, whose epoch is smaller, or of another packet altogether. -/
theorem rolloverVacant_of_indexed {past : List (Msg E)} {s : State E} {msg : Msg E}
    (h : T.Indexed past s)
    (hcol : ∀ (m : B256) (x x' : SigningState E), s.signing[m]? = some x →
      (T.applyTransition s msg).1.signing[m]? = some x' →
      T.packetHash x.packet = T.packetHash x'.packet → signed x.packet = signed x'.packet) :
    T.RolloverVacant s msg := by
  rintro log gid p c n rfl hd hc he
  obtain ⟨entry, he⟩ := Option.isSome_iff_exists.mp he
  rcases hx : s.signing[(T.completedPacket s c n).2]? with _ | x
  · rfl
  · exfalso
    set m := (T.completedPacket s c n).2 with hm
    have hx' : (T.applyTransition s (.event log)).1.signing[m]? = some (.waitingForRequest
        (T.rolloverSession log.block entry (T.completedPacket s c n).1 p)) := by
      rw [signing_applyTransition]
      simp only [sessionAfter, hd, afterConfirmed, hc, he]
      exact if_pos rfl
    have hsigned := hcol m x _ hx hx' (by rw [h.hashed m x hx]; exact hm)
    obtain ⟨hr, hn, -⟩ := completedRound_rollover hc
    have hbound : bound s.rollover = n - 1 := by rw [hr, bound, hn, EpochId.rawValue]
    -- the session that is there would propose epoch `n` already
    rcases hp : x.packet with ⟨a, q, b, g, k⟩ | ⟨e, o, d, tx⟩
    · have hle := h.proposed m x hx a q b g k hp
      rw [hp] at hsigned
      simp only [SigningState.packet, rolloverSession, completedPacket, rolloverPacket, signed,
        Packet.epochRollover.injEq] at hsigned
      rw [hsigned.2.1] at hle
      have := n.pos
      omega
    · rw [hp] at hsigned
      simp [SigningState.packet, rolloverSession, completedPacket, rolloverPacket, signed] at hsigned

theorem indexed_step {past : List (Msg E)} {s : State E} {msg : Msg E} (h : T.Indexed past s)
    (hnew : ∀ log gid m sid q, msg = .event log → log.data = .sign gid m sid q →
      sid ∉ Coordinator.sids (events past))
    (hcol : ∀ (m : B256) (x x' : SigningState E), s.signing[m]? = some x →
      (T.applyTransition s msg).1.signing[m]? = some x' →
      T.packetHash x.packet = T.packetHash x'.packet → signed x.packet = signed x'.packet) :
    T.Indexed (past ++ [msg]) (T.applyTransition s msg).1 where
  index := by
    refine T.applyTransition_indexConsistent h.index ?_ (T.rolloverVacant_of_indexed h hcol)
    intro log gid m sid q hm hd
    by_contra hne
    obtain ⟨m', hm'⟩ := Option.ne_none_iff_exists'.mp hne
    exact hnew log gid m sid q hm hd
      (h.issued m' sid (sessionId_eq_some.mpr ((h.index sid m').mp hm')))
  issued := by
    intro m sid hs
    rw [events_append, Coordinator.sids_append]
    rcases T.sessionId_origin hs with hs | ⟨log, gid, q, rfl, hd⟩
    · exact List.mem_append_left _ (h.issued m sid hs)
    · refine List.mem_append_right _ ?_
      simp [events, Coordinator.sids, hd]
  hashed := by
    intro m x' hx'
    rcases T.session_origin hx' with ⟨x, hx, hp⟩ | hopen
    · rw [hp, h.hashed m x hx]
    · exact hopen.hashed
  proposed := by
    intro m x' hx' a p b g k hp'
    rcases T.session_origin hx' with ⟨x, hx, hp⟩ | hopen
    · exact (h.proposed m x hx a p b g k (hp ▸ hp')).trans (bound_applyTransition s msg)
    · cases hopen with
      | proposal => simp [SigningState.packet, proposedSession] at hp'
      | rollover hd hc he hm =>
        rw [T.completedRound_bound hd hc]
        simp only [SigningState.packet, rolloverSession, completedPacket, rolloverPacket,
          Packet.epochRollover.injEq] at hp'
        rw [hp'.2.1]

theorem indexed_stateAfter (ms : List (Msg E)) (hnodup : (Coordinator.sids (events ms)).Nodup)
    (hcol : T.CollisionFree ms) : T.Indexed ms (T.stateAfter ms) := by
  induction ms using List.reverseRecOn with
  | nil => exact T.indexed_default
  | append_singleton ms msg ih =>
    rw [events_append, Coordinator.sids_append] at hnodup
    have hcol' : T.CollisionFree ms := by
      have hmono : ∀ p, T.Tracks ms p → T.Tracks (ms ++ [msg]) p := by
        rintro p ⟨past, rest, m, x, rfl, hx⟩
        exact ⟨past, rest ++ [msg], m, x, by rw [List.append_assoc], hx⟩
      exact fun p q hp hq => hcol p q (hmono p hp) (hmono q hq)
    rw [stateAfter_concat]
    refine T.indexed_step (ih hnodup.of_append_left hcol') ?_ ?_
    · rintro log gid m sid q rfl hd hmem
      exact (List.disjoint_of_nodup_append hnodup) hmem
        (by simp [events, Coordinator.sids, hd])
    · intro m x x' hx hx'
      refine hcol _ _ ⟨ms, [msg], m, x, rfl, hx, rfl⟩ ⟨ms ++ [msg], [], m, x', ?_, ?_, rfl⟩
      · rw [List.append_nil]
      · rw [stateAfter_concat]
        exact hx'

/-- **The index is consistent in every reachable state**: after any sequence of blocks, logs and
resumes whose `Sign` logs the coordinator can have emitted. -/
theorem indexConsistent_stateAfter (L : ContractLibraries)
    (calls : List (Address × Coordinator.Call)) (ms : List (Msg E))
    (hsign : (signLogs ms).Sublist (Coordinator.execAll L Coordinator.initial calls).2)
    (hcol : T.CollisionFree ms) : IndexConsistent (T.stateAfter ms) := by
  refine (T.indexed_stateAfter ms ?_ hcol).index
  rw [← sids_signLogs]
  exact (Coordinator.sids_nodup L calls).sublist (hsign.filterMap _)

open Toy in
/-- A proposed transaction whose request was mined: the index has its one entry. -/
theorem indexConsistent_stateAfter_request :
    IndexConsistent ((validator 1).stateAfter requestedRun) :=
  (validator 1).indexConsistent_stateAfter libraries
    (genesisCalls ++ [(5, .sign group.id message)]) _ (by decide +kernel)
    ((validator 1).collisionFree_of_tracked packet (by decide +kernel))

end Transition

end Safenet
